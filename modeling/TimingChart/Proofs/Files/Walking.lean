import TimingChart.Files.FileSystem
import TimingChart.Proofs.Fallible

/-! # Walking through a file system

Files and directories that are added, and files that are changed, leave every walk that has been
possible as it was. -/

namespace TimingChart.FileSystem

/-! ## Entries -/

section Entries

variable (fs : FileSystem) {l l' : Location}

@[simp] theorem entry?_nil : fs.entry? [] = some .directory := if_pos rfl

theorem entry?_put_self (hl : l ≠ []) (e : Entry) : entry? (fs.put l e) l = some e := by
  simp [put, entry?, hl]

theorem entry?_put_of_ne (h : l' ≠ l) (e : Entry) : entry? (fs.put l e) l' = fs.entry? l' := by
  have hlookup : ∀ entries : List (Location × Entry),
      (entries.filter fun entry => entry.1 ≠ l).lookup l' = entries.lookup l' := by
    intro entries
    induction entries with
    | nil => rfl
    | cons first entries ih =>
        obtain ⟨other, e⟩ := first
        by_cases hother : other = l
        · have hbeq : (l' == other) = false := by simp [hother, h]
          rw [List.filter_cons_of_neg (by simp [hother]), ih, List.lookup_cons, hbeq]
        · rw [List.filter_cons_of_pos (by simpa using hother), List.lookup_cons, List.lookup_cons,
            ih]
  have hput : (fs.put l e).entries.lookup l' = fs.entries.lookup l' := by
    have hbeq : (l' == l) = false := by simpa using h
    rw [put, List.lookup_cons, hbeq]
    exact hlookup fs.entries
  unfold entry?
  rw [hput]

/-- Everything but the root lies in a directory. -/
def IsTree : Prop := ∀ l ≠ [], fs.entry? l ≠ none → fs.entry? l.dropLast = some .directory

variable {fs}

theorem IsTree.entry?_dropLast (htree : fs.IsTree) (h : fs.entry? l = some .directory) :
    fs.entry? l.dropLast = some .directory := by
  by_cases hl : l = []
  · rwa [hl] at h ⊢
  · exact htree l hl (by simp [h])

/-- Whatever is put into a directory, unless it takes the place of one. -/
theorem IsTree.put (htree : fs.IsTree) (hparent : fs.entry? l.dropLast = some .directory)
    (hl : fs.entry? l ≠ some .directory) (e : Entry) : (fs.put l e).IsTree := by
  have hne : l ≠ [] := by
    rintro rfl
    exact hl fs.entry?_nil
  have hdirectory : ∀ l', fs.entry? l' = some .directory →
      entry? (fs.put l e) l' = some .directory := by
    intro l' h
    have hne' : l' ≠ l := by
      rintro rfl
      exact hl h
    rw [entry?_put_of_ne fs hne', h]
  intro l' hl' hsome
  by_cases heq : l' = l
  · rw [heq]
    exact hdirectory _ hparent
  · rw [entry?_put_of_ne fs heq] at hsome
    exact hdirectory _ (htree l' hl' hsome)

end Entries

/-- A file system in which everything but the root lies in a directory. -/
structure Tree extends FileSystem where
  isTree : toFileSystem.IsTree

/-! ## Walks -/

/-- The ways through a file system. -/
inductive Walks (fs : FileSystem) : Location → List Bytes → Location → Prop where
  | done (l) : Walks fs l [] l
  | skip {l rest last} (hdirectory : fs.entry? l = some .directory) (hrest : Walks fs l rest last) :
      Walks fs l ([] :: rest) last
  | stay {l rest last} (hdirectory : fs.entry? l = some .directory) (hopen : l ∉ fs.closed)
      (hrest : Walks fs l rest last) : Walks fs l (Path.here :: rest) last
  | up {l rest last} (hdirectory : fs.entry? l = some .directory) (hopen : l ∉ fs.closed)
      (hrest : Walks fs l.dropLast rest last) : Walks fs l (Path.above :: rest) last
  | down {l name rest last} (hdirectory : fs.entry? l = some .directory) (hopen : l ∉ fs.closed)
      (hname : isName name) (hlength : name.length ≤ nameLimit)
      (hpresent : fs.entry? (l ++ [name]) ≠ none) (hrest : Walks fs (l ++ [name]) rest last) :
      Walks fs l (name :: rest) last

variable {fs : FileSystem}

theorem isName_iff {part : Bytes} :
    isName part ↔ part ≠ [] ∧ part ≠ Path.here ∧ part ≠ Path.above := by
  simp [isName, and_assoc]

/-- What follows a way is walked from its end on. -/
theorem Walks.walk_append {l last : Location} {parts : List Bytes} (h : fs.Walks l parts last)
    (rest : List Bytes) : fs.walk l (parts ++ rest) = fs.walk last rest := by
  induction h with
  | done => rfl
  | skip hdirectory _ ih =>
      rw [List.cons_append, walk, hdirectory]
      exact ih
  | stay hdirectory hopen _ ih =>
      rw [List.cons_append, walk, hdirectory]
      simp only [if_neg hopen]
      exact ih
  | up hdirectory hopen _ ih =>
      rw [List.cons_append, walk, hdirectory]
      simp only [if_neg hopen]
      exact ih
  | down hdirectory hopen hname hlength hpresent _ ih =>
      obtain ⟨hempty, hhere, habove⟩ := isName_iff.mp hname
      obtain ⟨e, he⟩ := Option.ne_none_iff_exists'.mp hpresent
      rw [List.cons_append, walk, hdirectory]
      simp only [if_neg hempty, if_neg hopen, if_neg hhere, if_neg habove,
        if_neg (Nat.not_lt.mpr hlength), he, ih]

theorem Walks.execution {l last : Location} {parts : List Bytes} (h : fs.Walks l parts last) :
    fs.walk l parts = .ok last := by
  have hwalk := h.walk_append []
  rwa [List.append_nil] at hwalk

theorem walks_of_walk {l last : Location} {parts : List Bytes}
    (h : fs.walk l parts = .ok last) : fs.Walks l parts last := by
  fun_induction fs.walk l parts with
  | case1 l =>
      cases h
      exact .done _
  | case4 l rest hdirectory ih => exact .skip hdirectory (ih h)
  | case6 l rest hdirectory hopen _ ih => exact .stay hdirectory hopen (ih h)
  | case7 l rest hdirectory hopen _ _ ih => exact .up hdirectory hopen (ih h)
  | case10 l name rest hdirectory hempty hopen hhere habove hlength e he ih =>
      have hname : isName name := isName_iff.mpr ⟨hempty, hhere, habove⟩
      exact .down hdirectory hopen hname (Nat.not_lt.mp hlength) (by simp [he]) (ih h)
  | case2 | case3 | case5 | case8 | case9 => cases h

theorem walks_iff {l last : Location} {parts : List Bytes} :
    fs.Walks l parts last ↔ fs.walk l parts = .ok last := ⟨Walks.execution, walks_of_walk⟩

theorem Walks.unique {l last last' : Location} {parts : List Bytes} (h : fs.Walks l parts last)
    (h' : fs.Walks l parts last') : last = last' :=
  Except.ok.inj (h.execution.symm.trans h'.execution)

theorem Walks.append {l middle last : Location} {parts rest : List Bytes}
    (h : fs.Walks l parts middle) (hrest : fs.Walks middle rest last) :
    fs.Walks l (parts ++ rest) last := by
  induction h with
  | done l => exact hrest
  | skip hdirectory _ ih => exact .skip hdirectory (ih hrest)
  | stay hdirectory hopen _ ih => exact .stay hdirectory hopen (ih hrest)
  | up hdirectory hopen _ ih => exact .up hdirectory hopen (ih hrest)
  | down hdirectory hopen hname hlength hpresent _ ih =>
      exact .down hdirectory hopen hname hlength hpresent (ih hrest)

theorem Walks.exists_middle {l last : Location} {parts rest : List Bytes}
    (h : fs.Walks l (parts ++ rest) last) :
    ∃ middle, fs.Walks l parts middle ∧ fs.Walks middle rest last := by
  induction parts generalizing l with
  | nil => exact ⟨l, .done l, h⟩
  | cons part parts ih =>
      cases h with
      | skip hdirectory hrest =>
          obtain ⟨middle, hparts, hrest⟩ := ih hrest
          exact ⟨middle, .skip hdirectory hparts, hrest⟩
      | stay hdirectory hopen hrest =>
          obtain ⟨middle, hparts, hrest⟩ := ih hrest
          exact ⟨middle, .stay hdirectory hopen hparts, hrest⟩
      | up hdirectory hopen hrest =>
          obtain ⟨middle, hparts, hrest⟩ := ih hrest
          exact ⟨middle, .up hdirectory hopen hparts, hrest⟩
      | down hdirectory hopen hname hlength hpresent hrest =>
          obtain ⟨middle, hparts, hrest⟩ := ih hrest
          exact ⟨middle, .down hdirectory hopen hname hlength hpresent hparts, hrest⟩

/-- Steps are taken from directories only. -/
theorem Walks.entry?_eq {l last : Location} {parts : List Bytes} (h : fs.Walks l parts last)
    (hparts : parts ≠ []) : fs.entry? l = some .directory := by
  cases h with
  | done => exact absurd rfl hparts
  | skip hdirectory | stay hdirectory | up hdirectory | down hdirectory => exact hdirectory

/-- Slashes behind a directory change nothing. -/
theorem Walks.of_forall_eq_nil {l : Location} (h : fs.entry? l = some .directory)
    {parts : List Bytes} (hparts : ∀ part ∈ parts, part = []) : fs.Walks l parts l := by
  induction parts with
  | nil => exact .done l
  | cons part parts ih =>
      obtain ⟨rfl, hrest⟩ := List.forall_mem_cons.mp hparts
      exact .skip h (ih hrest)

theorem Walks.ne_nil {l last : Location} {parts : List Bytes} (h : fs.Walks l parts last)
    (hne : fs.entry? l ≠ fs.entry? last) : parts ≠ [] := by
  rintro rfl
  cases h
  exact hne rfl

/-- A file is the last name on the way to it. -/
theorem Tree.getLast?_eq (tree : Tree) {l last : Location} {parts : List Bytes}
    (h : tree.Walks l parts last) (hparts : parts ≠ []) {content : Bytes}
    (hlast : tree.entry? last = some (.file content)) :
    ∃ name, parts.getLast? = some name ∧ isName name ∧ last.getLast? = some name := by
  have hcons : ∀ {part : Bytes} {rest : List Bytes}, rest ≠ [] →
      (part :: rest).getLast? = rest.getLast? := by
    intro part rest hrest
    obtain ⟨next, rest, rfl⟩ := List.exists_cons_of_ne_nil hrest
    exact List.getLast?_cons_cons
  -- only a name leads to a file; every other step ends in a directory, so that more must follow
  induction h with
  | done => exact absurd rfl hparts
  | skip hdirectory hrest ih | stay hdirectory _ hrest ih =>
      have hne := hrest.ne_nil (by simp [hdirectory, hlast])
      rw [hcons hne]
      exact ih hne hlast
  | up hdirectory _ hrest ih =>
      have hne := hrest.ne_nil (by simp [tree.isTree.entry?_dropLast hdirectory, hlast])
      rw [hcons hne]
      exact ih hne hlast
  | @down l name rest last _ _ hname _ _ hrest ih =>
      by_cases hne : rest = []
      · subst hne
        cases hrest
        exact ⟨name, rfl, hname, List.getLast?_concat⟩
      · rw [hcons hne]
        exact ih hne hlast

/-! ## Growth -/

/-- What has been there is still there, and directories are still directories. -/
structure Extends (before after : FileSystem) : Prop where
  current_eq : after.current = before.current
  closed_eq : after.closed = before.closed
  present : ∀ l, before.entry? l ≠ none → after.entry? l ≠ none
  directory : ∀ l, before.entry? l = some .directory → after.entry? l = some .directory

theorem Extends.refl (fs : FileSystem) : fs.Extends fs := ⟨rfl, rfl, fun _ h => h, fun _ h => h⟩

theorem Extends.trans {before between after : FileSystem} (h : before.Extends between)
    (h' : between.Extends after) : before.Extends after where
  current_eq := h'.current_eq.trans h.current_eq
  closed_eq := h'.closed_eq.trans h.closed_eq
  present l hl := h'.present l (h.present l hl)
  directory l hl := h'.directory l (h.directory l hl)

theorem extends_put {l : Location} (hl : fs.entry? l ≠ some .directory) (e : Entry) :
    fs.Extends (fs.put l e) := by
  have hne : l ≠ [] := by
    rintro rfl
    exact hl fs.entry?_nil
  refine ⟨rfl, rfl, ?_, ?_⟩
  · intro l' h
    by_cases heq : l' = l
    · simp [heq, entry?_put_self fs hne]
    · rwa [entry?_put_of_ne fs heq]
  · intro l' h
    have heq : l' ≠ l := by
      rintro rfl
      exact hl h
    rwa [entry?_put_of_ne fs heq]

variable {before after : FileSystem}

theorem Walks.of_extends (hext : before.Extends after) {l last : Location} {parts : List Bytes}
    (h : before.Walks l parts last) : after.Walks l parts last := by
  have hclosed : ∀ {l}, l ∉ before.closed → l ∉ after.closed := by
    intro l hl
    rwa [hext.closed_eq]
  induction h with
  | done l => exact .done l
  | skip hdirectory _ ih => exact .skip (hext.directory _ hdirectory) ih
  | stay hdirectory hopen _ ih => exact .stay (hext.directory _ hdirectory) (hclosed hopen) ih
  | up hdirectory hopen _ ih => exact .up (hext.directory _ hdirectory) (hclosed hopen) ih
  | down hdirectory hopen hname hlength hpresent _ ih =>
      exact .down (hext.directory _ hdirectory) (hclosed hopen) hname hlength
        (hext.present _ hpresent) ih

theorem Extends.origin_eq (hext : before.Extends after) (p : Path) :
    after.origin p = before.origin p := by
  rw [origin, origin, hext.current_eq]

/-! ## Finding -/

theorem find_eq_ok_iff {p : Path} {l : Location} :
    fs.find p = .ok l ↔ check p = .ok () ∧ fs.Walks (fs.origin p) p.parts l := by
  rw [walks_iff, find]
  simp only [bind_eq_ok_iff, mapError_eq_ok_iff]
  constructor
  · rintro ⟨⟨⟩, hcheck, hwalk⟩
    exact ⟨hcheck, hwalk⟩
  · rintro ⟨hcheck, hwalk⟩
    exact ⟨(), hcheck, hwalk⟩

theorem Extends.find_eq (hext : before.Extends after) {p : Path} {l : Location}
    (h : before.find p = .ok l) : after.find p = .ok l := by
  obtain ⟨hcheck, hwalks⟩ := find_eq_ok_iff.mp h
  rw [find_eq_ok_iff, hext.origin_eq]
  exact ⟨hcheck, hwalks.of_extends hext⟩

theorem isDirectory_iff {p : Path} :
    fs.isDirectory p ↔ ∃ l, fs.find p = .ok l ∧ fs.entry? l = some .directory := by
  rw [isDirectory]
  cases fs.find p <;> simp

theorem Extends.isDirectory (hext : before.Extends after) {p : Path} (h : before.isDirectory p) :
    after.isDirectory p := by
  obtain ⟨l, hfind, hl⟩ := isDirectory_iff.mp h
  exact isDirectory_iff.mpr ⟨l, hext.find_eq hfind, hext.directory l hl⟩

theorem get_eq_ok_iff {p : Path} {e : Entry} :
    fs.get p = .ok e ↔ ∃ l, fs.find p = .ok l ∧ l ∉ fs.closed ∧ fs.entry? l = some e := by
  simp only [get, bind_eq_ok_iff, ite_throw_eq_ok_iff]
  constructor
  · rintro ⟨l, hfind, hopen, hentry⟩
    split at hentry
    · next e' he =>
      cases hentry
      exact ⟨l, hfind, hopen, he⟩
    · cases hentry
  · rintro ⟨l, hfind, hopen, hentry⟩
    exact ⟨l, hfind, hopen, by rw [hentry]; rfl⟩

end TimingChart.FileSystem
