import TimingChart.Proofs.Files.Paths
import TimingChart.Proofs.Files.Walking

/-! # Changing a file system

A file is written at one location and nowhere else. Making directories puts new ones into gaps on
the way to the last of them, and whether that succeeds or not, it touches nothing that has been
there. -/

namespace TimingChart.FileSystem

variable {fs : FileSystem} {p : Path}

/-! ## New names -/

/-- Some parts of a path lead to a directory that can be entered and then to a name in it. -/
structure Names (fs : FileSystem) (p : Path) (parts : List Bytes) (directory : Location)
    (name : Bytes) : Prop where
  walks : fs.Walks (fs.origin p) parts.dropLast directory
  isDirectory : fs.entry? directory = some .directory
  isOpen : directory ∉ fs.closed
  getLast?_eq : parts.getLast? = some name
  isName : isName name
  length_le : name.length ≤ nameLimit

section Names

variable {parts : List Bytes} {directory : Location} {name : Bytes}

theorem Names.of_extends {before after : FileSystem} (hext : before.Extends after)
    (h : before.Names p parts directory name) : after.Names p parts directory name where
  walks := hext.origin_eq p ▸ h.walks.of_extends hext
  isDirectory := hext.directory _ h.isDirectory
  isOpen := hext.closed_eq ▸ h.isOpen
  getLast?_eq := h.getLast?_eq
  isName := h.isName
  length_le := h.length_le

theorem Names.walks_append (h : fs.Names p parts directory name)
    (hpresent : fs.entry? (directory ++ [name]) ≠ none) {rest : List Bytes} {last : Location}
    (hrest : fs.Walks (directory ++ [name]) rest last) :
    fs.Walks (fs.origin p) (parts ++ rest) last := by
  obtain ⟨before, rfl⟩ := List.getLast?_eq_some_iff.mp h.getLast?_eq
  have hwalks := h.walks
  rw [List.dropLast_concat] at hwalks
  rw [List.append_assoc]
  exact hwalks.append (.down h.isDirectory h.isOpen h.isName h.length_le hpresent hrest)

theorem findParent_eq_ok_iff :
    fs.findParent p parts = .ok directory ↔
      fs.Walks (fs.origin p) parts directory ∧ fs.entry? directory = some .directory ∧
        directory ∉ fs.closed := by
  simp only [walks_iff, findParent, bind_eq_ok_iff, mapError_eq_ok_iff]
  constructor
  · rintro ⟨l, hwalk, hentry⟩
    split at hentry
    · next hdirectory =>
      split at hentry
      · cases hentry
      · next hopen =>
        cases hentry
        exact ⟨hwalk, hdirectory, hopen⟩
    · cases hentry
    · cases hentry
  · rintro ⟨hwalk, hdirectory, hopen⟩
    refine ⟨directory, hwalk, ?_⟩
    rw [hdirectory]
    simp only [if_neg hopen]
    rfl

/-- The way to a new name, and what has to be checked of the name itself. -/
theorem exists_names_iff {new : Location → Bytes → Prop} :
    (∃ directory, fs.findParent p parts.dropLast = .ok directory ∧
      ¬ (!FileSystem.isName (parts.getLastD [])) = true ∧
      ¬ nameLimit < (parts.getLastD []).length ∧ new directory (parts.getLastD [])) ↔
    ∃ directory name, fs.Names p parts directory name ∧ new directory name := by
  constructor
  · rintro ⟨directory, hparent, hname, hlength, hnew⟩
    obtain ⟨hwalks, hdirectory, hopen⟩ := findParent_eq_ok_iff.mp hparent
    have hname : FileSystem.isName (parts.getLastD []) := by simpa using hname
    have hlast : parts.getLast? = some (parts.getLastD []) := by
      cases parts with
      | nil => cases hname
      | cons part parts => rw [List.getLastD_eq_getLast?, List.getLast?_cons, Option.getD_some]
    exact ⟨directory, _, ⟨hwalks, hdirectory, hopen, hlast, hname, Nat.not_lt.mp hlength⟩, hnew⟩
  · rintro ⟨directory, name, hnames, hnew⟩
    have hlast : parts.getLastD [] = name := by
      rw [List.getLastD_eq_getLast?, hnames.getLast?_eq, Option.getD_some]
    have hparent := findParent_eq_ok_iff.mpr ⟨hnames.walks, hnames.isDirectory, hnames.isOpen⟩
    rw [hlast]
    exact ⟨directory, hparent, by simp [hnames.isName], Nat.not_lt.mpr hnames.length_le, hnew⟩

end Names

/-! ## Writing a file -/

theorem write_eq_ok_iff {content : Bytes} {after : FileSystem} :
    fs.write p content = .ok after ↔
      check p = .ok () ∧ ∃ directory name, fs.Names p p.parts directory name ∧
        fs.entry? (directory ++ [name]) ≠ some .directory ∧ directory ++ [name] ∉ fs.closed ∧
        after = fs.put (directory ++ [name]) (.file content) := by
  rw [← exists_names_iff]
  simp only [write, bind_eq_ok_iff, ite_throw_eq_ok_iff]
  constructor
  · rintro ⟨⟨⟩, hcheck, directory, hparent, hname, hlength, hnew⟩
    refine ⟨hcheck, directory, hparent, hname, hlength, ?_⟩
    split at hnew
    · cases hnew
    · next hnone =>
      obtain ⟨hopen, hput⟩ := ite_throw_eq_ok_iff.mp hnew
      cases hput
      exact ⟨hnone, hopen, rfl⟩
  · rintro ⟨hcheck, directory, hparent, hname, hlength, hnone, hopen, rfl⟩
    refine ⟨(), hcheck, directory, hparent, hname, hlength, ?_⟩
    split
    · next hdirectory => exact absurd hdirectory hnone
    · exact ite_throw_eq_ok_iff.mpr ⟨hopen, rfl⟩

/-- A path leads to a file with this content at a location; nothing else differs from before. -/
structure Writes (before after : FileSystem) (p : Path) (content : Bytes) (l : Location) :
    Prop where
  to_extends : before.Extends after
  find_eq : after.find p = .ok l
  get_eq : after.get p = .ok (.file content)
  entry?_of_ne : ∀ l' ≠ l, after.entry? l' = before.entry? l'
  not_directory : before.entry? l ≠ some .directory
  getLast?_eq : l.getLast? = p.parts.getLast?
  isTree : before.IsTree → after.IsTree

theorem writes_of_write {content : Bytes} {after : FileSystem}
    (h : fs.write p content = .ok after) : ∃ l, fs.Writes after p content l := by
  obtain ⟨hcheck, directory, name, hnames, hnot, hopen, rfl⟩ := write_eq_ok_iff.mp h
  have hext := extends_put hnot (.file content)
  have hself := entry?_put_self fs (List.concat_ne_nil name directory) (.file content)
  have hwalks := (hnames.of_extends hext).walks_append (by simp [hself]) (.done _)
  rw [List.append_nil] at hwalks
  have hfind := find_eq_ok_iff.mpr ⟨hcheck, hwalks⟩
  exact ⟨directory ++ [name], {
    to_extends := hext
    find_eq := hfind
    get_eq := get_eq_ok_iff.mpr ⟨_, hfind, hopen, hself⟩
    entry?_of_ne := fun l' hl' => entry?_put_of_ne fs hl' _
    not_directory := hnot
    getLast?_eq := List.getLast?_concat.trans hnames.getLast?_eq.symm
    isTree := fun htree =>
      htree.put (by rw [List.dropLast_concat]; exact hnames.isDirectory) hnot _ }⟩

/-- Writing the same file once more changes nothing. -/
theorem write_again {content : Bytes} {after : FileSystem} (h : fs.write p content = .ok after) :
    ∃ again, after.write p content = .ok again ∧ ∀ l, again.entry? l = after.entry? l := by
  obtain ⟨hcheck, directory, name, hnames, hnot, hopen, rfl⟩ := write_eq_ok_iff.mp h
  have hne := List.concat_ne_nil name directory
  have hself := entry?_put_self fs hne (.file content)
  refine ⟨_, write_eq_ok_iff.mpr ⟨hcheck, directory, name,
    hnames.of_extends (extends_put hnot _), ?_, hopen, rfl⟩, fun l => ?_⟩
  · rw [hself]
    exact nofun
  · by_cases hl : l = directory ++ [name]
    · rw [hl, entry?_put_self _ hne, hself]
    · exact entry?_put_of_ne _ hl _

/-! ## Making a directory -/

/-- Slashes at the end do not belong to the name of a directory. -/
theorem makeDirectory_eq_ok_iff {made : FileSystem} :
    fs.makeDirectory p = .ok made ↔
      check p = .ok () ∧ ∃ directory name,
        fs.Names p p.innerParts directory name ∧
        fs.entry? (directory ++ [name]) = none ∧
        made = fs.put (directory ++ [name]) .directory := by
  rw [← exists_names_iff]
  simp only [makeDirectory, bind_eq_ok_iff, ite_throw_eq_ok_iff, Path.innerParts]
  constructor
  · rintro ⟨⟨⟩, hcheck, directory, hparent, hname, hlength, hnew⟩
    refine ⟨hcheck, directory, hparent, hname, hlength, ?_⟩
    split at hnew
    · cases hnew
    · next hnone =>
      cases hnew
      exact ⟨hnone, rfl⟩
  · rintro ⟨hcheck, directory, hparent, hname, hlength, hnone, rfl⟩
    refine ⟨(), hcheck, directory, hparent, hname, hlength, ?_⟩
    rw [hnone]
    rfl

/-- Nothing has changed but gaps on the way to some paths, which directories have filled. -/
structure MakesOnly (before after : FileSystem) (paths : List Path) : Prop where
  current_eq : after.current = before.current
  closed_eq : after.closed = before.closed
  entry? : ∀ l, after.entry? l = before.entry? l ∨
    before.entry? l = none ∧ after.entry? l = some .directory ∧ ∃ p ∈ paths, after.find p = .ok l

namespace MakesOnly

variable {before between after : FileSystem} {paths : List Path}

theorem refl (fs : FileSystem) (paths : List Path) : fs.MakesOnly fs paths :=
  ⟨rfl, rfl, fun _ => .inl rfl⟩

theorem to_extends (h : before.MakesOnly after paths) : before.Extends after := by
  refine ⟨h.current_eq, h.closed_eq, ?_, ?_⟩
  · intro l hsome
    rcases h.entry? l with heq | ⟨-, hmade, -⟩
    · rwa [heq]
    · simp [hmade]
  · intro l hdirectory
    rcases h.entry? l with heq | ⟨-, hmade, -⟩
    · rwa [heq]
    · exact hmade

theorem mono {paths' : List Path} (h : before.MakesOnly after paths)
    (hpaths : ∀ p ∈ paths, p ∈ paths') : before.MakesOnly after paths' := by
  refine ⟨h.current_eq, h.closed_eq, fun l => ?_⟩
  rcases h.entry? l with heq | ⟨hnone, hmade, p, hp, hfind⟩
  · exact .inl heq
  · exact .inr ⟨hnone, hmade, p, hpaths p hp, hfind⟩

theorem trans (h : before.MakesOnly between paths) (h' : between.MakesOnly after paths) :
    before.MakesOnly after paths := by
  refine ⟨h'.current_eq.trans h.current_eq, h'.closed_eq.trans h.closed_eq, fun l => ?_⟩
  rcases h'.entry? l with heq | ⟨hnone, hmade, p, hp, hfind⟩
  · rw [heq]
    rcases h.entry? l with heq | ⟨hnone, hmade, p, hp, hfind⟩
    · exact .inl heq
    · exact .inr ⟨hnone, hmade, p, hp, h'.to_extends.find_eq hfind⟩
  · rcases h.entry? l with heq | ⟨-, hbetween, -⟩
    · exact .inr ⟨heq ▸ hnone, hmade, p, hp, hfind⟩
    · rw [hbetween] at hnone
      cases hnone

end MakesOnly

theorem makeDirectory_spec {made : FileSystem} (h : fs.makeDirectory p = .ok made) :
    fs.MakesOnly made [p] ∧ made.isDirectory p ∧ (fs.IsTree → made.IsTree) := by
  obtain ⟨hcheck, directory, name, hnames, hnone, rfl⟩ := makeDirectory_eq_ok_iff.mp h
  have hne : directory ++ [name] ≠ [] := List.concat_ne_nil _ _
  have hnot : fs.entry? (directory ++ [name]) ≠ some .directory := by
    rw [hnone]
    exact nofun
  have hext := extends_put hnot .directory
  have hself := entry?_put_self fs hne .directory
  have hfind : (fs.put (directory ++ [name]) .directory).find p = .ok (directory ++ [name]) := by
    obtain ⟨slashes, hslashes, hparts⟩ := p.exists_slashes
    have hwalks := (hnames.of_extends hext).walks_append (by simp [hself])
      (.of_forall_eq_nil hself hslashes)
    rw [← hparts] at hwalks
    exact find_eq_ok_iff.mpr ⟨hcheck, hwalks⟩
  refine ⟨⟨rfl, rfl, fun l => ?_⟩, isDirectory_iff.mpr ⟨_, hfind, hself⟩, fun htree => ?_⟩
  · by_cases hl : l = directory ++ [name]
    · exact .inr ⟨hl ▸ hnone, hl ▸ hself, p, List.mem_singleton_self p, hl ▸ hfind⟩
    · exact .inl (entry?_put_of_ne fs hl .directory)
  · exact htree.put (by rw [List.dropLast_concat]; exact hnames.isDirectory) hnot .directory

/-! ## Making all directories on the way -/

/-- What comes of making the first of some paths a directory, after the others. -/
structure Change.Makes (change : Change) (fs : FileSystem) (paths : List Path) : Prop where
  makesOnly : fs.MakesOnly change.files paths
  isTree : fs.IsTree → change.files.IsTree
  isDirectory : change.fault = none →
    ∀ p ∈ paths.head?, p.isEmpty ∨ change.files.isDirectory p

namespace Change.Makes

variable {before : FileSystem} {outer : List Path}

theorem of_isEmpty (hp : p.isEmpty) : Makes ⟨fs, none⟩ fs (p :: outer) :=
  ⟨.refl fs _, id, fun _ _ h => .inl (Option.some.inj h ▸ hp)⟩

theorem of_makeDirectory (hbefore : before.MakesOnly fs outer) (htree : before.IsTree → fs.IsTree)
    {made : FileSystem} (h : fs.makeDirectory p = .ok made) :
    Makes ⟨made, none⟩ before (p :: outer) := by
  obtain ⟨hmakes, hdirectory, hmade⟩ := makeDirectory_spec h
  have hbefore : before.MakesOnly fs (p :: outer) :=
    hbefore.mono fun q hq => List.mem_cons_of_mem p hq
  have hmakes : fs.MakesOnly made (p :: outer) := hmakes.mono (by simp)
  exact ⟨hbefore.trans hmakes, hmade ∘ htree, fun _ _ h => .inr (Option.some.inj h ▸ hdirectory)⟩

theorem orPresent (hbefore : before.MakesOnly fs outer) (htree : before.IsTree → fs.IsTree)
    (fault : IoFault) : (fs.orPresent p fault).Makes before (p :: outer) := by
  refine ⟨hbefore.mono fun q hq => List.mem_cons_of_mem p hq, htree, fun hnone q hq => .inr ?_⟩
  cases Option.some.inj hq
  rw [FileSystem.orPresent] at hnone
  split at hnone
  · assumption
  · cases hnone

end Change.Makes

/-- Directories are made from the outermost missing one inwards, and when all went well, the first
of the paths leads to one. -/
theorem makes_makeInside (fs : FileSystem) (paths : List Path) :
    (fs.makeInside paths).Makes fs paths := by
  fun_induction fs.makeInside paths with
  | case1 => exact ⟨.refl fs [], id, nofun⟩
  | case2 p outer hempty => exact .of_isEmpty hempty
  | case3 p outer _ made hmade => exact .of_makeDirectory (.refl fs outer) id hmade
  | case4 p outer _ change hfault _ ih =>
      -- what could be made of the outer directories stays
      refine ⟨ih.makesOnly.mono fun q hq => List.mem_cons_of_mem p hq, ih.isTree, fun hnone => ?_⟩
      rw [hnone] at hfault
      cases hfault
  | case5 p outer _ change _ made hmade _ ih => exact .of_makeDirectory ih.makesOnly ih.isTree hmade
  | case6 p outer _ change _ fault _ _ ih => exact .orPresent ih.makesOnly ih.isTree fault
  | case7 p outer _ fault _ _ => exact .orPresent (.refl fs outer) id fault

theorem makes_makeDirectories {change : Change} (h : fs.makeDirectories p = change) :
    change.Makes fs p.ancestors := h ▸ makes_makeInside fs p.ancestors

/-! ## Directories that are there already -/

/-- Only the way to the new directory can be missing. -/
theorem findParent_of_makeDirectory (h : fs.makeDirectory p = .error (.os .notFound))
    (hcheck : check p = .ok ()) :
    fs.findParent p p.innerParts.dropLast =
      .error (.os .notFound) := by
  simp only [makeDirectory, bind_eq_error_iff, ite_throw_eq_error_iff, hcheck] at h
  obtain h | ⟨-, -, h | ⟨directory, -, h⟩⟩ := h
  · cases h
  · exact h
  · obtain ⟨-, h⟩ | ⟨-, ⟨-, h⟩ | ⟨-, h⟩⟩ := h
    · exact absurd h (by decide)
    · exact absurd h (by decide)
    · split at h
      · exact absurd (Except.error.inj h) (by decide)
      · cases h

theorem findParent_of_walks {parts rest : List Bytes} {last : Location}
    (h : fs.Walks (fs.origin p) (parts ++ rest) last) (hrest : rest ≠ []) :
    fs.findParent p parts ≠ .error (.os .notFound) := by
  obtain ⟨middle, hmiddle, hlast⟩ := h.exists_middle
  have hdirectory := hlast.entry?_eq hrest
  by_cases hclosed : middle ∈ fs.closed
  · intro hparent
    simp only [findParent, hmiddle.execution, bind_eq_error_iff, mapError_eq_error_iff] at hparent
    obtain ⟨_, ⟨⟩, -⟩ | ⟨_, hmiddle', hparent⟩ := hparent
    cases hmiddle'
    simp only [hdirectory, if_pos hclosed] at hparent
    exact absurd (Except.error.inj hparent) (by decide)
  · rw [findParent_eq_ok_iff.mpr ⟨hmiddle, hdirectory, hclosed⟩]
    exact nofun

theorem Walks.present_of_isName {l last : Location} {name : Bytes} {rest : List Bytes}
    (h : fs.Walks l (name :: rest) last) (hname : isName name) :
    fs.entry? (l ++ [name]) ≠ none := by
  cases h with
  | down _ _ _ _ hpresent => exact hpresent
  | skip | stay | up => exact absurd hname (by decide)

/-- What is there is not made again, and the answer does not ask for a directory outside it. -/
theorem makeDirectory_of_isDirectory (h : fs.isDirectory p) :
    ∃ fault, fs.makeDirectory p = .error fault ∧ fault ≠ .os .notFound := by
  obtain ⟨l, hfind, -⟩ := isDirectory_iff.mp h
  obtain ⟨hcheck, hwalks⟩ := find_eq_ok_iff.mp hfind
  obtain ⟨slashes, -, hparts⟩ := p.exists_slashes
  cases hmade : fs.makeDirectory p with
  | ok made =>
      obtain ⟨-, directory, name, hnames, hnone, -⟩ := makeDirectory_eq_ok_iff.mp hmade
      obtain ⟨before, hbefore⟩ := List.getLast?_eq_some_iff.mp hnames.getLast?_eq
      have hparent := hnames.walks
      rw [hbefore, List.dropLast_concat] at hparent
      rw [hparts, hbefore, List.append_assoc] at hwalks
      obtain ⟨middle, hmiddle, hrest⟩ := hwalks.exists_middle
      cases hmiddle.unique hparent
      exact absurd hnone (hrest.present_of_isName hnames.isName)
  | error fault =>
      refine ⟨fault, rfl, ?_⟩
      rintro rfl
      -- the walk to the directory passes the place where the new one would be put
      have hparent := findParent_of_makeDirectory hmade hcheck
      rcases List.eq_nil_or_concat p.innerParts with
        hnil | ⟨before, name, hbefore⟩
      · rw [hnil] at hparts hparent
        exact findParent_of_walks hwalks (Path.splitSlashes_ne_nil _) hparent
      · rw [List.concat_eq_append] at hbefore
        rw [hbefore] at hparts
        rw [hbefore, List.dropLast_concat] at hparent
        rw [hparts, List.append_assoc] at hwalks
        exact findParent_of_walks hwalks (List.cons_ne_nil _ _) hparent

/-- The directory can be given by any path that leads to one, and the empty path needs none. -/
theorem makeDirectories_of_isDirectory (h : p.isEmpty ∨ fs.isDirectory p) :
    fs.makeDirectories p = ⟨fs, none⟩ := by
  rw [makeDirectories, Path.ancestors, makeInside]
  split
  · rfl
  · next hempty =>
    have hdirectory := h.resolve_left hempty
    obtain ⟨fault, hmake, hne⟩ := makeDirectory_of_isDirectory hdirectory
    rw [hmake]
    simp only [if_neg hne, orPresent, if_pos hdirectory]

/-! ## Setting up -/

theorem entry?_blank (current l : Location) :
    entry? (blank current) l =
      if l = [] ∨ ∃ n < current.length, current.take (n + 1) = l then some .directory
      else none := by
  have hlookup : ∀ locations : List Location,
      (locations.map fun l => (l, Entry.directory)).lookup l =
        if l ∈ locations then some .directory else none := by
    intro locations
    induction locations with
    | nil => rfl
    | cons first rest ih =>
        by_cases hl : l = first
        · simp [hl]
        · have hbeq : (l == first) = false := by simpa using hl
          simp [List.lookup_cons, hbeq, ih, hl]
  have hentries : (blank current).entries =
      ((List.range current.length).map fun n => current.take (n + 1)).map
        fun l => (l, Entry.directory) := by
    rw [List.map_map]
    rfl
  by_cases hl : l = []
  · simp [hl]
  · unfold entry?
    rw [if_neg hl, hentries, hlookup]
    simp [hl]

theorem isTree_blank (current : Location) : (blank current).IsTree := by
  intro l hl hsome
  rw [entry?_blank] at hsome ⊢
  split at hsome
  · next h =>
    obtain ⟨n, hn, rfl⟩ := h.resolve_left hl
    rw [List.take_succ_eq_append_getElem hn, List.dropLast_concat]
    cases n with
    | zero => rfl
    | succ n => exact if_pos (.inr ⟨n, by omega, rfl⟩)
  · exact absurd rfl hsome

namespace Tree

/-- A tree with nothing but the way to the current directory. -/
def blank (current : Location) : Tree := ⟨FileSystem.blank current, isTree_blank current⟩

theorem isTree_withDirectory (tree : Tree) (p : Path) : (tree.withDirectory p).IsTree :=
  (makes_makeDirectories rfl).isTree tree.isTree

theorem isTree_withFile (tree : Tree) (p : Path) (content : Bytes) :
    (tree.withFile p content).IsTree := by
  have hwrite : ∀ {fs : FileSystem}, fs.IsTree →
      ((fs.write p content).toOption.getD fs).IsTree := by
    intro fs h
    cases hwrite : fs.write p content with
    | error => exact h
    | ok after =>
        obtain ⟨l, hwrites⟩ := writes_of_write hwrite
        exact hwrites.isTree h
  rw [FileSystem.withFile]
  apply hwrite
  split
  · exact tree.isTree_withDirectory _
  · exact tree.isTree

/-- The tree with a file, unless there is no room for one at the path. -/
def withFile (tree : Tree) (p : Path) (content : Bytes) : Tree :=
  ⟨tree.toFileSystem.withFile p content, tree.isTree_withFile p content⟩

end Tree

end TimingChart.FileSystem
