import TimingChart.Proofs.Run.Files

/-! # Names of charts

The last name of a path is found behind slashes and dots that name no file. The chart of an input
is called after it, and stands right inside the directory for charts, whatever path led to the
input. -/

namespace TimingChart

open Utf8 (encode)

namespace Path

/-! ## What counts for nothing -/

/-- A part between slashes that leads nowhere else. -/
def IsIdle (part : Bytes) : Prop := part = [] ∨ part = here

/-- A tail of slashes and of dots behind slashes. -/
inductive IsTrail : Bytes → Prop where
  | nil : IsTrail []
  | slash {rest : Bytes} (hrest : IsTrail rest) : IsTrail (slash :: rest)
  | here {rest : Bytes} (hrest : IsTrail rest) : IsTrail (Path.slash :: here ++ rest)

/-- A trail is a list of idle parts behind a name. -/
theorem IsTrail.exists_idle {trail : Bytes} (h : IsTrail trail) (name : Bytes)
    (hname : Path.slash ∉ name) :
    ∃ idle, splitSlashes (name ++ trail) = name :: idle ∧ ∀ part ∈ idle, IsIdle part := by
  induction h generalizing name with
  | nil => exact ⟨[], by rw [List.append_nil, splitSlashes_of_not_mem hname], by simp⟩
  | slash hrest ih =>
      obtain ⟨idle, hidle, hall⟩ := ih [] List.not_mem_nil
      rw [List.nil_append] at hidle
      refine ⟨[] :: idle, ?_, List.forall_mem_cons.mpr ⟨.inl rfl, hall⟩⟩
      rw [splitSlashes_append_slash, splitSlashes_of_not_mem hname, hidle, List.singleton_append]
  | here hrest ih =>
      obtain ⟨idle, hidle, hall⟩ := ih Path.here (by decide)
      refine ⟨Path.here :: idle, ?_, List.forall_mem_cons.mpr ⟨.inr rfl, hall⟩⟩
      rw [List.cons_append, splitSlashes_append_slash, splitSlashes_of_not_mem hname, hidle,
        List.singleton_append]

theorem isTrail_flatMap {idle : List Bytes} (h : ∀ part ∈ idle, IsIdle part) :
    IsTrail (idle.flatMap (slash :: ·)) := by
  induction idle with
  | nil => exact .nil
  | cons part idle ih =>
      obtain ⟨hpart, hidle⟩ := List.forall_mem_cons.mp h
      rw [List.flatMap_cons]
      rcases hpart with rfl | rfl
      · exact .slash (ih hidle)
      · exact .here (ih hidle)

/-! ## Paths from parts -/

theorem eq_of_splitSlashes {bytes : Bytes} {first : Bytes} {others : List Bytes}
    (h : splitSlashes bytes = first :: others) :
    bytes = first ++ others.flatMap (slash :: ·) := by
  induction bytes generalizing first others with
  | nil =>
      obtain ⟨rfl, rfl⟩ := List.cons.inj h
      rfl
  | cons b bytes ih =>
      obtain ⟨part, parts, hparts⟩ := List.exists_cons_of_ne_nil (splitSlashes_ne_nil bytes)
      by_cases hb : b = slash
      · rw [hb, splitSlashes_slash, hparts] at h
        obtain ⟨rfl, rfl⟩ := List.cons.inj h
        rw [List.flatMap_cons, ih hparts, hb]
        rfl
      · rw [splitSlashes_cons_of_ne hb hparts] at h
        obtain ⟨rfl, rfl⟩ := List.cons.inj h
        rw [ih hparts, List.cons_append]

/-! ## Last names -/

/-- A name that a directory can have for something in it. -/
structure IsName (name : Bytes) : Prop where
  slash_not_mem : slash ∉ name
  ne_nil : name ≠ []
  ne_here : name ≠ here
  ne_above : name ≠ above

/-- The path ends with a name, alone or in a directory, and maybe with a trail. -/
inductive EndsWith (p : Path) (name : Bytes) : Prop where
  | alone (trail : Bytes) (htrail : IsTrail trail) (hbytes : p.bytes = name ++ trail)
  | inside (directory trail : Bytes) (htrail : IsTrail trail)
      (hbytes : p.bytes = directory ++ slash :: (name ++ trail))

/-- The path has no names: it leads from the root or from the current directory to itself. -/
inductive IsNameless (p : Path) : Prop where
  | trail (htrail : IsTrail p.bytes)
  | here (trail : Bytes) (htrail : IsTrail trail) (hbytes : p.bytes = here ++ trail)

section Components

variable {p : Path}

theorem components_of_parts {first : Bytes} {others : List Bytes} (h : p.parts = first :: others) :
    p.components = (if first = [] then [] else [first]) ++
      others.filter fun part => part ≠ [] && part ≠ here := by
  rw [components, h]
  dsimp only
  by_cases hhere : first = here
  · rw [if_pos hhere, hhere]
    rfl
  · rw [if_neg hhere]
    by_cases hnil : first = []
    · rw [if_pos hnil, hnil]
      rfl
    · rw [if_neg hnil, List.filter_cons_of_pos (by simp [hnil, hhere])]
      rfl

theorem filter_idle {idle : List Bytes} (h : ∀ part ∈ idle, IsIdle part) :
    (idle.filter fun part => part ≠ [] && part ≠ here) = [] := by
  rw [List.filter_eq_nil_iff]
  intro part hpart
  rcases h part hpart with rfl | rfl
  · decide
  · decide

/-- Behind idle parts the last component is the last part that is not idle. -/
theorem getLast?_components (before : List Bytes) {idle : List Bytes} {name : Bytes}
    (h : p.parts = before ++ name :: idle) (hname : ¬ IsIdle name)
    (hidle : ∀ part ∈ idle, IsIdle part) : p.components.getLast? = some name := by
  rw [IsIdle, not_or] at hname
  have hlast : ∀ parts : List Bytes, ((parts ++ name :: idle).filter
      fun part => part ≠ [] && part ≠ here) =
        parts.filter (fun part => part ≠ [] && part ≠ here) ++ [name] := by
    intro parts
    rw [List.filter_append, List.filter_cons_of_pos (by simp [hname]), filter_idle hidle]
  cases before with
  | nil =>
      rw [components_of_parts h, filter_idle hidle, if_neg hname.1]
      rfl
  | cons first before =>
      rw [List.cons_append] at h
      rw [components_of_parts h, hlast, ← List.append_assoc, List.getLast?_concat]

theorem getLast?_components_of_isNameless (h : p.IsNameless) :
    p.components.getLast? = none ∨ p.components.getLast? = some here := by
  cases h with
  | trail htrail =>
      obtain ⟨idle, hidle, hall⟩ := htrail.exists_idle [] List.not_mem_nil
      left
      rw [List.nil_append] at hidle
      rw [components_of_parts hidle, filter_idle hall]
      rfl
  | here trail htrail hbytes =>
      obtain ⟨idle, hidle, hall⟩ := htrail.exists_idle here (by decide)
      right
      rw [← hbytes] at hidle
      rw [components_of_parts hidle, filter_idle hall]
      rfl

theorem EndsWith.getLast?_components {name : Bytes} (h : p.EndsWith name) (hslash : slash ∉ name)
    (hname : ¬ IsIdle name) : p.components.getLast? = some name := by
  cases h with
  | alone trail htrail hbytes =>
      obtain ⟨idle, hidle, hall⟩ := htrail.exists_idle name hslash
      rw [← hbytes] at hidle
      exact Path.getLast?_components [] hidle hname hall
  | inside directory trail htrail hbytes =>
      obtain ⟨idle, hidle, hall⟩ := htrail.exists_idle name hslash
      refine Path.getLast?_components (splitSlashes directory) ?_ hname hall
      rw [parts, hbytes, splitSlashes_append_slash, hidle]

end Components

/-- A list of parts is idle as a whole, or it has a last part that is not. -/
theorem exists_last_part (parts : List Bytes) :
    (∀ part ∈ parts, IsIdle part) ∨ ∃ before name idle, parts = before ++ name :: idle ∧
      ¬ IsIdle name ∧ ∀ part ∈ idle, IsIdle part := by
  induction parts with
  | nil => exact .inl (List.forall_mem_nil _)
  | cons part parts ih =>
      rcases ih with hall | ⟨before, name, idle, rfl, hname, hidle⟩
      · by_cases hpart : IsIdle part
        · exact .inl (List.forall_mem_cons.mpr ⟨hpart, hall⟩)
        · exact .inr ⟨[], part, parts, rfl, hpart, hall⟩
      · exact .inr ⟨part :: before, name, idle, rfl, hname, hidle⟩

theorem endsWith_of_parts {p : Path} {before idle : List Bytes} {name : Bytes}
    (h : p.parts = before ++ name :: idle) (hidle : ∀ part ∈ idle, IsIdle part) :
    p.EndsWith name := by
  cases before with
  | nil => exact .alone _ (isTrail_flatMap hidle) (eq_of_splitSlashes h)
  | cons first before =>
      have hbytes : p.bytes = first ++ (before ++ name :: idle).flatMap (slash :: ·) :=
        eq_of_splitSlashes h
      refine .inside (first ++ before.flatMap (slash :: ·)) _ (isTrail_flatMap hidle) ?_
      rw [hbytes, List.flatMap_append, List.flatMap_cons, List.append_assoc]
      rfl

/-- A path has no names, or goes up at its end, or ends with a name. -/
theorem forms (p : Path) :
    p.IsNameless ∨ p.EndsWith above ∨ ∃ name, IsName name ∧ p.EndsWith name := by
  rcases exists_last_part p.parts with hall | ⟨before, name, idle, hparts, hname, hidle⟩
  · obtain ⟨first, others, hparts⟩ := List.exists_cons_of_ne_nil (splitSlashes_ne_nil p.bytes)
    have hbytes := eq_of_splitSlashes hparts
    rw [parts, hparts] at hall
    obtain ⟨hfirst, hothers⟩ := List.forall_mem_cons.mp hall
    left
    rcases hfirst with rfl | rfl
    · exact .trail (hbytes ▸ isTrail_flatMap hothers)
    · exact .here _ (isTrail_flatMap hothers) hbytes
  · right
    have hends := endsWith_of_parts hparts hidle
    by_cases habove : name = above
    · rw [habove] at hends
      exact .inl hends
    · rw [IsIdle, not_or] at hname
      have hslash : slash ∉ name := slash_not_mem_of_mem_splitSlashes
        (show name ∈ p.parts by rw [hparts]; exact List.mem_append_right _ List.mem_cons_self)
      exact .inr ⟨name, ⟨hslash, hname.1, hname.2, habove⟩, hends⟩

theorem IsName.not_isIdle {name : Bytes} (h : IsName name) : ¬ IsIdle name := by
  rw [IsIdle, not_or]
  exact ⟨h.ne_nil, h.ne_here⟩

theorem EndsWith.fileName?_eq {p : Path} {name : Bytes} (h : p.EndsWith name)
    (hname : IsName name) : p.fileName? = some name := by
  rw [fileName?, h.getLast?_components hname.slash_not_mem hname.not_isIdle]
  simp [hname.ne_here, hname.ne_above]

theorem EndsWith.fileName?_eq_none {p : Path} (h : p.EndsWith above) : p.fileName? = none := by
  rw [fileName?, h.getLast?_components (by decide) (by rw [IsIdle]; decide)]
  rfl

theorem IsNameless.fileName?_eq_none {p : Path} (h : p.IsNameless) : p.fileName? = none := by
  rw [fileName?]
  rcases getLast?_components_of_isNameless h with hlast | hlast
  · rw [hlast]
  · rw [hlast]
    rfl

/-! ## Names in a directory -/

/-- A name in a directory is one more component. -/
theorem components_child (directory : Path) {name : Bytes} (h : IsName name) :
    (directory.child name).components = directory.components ++ [name] := by
  have hconcat : ∀ parts : List Bytes, (parts ++ [name]).filter
      (fun part => part ≠ [] && part ≠ here) =
        parts.filter (fun part => part ≠ [] && part ≠ here) ++ [name] := by
    intro parts
    rw [List.filter_append, List.filter_cons_of_pos (by simp [h.ne_nil, h.ne_here]),
      List.filter_nil]
  have hslash := splitSlashes_of_not_mem h.slash_not_mem
  rw [child]
  split
  next hempty =>
    have hnone : directory.parts = [] :: [] := by
      rw [parts, List.isEmpty_iff.mp hempty]
      rfl
    rw [components_of_parts hnone, components_of_parts hslash, if_neg h.ne_nil]
    rfl
  next =>
    split
    next hlast =>
      obtain ⟨before, hbefore⟩ := List.getLast?_eq_some_iff.mp hlast
      obtain ⟨first, others, hparts⟩ := List.exists_cons_of_ne_nil (splitSlashes_ne_nil before)
      have hdirectory : directory.parts = first :: (others ++ [[]]) := by
        rw [parts, hbefore, splitSlashes_append_slash, hparts]
        rfl
      have hchild : parts ⟨directory.bytes ++ name⟩ = first :: (others ++ [name]) := by
        rw [parts, hbefore, List.append_assoc, List.singleton_append, splitSlashes_append_slash,
          hparts, hslash]
        rfl
      rw [components_of_parts hdirectory, components_of_parts hchild, hconcat]
      simp
    next =>
      obtain ⟨first, others, hparts⟩ :=
        List.exists_cons_of_ne_nil (splitSlashes_ne_nil directory.bytes)
      have hchild : parts ⟨directory.bytes ++ slash :: name⟩ = first :: (others ++ [name]) := by
        rw [parts, splitSlashes_append_slash, hparts, hslash]
        rfl
      rw [components_of_parts hparts, components_of_parts hchild, hconcat, List.append_assoc]

theorem isAbsolute_child (directory : Path) {name : Bytes} (h : IsName name) :
    (directory.child name).isAbsolute = directory.isAbsolute := by
  rw [child]
  split
  next hempty =>
    rw [isAbsolute, isAbsolute, List.isEmpty_iff.mp hempty]
    have hhead : name.head? ≠ some slash := fun hslash =>
      h.slash_not_mem (List.mem_of_head? hslash)
    simp [hhead]
  next hempty =>
    obtain ⟨b, rest, hbytes⟩ := List.exists_cons_of_ne_nil (mt List.isEmpty_iff.mpr hempty)
    split
    · rw [isAbsolute, isAbsolute, hbytes]
      rfl
    · rw [isAbsolute, isAbsolute, hbytes]
      rfl

end Path

/-! ## Main result -/

/-- What the names of charts end with. -/
def chartEnding : Bytes := encode ".svg".toList

theorem chartName_isName (input : Path) : Path.IsName (chartName input) := by
  have hlength : 4 ≤ (chartName input).length := by
    rw [chartName, List.length_append, show (encode ".svg".toList).length = 4 by decide]
    exact Nat.le_add_left 4 _
  refine ⟨slash_not_mem_chartName input, ?_, ?_, ?_⟩
  · rintro heq
    rw [heq] at hlength
    exact absurd hlength (by decide)
  · rintro heq
    rw [heq] at hlength
    exact absurd hlength (by decide)
  · rintro heq
    rw [heq] at hlength
    exact absurd hlength (by decide)

/-- A chart is called after the last name on the way to its input, and never the same. It is always
right inside the directory that it is written to. An input without a last name is one that leads to
the root, to the current directory, or up. -/
theorem chartName_spec (input : Path) :
    Path.IsName (chartName input) ∧ chartEnding <:+ chartName input ∧
    (∀ directory : Path,
      (directory.child (chartName input)).components = directory.components ++ [chartName input] ∧
      (directory.child (chartName input)).isAbsolute = directory.isAbsolute) ∧
    (∀ name, Path.IsName name → input.EndsWith name →
      chartName input = name ++ chartEnding ∧ chartName input ≠ name) ∧
    ((∀ name, Path.IsName name → ¬ input.EndsWith name) →
      chartName input = encode "chart.svg".toList) ∧
    ((∀ name, Path.IsName name → ¬ input.EndsWith name) ↔
      input.IsNameless ∨ input.EndsWith Path.above) := by
  have hname := chartName_isName input
  have hnone : (∀ name, Path.IsName name → ¬ input.EndsWith name) →
      input.IsNameless ∨ input.EndsWith Path.above := by
    intro hnone
    rcases input.forms with hnameless | habove | ⟨name, hisName, hends⟩
    · exact .inl hnameless
    · exact .inr habove
    · exact absurd hends (hnone name hisName)
  have hfileName : input.IsNameless ∨ input.EndsWith Path.above → input.fileName? = none := by
    intro h
    exact h.elim Path.IsNameless.fileName?_eq_none Path.EndsWith.fileName?_eq_none
  refine ⟨hname, List.suffix_append _ _, fun directory => ⟨?_, ?_⟩, ?_, ?_, hnone, ?_⟩
  · exact directory.components_child hname
  · exact directory.isAbsolute_child hname
  · intro name hisName hends
    have hfile := hends.fileName?_eq hisName
    refine ⟨?_, chartName_ne hfile⟩
    rw [chartName, hfile]
    rfl
  · intro h
    rw [chartName, hfileName (hnone h)]
    rfl
  · intro h name hisName hends
    have hfile := hends.fileName?_eq hisName
    rw [hfileName h] at hfile
    contradiction

/-- A name behind a directory that goes up, before slashes and a dot; and a path that goes up. -/
theorem chartName_spec_upAndDown :
    chartName (.ofString "/a/../b//c.csv//./") = encode "c.csv.svg".toList ∧
      ((Path.ofString "plots/").child (chartName (.ofString "/a/../b//c.csv//./"))).components =
        ["plots", "c.csv.svg"].map (fun part => encode part.toList) ∧
      chartName (.ofString "a/../") = encode "chart.svg".toList := by
  have hname : Path.IsName (encode "c.csv".toList) := by constructor <;> decide
  have hends : Path.EndsWith (.ofString "/a/../b//c.csv//./") (encode "c.csv".toList) :=
    .inside (encode "/a/../b/".toList) (encode "//./".toList) (.slash (.here (.slash .nil)))
      (by decide)
  have habove : Path.EndsWith (.ofString "a/../") Path.above :=
    .inside (encode "a".toList) (encode "/".toList) (.slash .nil) (by decide)
  obtain ⟨-, -, hchild, hchart, -, -⟩ := chartName_spec (.ofString "/a/../b//c.csv//./")
  obtain ⟨-, -, -, -, hnone, hiff⟩ := chartName_spec (.ofString "a/../")
  have heq := (hchart _ hname hends).1
  refine ⟨heq, ?_, hnone (hiff.mpr (.inr habove))⟩
  rw [(hchild _).1, heq]
  decide

end TimingChart
