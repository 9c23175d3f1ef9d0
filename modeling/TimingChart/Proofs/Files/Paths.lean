import Mathlib.Data.List.TakeWhile
import TimingChart.Files.Path

/-! # Names in paths

The last part of a path decides what the path names: a name that is put behind a directory stays the
last part, and a last part that is a name is the file name of the path. -/

namespace TimingChart.Path

/-! ## Slashes -/

theorem splitSlashes_ne_nil (bytes : Bytes) : splitSlashes bytes ≠ [] := by
  cases bytes with
  | nil => simp [splitSlashes]
  | cons b rest =>
      rw [splitSlashes]
      split
      · exact List.cons_ne_nil _ _
      · split <;> exact List.cons_ne_nil _ _

theorem splitSlashes_slash (rest : Bytes) :
    splitSlashes (slash :: rest) = [] :: splitSlashes rest := by
  rw [splitSlashes, if_pos rfl]

theorem splitSlashes_cons_of_ne {b : UInt8} (hb : b ≠ slash) {rest : Bytes} {part : Bytes}
    {parts : List Bytes} (hrest : splitSlashes rest = part :: parts) :
    splitSlashes (b :: rest) = (b :: part) :: parts := by
  rw [splitSlashes, if_neg hb, hrest]

/-- A slash separates the parts before it from those behind it. -/
theorem splitSlashes_append_slash (before behind : Bytes) :
    splitSlashes (before ++ slash :: behind) = splitSlashes before ++ splitSlashes behind := by
  induction before with
  | nil => exact splitSlashes_slash behind
  | cons b before ih =>
      rw [List.cons_append]
      by_cases hb : b = slash
      · rw [hb, splitSlashes_slash, splitSlashes_slash, ih, List.cons_append]
      · obtain ⟨part, parts, hparts⟩ := List.exists_cons_of_ne_nil (splitSlashes_ne_nil before)
        rw [hparts, List.cons_append] at ih
        rw [splitSlashes_cons_of_ne hb ih, splitSlashes_cons_of_ne hb hparts, List.cons_append]

theorem splitSlashes_of_not_mem {name : Bytes} (h : slash ∉ name) : splitSlashes name = [name] := by
  induction name with
  | nil => rfl
  | cons b name ih =>
      rw [List.mem_cons, not_or] at h
      exact splitSlashes_cons_of_ne (Ne.symm h.1) (ih h.2)

theorem slash_not_mem_of_mem_splitSlashes {bytes part : Bytes} (h : part ∈ splitSlashes bytes) :
    slash ∉ part := by
  induction bytes generalizing part with
  | nil =>
      rw [splitSlashes, List.mem_singleton] at h
      simp [h]
  | cons b rest ih =>
      by_cases hb : b = slash
      · rw [hb, splitSlashes_slash] at h
        rcases List.mem_cons.mp h with rfl | h
        · exact List.not_mem_nil
        · exact ih h
      · obtain ⟨first, parts, hparts⟩ := List.exists_cons_of_ne_nil (splitSlashes_ne_nil rest)
        rw [splitSlashes_cons_of_ne hb hparts] at h
        rcases List.mem_cons.mp h with rfl | h
        · have hfirst := ih (hparts ▸ List.mem_cons_self)
          simp [hfirst, Ne.symm hb]
        · exact ih (hparts ▸ List.mem_cons_of_mem _ h)

/-- The parts of a path without the slashes at its end. -/
def innerParts (p : Path) : List Bytes := (p.parts.reverse.dropWhile (· = [])).reverse

theorem exists_slashes (p : Path) :
    ∃ slashes : List Bytes, (∀ part ∈ slashes, part = []) ∧ p.parts = p.innerParts ++ slashes := by
  refine ⟨(p.parts.reverse.takeWhile (· = [])).reverse, ?_, ?_⟩
  · intro part hpart
    have hempty := List.mem_takeWhile_imp (List.mem_reverse.mp hpart)
    simpa using hempty
  · rw [innerParts, ← List.reverse_append, List.takeWhile_append_dropWhile, List.reverse_reverse]

/-! ## Last names -/

/-- A name in a directory is the last part of its path. -/
theorem getLast?_parts_child (directory : Path) {name : Bytes} (h : slash ∉ name) :
    (directory.child name).parts.getLast? = some name := by
  have hsplit : ∀ before : Bytes,
      (splitSlashes (before ++ slash :: name)).getLast? = some name := by
    intro before
    rw [splitSlashes_append_slash, splitSlashes_of_not_mem h, List.getLast?_concat]
  rw [child]
  split
  · rw [parts, splitSlashes_of_not_mem h, List.getLast?_singleton]
  · split
    · next hlast =>
      obtain ⟨before, hbefore⟩ := List.getLast?_eq_some_iff.mp hlast
      rw [parts, hbefore, List.append_assoc]
      exact hsplit before
    · exact hsplit directory.bytes

/-- A last part that is a name is the file name. -/
theorem fileName?_of_getLast? {p : Path} {name : Bytes} (h : p.parts.getLast? = some name)
    (hempty : name ≠ []) (hhere : name ≠ here) (habove : name ≠ above) :
    p.fileName? = some name := by
  have hfilter : ∀ parts : List Bytes, parts.getLast? = some name →
      (parts.filter fun part => part ≠ [] && part ≠ here).getLast? = some name := by
    intro parts hparts
    obtain ⟨before, rfl⟩ := List.getLast?_eq_some_iff.mp hparts
    simp [List.filter_append, hempty, hhere]
  have hcomponents : p.components.getLast? = some name := by
    rw [components]
    split
    · next first others hparts =>
      rw [hparts] at h
      split
      · next hfirst =>
        cases others with
        | nil => exact absurd ((Option.some.inj h).symm.trans hfirst) hhere
        | cons part others =>
            rw [List.getLast?_cons_cons] at h
            rw [List.getLast?_cons, hfilter _ h, Option.getD_some]
      · exact hfilter _ h
    · next hparts => exact absurd hparts (splitSlashes_ne_nil _)
  rw [fileName?, hcomponents]
  simp [hhere, habove]

theorem slash_not_mem_of_fileName? {p : Path} {name : Bytes} (h : p.fileName? = some name) :
    slash ∉ name := by
  have hmem : name ∈ p.components := by
    rw [fileName?] at h
    split at h
    · next last hlast =>
      split at h
      · cases h
      · cases h
        exact List.mem_of_getLast? hlast
    · cases h
  have hparts : name ∈ p.parts := by
    rw [components] at hmem
    split at hmem
    · next first others hparts =>
      rw [hparts]
      split at hmem
      · next hfirst =>
        rcases List.mem_cons.mp hmem with rfl | hmem
        · exact hfirst ▸ List.mem_cons_self
        · exact List.mem_cons_of_mem _ (List.mem_filter.mp hmem).1
      · exact (List.mem_filter.mp hmem).1
    · cases hmem
  exact slash_not_mem_of_mem_splitSlashes hparts

end TimingChart.Path
