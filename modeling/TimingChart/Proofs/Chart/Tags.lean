import TimingChart.Chart.SvgReader

/-! # Markup that is read back

The reader finds the tag, the attributes and the content of an element on the lines that it was
written on. -/

namespace TimingChart

/-! ## Entities -/

namespace Markup

theorem isLower_of_mem_entity {c : Char} {name : List Char} (h : entity? c = some name) :
    ∀ a ∈ name, a.isLower := by
  unfold entity? at h
  split at h <;> cases h <;> decide

/-- Escaped text has characters of the text that need no entity, and those of entities. -/
theorem mem_escape {text : List Char} {c : Char} (hc : c ∈ escape text) :
    (c ∈ text ∧ entity? c = none) ∨ c = '&' ∨ c = ';' ∨ c.isLower := by
  obtain ⟨a, ha, hca⟩ := List.mem_flatMap.mp hc
  cases hname : entity? a with
  | none =>
      rw [hname] at hca
      obtain rfl := List.mem_singleton.mp hca
      exact .inl ⟨ha, hname⟩
  | some name =>
      rw [hname] at hca
      simp only [List.cons_append, List.mem_cons, List.mem_append, List.not_mem_nil,
        or_false] at hca
      rcases hca with hamp | hletter | hsemicolon
      · exact .inr (.inl hamp)
      · exact .inr (.inr (.inr (isLower_of_mem_entity hname c hletter)))
      · exact .inr (.inr (.inl hsemicolon))

theorem quote_not_mem_escape (text : List Char) : '"' ∉ escape text := by
  intro h
  rcases mem_escape h with ⟨-, hentity⟩ | h | h | h
  · cases hentity
  all_goals exact absurd h (by decide)

theorem less_not_mem_escape (text : List Char) : '<' ∉ escape text := by
  intro h
  rcases mem_escape h with ⟨-, hentity⟩ | h | h | h
  · cases hentity
  all_goals exact absurd h (by decide)

theorem newline_not_mem_escape {text : List Char} (htext : '\n' ∉ text) : '\n' ∉ escape text := by
  intro h
  rcases mem_escape h with ⟨hmem, -⟩ | h | h | h
  · exact htext hmem
  all_goals exact absurd h (by decide)

theorem escape_cons (c : Char) (text : List Char) :
    escape (c :: text) =
      (match entity? c with
        | some name => '&' :: name ++ [';']
        | none => [c]) ++ escape text := rfl

theorem unescape?_entity {c : Char} {name : List Char} (h : entity? c = some name)
    (rest : List Char) :
    unescape? ('&' :: name ++ [';'] ++ rest) = (unescape? rest).map (c :: ·) := by
  unfold entity? at h
  split at h <;> cases h <;> rfl

theorem unescape?_cons {c : Char} (hc : c ≠ '&') (rest : List Char) :
    unescape? (c :: rest) = (unescape? rest).map (c :: ·) := by
  rw [unescape?]
  all_goals
    intros
    contradiction

/-- Entities stand for the text that was escaped. -/
theorem unescape?_escape (text : List Char) : unescape? (escape text) = some text := by
  induction text with
  | nil => rfl
  | cons c text ih =>
      rw [escape_cons]
      split
      next name hname => rw [unescape?_entity hname, ih, Option.map_some]
      next hname =>
        have hc : c ≠ '&' := by
          intro heq
          subst heq
          cases hname
        rw [List.singleton_append, unescape?_cons hc, ih, Option.map_some]

end Markup

/-! ## Parts -/

namespace SvgReader

theorem splitAt_ne_nil (separator : Char) (text : List Char) : splitAt separator text ≠ [] := by
  induction text with
  | nil => simp [splitAt]
  | cons c text ih =>
      rw [splitAt]
      split
      · simp
      · cases hparts : splitAt separator text with
        | nil => exact absurd hparts ih
        | cons part parts => simp

theorem splitAt_append_cons (separator : Char) (text rest : List Char) :
    splitAt separator (text ++ separator :: rest) =
      splitAt separator text ++ splitAt separator rest := by
  induction text with
  | nil => simp [splitAt]
  | cons c text ih =>
      rw [List.cons_append, splitAt, splitAt, ih]
      split
      · rfl
      · cases hparts : splitAt separator text with
        | nil => exact absurd hparts (splitAt_ne_nil separator text)
        | cons part parts => rfl

theorem splitAt_of_not_mem {separator : Char} {text : List Char} (h : separator ∉ text) :
    splitAt separator text = [text] := by
  induction text with
  | nil => rfl
  | cons c text ih =>
      rw [List.mem_cons, not_or] at h
      rw [splitAt, if_neg (Ne.symm h.1), ih h.2]

theorem mem_of_mem_splitAt {separator c : Char} {text part : List Char}
    (hpart : part ∈ splitAt separator text) (hc : c ∈ part) : c ∈ text := by
  induction text generalizing part with
  | nil =>
      obtain rfl := List.mem_singleton.mp hpart
      exact hc
  | cons a text ih =>
      rw [splitAt] at hpart
      split at hpart
      · rcases List.mem_cons.mp hpart with rfl | hpart
        · cases hc
        · exact List.mem_cons_of_mem _ (ih hpart hc)
      · cases hparts : splitAt separator text with
        | nil => exact absurd hparts (splitAt_ne_nil separator text)
        | cons first parts =>
            rw [hparts] at hpart ih
            rcases List.mem_cons.mp hpart with rfl | hpart
            · rcases List.mem_cons.mp hc with rfl | hc
              · exact List.mem_cons_self
              · exact List.mem_cons_of_mem _ (ih List.mem_cons_self hc)
            · exact List.mem_cons_of_mem _ (ih (List.mem_cons_of_mem _ hpart) hc)

/-! ## Attributes -/

/-- Attributes as the reader finds them, with values still escaped. -/
def written (attributes : List (String × String)) : List (List Char × List Char) :=
  attributes.map fun a => (a.1.toList, Markup.escape a.2.toList)

/-- The characters of tags and of names of attributes: none of them ends a name. -/
def IsNameChar (c : Char) : Prop := c.isAlphanum ∨ c = '-'

instance (c : Char) : Decidable (IsNameChar c) :=
  inferInstanceAs (Decidable (c.isAlphanum ∨ c = '-'))

/-- The characters of all names. -/
def HasNames (attributes : List (String × String)) : Prop :=
  ∀ a ∈ attributes, ∀ c ∈ a.1.toList, IsNameChar c

theorem filter_name {name : List Char} (hname : ∀ c ∈ name, IsNameChar c) :
    name.filter (fun c => c ≠ ' ' && c ≠ '=') = name := by
  rw [List.filter_eq_self]
  intro c hc
  have hblank : c ≠ ' ' := by
    intro heq
    subst heq
    exact absurd (hname _ hc) (by decide)
  have hequals : c ≠ '=' := by
    intro heq
    subst heq
    exact absurd (hname _ hc) (by decide)
  simp [hblank, hequals]

theorem not_mem_name {name : List Char} (hname : ∀ c ∈ name, IsNameChar c) {c : Char}
    (hc : ¬ IsNameChar c) : c ∉ name :=
  fun hmem => hc (hname c hmem)

theorem pairs_attributesText {closing : List Char} (hclosing : '"' ∉ closing)
    {attributes : List (String × String)} (hnames : HasNames attributes) {before : List Char}
    (hquote : '"' ∉ before) (hblank : ' ' ∉ before) :
    pairs (splitAt '"' (before ++ (Markup.attributesText attributes ++ closing))) =
      written attributes := by
  induction attributes generalizing before with
  | nil =>
      have hmem : '"' ∉ before ++ ([] ++ closing) := by
        rw [List.nil_append, List.mem_append, not_or]
        exact ⟨hquote, hclosing⟩
      rw [show Markup.attributesText [] = [] from rfl, splitAt_of_not_mem hmem]
      rfl
  | cons a attributes ih =>
      obtain ⟨name, value⟩ := a
      obtain ⟨hname, hnames⟩ := List.forall_mem_cons.mp hnames
      have hrest := @ih hnames [] List.not_mem_nil List.not_mem_nil
      rw [List.nil_append] at hrest
      have hsplit : before ++ (Markup.attributesText ((name, value) :: attributes) ++ closing) =
          (before ++ ' ' :: name.toList ++ ['=']) ++ '"' ::
            (Markup.escape value.toList ++ '"' ::
              (Markup.attributesText attributes ++ closing)) := by
        simp [Markup.attributesText]
      have hfirst : '"' ∉ before ++ ' ' :: name.toList ++ ['='] := by
        simp [hquote, not_mem_name hname (by decide : ¬ IsNameChar '"')]
      rw [hsplit, splitAt_append_cons, splitAt_append_cons, splitAt_of_not_mem hfirst,
        splitAt_of_not_mem (Markup.quote_not_mem_escape _), List.singleton_append,
        List.singleton_append, pairs, hrest]
      have hdrop : (before ++ ' ' :: name.toList ++ ['=']).dropWhile (fun c => c ≠ ' ') =
          ' ' :: name.toList ++ ['='] := by
        rw [List.append_assoc, List.dropWhile_append_of_pos]
        · rfl
        · intro c hc
          have hne : c ≠ ' ' := by
            intro heq
            subst heq
            exact hblank hc
          simp [hne]
      rw [hdrop, List.cons_append, List.filter_cons_of_neg (by decide), List.filter_append,
        filter_name hname]
      simp [written]

/-- The tag on a line is the one that was written there, with all of its attributes. -/
theorem tag?_line {tag closing : List Char} {attributes : List (String × String)}
    (htag : ∀ c ∈ tag, IsNameChar c) (hne : attributes ≠ []) (hnames : HasNames attributes)
    (hclosing : '"' ∉ closing) :
    tag? ('<' :: tag ++ (Markup.attributesText attributes ++ closing)) =
      some ⟨tag, written attributes⟩ := by
  have hblank : ' ' ∉ '<' :: tag := by
    simp [not_mem_name htag (by decide : ¬ IsNameChar ' ')]
  have hquote : '"' ∉ '<' :: tag := by
    simp [not_mem_name htag (by decide : ¬ IsNameChar '"')]
  have hpairs := pairs_attributesText hclosing hnames hquote hblank
  have hname : (tag ++ (Markup.attributesText attributes ++ closing)).takeWhile
      (fun c => c ≠ ' ') = tag := by
    rw [List.takeWhile_append_of_pos]
    · cases attributes with
      | nil => exact absurd rfl hne
      | cons a attributes => simp [Markup.attributesText]
    · intro c hc
      have hne : c ≠ ' ' := by
        intro heq
        subst heq
        exact hblank (List.mem_cons_of_mem _ hc)
      simp [hne]
  rw [List.cons_append] at hpairs ⊢
  rw [tag?, hpairs, hname]

theorem lookup_written (attributes : List (String × String)) (name : String) :
    (written attributes).lookup name.toList =
      (attributes.lookup name).map fun value => Markup.escape value.toList := by
  induction attributes with
  | nil => rfl
  | cons a attributes ih =>
      obtain ⟨other, value⟩ := a
      rw [written] at ih ⊢
      rw [List.map_cons, List.lookup_cons, List.lookup_cons, ih]
      by_cases hname : name = other
      · simp [hname]
      · have htoList : name.toList ≠ other.toList := fun h => hname (String.toList_inj.mp h)
        simp [beq_eq_false_iff_ne.mpr hname, beq_eq_false_iff_ne.mpr htoList]

/-- The value of an attribute is the one that was written. -/
theorem text?_written (tag : List Char) (attributes : List (String × String)) (name : String) :
    Tag.text? ⟨tag, written attributes⟩ name = attributes.lookup name := by
  rw [Tag.text?, lookup_written]
  cases attributes.lookup name with
  | none => rfl
  | some value =>
      rw [Option.map_some, Option.bind_some, Markup.unescape?_escape, Option.map_some,
        String.ofList_toList]

end SvgReader

end TimingChart
