import Mathlib.Data.List.Induction
import Mathlib.Data.List.TakeWhile
import TimingChart.Bench.Load

/-! # Trimming and decoding

A field loses blank bytes before it is decoded and blank characters afterwards. No blank byte is
part of a longer character, so decoding alone decides what is text, and one trimming of the text
does the work of both. -/

namespace TimingChart

/-! ## Decoding at both ends -/

namespace Utf8

/-- Bytes below `0x80` are characters of their own and never continue one. -/
def State.Awaits : State → Prop
  | .ready => True
  | .within _ low _ _ => 0x80 ≤ low

theorem first_awaits (b : UInt8) : (first b).2.Awaits := by
  unfold first
  dsimp only
  split <;> try trivial
  split <;> try trivial
  split
  · exact Nat.le_refl _
  · split
    · simp only [State.Awaits]
      split <;> omega
    · split
      · simp only [State.Awaits]
        split <;> omega
      · trivial

theorem step_awaits {s : State} (b : UInt8) (hs : s.Awaits) : (step s b).2.Awaits := by
  cases s with
  | ready => exact first_awaits b
  | within missing low high value =>
      simp only [step]
      split
      · split
        · trivial
        · exact Nat.le_refl _
      · exact first_awaits b

theorem first_ascii {b : UInt8} (hb : b.toNat < 0x80) :
    first b = ([some (Char.ofNat b.toNat)], .ready) := by
  simp [first, hb]

/-- An ASCII byte is a character, whatever comes before it, and what is behind it is read anew. -/
theorem scan_append_ascii {b : UInt8} (hb : b.toNat < 0x80) (bytes rest : Bytes) :
    ∀ {s : State}, s.Awaits → scan s (bytes ++ b :: rest) =
      scan s bytes ++ some (Char.ofNat b.toNat) :: scan .ready rest := by
  induction bytes with
  | nil =>
      intro s hs
      cases s with
      | ready => simp [scan, step, first_ascii hb]
      | within missing low high value =>
          have hlow : ¬ (low ≤ b.toNat ∧ b.toNat ≤ high) := by
            simp only [State.Awaits] at hs
            omega
          simp [scan, step, hlow, first_ascii hb]
  | cons a bytes ih =>
      intro s hs
      have hstep := ih (step_awaits a hs)
      cases s <;> simp [scan, hstep]

theorem parts_append_ascii {b : UInt8} (hb : b.toNat < 0x80) (bytes rest : Bytes) :
    parts (bytes ++ b :: rest) = parts bytes ++ some (Char.ofNat b.toNat) :: parts rest :=
  scan_append_ascii hb bytes rest trivial

theorem parts_cons_ascii {b : UInt8} (hb : b.toNat < 0x80) (bytes : Bytes) :
    parts (b :: bytes) = some (Char.ofNat b.toNat) :: parts bytes :=
  parts_append_ascii hb [] bytes

theorem decode?_cons_ascii {b : UInt8} (hb : b.toNat < 0x80) (bytes : Bytes) :
    decode? (b :: bytes) = (decode? bytes).map (Char.ofNat b.toNat :: ·) := by
  simp only [decode?, parts_cons_ascii hb, List.mapM_cons]
  cases (parts bytes).mapM id <;> rfl

theorem decode?_append_ascii {b : UInt8} (hb : b.toNat < 0x80) (bytes : Bytes) :
    decode? (bytes ++ [b]) = (decode? bytes).map (· ++ [Char.ofNat b.toNat]) := by
  have h : parts (bytes ++ [b]) = parts bytes ++ [some (Char.ofNat b.toNat)] :=
    parts_append_ascii hb bytes []
  simp only [decode?, h, List.mapM_append]
  cases (parts bytes).mapM id <;> rfl

end Utf8

/-! ## Blanks at both ends -/

namespace Blank

theorem trimBy_cons {α : Type} {test : α → Bool} {a : α} (ha : test a) (items : List α) :
    trimBy test (a :: items) = trimBy test items := by
  simp [trimBy, List.dropWhile_cons_of_pos ha]

theorem trimBy_append {α : Type} {test : α → Bool} {a : α} (ha : test a) (items : List α) :
    trimBy test (items ++ [a]) = trimBy test items := by
  simp only [trimBy, List.dropWhile_append]
  cases h : items.dropWhile test with
  | nil => simp [List.dropWhile_cons_of_pos ha]
  | cons b rest => simp [List.dropWhile_cons_of_pos ha]

/-- Nothing is trimmed from items of which none passes the test. -/
theorem trimBy_of_forall {α : Type} {test : α → Bool} {items : List α}
    (h : ∀ a ∈ items, test a = false) : trimBy test items = items := by
  have hdrop : ∀ l : List α, (∀ a ∈ l, test a = false) → l.dropWhile test = l := by
    intro l hl
    cases l with
    | nil => rfl
    | cons a l => exact List.dropWhile_cons_of_neg (by simp [hl a])
  rw [trimBy, hdrop items h, hdrop items.reverse (by simpa using h), List.reverse_reverse]

/-- What is trimmed away passes the test. -/
theorem exists_trimBy {α : Type} (test : α → Bool) (items : List α) :
    ∃ front back, items = front ++ trimBy test items ++ back ∧
      (∀ a ∈ front, test a) ∧ ∀ a ∈ back, test a := by
  refine ⟨items.takeWhile test, ((items.dropWhile test).reverse.takeWhile test).reverse, ?_, ?_, ?_⟩
  · rw [trimBy, List.append_assoc, ← List.reverse_append, List.takeWhile_append_dropWhile,
      List.reverse_reverse, List.takeWhile_append_dropWhile]
  · exact fun a ha => List.mem_takeWhile_imp ha
  · exact fun a ha => List.mem_takeWhile_imp (List.mem_reverse.mp ha)

/-- Items that pass the test are trimmed away from both sides of anything. -/
theorem trimBy_append_append {α : Type} {test : α → Bool} {front back : List α}
    (hfront : ∀ a ∈ front, test a) (items : List α) (hback : ∀ a ∈ back, test a) :
    trimBy test (front ++ items ++ back) = trimBy test items := by
  induction front with
  | nil =>
      induction back using List.reverseRecOn with
      | nil => simp
      | append_singleton back b ih =>
          rw [← List.append_assoc, trimBy_append (hback b (by simp))]
          exact ih fun a ha => hback a (by simp [ha])
  | cons a front ih =>
      rw [List.cons_append, List.cons_append, trimBy_cons (hfront a List.mem_cons_self)]
      exact ih fun b hb => hfront b (List.mem_cons_of_mem a hb)

/-- A property that no item passing the test can change at either end survives trimming. -/
theorem trimBy_invariant {α β : Type} {test : α → Bool} (f : List α → β)
    (hcons : ∀ a items, test a → f (a :: items) = f items)
    (happend : ∀ a items, test a → f (items ++ [a]) = f items) (items : List α) :
    f (trimBy test items) = f items := by
  have hfront : ∀ l : List α, f (l.dropWhile test) = f l := by
    intro l
    induction l with
    | nil => rfl
    | cons a l ih =>
        by_cases ha : test a
        · rw [List.dropWhile_cons_of_pos ha, ih, hcons a l ha]
        · rw [List.dropWhile_cons_of_neg ha]
  have hback : ∀ l : List α, f (l.dropWhile test).reverse = f l.reverse := by
    intro l
    induction l with
    | nil => rfl
    | cons a l ih =>
        by_cases ha : test a
        · rw [List.dropWhile_cons_of_pos ha, ih, List.reverse_cons, happend a _ ha]
        · rw [List.dropWhile_cons_of_neg ha]
  rw [trimBy, hback, List.reverse_reverse, hfront]

theorem isBlankByte_ascii {b : UInt8} (hb : isBlankByte b) :
    b.toNat < 0x80 ∧ isBlank (Char.ofNat b.toNat) := by
  simp only [isBlankByte, Bool.or_eq_true, decide_eq_true_eq] at hb
  rcases hb with (((rfl | rfl) | rfl) | rfl) | rfl <;> decide

end Blank

/-! ## Fields -/

namespace Load

open Blank

/-- The text of a field is that of its bytes without the blanks around it. -/
theorem fieldText?_eq (field : Bytes) :
    fieldText? field = (Utf8.decode? field).map (trimBy isBlank) := by
  apply trimBy_invariant fun bytes => (Utf8.decode? bytes).map (trimBy isBlank)
  · intro b bytes hb
    obtain ⟨hascii, hblank⟩ := isBlankByte_ascii hb
    simp only [Utf8.decode?_cons_ascii hascii, Option.map_map]
    congr 1
    funext text
    exact trimBy_cons hblank text
  · intro b bytes hb
    obtain ⟨hascii, hblank⟩ := isBlankByte_ascii hb
    simp only [Utf8.decode?_append_ascii hascii, Option.map_map]
    congr 1
    funext text
    exact trimBy_append hblank text

theorem fieldTexts_eq_ok_iff (fields : List Bytes) (number : Nat) (texts : List (List Char)) :
    fieldTexts number fields = .ok texts ↔ fields.mapM fieldText? = some texts := by
  induction fields generalizing number texts with
  | nil => simp [fieldTexts, eq_comm]
  | cons field fields ih =>
      rw [fieldTexts, List.mapM_cons]
      cases hfield : fieldText? field with
      | none => simp
      | some text =>
          cases hrest : fieldTexts (number + 1) fields with
          | error fault =>
              have hnone : fields.mapM fieldText? = none := by
                rw [Option.eq_none_iff_forall_ne_some]
                intro others hothers
                rw [(ih (number + 1) others).mpr hothers] at hrest
                contradiction
              simp [hnone, Except.map]
          | ok others => simp [(ih (number + 1) others).mp hrest, Except.map]

/-- The first bad item of a list is its head, or the first one of the rest behind a good head. -/
theorem exists_first_cons_iff {α : Type} (good : α → Prop) (bad : Nat → α → Prop) (a : α)
    (items : List α) :
    (∃ before b after, a :: items = before ++ b :: after ∧ (∀ g ∈ before, good g) ∧
        bad before.length b) ↔
      bad 0 a ∨ good a ∧ ∃ before b after, items = before ++ b :: after ∧
        (∀ g ∈ before, good g) ∧ bad (before.length + 1) b := by
  constructor
  · intro h
    rcases h with ⟨before, b, after, hitems, hbefore, hb⟩
    cases before with
    | nil =>
        obtain ⟨rfl, rfl⟩ := List.cons.inj hitems
        exact .inl hb
    | cons first before =>
        obtain ⟨rfl, rfl⟩ := List.cons.inj hitems
        obtain ⟨ha, hbefore⟩ := List.forall_mem_cons.mp hbefore
        exact .inr ⟨ha, before, b, after, rfl, hbefore, hb⟩
  · intro h
    rcases h with ha | ⟨ha, before, b, after, rfl, hbefore, hb⟩
    · exact ⟨[], a, items, rfl, by simp, ha⟩
    · exact ⟨a :: before, b, after, rfl, List.forall_mem_cons.mpr ⟨ha, hbefore⟩, hb⟩

/-- The first field that is no text ends the decoding. -/
theorem fieldTexts_eq_error_iff (fields : List Bytes) (number : Nat) (fault : Nat × Bytes) :
    fieldTexts number fields = .error fault ↔
      ∃ before field after, fields = before ++ field :: after ∧
        (∀ f ∈ before, (fieldText? f).isSome) ∧ fieldText? field = none ∧
        fault = (number + before.length, trimBytes field) := by
  induction fields generalizing number with
  | nil => simp [fieldTexts]
  | cons field fields ih =>
      rw [exists_first_cons_iff (fun f => (fieldText? f).isSome)
        (fun n f => fieldText? f = none ∧ fault = (number + n, trimBytes f)), fieldTexts]
      cases hfield : fieldText? field with
      | none =>
          constructor
          · intro h
            exact .inl ⟨rfl, (Except.error.inj h).symm⟩
          · intro h
            rcases h with ⟨-, rfl⟩ | ⟨h, -⟩
            · rfl
            · contradiction
      | some text =>
          have hmap : (fieldTexts (number + 1) fields).map (text :: ·) = .error fault ↔
              fieldTexts (number + 1) fields = .error fault := by
            cases fieldTexts (number + 1) fields <;> simp [Except.map]
          have hnumber : ∀ n, number + 1 + n = number + (n + 1) := by
            intro n
            omega
          simp only [hmap, ih, hnumber, Option.isSome_some, true_and, reduceCtorEq, false_and,
            false_or]

/-- Reading the fields of a record as texts is decoding and trimming each of them. -/
theorem toOption_fieldTexts (number : Nat) (fields : List Bytes) :
    (fieldTexts number fields).toOption =
      fields.mapM fun field => (Utf8.decode? field).map (trimBy isBlank) := by
  have hfields : (fun field => (Utf8.decode? field).map (trimBy isBlank)) = fieldText? :=
    funext fun field => (fieldText?_eq field).symm
  rw [hfields]
  apply Option.ext
  intro texts
  rw [← fieldTexts_eq_ok_iff fields number texts]
  cases fieldTexts number fields <;> simp [Except.toOption]

end Load

end TimingChart
