import TimingChart.Proofs.Chart.Ranges

/-! # Least and greatest values

One pass over a list finds its least and its greatest value. Among doubles, what is not a number is
neither above nor below anything: in the first place it stays for both, and behind it changes
nothing. The order of the other values matters for the signs of zeros only. -/

namespace TimingChart

/-! ## Integers -/

theorem minAndMax_int64_iff {values : List Int64} {low high : Int64} :
    minAndMax values = some (low, high) ↔
      (low ∈ values ∧ ∀ v ∈ values, low ≤ v) ∧ (high ∈ values ∧ ∀ v ∈ values, v ≤ high) := by
  have hextremes : ∀ {bounds}, minAndMax values = some bounds → AreExtremes values bounds :=
    minAndMax_spec (fun _ => Int64.lt_irrefl) fun _ _ _ => Int64.lt_trans
  constructor
  · intro h
    have hbounds := hextremes h
    exact ⟨⟨hbounds.low.mem, fun v hv => Int64.not_lt.mp (hbounds.low.first v hv)⟩,
      hbounds.high.mem, fun v hv => Int64.not_lt.mp (hbounds.high.first v hv)⟩
  · rintro ⟨⟨hlow, hleast⟩, hhigh, hgreatest⟩
    cases h : minAndMax values with
    | none =>
        rw [minAndMax_eq_none_iff.mp h] at hlow
        exact absurd hlow List.not_mem_nil
    | some bounds =>
        have hbounds := hextremes h
        have hsame : bounds.1 = low :=
          Int64.le_antisymm (Int64.not_lt.mp (hbounds.low.first low hlow))
            (hleast _ hbounds.low.mem)
        have hsame' : bounds.2 = high :=
          Int64.le_antisymm (hgreatest _ hbounds.high.mem)
            (Int64.not_lt.mp (hbounds.high.first high hhigh))
        rw [← hsame, ← hsame']

/-! ## Doubles -/

namespace Binary64

variable {x y : Binary64}

theorem exists_position (hx : x ≠ nan) : ∃ a, x.position = some a := by
  cases x with
  | nan => exact absurd rfl hx
  | infinite s => exact ⟨_, position_infinite s⟩
  | finite s m => exact ⟨_, rfl⟩

theorem not_nan_lt (x : Binary64) : ¬ nan < x := by
  rw [lt_iff_position]
  rintro ⟨a, b, ha, -, -⟩
  cases ha

theorem not_lt_nan (x : Binary64) : ¬ x < nan := by
  rw [lt_iff_position]
  rintro ⟨a, b, -, hb, -⟩
  cases hb

section Numbers

variable (hx : x ≠ nan) (hy : y ≠ nan)
include hx hy

theorem le_of_not_lt (h : ¬ x < y) : y ≤ x := by
  obtain ⟨a, ha⟩ := exists_position hx
  obtain ⟨b, hb⟩ := exists_position hy
  rw [lt_iff_position] at h
  refine le_iff_position.mpr ⟨b, a, hb, ha, ?_⟩
  by_contra hlt
  exact h ⟨a, b, ha, hb, Int.not_le.mp hlt⟩

theorem equals_of_not_lt (h : ¬ x < y) (h' : ¬ y < x) : x.equals y := by
  obtain ⟨a, ha⟩ := exists_position hx
  obtain ⟨b, hb⟩ := exists_position hy
  have hab : ¬ a < b := fun hlt => h (lt_iff_position.mpr ⟨a, b, ha, hb, hlt⟩)
  have hba : ¬ b < a := fun hlt => h' (lt_iff_position.mpr ⟨b, a, hb, ha, hlt⟩)
  simp only [equals, compares, ha, hb, decide_eq_true_eq]
  omega

end Numbers

/-- Nothing but the infinities stands as far out as they do. -/
theorem eq_infinite_of_position {a : Int} (hx : x.position = some a)
    (hbeyond : Magnitude.limit ≤ a.natAbs) : x = infinite (decide (a < 0)) := by
  cases x with
  | nan => cases hx
  | finite s m =>
      have hlt := natAbs_units_lt (x := finite s m) rfl
      rw [Option.some.inj hx] at hlt
      exact absurd hlt (Nat.not_lt.mpr hbeyond)
  | infinite s =>
      have hpos : (0 : Int) < Magnitude.limit := by
        exact_mod_cast Nat.zero_lt_of_lt Magnitude.zero.units_lt
      rw [position_infinite] at hx
      obtain rfl := Option.some.inj hx
      cases s with
      | false => rw [if_neg Bool.false_ne_true, decide_eq_false hpos.not_gt]
      | true => rw [if_pos rfl, decide_eq_true (neg_lt_zero.mpr hpos)]

theorem eq_bottom_of_le (h : x ≤ infinite true) : x = infinite true := by
  rcases le_iff_position.mp h with ⟨a, b, ha, hb, hab⟩
  rw [position_infinite, if_pos rfl, Option.some.injEq] at hb
  have hlow : a < 0 := by
    have hpos := Nat.zero_lt_of_lt Magnitude.zero.units_lt
    omega
  rw [eq_infinite_of_position ha (by omega), decide_eq_true hlow]

theorem eq_top_of_ge (h : infinite false ≤ x) : x = infinite false := by
  rcases le_iff_position.mp h with ⟨b, a, hb, ha, hba⟩
  rw [position_infinite, if_neg Bool.false_ne_true, Option.some.injEq] at hb
  rw [eq_infinite_of_position ha (by omega), decide_eq_false (by omega)]

/-! ## What is not a number -/

theorem widen_nan (bounds : Binary64 × Binary64) : widen bounds nan = bounds := by
  simp only [widen, if_neg (not_nan_lt _), if_neg (not_lt_nan _)]

theorem widen_of_nan (v : Binary64) : widen (nan, nan) v = (nan, nan) := by
  simp only [widen, if_neg (not_nan_lt _), if_neg (not_lt_nan _)]

/-- The values that are numbers. -/
def numbers (values : List Binary64) : List Binary64 := values.filter (· ≠ nan)

theorem mem_numbers {v : Binary64} {values : List Binary64} :
    v ∈ numbers values ↔ v ∈ values ∧ v ≠ nan := by
  simp [numbers]

theorem foldl_widen_numbers (values : List Binary64) (bounds : Binary64 × Binary64) :
    (numbers values).foldl widen bounds = values.foldl widen bounds := by
  induction values generalizing bounds with
  | nil => rfl
  | cons v values ih =>
      rw [numbers] at ih ⊢
      by_cases hv : v = nan
      · subst hv
        rw [List.filter_cons_of_neg (by simp), ih, List.foldl_cons, widen_nan]
      · rw [List.filter_cons_of_pos (by simpa using hv), List.foldl_cons, ih, List.foldl_cons]

/-- In the first place, what is not a number is all there is. -/
theorem minAndMax_nan_cons (rest : List Binary64) : minAndMax (nan :: rest) = some (nan, nan) := by
  have hstays : rest.foldl widen (nan, nan) = (nan, nan) := by
    induction rest with
    | nil => rfl
    | cons v rest ih => rw [List.foldl_cons, widen_of_nan, ih]
  rw [minAndMax, hstays]

/-- Behind the first place, it is passed over. -/
theorem minAndMax_cons_numbers (first : Binary64) (rest : List Binary64) :
    minAndMax (first :: numbers rest) = minAndMax (first :: rest) := by
  rw [minAndMax, minAndMax, foldl_widen_numbers]

/-- Bounds for all numbers among some doubles, infinities included. -/
structure AreBounds (values : List Binary64) (low high : Binary64) : Prop where
  low_mem : low ∈ values
  high_mem : high ∈ values
  between : ∀ v ∈ values, v ≠ nan → low ≤ v ∧ v ≤ high
  bottom : infinite true ∈ values → low = infinite true
  top : infinite false ∈ values → high = infinite false

/-- Extremes of the numbers are bounds for them. -/
theorem areBounds_of_areExtremes {values : List Binary64} {bounds : Binary64 × Binary64}
    (h : AreExtremes (numbers values) bounds) : AreBounds values bounds.1 bounds.2 := by
  obtain ⟨hlow, hlow'⟩ := mem_numbers.mp h.low.mem
  obtain ⟨hhigh, hhigh'⟩ := mem_numbers.mp h.high.mem
  have hbetween : ∀ v ∈ values, v ≠ nan → bounds.1 ≤ v ∧ v ≤ bounds.2 := by
    intro v hv hv'
    have hnumber := mem_numbers.mpr ⟨hv, hv'⟩
    exact ⟨le_of_not_lt hv' hlow' (h.low.first v hnumber),
      le_of_not_lt hhigh' hv' (h.high.first v hnumber)⟩
  exact ⟨hlow, hhigh, hbetween, fun hbottom => eq_bottom_of_le (hbetween _ hbottom nofun).1,
    fun htop => eq_top_of_ge (hbetween _ htop nofun).2⟩

/-- If the first value is a number, there are bounds for all numbers. -/
theorem exists_areBounds {first : Binary64} (hfirst : first ≠ nan) (rest : List Binary64) :
    ∃ low high, minAndMax (first :: rest) = some (low, high) ∧
      AreBounds (first :: rest) low high := by
  have hnumbers : numbers (first :: rest) = first :: numbers rest := by
    simp [numbers, hfirst]
  cases h : minAndMax (first :: numbers rest) with
  | none => cases h
  | some bounds =>
      have hextremes := Range.minAndMax_extremes h
      rw [minAndMax_cons_numbers] at h
      rw [← hnumbers] at hextremes
      exact ⟨bounds.1, bounds.2, h, areBounds_of_areExtremes hextremes⟩

/-- The same numbers in another order have the same bounds, up to the signs of zeros. -/
theorem exists_equals_of_perm {values values' : List Binary64} (hnan : nan ∉ values)
    (hperm : values.Perm values') {bounds : Binary64 × Binary64}
    (h : minAndMax values = some bounds) :
    ∃ bounds', minAndMax values' = some bounds' ∧ bounds.1.equals bounds'.1 ∧
      bounds.2.equals bounds'.2 := by
  have hne : ∀ v ∈ values, v ≠ nan := fun v hv heq => hnan (heq ▸ hv)
  have hextremes := Range.minAndMax_extremes h
  cases h' : minAndMax values' with
  | none =>
      have hnil := minAndMax_eq_none_iff.mp h'
      rw [hnil, List.perm_nil] at hperm
      rw [hperm] at h
      cases h
  | some bounds' =>
      have hextremes' := Range.minAndMax_extremes h'
      have hlow := hperm.mem_iff.mpr hextremes'.low.mem
      have hhigh := hperm.mem_iff.mpr hextremes'.high.mem
      refine ⟨bounds', rfl, ?_, ?_⟩
      · apply equals_of_not_lt (hne _ hextremes.low.mem) (hne _ hlow)
        · exact hextremes'.low.first _ (hperm.mem_iff.mp hextremes.low.mem)
        · exact hextremes.low.first _ hlow
      · apply equals_of_not_lt (hne _ hextremes.high.mem) (hne _ hhigh)
        · exact hextremes.high.first _ hhigh
        · exact hextremes'.high.first _ (hperm.mem_iff.mp hextremes.high.mem)

end Binary64

/-! ## One pass -/

open Binary64 (nan infinite finite numbers AreBounds)

/-- There are extremes exactly if there are values. Those of integers are the least and the greatest
one. Those of doubles are no numbers if the first value is none, and bounds for all numbers
otherwise, as if there were nothing else. In another order, numbers have the same extremes. -/
theorem minAndMax_extent :
    (∀ {α : Type} [LT α] [DecidableLT α] (values : List α),
      minAndMax values = none ↔ values = []) ∧
    (∀ (values : List Int64) (low high : Int64), minAndMax values = some (low, high) ↔
      (low ∈ values ∧ ∀ v ∈ values, low ≤ v) ∧ (high ∈ values ∧ ∀ v ∈ values, v ≤ high)) ∧
    (∀ rest : List Binary64, minAndMax (nan :: rest) = some (nan, nan)) ∧
    (∀ (first : Binary64) (rest : List Binary64), first ≠ nan →
      ∃ low high, minAndMax (first :: rest) = some (low, high) ∧
        minAndMax (first :: numbers rest) = some (low, high) ∧
        AreBounds (first :: rest) low high) ∧
    ∀ values values' : List Binary64, nan ∉ values → values.Perm values' →
      ∀ bounds, minAndMax values = some bounds → ∃ bounds', minAndMax values' = some bounds' ∧
        bounds.1.equals bounds'.1 ∧ bounds.2.equals bounds'.2 := by
  refine ⟨fun _ => minAndMax_eq_none_iff, fun _ _ _ => minAndMax_int64_iff,
    Binary64.minAndMax_nan_cons, ?_, ?_⟩
  · intro first rest hfirst
    rcases Binary64.exists_areBounds hfirst rest with ⟨low, high, hsome, hbounds⟩
    exact ⟨low, high, hsome, (Binary64.minAndMax_cons_numbers first rest).trans hsome, hbounds⟩
  · intro values values' hnan hperm bounds hsome
    exact Binary64.exists_equals_of_perm hnan hperm hsome

/-- A number, something that is none, and the lower infinity; and zeros of both signs. -/
theorem minAndMax_extent_mixedValues :
    minAndMax [7, nan, infinite true] = some (infinite true, 7) ∧
    AreBounds [7, nan, infinite true] (infinite true) 7 ∧
    minAndMax [finite true .zero, finite false .zero] =
      some (finite true .zero, finite true .zero) ∧
    ∃ bounds', minAndMax [finite false .zero, finite true .zero] = some bounds' ∧
      (finite true .zero).equals bounds'.1 ∧
      (finite true .zero).equals bounds'.2 := by
  have hmixed : minAndMax [7, nan, infinite true] = some (infinite true, 7) := by
    decide +kernel
  have hzeros : minAndMax [finite true .zero, finite false .zero] =
      some (finite true .zero, finite true .zero) := by
    decide +kernel
  rcases minAndMax_extent with ⟨-, -, -, hbounds, hperm⟩
  rcases hbounds 7 [nan, infinite true] (by decide +kernel) with ⟨low, high, hsome, -, hareBounds⟩
  rw [hmixed, Option.some.injEq, Prod.mk.injEq] at hsome
  rcases hsome with ⟨rfl, rfl⟩
  exact ⟨hmixed, hareBounds, hzeros, hperm _ _ (by decide +kernel) (.swap ..) _ hzeros⟩

end TimingChart
