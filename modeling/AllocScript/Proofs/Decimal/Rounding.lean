import AllocScript.Decimal.Basic
import Mathlib

/-!
# Rounding error of decimals

Bounds on the one rounding `Decimal.ofRat?` and on the operations that end in it. Values are the
exact `Rat`s of `Decimal.toRat`, and `unit` is the distance between neighbours at the largest scale.

* `ofRat?_of_small`: a number of size at most 7 has a nearest decimal, within half a unit.
* `ofRat?_of_onGrid`: a multiple of the unit of size at most 7 is a decimal itself, so small sums
  are exact (`add?_of_small`).
* `toRat_ofRat?_eq_zero_iff`: a number that is not negative becomes zero if it is at most half a
  unit.
* `add?_error`: a sum that is not negative has a relative error of at most one unit, however large
  it is.
-/

namespace AllocScript

/-! ## The nearest integer -/

/-- Rounding half to even moves a number by at most one half. -/
theorem abs_roundHalfEven_sub_le (q : Rat) : |(roundHalfEven q : Rat) - q| ≤ 1 / 2 := by
  have hlow := Rat.floor_le q
  have hhigh := Rat.lt_floor_add_one q
  push_cast at hhigh
  unfold roundHalfEven
  simp only []
  rw [abs_le]
  split
  · constructor <;> linarith
  · split
    · push_cast; constructor <;> linarith
    · split
      · constructor <;> linarith
      · push_cast; constructor <;> linarith

theorem roundHalfEven_intCast (n : Int) : roundHalfEven (n : Rat) = n := by
  unfold roundHalfEven
  simp only [Rat.floor_intCast, sub_self]
  rw [if_pos (by norm_num)]

theorem lt_roundHalfEven {m : Int} {q : Rat} (h : m + 1 / 2 < q) : m < roundHalfEven q := by
  have hround := (abs_le.1 (abs_roundHalfEven_sub_le q)).1
  have hlt : (m : Rat) < roundHalfEven q := by linarith
  exact Int.cast_lt.1 hlt

theorem le_roundHalfEven {m : Int} {q : Rat} (h : (m : Rat) ≤ q) : m ≤ roundHalfEven q := by
  have := lt_roundHalfEven (m := m - 1) (q := q) (by push_cast; linarith)
  omega

theorem roundHalfEven_lt {m : Int} {q : Rat} (h : q < m - 1 / 2) : roundHalfEven q < m := by
  have hround := (abs_le.1 (abs_roundHalfEven_sub_le q)).2
  have hlt : (roundHalfEven q : Rat) < m := by linarith
  exact Int.cast_lt.1 hlt

/-- Less than a half above an integer, the integer is the nearest. -/
theorem roundHalfEven_eq {m : Int} {q : Rat} (hlow : (m : Rat) ≤ q) (hhigh : q < m + 1 / 2) :
    roundHalfEven q = m := by
  have hle := le_roundHalfEven hlow
  have hlt := roundHalfEven_lt (m := m + 1) (q := q) (by push_cast; linarith)
  omega

theorem roundHalfEven_nonneg {q : Rat} (h : 0 ≤ q) : 0 ≤ roundHalfEven q :=
  le_roundHalfEven (by rwa [Int.cast_zero])

/-- A number that is not negative is rounded to zero if it is at most one half. -/
theorem roundHalfEven_eq_zero_iff {q : Rat} (hq : 0 ≤ q) : roundHalfEven q = 0 ↔ q ≤ 1 / 2 := by
  constructor
  · intro h
    have hround := abs_le.1 (abs_roundHalfEven_sub_le q)
    rw [h, Int.cast_zero] at hround
    linarith [hround.1]
  · intro h
    have hfloor : q.floor = 0 := Int.floor_eq_zero_iff.2 ⟨hq, by linarith⟩
    unfold roundHalfEven
    simp only [hfloor, Int.cast_zero, sub_zero]
    by_cases hlt : q < 1 / 2
    · rw [if_pos hlt]
    · rw [if_neg hlt, if_neg (not_lt.2 h)]
      rfl

namespace Decimal

/-! ## Values -/

theorem toRat_nonneg_iff {d : Decimal} : 0 ≤ d.toRat ↔ 0 ≤ d.coefficient := by
  unfold toRat
  rw [le_div_iff₀ (by positivity), zero_mul, Int.cast_nonneg_iff]

theorem toRat_pos_iff {d : Decimal} : 0 < d.toRat ↔ 0 < d.coefficient := by
  unfold toRat
  rw [lt_div_iff₀ (by positivity), zero_mul, Int.cast_pos]

theorem toRat_eq_zero_iff {d : Decimal} : d.toRat = 0 ↔ d.isZero = true := by
  simp [toRat, isZero, div_eq_zero_iff]

theorem isPositive_iff {d : Decimal} : d.isPositive = true ↔ 0 < d.toRat := by
  simp [isPositive, toRat_pos_iff]

@[simp] theorem toRat_zero : zero.toRat = 0 := by simp [toRat, zero]

@[simp] theorem toRat_one : one.toRat = 1 := by simp [toRat, one]

theorem toRat_dropZeros (c : Int) (s : Nat) (hc : c.natAbs < 2 ^ 96) (hs : s ≤ 28) :
    (dropZeros c s hc hs).toRat = c / ((10 ^ s : Nat) : Rat) := by
  induction s generalizing c with
  | zero => rfl
  | succ s ih =>
    unfold dropZeros
    split
    · rename_i hmod
      have hdiv : (c : Rat) = ((c / 10 : Int) : Rat) * 10 := by
        exact_mod_cast (Int.ediv_mul_cancel (Int.dvd_of_emod_eq_zero hmod)).symm
      rw [ih, hdiv, pow_succ]
      push_cast
      rw [mul_div_mul_right _ _ (by norm_num)]
    · rfl

/-- Dropping zeros at the end of the fraction keeps the value. -/
@[simp] theorem toRat_normalize (d : Decimal) : d.normalize.toRat = d.toRat :=
  toRat_dropZeros ..

/-! ## One rounding -/

/-- The distance between neighbours at the largest scale. -/
def unit : Rat := 1 / 10 ^ 28

theorem unit_pos : 0 < unit := by norm_num [unit]

/-- A rounded value is the nearest one of some scale at which its coefficient fits, and at the next
larger scale the coefficient would not fit. -/
theorem exists_scale_of_fit? {q : Rat} {d : Decimal} (s : Nat) (hs : s ≤ 28)
    (h : fit? q s hs = some d) :
    ∃ t ≤ s, d.toRat = roundHalfEven (q * ((10 ^ t : Nat) : Rat)) / ((10 ^ t : Nat) : Rat) ∧
      (roundHalfEven (q * ((10 ^ t : Nat) : Rat))).natAbs < 2 ^ 96 ∧
      (t = s ∨ 2 ^ 96 ≤ (roundHalfEven (q * ((10 ^ (t + 1) : Nat) : Rat))).natAbs) := by
  have atScale {t : Nat} {ht : t ≤ 28} (h : atScale? q t ht = some d) :
      d.toRat = roundHalfEven (q * ((10 ^ t : Nat) : Rat)) / ((10 ^ t : Nat) : Rat) ∧
        (roundHalfEven (q * ((10 ^ t : Nat) : Rat))).natAbs < 2 ^ 96 := by
    unfold atScale? at h
    simp only [] at h
    split at h
    · rename_i hfits
      cases h
      exact ⟨rfl, hfits⟩
    · cases h
  induction s with
  | zero => exact ⟨0, Nat.le_refl _, (atScale h).1, (atScale h).2, .inl rfl⟩
  | succ s ih =>
    unfold fit? at h
    cases hat : atScale? q (s + 1) hs with
    | some e =>
      rw [hat] at h
      obtain ⟨hval, hfits⟩ := atScale (hat.trans h)
      exact ⟨s + 1, Nat.le_refl _, hval, hfits, .inl rfl⟩
    | none =>
      rw [hat] at h
      obtain ⟨t, hts, hval, hfits, hmax⟩ := ih (by omega) h
      refine ⟨t, by omega, hval, hfits, .inr ?_⟩
      rcases hmax with rfl | hmax
      · unfold atScale? at hat
        simp only [] at hat
        split at hat
        · cases hat
        · rename_i hbig
          exact Nat.not_lt.1 hbig
      · exact hmax

theorem exists_scale_of_ofRat? {q : Rat} {d : Decimal} (h : ofRat? q = some d) :
    ∃ t ≤ 28, d.toRat = roundHalfEven (q * ((10 ^ t : Nat) : Rat)) / ((10 ^ t : Nat) : Rat) ∧
      (roundHalfEven (q * ((10 ^ t : Nat) : Rat))).natAbs < 2 ^ 96 ∧
      (t = 28 ∨ 2 ^ 96 ≤ (roundHalfEven (q * ((10 ^ (t + 1) : Nat) : Rat))).natAbs) := by
  obtain ⟨e, he, rfl⟩ := Option.map_eq_some_iff.1 h
  rw [toRat_normalize]
  exact exists_scale_of_fit? 28 _ he

/-- A coefficient that does not fit belongs to a number that is at most a half below the range. -/
theorem le_mul_pow_of_not_fits {q : Rat} {t : Nat} (hq : 0 ≤ q)
    (h : 2 ^ 96 ≤ (roundHalfEven (q * ((10 ^ t : Nat) : Rat))).natAbs) :
    2 ^ 96 - 1 / 2 ≤ q * 10 ^ t := by
  push_cast at h
  have hnonneg : 0 ≤ roundHalfEven (q * 10 ^ t) := roundHalfEven_nonneg (by positivity)
  refine not_lt.1 fun hlt => ?_
  have := roundHalfEven_lt (m := 2 ^ 96) (q := q * 10 ^ t) (by push_cast; exact hlt)
  omega

/-- A number whose coefficient does not fit at the next larger scale has 28 digits or more. -/
theorem le_mul_of_not_fits {q : Rat} {t : Nat} (hq : 0 ≤ q)
    (h : 2 ^ 96 ≤ (roundHalfEven (q * ((10 ^ (t + 1) : Nat) : Rat))).natAbs) :
    7 * 10 ^ 27 ≤ q * 10 ^ t := by
  have hnext := le_mul_pow_of_not_fits hq h
  rw [pow_succ (10 : Rat) t, ← mul_assoc] at hnext
  linarith

theorem toRat_nonneg_of_ofRat? {q : Rat} {d : Decimal} (h : ofRat? q = some d) (hq : 0 ≤ q) :
    0 ≤ d.toRat := by
  obtain ⟨t, -, hd, -⟩ := exists_scale_of_ofRat? h
  have hr : 0 ≤ roundHalfEven (q * ((10 ^ t : Nat) : Rat)) := roundHalfEven_nonneg (by positivity)
  have hr' : (0 : Rat) ≤ roundHalfEven (q * ((10 ^ t : Nat) : Rat)) := by exact_mod_cast hr
  rw [hd]
  positivity

/-- A small number is rounded at the largest scale. -/
theorem ofRat?_eq_of_small {q : Rat} (h : |q| ≤ 7) :
    ∃ d, ofRat? q = some d ∧ d.toRat = roundHalfEven (q * 10 ^ 28) * unit := by
  obtain ⟨hq1, hq2⟩ := abs_le.1 h
  have hfits : (roundHalfEven (q * 10 ^ 28)).natAbs < 2 ^ 96 := by
    obtain ⟨hr1, hr2⟩ := abs_le.1 (abs_roundHalfEven_sub_le (q * 10 ^ 28))
    generalize roundHalfEven (q * 10 ^ 28) = r at hr1 hr2 ⊢
    have h1 : (r : Rat) < ((2 ^ 96 : Int) : Rat) := by push_cast; linarith
    have h2 : ((-2 ^ 96 : Int) : Rat) < (r : Rat) := by push_cast; linarith
    have h1' := Int.cast_lt.1 h1
    have h2' := Int.cast_lt.1 h2
    omega
  have hat : atScale? q 28 (by decide) =
      some ⟨roundHalfEven (q * 10 ^ 28), 28, hfits, by decide⟩ := by
    unfold atScale?
    simp only [Nat.cast_pow, Nat.cast_ofNat]
    rw [dif_pos hfits]
  refine ⟨_, by rw [ofRat?, fit?, hat]; rfl, ?_⟩
  rw [toRat_normalize]
  simp only [toRat, unit, Nat.cast_pow, Nat.cast_ofNat]
  rw [div_eq_mul_one_div]

/-- **One rounding.** A number of size at most 7 has a nearest decimal, within half a unit. -/
theorem ofRat?_of_small {q : Rat} (h : |q| ≤ 7) :
    ∃ d, ofRat? q = some d ∧ |d.toRat - q| ≤ unit / 2 := by
  obtain ⟨d, hd, hval⟩ := ofRat?_eq_of_small h
  refine ⟨d, hd, ?_⟩
  have hround := abs_roundHalfEven_sub_le (q * 10 ^ 28)
  have hscale : d.toRat - q = (roundHalfEven (q * 10 ^ 28) - q * 10 ^ 28) * unit := by
    rw [hval, sub_mul, unit]
    ring
  rw [hscale, abs_mul, abs_of_pos unit_pos]
  linarith [mul_le_mul_of_nonneg_right hround unit_pos.le]

/-! ## Underflow -/

/-- **Underflow.** A number that is not negative becomes zero if it is at most half a unit. -/
theorem toRat_ofRat?_eq_zero_iff {q : Rat} {d : Decimal} (h : ofRat? q = some d) (hq : 0 ≤ q) :
    d.toRat = 0 ↔ q ≤ unit / 2 := by
  obtain ⟨t, ht, hd, -, hmax⟩ := exists_scale_of_ofRat? h
  have hp : (0 : Rat) < ((10 ^ t : Nat) : Rat) := by positivity
  have hzero : d.toRat = 0 ↔ q * ((10 ^ t : Nat) : Rat) ≤ 1 / 2 := by
    rw [hd, div_eq_zero_iff, or_iff_left hp.ne', Int.cast_eq_zero,
      roundHalfEven_eq_zero_iff (mul_nonneg hq hp.le)]
  rw [hzero]
  rcases hmax with rfl | hmax
  · unfold unit
    constructor <;> intro h <;> push_cast at h ⊢ <;> linarith
  · -- A number that does not fit at the largest scale is far above both bounds.
    have hlarge := le_mul_of_not_fits hq hmax
    have hten : (10 : Rat) ^ t ≤ 10 ^ 28 := pow_le_pow_right₀ (by norm_num) ht
    have hscaled : q * 10 ^ t ≤ q * 10 ^ 28 := mul_le_mul_of_nonneg_left hten hq
    push_cast
    unfold unit
    constructor <;> intro h <;> linarith

/-- There it becomes the decimal `0`, without a fraction. -/
theorem ofRat?_of_le_half_unit {q : Rat} (hq : 0 ≤ q) (h : q ≤ unit / 2) :
    ofRat? q = some .zero := by
  have hround : roundHalfEven (q * ((10 ^ 28 : Nat) : Rat)) = 0 := by
    refine (roundHalfEven_eq_zero_iff (by positivity)).2 ?_
    unfold unit at h
    push_cast
    linarith
  have hscale : atScale? q 28 (by decide) = some ⟨0, 28, by decide, by decide⟩ := by
    unfold atScale?
    simp only [hround]
    rfl
  rw [ofRat?, fit?, hscale]
  rfl

/-! ## Counts -/

theorem toRat_ofCount (n : Nat) :
    (ofCount n).toRat = ((min n (2 ^ 96 - 1) : Nat) : Rat) := by
  simp [toRat, ofCount]

/-- **One over a count** is rounded once, and the counts that are no decimals give zero as their
greatest one does. -/
theorem div?_one_ofCount {n : Nat} (hn : 0 < n) :
    one.div? (ofCount n) = ofRat? (1 / (n : Rat)) := by
  have hpos : 0 < min n (2 ^ 96 - 1) := by omega
  have hval := toRat_ofCount n
  have hzero : (ofCount n).isZero = false := by
    rw [← Bool.not_eq_true, ← toRat_eq_zero_iff, hval]
    exact_mod_cast hpos.ne'
  rw [div?, hzero, if_neg Bool.false_ne_true, toRat_one, hval]
  by_cases hfew : n ≤ 2 ^ 96 - 1
  · rw [min_eq_left hfew]
  · have hsmall {k : Nat} (hk : 2 ^ 96 - 1 ≤ k) : ofRat? (1 / (k : Rat)) = some .zero := by
      have hk' : (2 * 10 ^ 28 : Rat) ≤ k := by exact_mod_cast (by omega : 2 * 10 ^ 28 ≤ k)
      refine ofRat?_of_le_half_unit (by positivity) ?_
      rw [div_le_iff₀ (by linarith)]
      unfold unit
      linarith
    rw [min_eq_right (by omega), hsmall le_rfl, hsmall (by omega)]

/-! ## Multiples of the unit -/

/-- A multiple of the unit. Every decimal is one. -/
def OnGrid (q : Rat) : Prop := ∃ m : Int, q * 10 ^ 28 = m

theorem onGrid_toRat (d : Decimal) : OnGrid d.toRat := by
  refine ⟨d.coefficient * 10 ^ (28 - d.scale), ?_⟩
  have h : (10 : Rat) ^ 28 = 10 ^ (28 - d.scale) * 10 ^ d.scale := by
    rw [← pow_add, Nat.sub_add_cancel d.scale_le]
  have h10 : (10 : Rat) ^ d.scale ≠ 0 := by positivity
  unfold toRat
  push_cast
  rw [h]
  field_simp

theorem OnGrid.add {p q : Rat} (hp : OnGrid p) (hq : OnGrid q) : OnGrid (p + q) := by
  obtain ⟨m, hm⟩ := hp
  obtain ⟨n, hn⟩ := hq
  exact ⟨m + n, by rw [add_mul, hm, hn]; push_cast; rfl⟩

/-- A small multiple of the unit is a decimal itself. -/
theorem ofRat?_of_onGrid {q : Rat} (hg : OnGrid q) (h : |q| ≤ 7) :
    ∃ d, ofRat? q = some d ∧ d.toRat = q := by
  obtain ⟨d, hd, hval⟩ := ofRat?_eq_of_small h
  obtain ⟨m, hm⟩ := hg
  refine ⟨d, hd, ?_⟩
  rw [hval, hm, roundHalfEven_intCast, ← hm, unit]
  ring

/-! ## Sums -/

/-- Small sums are exact. -/
theorem add?_of_small {a b : Decimal} (h : |a.toRat + b.toRat| ≤ 7) :
    ∃ c, a.add? b = some c ∧ c.toRat = a.toRat + b.toRat :=
  ofRat?_of_onGrid ((onGrid_toRat a).add (onGrid_toRat b)) h

/-- A multiple of the unit that is not negative is rounded with a relative error of less than one
unit: at the largest scale it is exact, and below that its coefficient has 28 digits or more. -/
theorem abs_sub_le_of_onGrid {q : Rat} {d : Decimal} (h : ofRat? q = some d) (hq : 0 ≤ q)
    (hg : OnGrid q) : |d.toRat - q| ≤ 3 / 4 * unit * q := by
  obtain ⟨t, -, hd, -, rfl | hmax⟩ := exists_scale_of_ofRat? h
  · obtain ⟨m, hm⟩ := hg
    simp only [Nat.cast_pow, Nat.cast_ofNat] at hd
    rw [hd, hm, roundHalfEven_intCast, ← hm, mul_div_cancel_right₀ _ (by norm_num), sub_self,
      abs_zero]
    exact mul_nonneg (by norm_num [unit]) hq
  · have hp : (0 : Rat) < 10 ^ t := by positivity
    have hround := abs_le.1 (abs_roundHalfEven_sub_le (q * 10 ^ t))
    have hlarge := le_mul_of_not_fits hq hmax
    push_cast at hd
    have hcancel : (d.toRat - q) * 10 ^ t = roundHalfEven (q * 10 ^ t) - q * 10 ^ t := by
      rw [hd]
      field_simp
    rw [abs_le]
    constructor <;> apply le_of_mul_le_mul_right _ hp <;> rw [hcancel] <;> unfold unit <;>
      linarith [hround.1, hround.2]

/-- **Error of a sum.** A sum that is not negative has a relative error of at most one unit. -/
theorem add?_error {a b c : Decimal} (h : a.add? b = some c) (hab : 0 ≤ a.toRat + b.toRat) :
    |c.toRat - (a.toRat + b.toRat)| ≤ unit * (a.toRat + b.toRat) := by
  refine (abs_sub_le_of_onGrid h hab ((onGrid_toRat a).add (onGrid_toRat b))).trans ?_
  exact mul_le_mul_of_nonneg_right (by linarith [unit_pos]) hab

end Decimal

end AllocScript
