import Mathlib
import AllocScript.Decimal.Text

/-!
# Decimals are read back as they are written

Reading a run of digits gives their positional value (`Digits.readAll_digits`), as long as it fits.
The written form of a decimal is such a run, or two with a point between them, after a sign
(`readChars_renderChars`).
-/

namespace AllocScript

namespace Decimal

/-! ## Runs of digits -/

theorem le_ofDigitChars (cs : List Char) (n : Nat) : n ≤ Nat.ofDigitChars 10 cs n := by
  induction cs generalizing n with
  | nil => exact Nat.le_refl _
  | cons c cs ih =>
    rw [Nat.ofDigitChars_cons]
    have hrest := ih (10 * n + (c.toNat - '0'.toNat))
    omega

theorem isDigit_digitChar {n : Nat} (h : n < 10) : (Nat.digitChar n).isDigit = true := by
  interval_cases n <;> rfl

theorem length_lastDigits (places n : Nat) : (lastDigits places n).length = places := by
  induction places generalizing n with
  | zero => rfl
  | succ places ih => simp [lastDigits, ih]

theorem isDigit_of_mem_lastDigits {places n : Nat} {c : Char} (h : c ∈ lastDigits places n) :
    c.isDigit = true := by
  induction places generalizing n with
  | zero => cases h
  | succ places ih =>
    rcases List.mem_append.1 h with h | h
    · exact ih h
    · rw [List.mem_singleton.1 h]
      exact isDigit_digitChar (Nat.mod_lt _ (by decide))

/-- The last digits of a number have the value of its remainder. -/
theorem ofDigitChars_lastDigits (places n m : Nat) :
    Nat.ofDigitChars 10 (lastDigits places n) m = m * 10 ^ places + n % 10 ^ places := by
  induction places generalizing n with
  | zero => simp [lastDigits, Nat.mod_one]
  | succ places ih =>
    have hlast : n % 10 < 10 := Nat.mod_lt _ (by decide)
    have hmod : n % 10 ^ (places + 1) = n % 10 + 10 * (n / 10 % 10 ^ places) := by
      rw [Nat.pow_succ', Nat.mod_mul]
    rw [lastDigits, Nat.ofDigitChars_append, ih, Nat.ofDigitChars_cons_digitChar_of_lt_ten hlast,
      Nat.ofDigitChars_nil, hmod, Nat.pow_succ]
    ring

/-! ## Reading -/

namespace Digits

theorem step_digit {r : Digits} {c : Char} (hc : c.isDigit = true)
    (hvalue : 10 * r.value + (c.toNat - '0'.toNat) < 2 ^ 96) (hplaces : r.places < 28) :
    ∃ r' : Digits, r.step c = .ok r' ∧ r'.value = 10 * r.value + (c.toNat - '0'.toNat) ∧
      r'.places = (if r.pointed then r.places + 1 else r.places) ∧ r'.started = true ∧
      r'.pointed = r.pointed := by
  have hfits : r.value * 10 + (c.toNat - '0'.toNat) < 2 ^ 96 := by rwa [Nat.mul_comm]
  have hroom : (if r.pointed then r.places + 1 else r.places) ≤ 28 := by split <;> omega
  refine ⟨⟨_, _, true, r.pointed, hfits, hroom⟩, ?_, ?_, rfl, rfl, rfl⟩
  · unfold step push
    rw [if_neg (by omega), if_pos hc, dif_pos ⟨hfits, hroom⟩]
  · show r.value * 10 + _ = 10 * r.value + _
    rw [Nat.mul_comm]

theorem step_point {r : Digits} (hpointed : r.pointed = false) (hplaces : r.places < 28) :
    r.step '.' = .ok { r with pointed := true } := by
  have hpoint : ('.').isDigit = false := rfl
  unfold step
  simp only [hpoint, hpointed, show r.places ≠ 28 by omega]
  rfl

/-- A run of digits is read as its positional value, if that fits. After a point every digit is one
more place. -/
theorem readAll_digits {r : Digits} {ds : List Char} (rest : List Char)
    (hdigits : ∀ c ∈ ds, c.isDigit = true) (hvalue : Nat.ofDigitChars 10 ds r.value < 2 ^ 96)
    (hplaces : if r.pointed then r.places + ds.length ≤ 28 else r.places < 28) :
    ∃ r' : Digits, r.readAll (ds ++ rest) = r'.readAll rest ∧
      r'.value = Nat.ofDigitChars 10 ds r.value ∧
      r'.places = (if r.pointed then r.places + ds.length else r.places) ∧
      r'.started = (r.started || !ds.isEmpty) ∧ r'.pointed = r.pointed := by
  induction ds generalizing r with
  | nil => exact ⟨r, rfl, rfl, by simp, by simp, rfl⟩
  | cons c ds ih =>
    rw [Nat.ofDigitChars_cons] at hvalue ⊢
    have hroom : r.places < 28 := by
      cases hp : r.pointed <;> simp [hp] at hplaces <;> omega
    obtain ⟨next, hstep, hv, hp, hs, hpt⟩ :=
      step_digit (hdigits c (by simp)) ((le_ofDigitChars ds _).trans_lt hvalue) hroom
    rw [← hv] at hvalue
    obtain ⟨r', hread, hv', hp', hs', hpt'⟩ := ih (fun d hd => hdigits d (by simp [hd])) hvalue (by
      rw [hpt, hp]
      cases hp : r.pointed <;> simp [hp] at hplaces ⊢ <;> omega)
    refine ⟨r', ?_, by rw [hv', hv], ?_, by simp [hs', hs], hpt'.trans hpt⟩
    · rw [List.cons_append, readAll, hstep]
      exact hread
    · rw [hp', hpt, hp]
      cases r.pointed <;> simp
      omega

theorem toDecimal_eq {r : Digits} {d : Decimal} (hvalue : r.value = d.coefficient.natAbs)
    (hplaces : r.places = d.scale) : r.toDecimal d.isNegative = d := by
  obtain ⟨c, s, hc, hs⟩ := d
  simp only [toDecimal, isNegative, decide_eq_true_eq, Decimal.mk.injEq] at hvalue hplaces ⊢
  refine ⟨?_, hplaces⟩
  split <;> omega

end Digits

/-- The digits of a decimal, with the point if it has places behind it. -/
def digitChars (d : Decimal) : List Char :=
  Nat.toDigits 10 (d.coefficient.natAbs / 10 ^ d.scale) ++
    if d.scale = 0 then [] else '.' :: lastDigits d.scale d.coefficient.natAbs

theorem renderChars_eq (d : Decimal) :
    d.renderChars = (if d.isNegative then ['-'] else []) ++ d.digitChars :=
  List.append_assoc ..

/-- The digits of a decimal are read as its size and its scale. -/
theorem readAll_digitChars (d : Decimal) :
    ∃ r : Digits, Digits.start.readAll d.digitChars = .ok r ∧ r.value = d.coefficient.natAbs ∧
      r.places = d.scale ∧ r.started = true := by
  have hsize := d.coefficient_lt
  have hwhole : d.coefficient.natAbs / 10 ^ d.scale ≤ d.coefficient.natAbs := Nat.div_le_self _ _
  have hdigits : ∀ c ∈ Nat.toDigits 10 (d.coefficient.natAbs / 10 ^ d.scale), c.isDigit = true :=
    fun c hc => Nat.isDigit_of_mem_toDigits (by decide) (by decide) hc
  have hne : (Nat.toDigits 10 (d.coefficient.natAbs / 10 ^ d.scale)).isEmpty = false := by simp
  obtain ⟨r, hread, hvalue, hplaces, hstarted, hpointed⟩ :=
    Digits.readAll_digits (r := Digits.start)
      (if d.scale = 0 then [] else '.' :: lastDigits d.scale d.coefficient.natAbs) hdigits
      (by simp only [Digits.start, Nat.ofDigitChars_ten_toDigits]; omega) (by simp [Digits.start])
  simp only [Digits.start, Nat.ofDigitChars_ten_toDigits, Bool.false_or, hne, Bool.not_false,
    Bool.false_eq_true, if_false] at hvalue hplaces hstarted hpointed
  unfold digitChars
  rw [hread]
  by_cases hs : d.scale = 0
  · rw [hs, Nat.pow_zero, Nat.div_one] at hvalue
    rw [if_pos hs]
    exact ⟨r, rfl, hvalue, hplaces.trans hs.symm, hstarted⟩
  · have hall : Nat.ofDigitChars 10 (lastDigits d.scale d.coefficient.natAbs) r.value =
        d.coefficient.natAbs := by
      rw [ofDigitChars_lastDigits, hvalue, Nat.mul_comm]
      exact Nat.div_add_mod _ _
    obtain ⟨r', hread', hvalue', hplaces', hstarted', -⟩ :=
      Digits.readAll_digits (r := { r with pointed := true }) []
        (fun c hc => isDigit_of_mem_lastDigits hc) (by rw [hall]; exact hsize)
        (by simpa [length_lastDigits, hplaces] using d.scale_le)
    rw [List.append_nil] at hread'
    rw [if_neg hs, Digits.readAll, Digits.step_point hpointed (by omega)]
    refine ⟨r', hread', hvalue'.trans hall, ?_, by simp [hstarted', hstarted]⟩
    rw [hplaces', if_pos rfl, length_lastDigits]
    exact (Nat.add_comm ..).trans (by rw [hplaces, Nat.add_zero])

theorem readUnsigned_digitChars (d : Decimal) :
    readUnsigned d.isNegative d.digitChars = .ok d := by
  obtain ⟨r, hread, hvalue, hplaces, hstarted⟩ := readAll_digitChars d
  unfold readUnsigned
  rw [hread]
  show (if r.started then Except.ok (r.toDecimal d.isNegative) else .error ReadError.noDigits) = _
  rw [if_pos hstarted, Digits.toDecimal_eq hvalue hplaces]

/-- The digits begin with a digit. -/
theorem exists_digitChars_eq (d : Decimal) :
    ∃ c cs, d.digitChars = c :: cs ∧ c.isDigit = true := by
  unfold digitChars
  cases h : Nat.toDigits 10 (d.coefficient.natAbs / 10 ^ d.scale) with
  | nil => exact absurd h Nat.toDigits_ne_nil
  | cons c cs =>
    have hc : c ∈ Nat.toDigits 10 (d.coefficient.natAbs / 10 ^ d.scale) := by simp [h]
    exact ⟨c, _, rfl, Nat.isDigit_of_mem_toDigits (by decide) (by decide) hc⟩

theorem readChars_of_isDigit {c : Char} (hc : c.isDigit = true) (cs : List Char) :
    readChars (c :: cs) = readUnsigned false (c :: cs) := by
  have hne : ∀ d : Char, d.isDigit = false → c ≠ d := by
    rintro d hd rfl
    rw [hc] at hd
    cases hd
  unfold readChars
  split
  · contradiction
  · rename_i heq
    injection heq with heq
    exact absurd heq (hne '-' rfl)
  · rename_i heq
    injection heq with heq
    exact absurd heq (hne '+' rfl)
  · rfl

/-- **A decimal is read back** with its value and its scale. -/
theorem readChars_renderChars (d : Decimal) : readChars d.renderChars = .ok d := by
  have hread := readUnsigned_digitChars d
  rw [renderChars_eq]
  cases hneg : d.isNegative with
  | true =>
    rw [hneg] at hread
    exact hread
  | false =>
    rw [hneg] at hread
    obtain ⟨c, cs, hcs, hc⟩ := exists_digitChars_eq d
    rw [hcs] at hread ⊢
    exact (readChars_of_isDigit hc cs).trans hread

end Decimal

end AllocScript
