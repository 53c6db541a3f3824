import AllocScript.Proofs.Decimal.Rounding

/-!
# Running sums of decimals

`RoundsTo q r` says that the one rounding takes the number `q` to `r`, and `RunningSum q ps r` that
adding the numbers `ps` to `q` one after the other, with every sum rounded, ends at `r`.

* `roundsTo_toRat`: a decimal is not rounded.
* `exists_roundsTo`: a number is too large for a decimal only if the nearest integer is.
* `RunningSum.error`: a running sum is off by at most one unit of its result for each step.
* `RunningSum.eq_of_small`: a running sum that stays small is exact.
* `RunningSum.le_of_parallel`: a running sum of shares of a total stays below 23, however many
  shares there are. Shares of less than five units do not count any more once the sum is 8
  (`RoundsTo.eq_of_add_small`), and the others move the total.
-/

namespace AllocScript

namespace Decimal

/-! ## What is not rounded -/

/-- At its own scale and at every larger one, a decimal has an integer as coefficient. -/
theorem toRat_mul_pow (d : Decimal) {t : Nat} (h : d.scale ≤ t) :
    d.toRat * ((10 ^ t : Nat) : Rat) = ((d.coefficient * 10 ^ (t - d.scale) : Int) : Rat) := by
  have hsplit : (10 : Rat) ^ t = 10 ^ (t - d.scale) * 10 ^ d.scale := by
    rw [← pow_add, Nat.sub_add_cancel h]
  have hne : (10 : Rat) ^ d.scale ≠ 0 := by positivity
  unfold toRat
  push_cast
  rw [hsplit]
  field_simp

/-- At its own scale and at every smaller one, the coefficient of a decimal fits. -/
theorem toRat_mul_pow_le (d : Decimal) {t : Nat} (hd : 0 ≤ d.toRat) (h : t ≤ d.scale) :
    d.toRat * 10 ^ t ≤ 2 ^ 96 - 1 := by
  have hpow : (10 : Rat) ^ t ≤ 10 ^ d.scale := pow_le_pow_right₀ (by norm_num) h
  have hown := d.toRat_mul_pow (le_refl _)
  rw [Nat.sub_self, pow_zero, mul_one, Nat.cast_pow, Nat.cast_ofNat] at hown
  have hlt := d.coefficient_lt
  have hint : (d.coefficient : Rat) ≤ ((2 ^ 96 - 1 : Int) : Rat) := Int.cast_le.2 (by omega)
  push_cast at hint
  linarith [mul_le_mul_of_nonneg_left hpow hd]

theorem exists_fit?_toRat (d : Decimal) (s : Nat) (hs : s ≤ 28) (h : d.scale ≤ s) :
    ∃ e, fit? d.toRat s hs = some e ∧ e.toRat = d.toRat := by
  have hround {t : Nat} (ht : d.scale ≤ t) :
      roundHalfEven (d.toRat * ((10 ^ t : Nat) : Rat)) = d.coefficient * 10 ^ (t - d.scale) := by
    rw [toRat_mul_pow d ht, roundHalfEven_intCast]
  have hvalue {t : Nat} {ht : t ≤ 28} {e : Decimal} (hle : d.scale ≤ t)
      (h : atScale? d.toRat t ht = some e) : e.toRat = d.toRat := by
    unfold atScale? at h
    simp only [hround hle] at h
    split at h
    · cases h
      have hpow : ((10 ^ t : Nat) : Rat) ≠ 0 := by positivity
      unfold toRat
      rw [div_eq_iff hpow]
      exact (toRat_mul_pow d hle).symm
    · cases h
  have hown : ∃ e, atScale? d.toRat d.scale d.scale_le = some e := by
    unfold atScale?
    simp only [hround (le_refl _), Nat.sub_self, pow_zero, mul_one]
    exact ⟨_, dif_pos d.coefficient_lt⟩
  induction s with
  | zero =>
    have hzero : d.scale = 0 := Nat.le_zero.1 h
    obtain ⟨e, he⟩ := hown
    simp only [hzero] at he
    exact ⟨e, he, hvalue h he⟩
  | succ s ih =>
    unfold fit?
    cases hat : atScale? d.toRat (s + 1) hs with
    | some e => exact ⟨e, rfl, hvalue h hat⟩
    | none =>
      -- Its own scale fits, so the scale at hand is a larger one.
      have hne : d.scale ≠ s + 1 := by
        intro heq
        obtain ⟨e, he⟩ := hown
        simp only [heq] at he
        rw [hat] at he
        cases he
      exact ih (by omega) (by omega)

/-! ## One rounding of a number -/

/-- The one rounding takes the number `q` to `r`. -/
def RoundsTo (q r : Rat) : Prop := ∃ d, ofRat? q = some d ∧ d.toRat = r

theorem RoundsTo.unique {q r r' : Rat} (h : RoundsTo q r) (h' : RoundsTo q r') : r = r' := by
  obtain ⟨d, hd, rfl⟩ := h
  obtain ⟨d', hd', rfl⟩ := h'
  rw [hd] at hd'
  rw [Option.some.inj hd']

/-- **A decimal is not rounded.** -/
theorem roundsTo_toRat (d : Decimal) : RoundsTo d.toRat d.toRat := by
  obtain ⟨e, he, hval⟩ := exists_fit?_toRat d 28 (by decide) d.scale_le
  exact ⟨e.normalize, by rw [ofRat?, he]; rfl, by rw [toRat_normalize, hval]⟩

/-- A number after the one rounding, or zero if it is too large for a decimal. -/
def rounded (q : Rat) : Rat := ((ofRat? q).map toRat).getD 0

theorem RoundsTo.rounded_eq {q r : Rat} (h : RoundsTo q r) : rounded q = r := by
  obtain ⟨d, hd, rfl⟩ := h
  rw [rounded, hd]
  rfl

theorem rounded_toRat (d : Decimal) : rounded d.toRat = d.toRat := (roundsTo_toRat d).rounded_eq

@[simp] theorem rounded_zero : rounded 0 = 0 := by
  simpa using rounded_toRat zero

theorem abs_rounded_sub_le {q : Rat} (h : |q| ≤ 7) : |rounded q - q| ≤ unit / 2 := by
  obtain ⟨d, hd, herr⟩ := ofRat?_of_small h
  rwa [RoundsTo.rounded_eq ⟨d, hd, rfl⟩]

theorem rounded_nonneg {q : Rat} (h : 0 ≤ q) : 0 ≤ rounded q := by
  unfold rounded
  cases hd : ofRat? q with
  | none => exact le_refl _
  | some d => exact toRat_nonneg_of_ofRat? hd h

/-! ## The range of decimals -/

/-- **Range.** A number that is not negative is too large for a decimal only if the integer nearest
to it is. -/
theorem exists_roundsTo {q : Rat} (hq : 0 ≤ q) (h : q < 2 ^ 96 - 1 / 2) : ∃ r, RoundsTo q r := by
  have hfits : (roundHalfEven (q * ((10 ^ 0 : Nat) : Rat))).natAbs < 2 ^ 96 := by
    rw [pow_zero, Nat.cast_one, mul_one]
    have hnonneg := roundHalfEven_nonneg hq
    have hlt := roundHalfEven_lt (m := 2 ^ 96) (q := q) (by push_cast; linarith)
    omega
  have hfit (s : Nat) (hs : s ≤ 28) : ∃ d, fit? q s hs = some d := by
    induction s with
    | zero =>
      unfold fit? atScale?
      exact ⟨_, dif_pos hfits⟩
    | succ s ih =>
      unfold fit?
      cases atScale? q (s + 1) hs with
      | some d => exact ⟨d, rfl⟩
      | none => exact ih (by omega)
  obtain ⟨d, hd⟩ := hfit 28 (by decide)
  exact ⟨_, d.normalize, by rw [ofRat?, hd]; rfl, rfl⟩

/-- A number that stands for some decimal. -/
def IsDecimal (q : Rat) : Prop := ∃ d : Decimal, d.toRat = q

theorem isDecimal_toRat (d : Decimal) : IsDecimal d.toRat := ⟨d, rfl⟩

theorem isDecimal_zero : IsDecimal 0 := ⟨zero, toRat_zero⟩

theorem isDecimal_rounded (q : Rat) : IsDecimal (rounded q) := by
  unfold rounded
  cases ofRat? q with
  | none => exact isDecimal_zero
  | some d => exact isDecimal_toRat d

theorem IsDecimal.onGrid {q : Rat} (h : IsDecimal q) : OnGrid q := by
  obtain ⟨d, rfl⟩ := h
  exact onGrid_toRat d

namespace RoundsTo

variable {q r : Rat}

theorem isDecimal (h : RoundsTo q r) : IsDecimal r := by
  obtain ⟨d, -, rfl⟩ := h
  exact ⟨d, rfl⟩

theorem nonneg (h : RoundsTo q r) (hq : 0 ≤ q) : 0 ≤ r := by
  obtain ⟨d, hd, rfl⟩ := h
  exact toRat_nonneg_of_ofRat? hd hq

theorem eq_of_isDecimal (h : RoundsTo q r) (hq : IsDecimal q) : r = q := by
  obtain ⟨d, rfl⟩ := hq
  exact h.unique (roundsTo_toRat d)

/-- A small multiple of the unit is not rounded. -/
theorem eq_of_small (h : RoundsTo q r) (hg : OnGrid q) (hq : |q| ≤ 7) : r = q := by
  obtain ⟨d, hd, hval⟩ := ofRat?_of_onGrid hg hq
  exact h.unique ⟨d, hd, hval⟩

/-- A multiple of the unit is rounded with an error of at most one unit of the result. -/
theorem error (h : RoundsTo q r) (hg : OnGrid q) (hq : 0 ≤ q) : |r - q| ≤ unit * r := by
  obtain ⟨d, hd, rfl⟩ := h
  have hexact := abs_le.1 (abs_sub_le_of_onGrid hd hq hg)
  have hless : 3 / 4 * unit * q ≤ 1 / 10 * q :=
    mul_le_mul_of_nonneg_right (by norm_num [unit]) hq
  have hback : 3 / 4 * unit * q ≤ unit * d.toRat := by
    have hle : 9 / 10 * q ≤ d.toRat := by linarith [hexact.1]
    have := mul_le_mul_of_nonneg_left hle unit_pos.le
    nlinarith [mul_nonneg unit_pos.le hq]
  exact abs_le.2 ⟨by linarith [hexact.1], by linarith [hexact.2]⟩

/-- **Order.** Rounding does not take a number below a decimal that it is not below. -/
theorem le_of_le {p : Rat} (h : RoundsTo q r) (hp : IsDecimal p) (h0 : 0 ≤ p) (hpq : p ≤ q) :
    p ≤ r := by
  obtain ⟨d, rfl⟩ := hp
  obtain ⟨e, he, rfl⟩ := h
  obtain ⟨t, -, hval, -, hmax⟩ := exists_scale_of_ofRat? he
  have hpow : (0 : Rat) < 10 ^ t := by positivity
  simp only [Nat.cast_pow, Nat.cast_ofNat] at hval
  rw [hval, le_div_iff₀ hpow]
  by_cases hscale : d.scale ≤ t
  · -- The decimal has an integer coefficient at the scale of the result.
    have hint := toRat_mul_pow d hscale
    rw [Nat.cast_pow, Nat.cast_ofNat] at hint
    rw [hint, Int.cast_le]
    apply le_roundHalfEven
    rw [← hint]
    exact mul_le_mul_of_nonneg_right hpq hpow.le
  · rcases hmax with rfl | hmax
    · exact absurd d.scale_le hscale
    · -- At the next larger scale only the decimal fits, and one digit more is at least a half.
      have hdecimal := toRat_mul_pow_le d h0 (t := t + 1) (by omega)
      have hnumber := le_mul_pow_of_not_fits (h0.trans hpq) hmax
      rw [pow_succ (10 : Rat) t, ← mul_assoc] at hdecimal hnumber
      have hround := lt_roundHalfEven (m := 7922816251426433759354395033) (q := q * 10 ^ t)
        (by push_cast; linarith)
      have hle : ((7922816251426433759354395034 : Int) : Rat) ≤ roundHalfEven (q * 10 ^ t) :=
        Int.cast_le.2 (by omega)
      push_cast at hle
      linarith

/-- **Absorption.** From 8 on, adding less than five units changes nothing. -/
theorem eq_of_add_small {p : Rat} (h : RoundsTo (q + p) r) (hq : IsDecimal q) (hlarge : 8 ≤ q)
    (hp : 0 ≤ p) (hsmall : p ≤ 49 / 10 * unit) : r = q := by
  obtain ⟨d, rfl⟩ := hq
  obtain ⟨e, he, rfl⟩ := h
  obtain ⟨t, ht, hval, hfits, hmax⟩ := exists_scale_of_ofRat? he
  have hd : 0 ≤ d.toRat := by linarith
  have hown {s : Nat} (hs : s ≤ d.scale) := toRat_mul_pow_le d hd hs
  have hstep {s : Nat} (hs : s ≤ 27) : p * 10 ^ s ≤ 49 / 100 := by
    have hpow : (10 : Rat) ^ s ≤ 10 ^ 27 := pow_le_pow_right₀ (by norm_num) hs
    calc p * 10 ^ s
      _ ≤ 49 / 10 * unit * 10 ^ 27 := mul_le_mul hsmall hpow (by positivity) (by norm_num [unit])
      _ = 49 / 100 := by norm_num [unit]
  have hrange : t ≠ 28 := by
    rintro rfl
    have := le_roundHalfEven (m := 2 ^ 96) (q := (d.toRat + p) * ((10 ^ 28 : Nat) : Rat))
      (by push_cast; linarith)
    omega
  have hnext := le_mul_pow_of_not_fits (by linarith) (hmax.resolve_left hrange)
  have hscale : d.scale ≤ t := by
    by_contra hlt
    have h27 : d.scale ≤ 27 := by
      by_contra h28
      have := hown (s := 28) (by omega)
      linarith
    have := hown (s := t + 1) (by omega)
    have := hstep (s := t + 1) (by omega)
    linarith
  have hint := toRat_mul_pow d hscale
  have hround : roundHalfEven ((d.toRat + p) * ((10 ^ t : Nat) : Rat)) =
      d.coefficient * 10 ^ (t - d.scale) := by
    have hless := hstep (s := t) (by omega)
    have hnonneg : 0 ≤ p * 10 ^ t := by positivity
    apply roundHalfEven_eq <;> rw [← hint] <;> push_cast <;> linarith
  rw [hval, hround, ← hint, mul_div_cancel_right₀ _ (by positivity)]

end RoundsTo

/-! ## Running sums -/

/-- Adding numbers to `q` one after the other, every sum rounded, ends at the last number. -/
inductive RunningSum : Rat → List Rat → Rat → Prop
  | nil (q : Rat) : RunningSum q [] q
  | cons {q p m r : Rat} {ps : List Rat} :
    RoundsTo (q + p) m → RunningSum m ps r → RunningSum q (p :: ps) r

namespace RunningSum

variable {q r : Rat} {ps : List Rat}

/-- Numbers that may be added: multiples of the unit that are not negative. -/
def Addends (ps : List Rat) : Prop := ∀ p ∈ ps, 0 ≤ p ∧ OnGrid p

/-- A running sum does not become smaller. -/
theorem le (h : RunningSum q ps r) (hq : IsDecimal q) (h0 : 0 ≤ q) (hps : ∀ p ∈ ps, 0 ≤ p) :
    q ≤ r := by
  induction h with
  | nil => exact le_refl _
  | cons hm _ ih =>
    obtain ⟨hp, hps⟩ := List.forall_mem_cons.1 hps
    have hle := hm.le_of_le hq h0 (by linarith)
    exact hle.trans (ih hm.isDecimal (h0.trans hle) hps)

/-- A running sum is no smaller than what is added last, nor than what is added anywhere. -/
theorem mem_le {p : Rat} (h : RunningSum q ps r) (hq : IsDecimal q) (h0 : 0 ≤ q)
    (hps : ∀ p ∈ ps, 0 ≤ p) (hp : p ∈ ps) (hdecimal : IsDecimal p) : p ≤ r := by
  induction h with
  | nil => cases hp
  | cons hm hrest ih =>
    obtain ⟨hfirst, hothers⟩ := List.forall_mem_cons.1 hps
    have hnonneg := h0.trans (hm.le_of_le hq h0 (by linarith))
    rcases List.mem_cons.1 hp with rfl | hp
    · have hle := hm.le_of_le hdecimal hfirst (by linarith)
      exact hle.trans (hrest.le hm.isDecimal hnonneg hothers)
    · exact ih hm.isDecimal hnonneg hothers hp

/-- **Small running sums are exact.** -/
theorem eq_of_small (h : RunningSum q ps r) (hq : OnGrid q) (h0 : 0 ≤ q) (hps : Addends ps)
    (hsmall : q + ps.sum ≤ 7) : r = q + ps.sum := by
  induction h with
  | nil => rw [List.sum_nil, add_zero]
  | cons hm _ ih =>
    obtain ⟨⟨hp, hgrid⟩, hps⟩ := List.forall_mem_cons.1 hps
    have hsum := List.sum_nonneg fun x hx => (hps x hx).1
    rw [List.sum_cons, ← add_assoc] at hsmall ⊢
    have hexact := hm.eq_of_small (hq.add hgrid) (by rw [abs_of_nonneg] <;> linarith)
    rw [← hexact] at hsmall ⊢
    exact ih (hexact ▸ hq.add hgrid) (by linarith) hps hsmall

/-- **Error of a running sum.** It is off by at most one unit of the result for each step. -/
theorem error (h : RunningSum q ps r) (hq : IsDecimal q) (h0 : 0 ≤ q) (hps : Addends ps) :
    |r - (q + ps.sum)| ≤ ps.length * unit * r := by
  induction h with
  | nil => simp
  | @cons q p m r ps hm hrest ih =>
    obtain ⟨⟨hp, hgrid⟩, hps⟩ := List.forall_mem_cons.1 hps
    have hpos := fun x hx => (hps x hx).1
    have hm0 := hm.nonneg (by linarith)
    have hstep := hm.error (hq.onGrid.add hgrid) (by linarith)
    have hlast := hrest.le hm.isDecimal hm0 hpos
    have hmr := mul_le_mul_of_nonneg_left hlast unit_pos.le
    rw [List.sum_cons, List.length_cons, Nat.cast_succ]
    calc |r - (q + (p + ps.sum))|
      _ = |(r - (m + ps.sum)) + (m - (q + p))| := by congr 1; ring
      _ ≤ |r - (m + ps.sum)| + |m - (q + p)| := abs_add_le _ _
      _ ≤ ps.length * unit * r + unit * r :=
        add_le_add (ih hm.isDecimal hm0 hps) (hstep.trans hmr)
      _ = (ps.length + 1) * unit * r := by ring

/-- One step of two sums side by side. The weight `w` moves the total from `t` to `n`, and its share
`p` of `T` moves the sum from `q` to `m`. A share that is too small to move the total is too small
to move a sum of 8 or more, so the sum is bounded by how far the total has come. -/
theorem bound_step {T t w n q p m : Rat} (hT : 0 < T) (hn : RoundsTo (t + w) n) (hnT : n ≤ T)
    (hm : RoundsTo (q + p) m) (ht : IsDecimal t) (ht0 : 0 ≤ t) (hw : OnGrid w) (hw0 : 0 ≤ w)
    (hq : IsDecimal q) (hq0 : 0 ≤ q) (hp : OnGrid p) (hp0 : 0 ≤ p)
    (hshare : p ≤ w / T + 8 / 5 * unit) (hbound : q ≤ 9 + 14 * (t / T)) :
    m ≤ 9 + 14 * (n / T) := by
  have hu : unit ≤ 1 / 1000 := by norm_num [unit]
  have hu0 := unit_pos
  have htn : t / T ≤ n / T :=
    div_le_div_of_nonneg_right (hn.le_of_le ht ht0 (by linarith)) hT.le
  have hn1 : n / T ≤ 1 := (div_le_one hT).2 hnT
  have ht' : 0 ≤ t / T := div_nonneg ht0 hT.le
  -- The total gains the weight, up to a unit of all.
  have hgain : t / T + w / T - unit ≤ n / T := by
    have herror := (abs_le.1 (hn.error (ht.onGrid.add hw) (by linarith))).1
    have hunit := mul_le_mul_of_nonneg_left hnT hu0.le
    rw [← add_div, sub_le_iff_le_add, div_le_iff₀ hT, add_mul, div_mul_cancel₀ _ hT.ne']
    linarith
  have herror := (abs_le.1 (hm.error (hq.onGrid.add hp) (by linarith))).2
  have hthousand : unit * m ≤ 1 / 1000 * m :=
    mul_le_mul_of_nonneg_right hu (hm.nonneg (by linarith))
  by_cases hsmall : p ≤ 49 / 10 * unit
  · by_cases hlarge : 8 ≤ q
    · rw [hm.eq_of_add_small hq hlarge hp0 hsmall]
      linarith
    · linarith
  · have hm25 : m ≤ 25 := by linarith
    have hunit := mul_le_mul_of_nonneg_left hm25 hu0.le
    linarith

/-- **A running sum of shares of a total stays small**, however many they are. The shares are those
of weights whose running sum does not pass the total, up to a little more than one unit and a
half. -/
theorem le_of_parallel {T t t' : Rat} {shares : List (Rat × Rat)} (hT : 0 < T)
    (ht : RunningSum t (shares.map Prod.fst) t') (htT : t' ≤ T)
    (h : RunningSum q (shares.map Prod.snd) r) (htd : IsDecimal t) (ht0 : 0 ≤ t)
    (hw : Addends (shares.map Prod.fst)) (hq : IsDecimal q) (hq0 : 0 ≤ q)
    (hp : Addends (shares.map Prod.snd)) (hshare : ∀ s ∈ shares, s.2 ≤ s.1 / T + 8 / 5 * unit)
    (hbound : q ≤ 9 + 14 * (t / T)) : r ≤ 9 + 14 * (t' / T) := by
  induction shares generalizing q t with
  | nil =>
    cases h
    cases ht
    exact hbound
  | cons s shares ih =>
    rw [List.map_cons] at h ht hw hp
    obtain ⟨⟨hw0, hwg⟩, hw⟩ := List.forall_mem_cons.1 hw
    obtain ⟨⟨hp0, hpg⟩, hp⟩ := List.forall_mem_cons.1 hp
    obtain ⟨hfirst, hshare⟩ := List.forall_mem_cons.1 hshare
    cases h with
    | cons hm h =>
      cases ht with
      | cons hn ht =>
        have hn0 := hn.nonneg (by linarith)
        have hnT := (ht.le hn.isDecimal hn0 fun p hp => (hw p hp).1).trans htT
        exact ih ht h hn.isDecimal hn0 hw hm.isDecimal (hm.nonneg (by linarith)) hp hshare
          (bound_step hT hn hnT hm htd ht0 hwg hw0 hq hq0 hpg hp0 hfirst hbound)

end RunningSum

end Decimal

end AllocScript
