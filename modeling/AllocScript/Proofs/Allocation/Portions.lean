import AllocScript.Proofs.Allocation.Positivity
import AllocScript.Proofs.Allocation.Symbols
import AllocScript.Proofs.Allocation.Weighting
import AllocScript.Proofs.Decimal.Sums

/-!
# What sharing out adds to one symbol

`weightOf a x` is the weight of the symbol `x` as a number, zero if there is none. A child that gets
a share adds a `portion` of it to each of its symbols: the fraction of the child that the symbol
has, rounded, times the share, rounded again. So the weight that a symbol ends with is a running sum
of portions (`addShares_runningSum`), and the exact sum of them if that is small
(`addShares_exact`).

`abs_portion_sub_le`: a portion is the product of the share and the fraction up to a little more
than a unit and a half.
-/

namespace AllocScript

namespace Allocation

open Decimal

/-! ## The weight of one symbol -/

/-- The weight of a symbol, zero if it is missing. -/
def weightOf (a : Allocation) (symbol : String) : Rat := ((a.weight? symbol).getD .zero).toRat

variable {a b child : Allocation} {symbol x : String}

@[simp] theorem weightOf_empty (x : String) : empty.weightOf x = 0 := toRat_zero

theorem isDecimal_weightOf (a : Allocation) (x : String) : IsDecimal (a.weightOf x) :=
  isDecimal_toRat _

theorem weightOf_of_mem (h : x ∈ a.symbols) : ∃ w ∈ a.weights.values, a.weightOf x = w.toRat := by
  cases hget : a.weight? x with
  | some w =>
    refine ⟨w, List.mem_map.2 ⟨_, TextMap.mem_of_lookup_eq_some hget, rfl⟩, ?_⟩
    rw [weightOf, hget]
    rfl
  | none => exact absurd h (TextMap.get?_eq_none_iff.1 hget)

theorem weightOf_of_not_mem (h : x ∉ a.symbols) : a.weightOf x = 0 := by
  rw [weightOf, weight?, TextMap.get?_eq_none_iff.2 h]
  exact toRat_zero

theorem weightOf_entry {e : String × Decimal} (he : e ∈ a.weights.entries) :
    a.weightOf e.1 = e.2.toRat := by
  rw [weightOf, weight?, TextMap.get?, TextMap.lookup_of_mem a.weights.ascending he]
  rfl

theorem Nonneg.weightOf_nonneg (h : a.Nonneg) (x : String) : 0 ≤ a.weightOf x := by
  by_cases hx : x ∈ a.symbols
  · obtain ⟨w, hw, heq⟩ := weightOf_of_mem hx
    exact heq ▸ h w hw
  · exact (weightOf_of_not_mem hx).ge

theorem Positive.mem_symbols_iff (h : a.Positive) : x ∈ a.symbols ↔ 0 < a.weightOf x := by
  constructor
  · intro hx
    obtain ⟨w, hw, heq⟩ := weightOf_of_mem hx
    exact heq ▸ h w hw
  · intro hpos
    by_contra hx
    exact hpos.ne' (weightOf_of_not_mem hx)

/-! ## Fractions and portions -/

/-- The part of the whole weight that a symbol has, without any rounding. -/
def fraction (a : Allocation) (x : String) : Rat := a.weightOf x / a.exactTotal

/-- What a child that gets a share adds to the weight of a symbol. -/
def portion (share : Rat) (child : Allocation) (x : String) : Rat :=
  rounded (rounded (child.fraction x) * share)

namespace Sharable

theorem fraction_nonneg (h : child.Sharable) (x : String) : 0 ≤ child.fraction x :=
  div_nonneg (Nonneg.weightOf_nonneg h.positive.nonneg x) (by linarith [h.low])

theorem fraction_le_one (h : child.Sharable) (x : String) : child.fraction x ≤ 1 := by
  have htotal : 0 < child.exactTotal := by linarith [h.low]
  rw [fraction, div_le_one htotal]
  by_cases hx : x ∈ child.symbols
  · obtain ⟨w, hw, heq⟩ := weightOf_of_mem hx
    exact heq ▸ le_exactSum h.positive.nonneg hw
  · exact (weightOf_of_not_mem hx).le.trans htotal.le

theorem abs_rounded_fraction_sub_le (h : child.Sharable) (x : String) :
    |rounded (child.fraction x) - child.fraction x| ≤ unit / 2 := by
  refine abs_rounded_sub_le ?_
  rw [abs_of_nonneg (h.fraction_nonneg x)]
  exact (h.fraction_le_one x).trans (by norm_num)

/-- A rescaled child has the rounded fractions as weights. -/
theorem weightOf_normalized (h : child.Sharable) (hb : child.normalized = .ok b) (x : String) :
    b.weightOf x = rounded (child.fraction x) := by
  obtain ⟨t, ht, htval⟩ := total_of_small h.positive (by linarith [h.high])
  have hne : ¬ t.isZero = true := fun hz => by
    have hzero := toRat_eq_zero_iff.2 hz
    linarith [h.low]
  rw [normalized, ht, ok_bind, if_neg hne] at hb
  obtain ⟨ws, hmap, rfl⟩ := exists_ok_of_map hb
  unfold fraction weightOf weight?
  rcases TextMap.get?_mapValues hmap x with ⟨hold, hnew⟩ | ⟨v, w, hold, hquotient, hnew⟩
  · rw [hold, hnew]
    simp
  · rw [hold, hnew, ← htval]
    exact (RoundsTo.rounded_eq ⟨w, ofRat?_of_quotient hquotient, rfl⟩).symm

end Sharable

theorem portion_zero (child : Allocation) (x : String) : portion 0 child x = 0 := by
  rw [portion, mul_zero, rounded_zero]

theorem portion_nonneg {share : Rat} (h : child.Sharable) (hshare : 0 ≤ share) (x : String) :
    0 ≤ portion share child x :=
  rounded_nonneg (mul_nonneg (rounded_nonneg (h.fraction_nonneg x)) hshare)

theorem isDecimal_portion (share : Rat) (child : Allocation) (x : String) :
    IsDecimal (portion share child x) := isDecimal_rounded _

/-- **Error of a portion.** For a share within half a unit of `ω`, a portion is `ω` times the
fraction, up to three roundings of half a unit each. -/
theorem abs_portion_sub_le {share ω : Rat} (h : child.Sharable) (hshare : 0 ≤ share) (hω : ω ≤ 1)
    (hnear : |share - ω| ≤ unit / 2) (x : String) :
    |portion share child x - ω * child.fraction x| ≤ 8 / 5 * unit := by
  have hf0 := h.fraction_nonneg x
  have hf1 := h.fraction_le_one x
  have herror := h.abs_rounded_fraction_sub_le x
  have hν0 : 0 ≤ rounded (child.fraction x) := rounded_nonneg hf0
  unfold portion
  generalize child.fraction x = f at hf0 hf1 herror hν0 ⊢
  generalize rounded f = ν at herror hν0 ⊢
  have hu := unit_pos
  have hu1 : unit ≤ 1 / 10 := by norm_num [unit]
  obtain ⟨herror1, herror2⟩ := abs_le.1 herror
  obtain ⟨hnear1, hnear2⟩ := abs_le.1 hnear
  have hshare1 : share ≤ 11 / 10 := by linarith
  have hproduct : |ν * share| ≤ 7 := by
    rw [abs_of_nonneg (mul_nonneg hν0 hshare)]
    have hν1 : ν ≤ 11 / 10 := by linarith
    nlinarith
  have hfirst := abs_rounded_sub_le hproduct
  have hsecond : |(ν - f) * share| ≤ 11 / 10 * (unit / 2) := by
    rw [abs_mul, abs_of_nonneg hshare, mul_comm]
    exact mul_le_mul hshare1 herror (abs_nonneg _) (by norm_num)
  have hthird : |(share - ω) * f| ≤ unit / 2 := by
    rw [abs_mul, abs_of_nonneg hf0]
    exact (mul_le_mul hnear hf1 hf0 (by positivity)).trans (mul_one _).le
  calc |rounded (ν * share) - ω * f|
    _ = |(rounded (ν * share) - ν * share) + ((ν - f) * share + (share - ω) * f)| := by
      congr 1; ring
    _ ≤ |rounded (ν * share) - ν * share| + (|(ν - f) * share| + |(share - ω) * f|) :=
      (abs_add_le _ _).trans (by gcongr; exact abs_add_le _ _)
    _ ≤ 8 / 5 * unit := by linarith

theorem fraction_single (symbol x : String) :
    (single symbol).fraction x = if x = symbol then 1 else 0 := by
  have htotal : (single symbol).exactTotal = 1 := by
    simp [exactTotal, single, TextMap.single, TextMap.values]
  rw [fraction, htotal, div_one, weightOf, weight?, TextMap.get?, single, TextMap.single,
    TextMap.lookup_cons_eq_ite]
  split
  · exact toRat_one
  · exact toRat_zero

theorem portion_single {share : Decimal} (symbol x : String) :
    portion share.toRat (single symbol) x = if x = symbol then share.toRat else 0 := by
  rw [portion, fraction_single]
  split
  · have hone : rounded 1 = 1 := by simpa using rounded_toRat one
    rw [hone, one_mul, rounded_toRat]
  · rw [rounded_zero, zero_mul, rounded_zero]

/-! ## One child -/

/-- The greatest weight to which adding cannot fail. -/
def addLimit : Rat := 10 ^ 27

/-- Adding to the weight of a symbol rounds its sum, and the other symbols keep theirs. -/
theorem add_weightOf {w : Decimal} (symbol : String) (ha0 : 0 ≤ a.weightOf symbol)
    (ha : a.weightOf symbol ≤ addLimit) (hw0 : 0 ≤ w.toRat) (hw : w.toRat ≤ 7) :
    ∃ b, a.add symbol w = .ok b ∧ RoundsTo (a.weightOf symbol + w.toRat) (b.weightOf symbol) ∧
      ∀ x, x ≠ symbol → b.weightOf x = a.weightOf x := by
  unfold add
  by_cases hpos : w.isPositive = true
  · obtain ⟨r, d, hd, -⟩ := exists_roundsTo (q := a.weightOf symbol + w.toRat) (by linarith)
      (by unfold addLimit at ha; linarith)
    have hadd : ((a.weight? symbol).getD .zero).add? w = some d := hd
    have hother (x : String) : (Allocation.mk (a.weights.insert symbol d) a.metadata).weight? x =
        if x = symbol then some d else a.weight? x := TextMap.get?_insert ..
    rw [if_pos hpos, sum, hadd]
    refine ⟨_, rfl, ⟨d, hd, ?_⟩, fun x hx => ?_⟩
    · rw [weightOf, hother, if_pos rfl]
      rfl
    · rw [weightOf, hother, if_neg hx]
      rfl
  · have hzero : w.toRat = 0 := le_antisymm (not_lt.1 (mt isPositive_iff.2 hpos)) hw0
    rw [if_neg hpos, hzero, add_zero]
    exact ⟨a, rfl, roundsTo_toRat _, fun _ _ => rfl⟩

/-- Adding weights times a factor rounds one sum for each symbol. -/
theorem addScaled_weightOf {factor : Decimal} {entries : List (String × Decimal)}
    (hf0 : 0 ≤ factor.toRat) (hf : factor.toRat ≤ 2)
    (hentries : (entries.map Prod.fst).Pairwise (· < ·))
    (hw : ∀ e ∈ entries, 0 ≤ e.2.toRat ∧ e.2.toRat ≤ 2)
    (ha : ∀ x ∈ entries.map Prod.fst, 0 ≤ a.weightOf x ∧ a.weightOf x ≤ addLimit) :
    ∃ b, a.addScaled factor entries = .ok b ∧ ∀ x, RoundsTo
      (a.weightOf x + rounded (((entries.lookup x).getD .zero).toRat * factor.toRat))
      (b.weightOf x) := by
  induction entries generalizing a with
  | nil =>
    refine ⟨a, rfl, fun x => ?_⟩
    have hnone : (([] : List (String × Decimal)).lookup x).getD .zero = .zero := rfl
    rw [hnone, toRat_zero, zero_mul, rounded_zero, add_zero]
    exact roundsTo_toRat _
  | cons e rest ih =>
    obtain ⟨symbol, w⟩ := e
    rw [List.map_cons] at hentries ha
    obtain ⟨hfirst, hrest⟩ := List.pairwise_cons.1 hentries
    obtain ⟨⟨hw0, hw2⟩, hw⟩ := List.forall_mem_cons.1 hw
    obtain ⟨⟨ha0, ha1⟩, ha⟩ := List.forall_mem_cons.1 ha
    have hproduct : w.toRat * factor.toRat ≤ 4 := by nlinarith
    obtain ⟨p, hp, hp0, herror⟩ := product_of_small (mul_nonneg hw0 hf0) (by linarith)
    have hvalue : rounded (w.toRat * factor.toRat) = p.toRat :=
      RoundsTo.rounded_eq ⟨p, ofRat?_of_product hp, rfl⟩
    have hp7 : p.toRat ≤ 7 := by
      have hu : unit ≤ 1 := by norm_num [unit]
      linarith [(abs_le.1 herror).2]
    obtain ⟨c, hc, hsum, hothers⟩ := add_weightOf symbol ha0 ha1 hp0 hp7
    have hfar (x : String) (hx : x ∈ rest.map Prod.fst) : x ≠ symbol := by
      rintro rfl
      exact String.lt_irrefl _ (hfirst x hx)
    obtain ⟨b, hb, hweights⟩ := ih (a := c) hrest hw fun x hx => by
      rw [hothers x (hfar x hx)]
      exact ha x hx
    refine ⟨b, by rw [addScaled, hp, ok_bind, hc]; exact hb, fun x => ?_⟩
    have hx := hweights x
    rw [TextMap.lookup_cons_eq_ite]
    by_cases heq : x = symbol
    · -- The symbol does not come again.
      subst heq
      rw [TextMap.lookup_eq_none_of_forall_lt hfirst, Option.getD_none, toRat_zero, zero_mul,
        rounded_zero, add_zero] at hx
      rw [if_pos rfl, Option.getD_some, hvalue, hx.eq_of_isDecimal (isDecimal_weightOf c x)]
      exact hsum
    · rw [if_neg heq, ← hothers x heq]
      exact hx

/-- **One child** that gets a share adds its portion to every symbol. -/
theorem addShares_cons_ok {share : Decimal} (rest : List (Except Overflow Decimal × Allocation))
    (hs0 : 0 ≤ share.toRat) (hs : share.toRat ≤ 2) (hchild : child.Sharable)
    (ha : ∀ x, 0 ≤ a.weightOf x ∧ a.weightOf x ≤ addLimit) :
    ∃ b : Allocation, a.addShares ((.ok share, child) :: rest) = b.addShares rest ∧
      ∀ x, RoundsTo (a.weightOf x + portion share.toRat child x) (b.weightOf x) := by
  obtain ⟨c, hc, -⟩ := normalized_spec hchild.positive hchild.low hchild.high
  have hweights := hchild.weightOf_normalized hc
  have hentries : ∀ e ∈ c.weights.entries, 0 ≤ e.2.toRat ∧ e.2.toRat ≤ 2 := fun e he => by
    have hvalue : e.2.toRat = rounded (child.fraction e.1) := by
      rw [← hweights, weightOf_entry he]
    have herror := abs_le.1 (hchild.abs_rounded_fraction_sub_le e.1)
    have hone := hchild.fraction_le_one e.1
    have hu : unit ≤ 1 := by norm_num [unit]
    rw [hvalue]
    exact ⟨rounded_nonneg (hchild.fraction_nonneg _), by linarith [herror.2]⟩
  obtain ⟨b, hb, hsums⟩ := addScaled_weightOf hs0 hs c.weights.ascending hentries fun x _ => ha x
  refine ⟨b, ?_, fun x => ?_⟩
  · rw [addShares, hc, ok_bind, ok_bind, mergeScaled, hb, ok_bind]
  · rw [portion, ← hweights x]
    exact hsums x

/-- A share of zero adds nothing. -/
theorem addShares_cons_zero {share : Decimal} (rest : List (Except Overflow Decimal × Allocation))
    (hshare : share.toRat = 0) (hchild : child.Sharable) :
    a.addShares ((.ok share, child) :: rest) = a.addShares rest := by
  obtain ⟨c, hc, -⟩ := normalized_spec hchild.positive hchild.low hchild.high
  have hmerge (entries : List (String × Decimal)) : a.addScaled share entries = .ok a := by
    induction entries with
    | nil => rfl
    | cons e rest ih =>
      have hzero : e.2.toRat * share.toRat = 0 := by rw [hshare, mul_zero]
      obtain ⟨p, hp, hp0, herror⟩ := product_of_small hzero.ge (hzero.le.trans (by norm_num))
      have hround : p.toRat = 0 := by
        rw [← RoundsTo.rounded_eq ⟨p, ofRat?_of_product hp, rfl⟩, hzero, rounded_zero]
      have hadd : a.add e.1 p = .ok a := if_neg fun hpos => (isPositive_iff.1 hpos).ne' hround
      rw [addScaled, hp, ok_bind, hadd]
      exact ih
  rw [addShares, hc, ok_bind, ok_bind, mergeScaled, hmerge, ok_bind]

/-! ## All children -/

/-- **Sharing out is a running sum of portions** for every symbol, as long as those sums stay below
the limit of adding. -/
theorem addShares_runningSum {shares : List (Decimal × Allocation)}
    (hs : ∀ s ∈ shares, 0 ≤ s.1.toRat ∧ s.1.toRat ≤ 2 ∧ s.2.Sharable)
    (ha : ∀ x, 0 ≤ a.weightOf x)
    (hlimit : ∀ x k r, RunningSum (a.weightOf x)
      ((shares.take k).map fun s => portion s.1.toRat s.2 x) r → r ≤ addLimit) :
    ∃ b, a.addShares (shares.map fun s => (.ok s.1, s.2)) = .ok b ∧ ∀ x, RunningSum (a.weightOf x)
      (shares.map fun s => portion s.1.toRat s.2 x) (b.weightOf x) := by
  induction shares generalizing a with
  | nil => exact ⟨a, rfl, fun x => .nil _⟩
  | cons s rest ih =>
    obtain ⟨⟨hs0, hs2, hchild⟩, hs⟩ := List.forall_mem_cons.1 hs
    obtain ⟨c, hc, hstep⟩ := addShares_cons_ok (rest.map fun s => (.ok s.1, s.2)) hs0 hs2 hchild
      fun x => ⟨ha x, hlimit x 0 _ (.nil _)⟩
    have hc0 (x : String) : 0 ≤ c.weightOf x :=
      (hstep x).nonneg (add_nonneg (ha x) (portion_nonneg hchild hs0 x))
    obtain ⟨b, hb, hsums⟩ := ih hs hc0 fun x k r h => hlimit x (k + 1) r (.cons (hstep x) h)
    exact ⟨b, hc.trans hb, fun x => .cons (hstep x) (hsums x)⟩

theorem addends_portions {shares : List (Decimal × Allocation)}
    (hs : ∀ s ∈ shares, 0 ≤ s.1.toRat ∧ s.1.toRat ≤ 2 ∧ s.2.Sharable) (x : String) :
    RunningSum.Addends (shares.map fun s => portion s.1.toRat s.2 x) := by
  intro p hp
  obtain ⟨s, hmem, rfl⟩ := List.mem_map.1 hp
  exact ⟨portion_nonneg (hs s hmem).2.2 (hs s hmem).1 x, (isDecimal_portion ..).onGrid⟩

/-- **Small sums of portions are exact**, so they do not depend on the order of the children. -/
theorem addShares_exact {shares : List (Decimal × Allocation)}
    (hs : ∀ s ∈ shares, 0 ≤ s.1.toRat ∧ s.1.toRat ≤ 2 ∧ s.2.Sharable)
    (hsmall : ∀ x, (shares.map fun s => portion s.1.toRat s.2 x).sum ≤ 7) :
    ∃ b, addShares .empty (shares.map fun s => (.ok s.1, s.2)) = .ok b ∧
      ∀ x, b.weightOf x = (shares.map fun s => portion s.1.toRat s.2 x).sum := by
  have hexact {x : String} {ps : List Rat} {r : Rat} (hps : RunningSum.Addends ps)
      (hsum : ps.sum ≤ 7) (h : RunningSum (empty.weightOf x) ps r) : r = ps.sum := by
    rw [weightOf_empty] at h
    rw [h.eq_of_small isDecimal_zero.onGrid (le_refl _) hps (by rwa [zero_add]), zero_add]
  obtain ⟨b, hb, hsums⟩ := addShares_runningSum (a := .empty) hs (fun x => (weightOf_empty x).ge)
    fun x k r h => by
      have haddends := addends_portions hs x
      have hsub := (List.take_sublist k shares).map fun s => portion s.1.toRat s.2 x
      have hle := hsub.sum_le_sum fun p hp => (haddends p hp).1
      have hsum := hle.trans (hsmall x)
      rw [hexact (fun p hp => haddends p (hsub.subset hp)) hsum h]
      exact hsum.trans (by norm_num [addLimit])
  exact ⟨b, hb, fun x => hexact (addends_portions hs x) (hsmall x) (hsums x)⟩

end Allocation

end AllocScript
