import AllocScript.Proofs.Allocation.Total

/-!
# Which operations keep weights positive

`add` and `mergeScaled` bring in positive weights only, whatever they are given. `normalized`
divides by the sum, and a share of at most half a unit is rounded to zero: the symbol stays, with a
weight of zero. No operation gives a negative weight, however large or small the weights are.

* `gains_add`, `gains_mergeScaled`: a weight behind them was there before or is positive.
* `normalized_positive_iff`: rescaling keeps weights positive if all shares are above half a unit.
* `Built`: what the operations make of empty allocations and of single symbols.
-/

namespace AllocScript

namespace Allocation

open Decimal

/-- No symbol has a weight below zero. -/
def Nonneg (a : Allocation) : Prop := ∀ w ∈ a.weights.values, 0 ≤ w.toRat

/-- What `b` has and `a` has not is positive weights. -/
def Gains (a b : Allocation) : Prop := ∀ v ∈ b.weights.values, v ∈ a.weights.values ∨ 0 < v.toRat

namespace Gains

variable {a b c : Allocation}

theorem refl (a : Allocation) : Gains a a := fun _ hv => .inl hv

theorem trans (hab : Gains a b) (hbc : Gains b c) : Gains a c :=
  fun v hv => (hbc v hv).elim (hab v) .inr

theorem nonneg (h : Gains a b) (ha : a.Nonneg) : b.Nonneg :=
  fun v hv => (h v hv).elim (ha v) le_of_lt

theorem positive (h : Gains a b) (ha : a.Positive) : b.Positive :=
  fun v hv => (h v hv).elim (ha v) id

end Gains

/-! ## Adding -/

/-- A sum that is not negative is never rounded to less than half of it. -/
theorem add_le_two_mul_of_sum {v w c : Decimal} (h : sum v w = .ok c)
    (hvw : 0 ≤ v.toRat + w.toRat) : v.toRat + w.toRat ≤ 2 * c.toRat := by
  have herror := abs_le.1 (add?_error (add?_of_sum h) hvw)
  have hsmall : unit * (v.toRat + w.toRat) ≤ 1 / 2 * (v.toRat + w.toRat) :=
    mul_le_mul_of_nonneg_right (by norm_num [unit]) hvw
  linarith [herror.1]

/-- A weight behind an addition was there before or is positive. -/
theorem gains_add {a b : Allocation} {symbol : String} {w : Decimal} (ha : a.Nonneg)
    (h : a.add symbol w = .ok b) : Gains a b := by
  unfold add at h
  by_cases hw : w.isPositive = true
  · rw [if_pos hw] at h
    obtain ⟨c, hsum, rfl⟩ := exists_ok_of_map h
    have hold : 0 ≤ ((a.weight? symbol).getD zero).toRat := by
      cases hget : a.weight? symbol with
      | none => simp
      | some v => exact ha v (List.mem_map.2 ⟨_, TextMap.mem_of_lookup_eq_some hget, rfl⟩)
    have hc : 0 < c.toRat := by
      have hw := isPositive_iff.1 hw
      have hle := add_le_two_mul_of_sum hsum (by linarith)
      linarith
    intro v hv
    obtain ⟨e, he, rfl⟩ := List.mem_map.1 hv
    rcases TextMap.mem_insertEntry he with hnew | hmem
    · exact .inr (hnew ▸ hc)
    · exact .inl (List.mem_map_of_mem hmem)
  · rw [if_neg hw] at h
    cases h
    exact .refl _

theorem gains_addScaled {a b : Allocation} {factor : Decimal} {entries : List (String × Decimal)}
    (ha : a.Nonneg) (h : a.addScaled factor entries = .ok b) : Gains a b := by
  induction entries generalizing a with
  | nil =>
    cases h
    exact .refl _
  | cons e rest ih =>
    obtain ⟨symbol, w⟩ := e
    obtain ⟨p, -, h⟩ := exists_ok_of_bind h
    obtain ⟨c, hadd, h⟩ := exists_ok_of_bind h
    have hc := gains_add ha hadd
    exact hc.trans (ih (hc.nonneg ha) h)

/-- A weight behind a merge was there before or is positive, whatever has been merged. -/
theorem gains_mergeScaled {a b other : Allocation} {factor : Decimal} (ha : a.Nonneg)
    (h : a.mergeScaled other factor = .ok b) : Gains a b := gains_addScaled ha h

/-- A weight behind sharing out was there before or is positive. -/
theorem gains_addShares {a b : Allocation} {shares : List (Except Overflow Decimal × Allocation)}
    (ha : a.Nonneg) (h : a.addShares shares = .ok b) : Gains a b := by
  induction shares generalizing a with
  | nil =>
    cases h
    exact .refl _
  | cons s rest ih =>
    obtain ⟨child, -, h⟩ := exists_ok_of_bind h
    obtain ⟨share, -, h⟩ := exists_ok_of_bind h
    obtain ⟨c, hmerge, h⟩ := exists_ok_of_bind h
    have hc := gains_mergeScaled ha hmerge
    exact hc.trans (ih (hc.nonneg ha) h)

/-! ## Rescaling -/

/-- A running total of weights that are not negative is zero only if all of them are. -/
theorem eq_zero_of_sumFrom {s t : Decimal} {ds : List Decimal} (hs : 0 ≤ s.toRat)
    (hds : ∀ d ∈ ds, 0 ≤ d.toRat) (h : sumFrom s ds = .ok t) :
    0 ≤ t.toRat ∧ (t.toRat = 0 → s.toRat = 0 ∧ ∀ d ∈ ds, d.toRat = 0) := by
  induction ds generalizing s with
  | nil =>
    cases h
    exact ⟨hs, fun ht => ⟨ht, fun d hd => absurd hd List.not_mem_nil⟩⟩
  | cons d ds ih =>
    obtain ⟨hd, hds⟩ := List.forall_mem_cons.1 hds
    obtain ⟨c, hsum, h⟩ := exists_ok_of_bind h
    have hle := add_le_two_mul_of_sum hsum (by linarith)
    obtain ⟨ht, hzero⟩ := ih (s := c) (by linarith) hds h
    refine ⟨ht, fun h0 => ?_⟩
    obtain ⟨hc, hrest⟩ := hzero h0
    rw [hc] at hle
    exact ⟨by linarith, List.forall_mem_cons.2 ⟨by linarith, hrest⟩⟩

/-- A quotient is zero if the exact one is at most half a unit. -/
theorem quotient_eq_zero_iff {w t v : Decimal} (h : quotient w t = .ok v) (hw : 0 ≤ w.toRat)
    (ht : 0 < t.toRat) : 0 ≤ v.toRat ∧ (v.toRat = 0 ↔ w.toRat / t.toRat ≤ unit / 2) := by
  have hround := ofRat?_of_quotient h
  have hq : 0 ≤ w.toRat / t.toRat := div_nonneg hw ht.le
  exact ⟨toRat_nonneg_of_ofRat? hround hq, toRat_ofRat?_eq_zero_iff hround hq⟩

end Allocation

namespace TextMap

variable {β γ ε : Type}

theorem mapEntries_values {f : β → Except ε γ} {l : List (String × β)}
    {r : { r : List (String × γ) // r.map Prod.fst = l.map Prod.fst }}
    (h : mapEntries f l = .ok r) :
    List.Forall₂ (fun v w => f v = .ok w) (l.map Prod.snd) (r.1.map Prod.snd) := by
  induction l with
  | nil =>
    cases h
    exact .nil
  | cons e rest ih =>
    obtain ⟨key, v⟩ := e
    rw [mapEntries] at h
    split at h
    · cases h
    · rename_i w hw
      split at h
      · cases h
      · rename_i r' hr'
        cases h
        exact .cons hw (ih hr')

/-- Every value is mapped to the one in its place. -/
theorem mapValues_values {f : β → Except ε γ} {m : TextMap β} {m' : TextMap γ}
    (h : m.mapValues f = .ok m') : List.Forall₂ (fun v w => f v = .ok w) m.values m'.values := by
  unfold mapValues at h
  split at h
  · cases h
  · rename_i r hr
    cases h
    exact mapEntries_values hr

end TextMap

namespace Allocation

open Decimal

/-- Rescaling leaves an allocation without weight alone, and divides the weights of any other by a
positive total. -/
theorem normalized_cases {a b : Allocation} (ha : a.Nonneg) (h : a.normalized = .ok b) :
    ∃ t, a.total = .ok t ∧
      (b = a ∧ (∀ w ∈ a.weights.values, w.toRat = 0) ∨
        0 < t.toRat ∧ List.Forall₂ (fun w v => quotient w t = .ok v) a.weights.values
          b.weights.values) := by
  obtain ⟨t, htotal, h⟩ := exists_ok_of_bind h
  obtain ⟨ht, hzero⟩ := eq_zero_of_sumFrom (by simp) ha htotal
  refine ⟨t, htotal, ?_⟩
  by_cases h0 : t.isZero = true
  · rw [if_pos h0] at h
    cases h
    exact .inl ⟨rfl, (hzero (toRat_eq_zero_iff.2 h0)).2⟩
  · rw [if_neg h0] at h
    obtain ⟨ws, hmap, rfl⟩ := exists_ok_of_map h
    have hne : t.toRat ≠ 0 := fun hz => h0 (toRat_eq_zero_iff.1 hz)
    exact .inr ⟨lt_of_le_of_ne ht hne.symm, TextMap.mapValues_values hmap⟩

/-- Weights divided by a positive total are not negative, and positive where they are more than half
a unit of it. -/
theorem quotients_positive_iff {t : Decimal} (ht : 0 < t.toRat) {ws vs : List Decimal}
    (h : List.Forall₂ (fun w v => quotient w t = .ok v) ws vs) (hws : ∀ w ∈ ws, 0 ≤ w.toRat) :
    (∀ v ∈ vs, 0 ≤ v.toRat) ∧
      ((∀ v ∈ vs, 0 < v.toRat) ↔ ∀ w ∈ ws, unit / 2 < w.toRat / t.toRat) := by
  induction h with
  | nil =>
    exact ⟨List.forall_mem_nil _, iff_of_true (List.forall_mem_nil _) (List.forall_mem_nil _)⟩
  | cons hv _ ih =>
    obtain ⟨hw, hws⟩ := List.forall_mem_cons.1 hws
    obtain ⟨hv0, hvzero⟩ := quotient_eq_zero_iff hv hw ht
    obtain ⟨hvs0, hiff⟩ := ih hws
    refine ⟨List.forall_mem_cons.2 ⟨hv0, hvs0⟩, ?_⟩
    rw [List.forall_mem_cons, List.forall_mem_cons, hiff, lt_iff_le_and_ne, and_iff_right hv0,
      ne_comm, Ne, hvzero, not_le]

theorem normalized_nonneg {a b : Allocation} (ha : a.Nonneg) (h : a.normalized = .ok b) :
    b.Nonneg := by
  obtain ⟨t, -, ⟨rfl, -⟩ | ⟨ht, hquotients⟩⟩ := normalized_cases ha h
  · exact ha
  · exact (quotients_positive_iff ht hquotients ha).1

/-- **Rescaling keeps weights positive if all shares are above half a unit**, and not otherwise. -/
theorem normalized_positive_iff {a b : Allocation} (ha : a.Nonneg) (h : a.normalized = .ok b) :
    b.Positive ↔
      ∀ t, a.total = .ok t → ∀ w ∈ a.weights.values, unit / 2 < w.toRat / t.toRat := by
  obtain ⟨t, htotal, hcases⟩ := normalized_cases ha h
  simp only [htotal, Except.ok.injEq, forall_eq']
  rcases hcases with ⟨rfl, hzero⟩ | ⟨ht, hquotients⟩
  · -- Without weight there is no symbol with a positive one.
    constructor
    · intro hpos w hw
      exact absurd (hzero w hw) (hpos w hw).ne'
    · intro hshares w hw
      have hshare := hshares w hw
      rw [hzero w hw, zero_div] at hshare
      linarith [unit_pos]
  · exact (quotients_positive_iff ht hquotients ha).2

/-! ## Sequences of operations -/

/-- Allocations that operations make of empty ones and of single symbols. -/
inductive Built : Allocation → Prop
  | empty : Built .empty
  | single (symbol : String) : Built (.single symbol)
  | add {a b : Allocation} (symbol : String) (w : Decimal) : Built a → a.add symbol w = .ok b →
      Built b
  | normalized {a b : Allocation} : Built a → a.normalized = .ok b → Built b
  | mergeScaled {a b other : Allocation} (factor : Decimal) : Built a → Built other →
      a.mergeScaled other factor = .ok b → Built b

theorem Built.nonneg {a : Allocation} (h : Built a) : a.Nonneg := by
  induction h with
  | empty => exact fun w hw => absurd hw List.not_mem_nil
  | single symbol =>
    intro w hw
    rw [List.mem_singleton.1 hw, toRat_one]
    exact zero_le_one
  | add symbol w _ hb ih => exact (gains_add ih hb).nonneg ih
  | normalized _ hb ih => exact normalized_nonneg ih hb
  | mergeScaled factor _ _ hb ih _ => exact (gains_mergeScaled ih hb).nonneg ih

/-- **Weights are never negative**, and only rescaling makes one zero. Whatever is added to or
merged into an allocation of positive weights, they stay positive. A rescaled allocation has
positive weights if and only if every share of the sum is above half a unit, `10 ^ -28 / 2`. -/
theorem built_weights (a : Allocation) (h : Built a) :
    (∀ w ∈ a.weights.values, 0 ≤ w.toRat) ∧
    (∀ symbol w b, a.Positive → a.add symbol w = .ok b → b.Positive) ∧
    (∀ other factor b, a.Positive → a.mergeScaled other factor = .ok b → b.Positive) ∧
    ∀ b, a.normalized = .ok b → (b.Positive ↔
      ∀ t, a.total = .ok t → ∀ w ∈ a.weights.values, unit / 2 < w.toRat / t.toRat) := by
  refine ⟨h.nonneg, fun symbol w b ha hb => ?_, fun other factor b ha hb => ?_, fun b hb => ?_⟩
  · exact (gains_add h.nonneg hb).positive ha
  · exact (gains_mergeScaled h.nonneg hb).positive ha
  · exact normalized_positive_iff h.nonneg hb

/-- One and three become a quarter and three quarters, both of them positive. -/
theorem built_weights_quarters :
    ∃ b c, (single "A").add "B" ⟨3, 0, by decide, by decide⟩ = .ok b ∧ Built b ∧
      b.normalized = .ok c ∧ c.Positive := by
  have hb : (single "A").add "B" ⟨3, 0, by decide, by decide⟩ = .ok ⟨⟨[("A", .one),
      ("B", ⟨3, 0, by decide, by decide⟩)], by decide⟩, .empty⟩ := by decide +kernel
  have hc : normalized ⟨⟨[("A", .one), ("B", ⟨3, 0, by decide, by decide⟩)], by decide⟩, .empty⟩ =
      .ok ⟨⟨[("A", ⟨25, 2, by decide, by decide⟩), ("B", ⟨75, 2, by decide, by decide⟩)],
        by decide⟩, .empty⟩ := by decide +kernel
  have hbuilt := (Built.single "A").add _ _ hb
  refine ⟨_, _, hb, hbuilt, hc, ((built_weights _ hbuilt).2.2.2 _ hc).2 fun t ht w hw => ?_⟩
  have hfour : total ⟨⟨[("A", .one), ("B", ⟨3, 0, by decide, by decide⟩)], by decide⟩, .empty⟩ =
      .ok ⟨4, 0, by decide, by decide⟩ := by decide +kernel
  rw [hfour] at ht
  cases ht
  have hvalues : w = .one ∨ w = ⟨3, 0, by decide, by decide⟩ := by
    simpa [TextMap.values] using hw
  rcases hvalues with rfl | rfl
  · norm_num [unit, toRat, one]
  · norm_num [unit, toRat]

/-- Rescaling rounds a weight of one unit beside a weight of three to zero, and its symbol stays. -/
theorem exists_built_zero_weight :
    ∃ a b c, add .empty "A" ⟨1, 28, by decide, by decide⟩ = .ok a ∧
      a.add "B" ⟨3, 0, by decide, by decide⟩ = .ok b ∧ b.normalized = .ok c ∧
      Built c ∧ c.weight? "A" = some .zero ∧ ¬ c.Positive := by
  have ha : add .empty "A" ⟨1, 28, by decide, by decide⟩ =
      .ok ⟨⟨[("A", ⟨1, 28, by decide, by decide⟩)], by decide⟩, .empty⟩ := by decide +kernel
  have hb : add ⟨⟨[("A", ⟨1, 28, by decide, by decide⟩)], by decide⟩, .empty⟩ "B"
      ⟨3, 0, by decide, by decide⟩ = .ok ⟨⟨[("A", ⟨1, 28, by decide, by decide⟩),
        ("B", ⟨3, 0, by decide, by decide⟩)], by decide⟩, .empty⟩ := by decide +kernel
  have hc : normalized ⟨⟨[("A", ⟨1, 28, by decide, by decide⟩),
      ("B", ⟨3, 0, by decide, by decide⟩)], by decide⟩, .empty⟩ =
        .ok ⟨⟨[("A", .zero), ("B", .one)], by decide⟩, .empty⟩ := by decide +kernel
  refine ⟨_, _, _, ha, hb, hc, ((Built.empty.add _ _ ha).add _ _ hb).normalized hc, rfl, ?_⟩
  intro hpos
  have hzero := hpos .zero (by decide)
  rw [toRat_zero] at hzero
  exact lt_irrefl 0 hzero

end Allocation

end AllocScript
