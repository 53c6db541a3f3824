import AllocScript.Eval.Weighting
import AllocScript.Proofs.Decimal.Rounding
import AllocScript.Proofs.TextMap

/-!
# The exact sum of the weights of an allocation

`exactTotal` adds the weights of an allocation as rational numbers. As long as nothing grows beyond
7, sums of weights are exact, so only products and quotients lose or gain something, at most half a
unit each:

* `total_of_small`: the sum that is computed is the exact one.
* `normalized_spec`: a rescaled allocation has the sum one, up to half a unit for each symbol.
* `addShares_spec`: shares of rescaled allocations add up to the sum of the shares, up to one and a
  half units for each symbol of each of them.
-/

namespace AllocScript

/-! ## Operations that may fail -/

/-- Each step of a sequence that ends with a value has one. -/
theorem ok_bind {ε α β : Type} (a : α) (f : α → Except ε β) : Except.ok a >>= f = f a := rfl

theorem exists_ok_of_bind {ε α β : Type} {x : Except ε α} {f : α → Except ε β} {b : β}
    (h : x >>= f = .ok b) : ∃ a, x = .ok a ∧ f a = .ok b := by
  cases x with
  | error e => cases h
  | ok a => exact ⟨a, rfl, h⟩

theorem exists_ok_of_map {ε α β : Type} {x : Except ε α} {f : α → β} {b : β}
    (h : x.map f = .ok b) : ∃ a, x = .ok a ∧ f a = b := by
  cases x with
  | error e => cases h
  | ok a => exact ⟨a, rfl, Except.ok.inj h⟩

namespace Allocation

open Decimal

/-- The sum of some decimals without any rounding. -/
def exactSum (ds : List Decimal) : Rat := (ds.map toRat).sum

@[simp] theorem exactSum_nil : exactSum [] = 0 := rfl

@[simp] theorem exactSum_cons (d : Decimal) (ds : List Decimal) :
    exactSum (d :: ds) = d.toRat + exactSum ds := rfl

theorem exactSum_nonneg {ds : List Decimal} (h : ∀ d ∈ ds, 0 ≤ d.toRat) : 0 ≤ exactSum ds :=
  List.sum_nonneg fun q hq => by
    obtain ⟨d, hd, rfl⟩ := List.mem_map.1 hq
    exact h d hd

theorem le_exactSum {d : Decimal} {ds : List Decimal} (h : ∀ d ∈ ds, 0 ≤ d.toRat) (hd : d ∈ ds) :
    d.toRat ≤ exactSum ds := by
  refine List.single_le_sum (fun q hq => ?_) _ (List.mem_map_of_mem hd)
  obtain ⟨e, he, rfl⟩ := List.mem_map.1 hq
  exact h e he

/-- The sum of the weights without any rounding. -/
def exactTotal (a : Allocation) : Rat := exactSum a.weights.values

/-- No symbol has a weight of zero or less. -/
def Positive (a : Allocation) : Prop := ∀ w ∈ a.weights.values, 0 < w.toRat

theorem Positive.nonneg {a : Allocation} (h : a.Positive) : ∀ w ∈ a.weights.values, 0 ≤ w.toRat :=
  fun w hw => (h w hw).le

theorem Positive.exactTotal_nonneg {a : Allocation} (h : a.Positive) : 0 ≤ a.exactTotal :=
  exactSum_nonneg h.nonneg

theorem positive_empty : empty.Positive := fun w hw => by
  simp [empty, TextMap.empty, TextMap.values] at hw

@[simp] theorem exactTotal_empty : empty.exactTotal = 0 := rfl

@[simp] theorem size_empty : empty.size = 0 := rfl

/-! ## Checked arithmetic -/

theorem add?_of_sum {a b c : Decimal} (h : sum a b = .ok c) : a.add? b = some c := by
  unfold sum at h
  split at h
  · rename_i heq
    cases h
    exact heq
  · cases h

theorem ofRat?_of_product {a b c : Decimal} (h : product a b = .ok c) :
    ofRat? (a.toRat * b.toRat) = some c := by
  unfold product at h
  split at h
  · rename_i heq
    cases h
    exact heq
  · cases h

theorem ofRat?_of_quotient {a b c : Decimal} (h : quotient a b = .ok c) :
    ofRat? (a.toRat / b.toRat) = some c := by
  unfold quotient div? at h
  by_cases hb : b.isZero = true
  · rw [if_pos hb] at h
    cases h
  · rw [if_neg hb] at h
    split at h
    · rename_i heq
      cases h
      exact heq
    · cases h

/-- A small sum is computed exactly. -/
theorem sum_of_small {a b : Decimal} (ha : 0 ≤ a.toRat) (hb : 0 ≤ b.toRat)
    (h : a.toRat + b.toRat ≤ 7) : ∃ c, sum a b = .ok c ∧ c.toRat = a.toRat + b.toRat := by
  obtain ⟨c, hc, hval⟩ := add?_of_small (a := a) (b := b) (by rw [abs_of_nonneg] <;> linarith)
  exact ⟨c, by rw [sum, hc], hval⟩

/-- A small product is computed within half a unit. -/
theorem product_of_small {a b : Decimal} (h0 : 0 ≤ a.toRat * b.toRat)
    (h : a.toRat * b.toRat ≤ 7) :
    ∃ c, product a b = .ok c ∧ 0 ≤ c.toRat ∧ |c.toRat - a.toRat * b.toRat| ≤ unit / 2 := by
  obtain ⟨c, hc, herr⟩ := ofRat?_of_small (q := a.toRat * b.toRat) (by rwa [abs_of_nonneg h0])
  have hmul : a.mul? b = some c := hc
  exact ⟨c, by rw [product, hmul], toRat_nonneg_of_ofRat? hc h0, herr⟩

/-- A small quotient is computed within half a unit. -/
theorem quotient_of_small {a b : Decimal} (hb : b.toRat ≠ 0) (h0 : 0 ≤ a.toRat / b.toRat)
    (h : a.toRat / b.toRat ≤ 7) :
    ∃ c, quotient a b = .ok c ∧ 0 ≤ c.toRat ∧ |c.toRat - a.toRat / b.toRat| ≤ unit / 2 := by
  obtain ⟨c, hc, herr⟩ := ofRat?_of_small (q := a.toRat / b.toRat) (by rwa [abs_of_nonneg h0])
  have hdiv : a.div? b = some c := by
    unfold div?
    rw [if_neg (fun hz => hb (toRat_eq_zero_iff.2 hz)), hc]
  exact ⟨c, by rw [quotient, hdiv], toRat_nonneg_of_ofRat? hc h0, herr⟩

/-- A small sum of many decimals is computed exactly. -/
theorem sumFrom_of_small {s : Decimal} {ds : List Decimal} (hs : 0 ≤ s.toRat)
    (hds : ∀ d ∈ ds, 0 ≤ d.toRat) (h : s.toRat + exactSum ds ≤ 7) :
    ∃ t, sumFrom s ds = .ok t ∧ t.toRat = s.toRat + exactSum ds := by
  induction ds generalizing s with
  | nil => exact ⟨s, rfl, by simp⟩
  | cons d ds ih =>
    have hd := hds d (by simp)
    have hrest := exactSum_nonneg fun e he => hds e (List.mem_cons_of_mem _ he)
    rw [exactSum_cons] at h
    obtain ⟨c, hc, hval⟩ := sum_of_small hs hd (by linarith)
    obtain ⟨t, ht, htval⟩ := ih (s := c) (by rw [hval]; linarith)
      (fun e he => hds e (List.mem_cons_of_mem _ he)) (by rw [hval]; linarith)
    refine ⟨t, by rw [sumFrom, hc]; exact ht, ?_⟩
    rw [htval, hval, exactSum_cons]
    ring

/-- **Error of a running total.** Summing decimals that are not negative has a relative error of at
most two units for each, however large the sum becomes. -/
theorem sumFrom_error {start t : Decimal} {ds : List Decimal} {q : Rat} (n : Nat)
    (hds : ∀ d ∈ ds, 0 ≤ d.toRat) (hq : 0 ≤ q)
    (hstart : |start.toRat - q| ≤ 2 * n * unit * q)
    (hn : 2 * ((n + ds.length : Nat) : Rat) * unit ≤ 1) (h : sumFrom start ds = .ok t) :
    |t.toRat - (q + exactSum ds)| ≤
      2 * ((n + ds.length : Nat) : Rat) * unit * (q + exactSum ds) := by
  induction ds generalizing start q n with
  | nil =>
    cases h
    simpa using hstart
  | cons d ds ih =>
    have hd := hds d (by simp)
    have hu := unit_pos
    obtain ⟨c, hc, h⟩ := exists_ok_of_bind h
    have hlen : n + (d :: ds).length = n + 1 + ds.length := by simp; omega
    rw [hlen] at hn ⊢
    obtain ⟨hs1, hs2⟩ := abs_le.1 hstart
    have hn1 : 2 * (n : Rat) * unit ≤ 1 := by
      refine le_trans ?_ hn
      push_cast
      have : (0 : Rat) ≤ ds.length := Nat.cast_nonneg _
      nlinarith
    have hsmall : 2 * n * unit * q ≤ q := by
      linarith [mul_le_mul_of_nonneg_right hn1 hq]
    obtain ⟨hc1, hc2⟩ := abs_le.1 (add?_error (add?_of_sum hc) (by linarith))
    have hud := mul_nonneg hu.le hd
    have hgrow : 0 ≤ 2 * (n : Rat) * unit * d.toRat := by positivity
    -- One more step costs one unit of a sum that is at most twice the exact one.
    have hstep : unit * (start.toRat + d.toRat) ≤ 2 * unit * (q + d.toRat) := by
      have := mul_le_mul_of_nonneg_left hs2 hu.le
      have := mul_le_mul_of_nonneg_left hsmall hu.le
      linarith
    have hnext := ih (n + 1) (fun e he => hds e (List.mem_cons_of_mem _ he))
      (q := q + d.toRat) (by linarith)
      (by push_cast; exact abs_le.2 ⟨by linarith, by linarith⟩) hn h
    rw [exactSum_cons, ← add_assoc]
    exact hnext

/-- The sum of the weights is exact as long as it is small. -/
theorem total_of_small {a : Allocation} (hpos : a.Positive) (h : a.exactTotal ≤ 7) :
    ∃ t, a.total = .ok t ∧ t.toRat = a.exactTotal := by
  obtain ⟨t, ht, hval⟩ := sumFrom_of_small (s := zero) (by simp) hpos.nonneg
    (by rw [toRat_zero, zero_add]; exact h)
  exact ⟨t, ht, by rw [hval, toRat_zero, zero_add]; rfl⟩

/-! ## Adding weights -/

/-- Adding to the weight of a symbol adds as much to the sum, whether or not the symbol has been
there before, and keeps all weights positive. -/
theorem add_spec {a : Allocation} {w : Decimal} (symbol : String) (hpos : a.Positive)
    (hw : 0 ≤ w.toRat) (h : a.exactTotal + w.toRat ≤ 7) :
    ∃ b, a.add symbol w = .ok b ∧ b.Positive ∧ b.exactTotal = a.exactTotal + w.toRat ∧
      b.size ≤ a.size + 1 := by
  unfold add
  split
  · rename_i hp
    have hwpos := isPositive_iff.1 hp
    have hold : 0 ≤ ((a.weight? symbol).getD zero).toRat ∧
        ((a.weight? symbol).getD zero).toRat ≤ a.exactTotal := by
      cases hget : a.weight? symbol with
      | none => simpa using hpos.exactTotal_nonneg
      | some v =>
        have hmem : v ∈ a.weights.values :=
          List.mem_map.2 ⟨_, TextMap.mem_of_lookup_eq_some hget, rfl⟩
        exact ⟨hpos.nonneg v hmem, le_exactSum hpos.nonneg hmem⟩
    obtain ⟨c, hc, hval⟩ := sum_of_small hold.1 hw (by linarith [hold.2])
    refine ⟨{ a with weights := a.weights.insert symbol c }, by rw [hc]; rfl, fun u hu => ?_, ?_,
      TextMap.length_insertEntry_le ..⟩
    · obtain ⟨e, he, rfl⟩ := List.mem_map.1 hu
      rcases TextMap.mem_insertEntry he with h' | h'
      · rw [h', hval]; linarith [hold.1]
      · exact hpos _ (List.mem_map_of_mem h')
    · have hsum := TextMap.sum_insertEntry toRat symbol c a.weights.ascending
      have hget : ((a.weights.entries.lookup symbol).map toRat).getD 0 =
          ((a.weight? symbol).getD zero).toRat := by
        unfold weight? TextMap.get?
        cases a.weights.entries.lookup symbol <;> simp
      have hold' : (a.weights.entries.map fun e => e.2.toRat).sum = a.exactTotal := by
        simp [exactTotal, exactSum, TextMap.values, Function.comp_def]
      rw [hget, hval, hold'] at hsum
      simp only [exactTotal, exactSum, TextMap.insert, TextMap.values, List.map_map,
        Function.comp_def] at hsum ⊢
      rw [hsum]
      ring
  · rename_i hp
    have hz : w.toRat = 0 := le_antisymm (not_lt.1 fun hlt => hp (isPositive_iff.2 hlt)) hw
    exact ⟨a, rfl, hpos, by rw [hz, add_zero], Nat.le_succ _⟩

/-- Adding weights multiplied by a factor adds as much to the sum, up to half a unit for each. -/
theorem addScaled_spec {a : Allocation} {factor : Decimal} {entries : List (String × Decimal)}
    (hpos : a.Positive) (hf : 0 ≤ factor.toRat) (hw : ∀ e ∈ entries, 0 ≤ e.2.toRat)
    (h : a.exactTotal + factor.toRat * exactSum (entries.map Prod.snd) +
      entries.length * (unit / 2) ≤ 7) :
    ∃ b, a.addScaled factor entries = .ok b ∧ b.Positive ∧
      |b.exactTotal - (a.exactTotal + factor.toRat * exactSum (entries.map Prod.snd))| ≤
        entries.length * (unit / 2) ∧
      b.size ≤ a.size + entries.length := by
  induction entries generalizing a with
  | nil => exact ⟨a, rfl, hpos, by simp, by simp⟩
  | cons e rest ih =>
    obtain ⟨symbol, w⟩ := e
    have hw0 : 0 ≤ w.toRat := hw (symbol, w) (by simp)
    have hrest : 0 ≤ exactSum (rest.map Prod.snd) := exactSum_nonneg fun d hd => by
      obtain ⟨e, he, rfl⟩ := List.mem_map.1 hd
      exact hw e (List.mem_cons_of_mem _ he)
    have htotal := hpos.exactTotal_nonneg
    have hu := unit_pos
    have hfw := mul_nonneg hw0 hf
    have hfr := mul_nonneg hf hrest
    have hlen : (0 : Rat) ≤ rest.length * (unit / 2) := by positivity
    simp only [List.map_cons, exactSum_cons, List.length_cons, Nat.cast_add, Nat.cast_one] at h ⊢
    obtain ⟨p, hp, hp0, hperr⟩ := product_of_small hfw (by linarith)
    obtain ⟨hperr1, hperr2⟩ := abs_le.1 hperr
    obtain ⟨b, hb, hbpos, hbtotal, hbsize⟩ := add_spec symbol hpos hp0 (by linarith)
    obtain ⟨c, hc, hcpos, hctotal, hcsize⟩ := ih hbpos
      (fun e he => hw e (List.mem_cons_of_mem _ he)) (by rw [hbtotal]; linarith)
    obtain ⟨hctotal1, hctotal2⟩ := abs_le.1 hctotal
    refine ⟨c, ?_, hcpos, abs_le.2 ⟨?_, ?_⟩, by omega⟩
    · rw [addScaled, hp]
      simp only [bind, Except.bind, hb]
      exact hc
    · rw [hbtotal] at hctotal1
      linarith
    · rw [hbtotal] at hctotal2
      linarith

/-! ## Rescaling -/

/-- Dividing every weight by a total divides the sum by it, up to half a unit for each weight. -/
theorem mapEntries_quotient_spec {total : Decimal} (ht : 1 / 2 ≤ total.toRat)
    {entries : List (String × Decimal)} (hw : ∀ e ∈ entries, 0 ≤ e.2.toRat ∧ e.2.toRat ≤ 3) :
    ∃ r, TextMap.mapEntries (fun w => quotient w total) entries = .ok r ∧
      (∀ e ∈ r.1, 0 ≤ e.2.toRat) ∧
      |exactSum (r.1.map Prod.snd) - exactSum (entries.map Prod.snd) / total.toRat| ≤
        entries.length * (unit / 2) := by
  have ht0 : 0 < total.toRat := by linarith
  induction entries with
  | nil => exact ⟨⟨[], rfl⟩, rfl, by simp, by simp⟩
  | cons e rest ih =>
    obtain ⟨symbol, w⟩ := e
    obtain ⟨hw0, hw3⟩ : 0 ≤ w.toRat ∧ w.toRat ≤ 3 := hw (symbol, w) (by simp)
    obtain ⟨q, hq, hq0, hqerr⟩ := quotient_of_small (a := w) ht0.ne' (div_nonneg hw0 ht0.le)
      (by rw [div_le_iff₀ ht0]; linarith)
    obtain ⟨r, hr, hr0, hrerr⟩ := ih fun e he => hw e (List.mem_cons_of_mem _ he)
    refine ⟨⟨(symbol, q) :: r.1, by simp [r.2]⟩, ?_, ?_, ?_⟩
    · simp only [TextMap.mapEntries, hq, hr]
    · intro e he
      rcases List.mem_cons.1 he with rfl | he
      · exact hq0
      · exact hr0 e he
    · obtain ⟨hq1, hq2⟩ := abs_le.1 hqerr
      obtain ⟨hr1, hr2⟩ := abs_le.1 hrerr
      simp only [List.map_cons, exactSum_cons, List.length_cons, Nat.cast_add, Nat.cast_one,
        add_div]
      exact abs_le.2 ⟨by linarith, by linarith⟩

/-- **Rescaling.** An allocation of positive weights whose sum is near one becomes one of the sum
one, up to half a unit for each symbol. -/
theorem normalized_spec {a : Allocation} (hpos : a.Positive) (hlow : 1 / 2 ≤ a.exactTotal)
    (hhigh : a.exactTotal ≤ 3) :
    ∃ b, a.normalized = .ok b ∧ (∀ e ∈ b.weights.entries, 0 ≤ e.2.toRat) ∧ b.size = a.size ∧
      |b.exactTotal - 1| ≤ a.size * (unit / 2) := by
  obtain ⟨t, ht, htval⟩ := total_of_small hpos (by linarith)
  have hweights : ∀ e ∈ a.weights.entries, 0 ≤ e.2.toRat ∧ e.2.toRat ≤ 3 := fun e he => by
    have hmem : e.2 ∈ a.weights.values := List.mem_map_of_mem he
    exact ⟨hpos.nonneg _ hmem, (le_exactSum hpos.nonneg hmem).trans hhigh⟩
  obtain ⟨r, hr, hr0, hrerr⟩ := mapEntries_quotient_spec (by rw [htval]; exact hlow) hweights
  have hsize : r.1.length = a.weights.entries.length := by
    simpa using congrArg List.length r.2
  have hone : exactSum (a.weights.entries.map Prod.snd) / t.toRat = 1 := by
    have htotal : exactSum (a.weights.entries.map Prod.snd) = a.exactTotal := rfl
    rw [htval, htotal]
    exact div_self (by linarith)
  rw [hone] at hrerr
  refine ⟨{ a with weights := ⟨r.1, by rw [r.2]; exact a.weights.ascending⟩ }, ?_, hr0, hsize,
    hrerr⟩
  have hz : t.isZero = false := by
    rw [← Bool.not_eq_true, ← toRat_eq_zero_iff, htval]
    linarith
  simp only [normalized, ht, bind, Except.bind, hz, Bool.false_eq_true, ↓reduceIte,
    TextMap.mapValues, hr]
  rfl

/-! ## Shares -/

/-- A child that can be shared out: its weights are positive and their sum is near one. -/
structure Sharable (a : Allocation) : Prop where
  positive : a.Positive
  low : 1 / 2 ≤ a.exactTotal
  high : a.exactTotal ≤ 3

/-- A share of a child whose sum is near one is near the share, if it is at most two. -/
theorem abs_share_mul_sub_le {share q : Rat} {n : Nat} (h0 : 0 ≤ share) (h2 : share ≤ 2)
    (hq : |q - 1| ≤ n * (unit / 2)) : |share * q - share| ≤ n * unit := by
  have hu := unit_pos
  have hmul : share * q - share = share * (q - 1) := by ring
  rw [hmul, abs_mul, abs_of_nonneg h0]
  calc share * |q - 1|
    _ ≤ share * (n * (unit / 2)) := mul_le_mul_of_nonneg_left hq h0
    _ ≤ 2 * (n * (unit / 2)) := mul_le_mul_of_nonneg_right h2 (by positivity)
    _ = n * unit := by ring

/-- **Shares.** Sharing out children adds the sum of the shares to the sum of the weights, up to one
and a half units for each symbol of each child. -/
theorem addShares_spec {a : Allocation} {shares : List (Decimal × Allocation)}
    (hpos : a.Positive) (hs : ∀ s ∈ shares, 0 ≤ s.1.toRat ∧ s.1.toRat ≤ 2 ∧ s.2.Sharable)
    (h : a.exactTotal + exactSum (shares.map Prod.fst) +
      ((shares.map fun s => s.2.size).sum : Nat) * (3 * (unit / 2)) ≤ 7) :
    ∃ b, addShares a (shares.map fun s => (.ok s.1, s.2)) = .ok b ∧ b.Positive ∧
      |b.exactTotal - (a.exactTotal + exactSum (shares.map Prod.fst))| ≤
        ((shares.map fun s => s.2.size).sum : Nat) * (3 * (unit / 2)) ∧
      b.size ≤ a.size + (shares.map fun s => s.2.size).sum := by
  induction shares generalizing a with
  | nil => exact ⟨a, rfl, hpos, by simp, by simp⟩
  | cons s rest ih =>
    obtain ⟨share, child⟩ := s
    obtain ⟨hs0, hs2, hchild⟩ : 0 ≤ share.toRat ∧ share.toRat ≤ 2 ∧ child.Sharable :=
      hs (share, child) (by simp)
    obtain ⟨c, hc, hc0, hcsize, hcerr⟩ := normalized_spec hchild.positive hchild.low hchild.high
    have hentries : (c.weights.entries.length : Rat) = child.size := by
      exact_mod_cast hcsize
    have hrest : 0 ≤ exactSum (rest.map Prod.fst) := exactSum_nonneg fun d hd => by
      obtain ⟨e, he, rfl⟩ := List.mem_map.1 hd
      exact (hs e (List.mem_cons_of_mem _ he)).1
    have hu := unit_pos
    have hn : (0 : Rat) ≤ ((rest.map fun s => s.2.size).sum : Nat) * (3 * (unit / 2)) := by
      positivity
    -- The error of the rescaling counts once for each unit of the share, so at most twice.
    obtain ⟨hshare1, hshare2⟩ := abs_le.1 (abs_share_mul_sub_le hs0 hs2 hcerr)
    simp only [List.map_cons, exactSum_cons, List.sum_cons, Nat.cast_add, add_mul] at h ⊢
    have hsum : exactSum (c.weights.entries.map Prod.snd) = c.exactTotal := rfl
    obtain ⟨b, hb, hbpos, hberr, hbsize⟩ := addScaled_spec hpos hs0 hc0
      (by rw [hsum, hentries]; linarith)
    rw [hsum, hentries] at hberr
    obtain ⟨hberr1, hberr2⟩ := abs_le.1 hberr
    obtain ⟨d, hd, hdpos, hderr, hdsize⟩ := ih hbpos
      (fun s hs' => hs s (List.mem_cons_of_mem _ hs')) (by linarith)
    obtain ⟨hderr1, hderr2⟩ := abs_le.1 hderr
    refine ⟨d, ?_, hdpos, abs_le.2 ⟨by linarith, by linarith⟩, ?_⟩
    · simp only [addShares, hc, bind, Except.bind, mergeScaled, hb]
      exact hd
    · have : c.weights.entries.length = child.size := hcsize
      omega

end Allocation

end AllocScript
