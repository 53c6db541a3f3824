import AllocScript.Proofs.Allocation.Total

/-!
# Weight is neither lost nor made by sharing it out

`Whole a` says that an allocation is empty or shares out the whole weight: every weight is positive
and the exact sum is within `10 ^ -9` of one. Children that are whole are shared out to an
allocation that is whole again, because each is rescaled first (`normalized_spec`), so the errors of
inner levels do not add up.

* `equalWeight_spec`: equal shares never fail and give a whole allocation.
* `specifiedWeight_spec`: given shares give a whole allocation, or the weights have no sum to share
  by.

Both hold as long as the children have no more than `10 ^ 15` symbols among them (`maxSymbols`).
-/

namespace AllocScript

namespace Allocation

open Decimal

/-- An allocation that is empty or shares out the whole weight. -/
def Whole (a : Allocation) : Prop :=
  a.isEmpty = true ∨ a.Positive ∧ |a.exactTotal - 1| ≤ 1 / 10 ^ 9

/-- The number of symbols, those of several allocations counted together, up to which errors of
rounding stay small. -/
def maxSymbols : Nat := 10 ^ 15

/-- The number of symbols of several allocations, counted together. -/
def symbolCount (as : List Allocation) : Nat := (as.map size).sum

@[simp] theorem symbolCount_nil : symbolCount [] = 0 := rfl

@[simp] theorem symbolCount_cons (a : Allocation) (as : List Allocation) :
    symbolCount (a :: as) = a.size + symbolCount as := rfl

theorem symbolCount_filter_le (p : Allocation → Bool) (as : List Allocation) :
    symbolCount (as.filter p) ≤ symbolCount as := by
  induction as with
  | nil => simp
  | cons a as ih =>
    rw [List.filter_cons]
    split <;> simp only [symbolCount_cons] <;> omega

/-- Allocations that are not empty have a symbol each. -/
theorem length_le_symbolCount {as : List Allocation} (h : ∀ a ∈ as, a.isEmpty = false) :
    as.length ≤ symbolCount as := by
  induction as with
  | nil => simp
  | cons a as ih =>
    have hne : a.weights.entries ≠ [] := by
      simpa [isEmpty, TextMap.isEmpty] using h a (by simp)
    have hsize : 0 < a.size := List.length_pos_iff.2 hne
    have := ih fun b hb => h b (List.mem_cons_of_mem _ hb)
    simp only [List.length_cons, symbolCount_cons]
    omega

theorem whole_empty : Whole .empty := .inl rfl

theorem whole_single (symbol : String) : Whole (.single symbol) := by
  refine .inr ⟨fun w hw => ?_, ?_⟩
  · simp only [single, TextMap.single, TextMap.values, List.map_cons, List.map_nil,
      List.mem_singleton] at hw
    rw [hw, toRat_one]
    exact one_pos
  · simp [exactTotal, single, TextMap.single, TextMap.values]

@[simp] theorem size_single (symbol : String) : (single symbol).size = 1 := rfl

theorem Whole.sharable {a : Allocation} (h : a.Whole) (hne : a.isEmpty = false) : a.Sharable := by
  rcases h with hempty | ⟨hpos, htotal⟩
  · rw [hne] at hempty
    cases hempty
  · obtain ⟨h1, h2⟩ := abs_le.1 htotal
    exact ⟨hpos, by linarith, by linarith⟩

/-- Shares whose sum is near one make a whole allocation of whole children. -/
theorem addShares_whole (shares : List (Decimal × Allocation))
    (hs : ∀ s ∈ shares, 0 ≤ s.1.toRat ∧ s.1.toRat ≤ 2 ∧ s.2.Sharable)
    (hsum : |exactSum (shares.map Prod.fst) - 1| ≤ 1 / 10 ^ 10)
    (hn : symbolCount (shares.map Prod.snd) ≤ maxSymbols) :
    ∃ a, addShares .empty (shares.map fun s => (.ok s.1, s.2)) = .ok a ∧ a.Whole ∧
      a.size ≤ symbolCount (shares.map Prod.snd) := by
  have hcount : symbolCount (shares.map Prod.snd) = (shares.map fun s => s.2.size).sum := by
    simp [symbolCount, Function.comp_def]
  rw [hcount] at hn ⊢
  have hn' :
      (((shares.map fun s => s.2.size).sum : Nat) : Rat) * (3 * (unit / 2)) ≤ 1 / 10 ^ 10 := by
    have h1 : (((shares.map fun s => s.2.size).sum : Nat) : Rat) ≤ 10 ^ 15 := by
      exact_mod_cast hn
    have h2 := mul_le_mul_of_nonneg_right h1 (show (0 : Rat) ≤ 3 * (unit / 2) by norm_num [unit])
    refine h2.trans ?_
    norm_num [unit]
  obtain ⟨hsum1, hsum2⟩ := abs_le.1 hsum
  obtain ⟨a, ha, hpos, herr, hsize⟩ := addShares_spec positive_empty hs
    (by rw [exactTotal_empty]; linarith)
  rw [exactTotal_empty, zero_add] at herr
  obtain ⟨herr1, herr2⟩ := abs_le.1 herr
  exact ⟨a, ha, .inr ⟨hpos, abs_le.2 ⟨by linarith, by linarith⟩⟩, by simpa using hsize⟩

/-! ## Equal shares -/

/-- An equal share is near one over the number of shares, so near enough that `n` of them sum to
almost one. -/
theorem exists_equal_share (n : Nat) : ∃ share, ofRat? (1 / (n : Rat)) = some share ∧
    0 ≤ share.toRat ∧ share.toRat ≤ 2 ∧
    (0 < n → n ≤ maxSymbols → |n * share.toRat - 1| ≤ 1 / 10 ^ 10) := by
  have hk0 : (0 : Rat) ≤ 1 / (n : Rat) := by positivity
  have hk1 : 1 / (n : Rat) ≤ 1 := by
    rcases Nat.eq_zero_or_pos n with h0 | hpos
    · rw [h0]
      norm_num
    · exact (div_le_one (by exact_mod_cast hpos)).2 (by exact_mod_cast hpos)
  obtain ⟨share, hshare, herr⟩ := ofRat?_of_small (q := 1 / (n : Rat))
    (by rw [abs_of_nonneg hk0]; linarith)
  obtain ⟨herr1, herr2⟩ := abs_le.1 herr
  have hu : unit ≤ 1 := by norm_num [unit]
  refine ⟨share, hshare, toRat_nonneg_of_ofRat? hshare hk0, by linarith, fun hpos hn => ?_⟩
  have hpos' : (0 : Rat) < n := by exact_mod_cast hpos
  have hn' : (n : Rat) ≤ 10 ^ 15 := by exact_mod_cast hn
  have hsplit : n * share.toRat - 1 = n * (share.toRat - 1 / n) := by
    rw [mul_sub, mul_one_div, div_self hpos'.ne']
  rw [hsplit, abs_mul, abs_of_nonneg hpos'.le]
  calc (n : Rat) * |share.toRat - 1 / n|
    _ ≤ n * (unit / 2) := mul_le_mul_of_nonneg_left herr hpos'.le
    _ ≤ 10 ^ 15 * (unit / 2) := mul_le_mul_of_nonneg_right hn' (by norm_num [unit])
    _ ≤ 1 / 10 ^ 10 := by norm_num [unit]

/-- Each child that is not empty gets one over their number. There is no share to compute where
there is none. -/
theorem equalWeight_eq_addShares {children : List Allocation} {share : Decimal}
    (h : ofRat? (1 / ((children.filter fun c => !c.isEmpty).length : Rat)) = some share) :
    equalWeight children =
      addShares .empty ((children.filter fun c => !c.isEmpty).map fun c => (.ok share, c)) := by
  unfold equalWeight
  generalize children.filter (fun c => !c.isEmpty) = present at h
  cases present with
  | nil => rfl
  | cons c rest =>
    have hshare : quotient .one (.ofCount (c :: rest).length) = .ok share := by
      rw [quotient, div?_one_ofCount (by simp), h]
    simp only [List.isEmpty_cons, Bool.false_eq_true, if_false, hshare]
    rfl

/-- **Equal shares.** Whole children are shared out equally to a whole allocation, which has no more
symbols than they have among them. -/
theorem equalWeight_spec {children : List Allocation} (h : ∀ c ∈ children, c.Whole)
    (hn : symbolCount children ≤ maxSymbols) :
    ∃ a, equalWeight children = .ok a ∧ a.Whole ∧ a.size ≤ symbolCount children := by
  have hpresent : ∀ c ∈ children.filter (fun c => !c.isEmpty), c.isEmpty = false ∧ c.Sharable :=
    fun c hc => by
      obtain ⟨hmem, hne⟩ := List.mem_filter.1 hc
      have hne' : c.isEmpty = false := by simpa using hne
      exact ⟨hne', (h c hmem).sharable hne'⟩
  have hcount := symbolCount_filter_le (fun c => !c.isEmpty) children
  have hlen := length_le_symbolCount fun c hc => (hpresent c hc).1
  obtain ⟨share, hshare, hshare0, hshare2, hnear⟩ :=
    exists_equal_share (children.filter fun c => !c.isEmpty).length
  rw [equalWeight_eq_addShares hshare]
  generalize children.filter (fun c => !c.isEmpty) = present at hpresent hcount hlen hnear ⊢
  by_cases hnone : present = []
  · rw [hnone]
    exact ⟨.empty, rfl, whole_empty, Nat.zero_le _⟩
  · have hsnd : (present.map fun c => (share, c)).map Prod.snd = present := by simp
    have hsum : exactSum ((present.map fun c => (share, c)).map Prod.fst) =
        present.length * share.toRat := by
      simp [exactSum, Function.comp_def]
    obtain ⟨a, ha, hwhole, hsize⟩ := addShares_whole (present.map fun c => (share, c))
      (fun s hs => by
        obtain ⟨c, hc, rfl⟩ := List.mem_map.1 hs
        exact ⟨hshare0, hshare2, (hpresent c hc).2⟩)
      (by rw [hsum]; exact hnear (List.length_pos_iff.2 hnone) (by omega))
      (by rw [hsnd]; omega)
    rw [hsnd] at hsize
    exact ⟨a, by simpa [List.map_map, Function.comp_def] using ha, hwhole, hsize.trans hcount⟩

/-! ## Given shares -/

/-- The shares of children by weights that are not negative: each is a weight over the total, up to
half a unit. -/
theorem exists_shares {total : Decimal} (ht : 0 < total.toRat)
    (weighted : List (Decimal × Allocation))
    (hw : ∀ c ∈ weighted, 0 ≤ c.1.toRat ∧ c.1.toRat ≤ 3 / 2 * total.toRat ∧ c.2.Sharable) :
    ∃ shares : List (Decimal × Allocation),
      (weighted.map fun c => (quotient c.1 total, c.2)) = (shares.map fun s => (.ok s.1, s.2)) ∧
      shares.map Prod.snd = weighted.map Prod.snd ∧
      (∀ s ∈ shares, 0 ≤ s.1.toRat ∧ s.1.toRat ≤ 2 ∧ s.2.Sharable) ∧
      |exactSum (shares.map Prod.fst) - exactSum (weighted.map Prod.fst) / total.toRat| ≤
        weighted.length * (unit / 2) := by
  induction weighted with
  | nil => exact ⟨[], rfl, rfl, by simp, by simp⟩
  | cons c rest ih =>
    obtain ⟨w, child⟩ := c
    obtain ⟨hw0, hwt, hchild⟩ :
      0 ≤ w.toRat ∧ w.toRat ≤ 3 / 2 * total.toRat ∧ child.Sharable := hw (w, child) (by simp)
    have hquot : w.toRat / total.toRat ≤ 3 / 2 := (div_le_iff₀ ht).2 hwt
    obtain ⟨share, hshare, hshare0, herr⟩ := quotient_of_small (a := w) ht.ne'
      (div_nonneg hw0 ht.le) (by linarith)
    obtain ⟨shares, hmap, hsnd, hs, hsum⟩ := ih fun c hc => hw c (List.mem_cons_of_mem _ hc)
    obtain ⟨herr1, herr2⟩ := abs_le.1 herr
    obtain ⟨hsum1, hsum2⟩ := abs_le.1 hsum
    have hu : unit ≤ 1 := by norm_num [unit]
    refine ⟨(share, child) :: shares, by simp [hshare, hmap], by simp [hsnd], ?_, ?_⟩
    · intro s hs'
      rcases List.mem_cons.1 hs' with rfl | hs'
      · exact ⟨hshare0, by simp only; linarith, hchild⟩
      · exact hs s hs'
    · simp only [List.map_cons, exactSum_cons, List.length_cons, Nat.cast_add, Nat.cast_one,
        add_div]
      exact abs_le.2 ⟨by linarith, by linarith⟩

/-- Leaving out weights of zero does not change the sum. -/
theorem exactSum_filter_isZero (weighted : List (Decimal × Allocation)) :
    exactSum ((weighted.filter fun c => !c.1.isZero).map Prod.fst) =
      exactSum (weighted.map Prod.fst) := by
  induction weighted with
  | nil => rfl
  | cons c rest ih =>
    rw [List.filter_cons]
    split
    · simp [ih]
    · rename_i hz
      have : c.1.toRat = 0 := toRat_eq_zero_iff.2 (by simpa using hz)
      simp [ih, this]

theorem symbolCount_map_snd_filter_le (p : Decimal × Allocation → Bool)
    (weighted : List (Decimal × Allocation)) :
    symbolCount ((weighted.filter p).map Prod.snd) ≤ symbolCount (weighted.map Prod.snd) := by
  induction weighted with
  | nil => simp
  | cons c rest ih =>
    rw [List.filter_cons]
    split <;> simp only [List.map_cons, symbolCount_cons] <;> omega

/-- The rounded sum of weights that are not negative is near the exact one. -/
theorem abs_sumFrom_sub_le {ds : List Decimal} {t : Decimal} (h : ∀ d ∈ ds, 0 ≤ d.toRat)
    (hlen : ds.length ≤ maxSymbols) (ht : sumFrom .zero ds = .ok t) :
    |t.toRat - exactSum ds| ≤ 1 / 10 ^ 12 * exactSum ds := by
  have hlen' : (ds.length : Rat) ≤ 10 ^ 15 := by exact_mod_cast hlen
  have hsmall : 2 * (ds.length : Rat) * unit ≤ 1 / 10 ^ 12 := by
    have := mul_le_mul_of_nonneg_right hlen' unit_pos.le
    have : (10 : Rat) ^ 15 * unit ≤ 1 / 10 ^ 13 := by norm_num [unit]
    linarith
  have herr := sumFrom_error (q := 0) 0 h (le_refl _) (by simp)
    (by rw [Nat.zero_add]; linarith) ht
  rw [Nat.zero_add, zero_add] at herr
  exact herr.trans (mul_le_mul_of_nonneg_right hsmall (exactSum_nonneg h))

/-- Weights over their rounded sum make a whole allocation. -/
theorem addShares_quotient_whole {total : Decimal} {weighted : List (Decimal × Allocation)}
    (hw : ∀ c ∈ weighted, 0 ≤ c.1.toRat ∧ c.2.Sharable)
    (hn : symbolCount (weighted.map Prod.snd) ≤ maxSymbols) (hlen : weighted.length ≤ maxSymbols)
    (hpos : 0 < exactSum (weighted.map Prod.fst))
    (ht : |total.toRat - exactSum (weighted.map Prod.fst)| ≤
      1 / 10 ^ 12 * exactSum (weighted.map Prod.fst)) :
    ∃ a, addShares .empty (weighted.map fun c => (quotient c.1 total, c.2)) = .ok a ∧ a.Whole ∧
      a.size ≤ symbolCount (weighted.map Prod.snd) := by
  obtain ⟨ht1, ht2⟩ := abs_le.1 ht
  have htpos : 0 < total.toRat := by linarith
  have hfst : ∀ d ∈ weighted.map Prod.fst, 0 ≤ d.toRat := fun d hd => by
    obtain ⟨c, hc, rfl⟩ := List.mem_map.1 hd
    exact (hw c hc).1
  obtain ⟨shares, hmap, hsnd, hs, hsum⟩ := exists_shares htpos weighted fun c hc => by
    have hle := le_exactSum hfst (List.mem_map_of_mem hc)
    exact ⟨(hw c hc).1, by linarith, (hw c hc).2⟩
  have hnear : |exactSum (shares.map Prod.fst) - 1| ≤ 1 / 10 ^ 10 := by
    have hlen' : (weighted.length : Rat) ≤ 10 ^ 15 := by exact_mod_cast hlen
    have h1 := mul_le_mul_of_nonneg_right hlen' (show (0 : Rat) ≤ unit / 2 by norm_num [unit])
    have h2 : (10 : Rat) ^ 15 * (unit / 2) ≤ 1 / 10 ^ 12 := by norm_num [unit]
    have h3 : exactSum (weighted.map Prod.fst) / total.toRat ≤ 1 + 1 / 10 ^ 11 := by
      rw [div_le_iff₀ htpos]
      linarith
    have h4 : 1 - 1 / 10 ^ 11 ≤ exactSum (weighted.map Prod.fst) / total.toRat := by
      rw [le_div_iff₀ htpos]
      linarith
    obtain ⟨hsum1, hsum2⟩ := abs_le.1 hsum
    exact abs_le.2 ⟨by linarith, by linarith⟩
  obtain ⟨a, ha, hwhole, hsize⟩ := addShares_whole shares hs hnear (by rwa [hsnd])
  rw [hsnd] at hsize
  exact ⟨a, by rw [hmap, ha], hwhole, hsize⟩

/-- **Given shares.** Whole children are shared out by weights that are not negative to a whole
allocation, unless the weights have no sum or the sum is zero. -/
theorem specifiedWeight_spec {children : List (Decimal × Allocation)}
    (h : ∀ c ∈ children, 0 ≤ c.1.toRat ∧ c.2.Whole)
    (hn : symbolCount (children.map Prod.snd) ≤ maxSymbols) :
    (∃ a, specifiedWeight children = .ok a ∧ a.Whole ∧
      a.size ≤ symbolCount (children.map Prod.snd)) ∨
    specifiedWeight children = .error .totalOverflow ∨
    specifiedWeight children = .error .zeroTotal := by
  have hpresent : ∀ c ∈ children.filter (fun c => !c.2.isEmpty),
      0 ≤ c.1.toRat ∧ c.2.isEmpty = false ∧ c.2.Sharable := fun c hc => by
    obtain ⟨hmem, hne⟩ := List.mem_filter.1 hc
    have hne' : c.2.isEmpty = false := by simpa using hne
    exact ⟨(h c hmem).1, hne', (h c hmem).2.sharable hne'⟩
  have hcount := symbolCount_map_snd_filter_le (fun c => !c.2.isEmpty) children
  unfold specifiedWeight
  simp only []
  generalize children.filter (fun c => !c.2.isEmpty) = present at hpresent hcount ⊢
  have hlen : present.length ≤ symbolCount (present.map Prod.snd) := by
    have hne : ∀ a ∈ present.map Prod.snd, a.isEmpty = false := fun a ha => by
      obtain ⟨c, hc, rfl⟩ := List.mem_map.1 ha
      exact (hpresent c hc).2.1
    simpa using length_le_symbolCount hne
  split
  · exact .inl ⟨.empty, rfl, whole_empty, by simp⟩
  cases ht : sumFrom .zero (present.map Prod.fst) with
  | error e => exact .inr (.inl rfl)
  | ok total =>
    simp only []
    split
    · exact .inr (.inr rfl)
    rename_i hz
    left
    have hfst : ∀ d ∈ present.map Prod.fst, 0 ≤ d.toRat := fun d hd => by
      obtain ⟨c, hc, rfl⟩ := List.mem_map.1 hd
      exact (hpresent c hc).1
    have htotal := abs_sumFrom_sub_le hfst (by rw [List.length_map]; omega) ht
    have hpos : 0 < exactSum (present.map Prod.fst) := by
      refine lt_of_le_of_ne (exactSum_nonneg hfst) fun h0 => hz (toRat_eq_zero_iff.1 ?_)
      rw [← h0, mul_zero, sub_zero] at htotal
      exact abs_nonpos_iff.1 htotal
    have hcount' := symbolCount_map_snd_filter_le (fun c => !c.1.isZero) present
    have hlen' := List.length_filter_le (fun c : Decimal × Allocation => !c.1.isZero) present
    rw [← exactSum_filter_isZero] at htotal hpos
    obtain ⟨a, ha, hwhole, hsize⟩ := addShares_quotient_whole
      (fun c hc => ⟨(hpresent c (List.mem_filter.1 hc).1).1,
        (hpresent c (List.mem_filter.1 hc).1).2.2⟩) (by omega) (by omega) hpos htotal
    exact ⟨a, by rw [ha], hwhole, by omega⟩

end Allocation

end AllocScript
