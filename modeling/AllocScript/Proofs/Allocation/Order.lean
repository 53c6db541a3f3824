import AllocScript.Proofs.Allocation.Shares
import AllocScript.Proofs.Eval.Metadata

/-!
# The order of children

Every symbol gets the sum of its portions, and a sum does not depend on the order of its terms. So
neither do the weights of the result (`weighting_ignores_order`): always for equal shares, and for
given shares if the total of the weights is not rounded on the way. Empty children count for nothing
wherever they stand.
-/

namespace AllocScript

namespace Allocation

open Decimal

/-! ## The same weights -/

/-- Allocations of positive weights with the same weight for every symbol are the same. -/
theorem same_of_weightOf {a b : Allocation} (ha : a.Positive) (hb : b.Positive)
    (hmetadata : a.metadata = b.metadata) (h : ∀ x, a.weightOf x = b.weightOf x) :
    a.same b = true := by
  have hsymbols : a.symbols = b.symbols :=
    List.Pairwise.eq_of_mem_iff a.weights.ascending b.weights.ascending fun x => by
      have hmem : x ∈ a.symbols ↔ x ∈ b.symbols := by rw [ha.mem_symbols_iff, hb.mem_symbols_iff, h]
      exact hmem
  have hvalues : ∀ p ∈ a.weights.values.zip b.weights.values, p.1.sameValue p.2 = true := by
    intro p hp
    obtain ⟨i, hi, rfl⟩ := List.mem_iff_getElem.1 hp
    have hia : i < a.weights.entries.length := by
      simp only [List.length_zip, TextMap.values, List.length_map] at hi; omega
    have hib : i < b.weights.entries.length := by
      simp only [List.length_zip, TextMap.values, List.length_map] at hi; omega
    have hkey : a.weights.entries[i].1 = b.weights.entries[i].1 := by
      have hat := congrArg (·[i]?) hsymbols
      simpa [symbols, TextMap.keys, hia, hib] using hat
    have hweight := h a.weights.entries[i].1
    rw [weightOf_entry (List.getElem_mem hia), hkey,
      weightOf_entry (List.getElem_mem hib)] at hweight
    simpa [sameValue, TextMap.values] using hweight
  rw [same, hmetadata, hsymbols, beq_self_eq_true, beq_self_eq_true, Bool.true_and, Bool.true_and,
    List.all_eq_true]
  exact hvalues

/-- Shares in another order give the same weights. -/
theorem same_of_perm {l l' : List Share} {a b : Allocation} (hperm : l.Perm l')
    (ha : addAll l = .ok a) (hb : addAll l' = .ok b)
    (hweights : ∀ x, a.weightOf x = (l.map (·.portion x)).sum)
    (hweights' : ∀ x, b.weightOf x = (l'.map (·.portion x)).sum) : a.same b = true := by
  refine same_of_weightOf (positive_addAll ha) (positive_addAll hb) ?_ fun x => ?_
  · rw [metadata_addShares ha, metadata_addShares hb]
  · rw [hweights, hweights', (hperm.map _).sum_eq]

/-! ## Equal shares -/

/-- Equal shares count the children that are not empty and no others. -/
theorem equalWeight_perm {as bs : List Allocation} (hperm : as.Perm bs)
    (h : ∀ c ∈ as, c.Whole) :
    ∃ a b, equalWeight as = .ok a ∧ equalWeight bs = .ok b ∧ a.same b = true := by
  have hsharable {cs : List Allocation} (hcs : ∀ c ∈ cs, c.Whole) :
      ∀ c ∈ cs.filter fun c => !c.isEmpty, c.Sharable := fun c hc => by
    obtain ⟨hmem, hne⟩ := List.mem_filter.1 hc
    exact (hcs c hmem).sharable (by simpa using hne)
  obtain ⟨a, ha, hweights⟩ := addAll_sharesEqually (hsharable h)
  obtain ⟨b, hb, hweights'⟩ :=
    addAll_sharesEqually (hsharable fun c hc => h c (hperm.mem_iff.2 hc))
  have hshares : (sharesEqually (as.filter fun c => !c.isEmpty)).Perm
      (sharesEqually (bs.filter fun c => !c.isEmpty)) := by
    have hpresent := hperm.filter fun c => !c.isEmpty
    unfold sharesEqually
    rw [hpresent.length_eq]
    exact hpresent.map _
  exact ⟨a, b, by rw [equalWeight_eq, ha], by rw [equalWeight_eq, hb],
    same_of_perm hshares ha hb hweights hweights'⟩

/-! ## Given shares -/

/-- No running sum of some weights is rounded. -/
def Unrounded (ws : List Decimal) : Prop :=
  ∀ k t, sumFrom .zero (ws.take k) = .ok t → t.toRat = exactSum (ws.take k)

theorem Unrounded.total {ws : List Decimal} {t : Decimal} (h : Unrounded ws)
    (ht : sumFrom .zero ws = .ok t) : t.toRat = exactSum ws := by
  have hall := h ws.length t
  rw [List.take_length] at hall
  exact hall ht

theorem exactSum_perm {ws vs : List Decimal} (h : ws.Perm vs) : exactSum ws = exactSum vs :=
  (h.map toRat).sum_eq

theorem exactSum_append (ws vs : List Decimal) :
    exactSum (ws ++ vs) = exactSum ws + exactSum vs := by
  simp [exactSum]

/-- Weights whose total is a decimal have a total in every order in which it is not rounded. -/
theorem exists_total {ws : List Decimal} (hws : ∀ w ∈ ws, 0 ≤ w.toRat) (hexact : Unrounded ws)
    {t : Decimal} (ht : t.toRat = exactSum ws) : ∃ t', sumFrom .zero ws = .ok t' := by
  cases hsum : sumFrom .zero ws with
  | ok t' => exact ⟨t', rfl⟩
  | error kind =>
    exfalso
    obtain ⟨k, s, w, hs, hw, hlarge⟩ := sumFrom_error_cases (by rw [toRat_zero]) hws hsum
    obtain ⟨hk, rfl⟩ := List.getElem?_eq_some_iff.1 hw
    have hsplit : exactSum ws =
        exactSum (ws.take k) + (ws[k].toRat + exactSum (ws.drop (k + 1))) := by
      rw [← exactSum_cons, ← List.drop_eq_getElem_cons hk, ← exactSum_append, List.take_append_drop]
    have hrest := exactSum_nonneg fun d hd => hws d (List.mem_of_mem_drop (i := k + 1) hd)
    have hnonneg : 0 ≤ t.toRat := ht ▸ exactSum_nonneg hws
    have hfits := toRat_mul_pow_le t (t := 0) hnonneg (Nat.zero_le _)
    rw [hexact k s hs] at hlarge
    rw [pow_zero, mul_one, ht, hsplit] at hfits
    linarith

/-- Weights have the same total in every order in which no running sum is rounded. -/
theorem Unrounded.total_perm {ws vs : List Decimal} {t : Decimal} (hws : Unrounded ws)
    (hvs : Unrounded vs) (hperm : ws.Perm vs) (hnonneg : ∀ v ∈ vs, 0 ≤ v.toRat)
    (ht : sumFrom .zero ws = .ok t) : ∃ t', sumFrom .zero vs = .ok t' ∧ t'.toRat = t.toRat := by
  have hsum := (hws.total ht).trans (exactSum_perm hperm)
  obtain ⟨t', ht'⟩ := exists_total hnonneg hvs hsum
  exact ⟨t', ht', (hvs.total ht').trans hsum.symm⟩

theorem shareOf_congr {t t' : Decimal} (h : t.toRat = t'.toRat) (w : Decimal) :
    shareOf t w = shareOf t' w := by
  have hzero : t.isZero = t'.isZero := by
    rw [Bool.eq_iff_iff, ← toRat_eq_zero_iff, ← toRat_eq_zero_iff, h]
  simp only [shareOf, div?, hzero, h]

/-- With a total that is not rounded, the shares of a possible number of children leave room for the
errors. -/
theorem addAll_sharesBy_unrounded {children : List (Decimal × Allocation)} {total : Decimal}
    (h : Weighted children) (hlength : children.length ≤ maxSymbols)
    (hexact : Unrounded (children.map Prod.fst))
    (ht : sumFrom .zero (children.map Prod.fst) = .ok total) (hpos : 0 < total.toRat) :
    ∃ a, addAll (sharesBy total children) = .ok a ∧
      ∀ x, a.weightOf x = ((sharesBy total children).map (·.portion x)).sum := by
  refine addAll_near (h.near ht hpos) ?_
  have hlength' : (children.length : Rat) ≤ 10 ^ 15 := by exact_mod_cast hlength
  rw [sum_exact_sharesBy, ← hexact.total ht, div_self hpos.ne', sharesBy, List.length_map]
  unfold unit
  linarith

theorem length_present_le {children : List (Decimal × Allocation)} :
    (present children).length ≤ symbolCount (children.map Prod.snd) := by
  have hne : ∀ c ∈ (present children).map Prod.snd, c.isEmpty = false := fun c hc => by
    obtain ⟨d, hd, rfl⟩ := List.mem_map.1 hc
    simpa using (List.mem_filter.1 hd).2
  have hlength := length_le_symbolCount hne
  rw [List.length_map] at hlength
  exact hlength.trans (symbolCount_map_snd_filter_le _ _)

/-- Given shares depend on the order of the weights only where a running total is rounded. -/
theorem specifiedWeight_perm {cs ds : List (Decimal × Allocation)} (hperm : cs.Perm ds)
    (h : ∀ c ∈ cs, 0 ≤ c.1.toRat ∧ c.2.Whole)
    (hn : symbolCount (cs.map Prod.snd) ≤ maxSymbols)
    (hcs : Unrounded ((present cs).map Prod.fst)) (hds : Unrounded ((present ds).map Prod.fst)) :
    (∃ a b, specifiedWeight cs = .ok a ∧ specifiedWeight ds = .ok b ∧ a.same b = true) ∨
      ∃ e, specifiedWeight cs = .error e ∧ specifiedWeight ds = .error e := by
  have hpresent : (present cs).Perm (present ds) := hperm.filter _
  have hweights := weighted_present h
  have hweights' : Weighted (present ds) :=
    weighted_present fun c hc => h c (hperm.mem_iff.2 hc)
  have htotals := hpresent.map Prod.fst
  by_cases hnil : present cs = []
  · have hnil' : present ds = [] := by rwa [hnil, List.nil_perm] at hpresent
    exact .inl ⟨.empty, .empty, specifiedWeight_of_nil hnil, specifiedWeight_of_nil hnil', rfl⟩
  have hnil' : present ds ≠ [] := fun hd => hnil (by rwa [hd, List.perm_nil] at hpresent)
  rcases specifiedWeight_cases hweights hnil with
    ⟨kind, ht, hr⟩ | ⟨t, ht, hz, hr⟩ | ⟨t, ht, hpos, hr⟩
  · -- A total in the other order would be one in this order.
    cases ht' : sumFrom .zero ((present ds).map Prod.fst) with
    | error kind' => exact .inr ⟨.totalOverflow, hr, by rw [specifiedWeight_eq hnil', ht']⟩
    | ok t' =>
      obtain ⟨t, htotal, -⟩ := hds.total_perm hcs htotals.symm hweights.nonneg ht'
      rw [ht] at htotal
      cases htotal
  · obtain ⟨t', ht', hvalue⟩ := hcs.total_perm hds htotals hweights'.nonneg ht
    refine .inr ⟨.zeroTotal, hr, ?_⟩
    rw [specifiedWeight_eq hnil', ht']
    exact if_pos (toRat_eq_zero_iff.1 (hvalue.trans hz))
  · obtain ⟨t', ht', hvalue⟩ := hcs.total_perm hds htotals hweights'.nonneg ht
    have hpos' : 0 < t'.toRat := hvalue ▸ hpos
    have hlength := length_present_le.trans hn
    obtain ⟨a, ha, hsums⟩ := addAll_sharesBy_unrounded hweights hlength hcs ht hpos
    obtain ⟨b, hb, hsums'⟩ := addAll_sharesBy_unrounded hweights'
      (hpresent.length_eq ▸ hlength) hds ht' hpos'
    have hshares : (sharesBy t (present cs)).Perm (sharesBy t' (present ds)) := by
      have hcongr : sharesBy t' (present ds) = sharesBy t (present ds) := by
        simp only [sharesBy, shareOf_congr hvalue, hvalue]
      rw [hcongr]
      exact hpresent.map _
    refine .inl ⟨a, b, by rw [hr, ha]; rfl, ?_, same_of_perm hshares ha hb hsums hsums'⟩
    rw [specifiedWeight_of_total hweights' ht' hpos', hb]
    rfl

/-! ## Empty children -/

/-- Children that are not empty determine equal shares. -/
theorem equalWeight_congr {as bs : List Allocation}
    (h : (as.filter fun c => !c.isEmpty) = bs.filter fun c => !c.isEmpty) :
    equalWeight as = equalWeight bs := by
  rw [equalWeight_eq, equalWeight_eq, h]

/-- Children that are not empty determine given shares, their faults included. -/
theorem specifiedWeight_congr {cs ds : List (Decimal × Allocation)} (h : present cs = present ds) :
    specifiedWeight cs = specifiedWeight ds := by
  by_cases hnil : present cs = []
  · rw [specifiedWeight_of_nil hnil, specifiedWeight_of_nil (h ▸ hnil)]
  · rw [specifiedWeight_eq hnil, specifiedWeight_eq (h ▸ hnil), h]

/-- **The order of children does not matter.** Equal shares of whole children give the same weights
in every order, and so do given shares, or they are refused alike, as long as no running sum of the
weights is rounded in either order. Empty children with any weights, put in anywhere, change neither
the result nor the reason for a refusal. -/
theorem weighting_ignores_order :
    (∀ as bs : List Allocation, as.Perm bs → (∀ c ∈ as, c.Whole) →
      ∃ a b, equalWeight as = .ok a ∧ equalWeight bs = .ok b ∧ a.same b = true) ∧
    (∀ cs ds : List (Decimal × Allocation), cs.Perm ds → (∀ c ∈ cs, 0 ≤ c.1.toRat ∧ c.2.Whole) →
      symbolCount (cs.map Prod.snd) ≤ maxSymbols →
      Unrounded ((present cs).map Prod.fst) → Unrounded ((present ds).map Prod.fst) →
      (∃ a b, specifiedWeight cs = .ok a ∧ specifiedWeight ds = .ok b ∧ a.same b = true) ∨
        ∃ e, specifiedWeight cs = .error e ∧ specifiedWeight ds = .error e) ∧
    (∀ as bs : List Allocation,
      ((as.filter fun c => !c.isEmpty) = bs.filter fun c => !c.isEmpty) →
        equalWeight as = equalWeight bs) ∧
    ∀ cs ds : List (Decimal × Allocation), present cs = present ds →
      specifiedWeight cs = specifiedWeight ds :=
  ⟨fun _ _ hperm h => equalWeight_perm hperm h,
    fun _ _ hperm h hn hcs hds => specifiedWeight_perm hperm h hn hcs hds,
    fun _ _ h => equalWeight_congr h, fun _ _ h => specifiedWeight_congr h⟩

/-- Three children, of which one is empty, by weights of one and two in both orders. -/
theorem weighting_ignores_order_reversed :
    let two : Decimal := ⟨2, 0, by decide, by decide⟩
    (∃ a b, equalWeight [single "A", .empty, single "B"] = .ok a ∧
      equalWeight [single "B", .empty, single "A"] = .ok b ∧ a.same b = true) ∧
    ∃ a b, specifiedWeight [(.one, single "A"), (.one, .empty), (two, single "B")] = .ok a ∧
      specifiedWeight [(two, single "B"), (.one, .empty), (.one, single "A")] = .ok b ∧
      a.same b = true := by
  intro two
  have hreverse {α : Type} (x y z : α) : [x, y, z].Perm [z, y, x] :=
    (List.reverse_perm [x, y, z]).symm
  refine ⟨weighting_ignores_order.1 _ _ (hreverse ..) (by simp [whole_single, whole_empty]), ?_⟩
  have hone : sumFrom .zero [.one] = .ok .one := by decide +kernel
  have htwo : sumFrom .zero [two] = .ok two := by decide +kernel
  have hthree : sumFrom .zero [.one, two] = .ok ⟨3, 0, by decide, by decide⟩ := by decide +kernel
  have hthree' : sumFrom .zero [two, .one] = .ok ⟨3, 0, by decide, by decide⟩ := by decide +kernel
  have hexact {v w : Decimal} (hv : sumFrom .zero [v] = .ok v)
      (hvw : sumFrom .zero [v, w] = .ok ⟨3, 0, by decide, by decide⟩)
      (hsum : v.toRat + w.toRat = 3) : Unrounded [v, w] := by
    rintro (_ | _ | k) t ht
    · cases ht
      simp
    · cases hv.symm.trans ht
      simp
    · have hall : [v, w].take (k + 1 + 1) = [v, w] := by simp
      rw [hall] at ht ⊢
      cases hvw.symm.trans ht
      rw [exactSum_cons, exactSum_cons, exactSum_nil, add_zero, hsum]
      simp [toRat]
  have htwoRat : two.toRat = 2 := by simp [two, toRat]
  refine (weighting_ignores_order.2.1 _ _ (hreverse ..) ?_ (by decide) ?_ ?_).resolve_right ?_
  · simp [whole_single, whole_empty, htwoRat]
  · exact hexact hone hthree (by rw [toRat_one, htwoRat]; norm_num)
  · exact hexact htwo hthree' (by rw [toRat_one, htwoRat]; norm_num)
  · rintro ⟨e, he, -⟩
    have hok : (specifiedWeight [(.one, single "A"), (.one, .empty), (two, single "B")]).isOk =
        true := by decide +kernel
    rw [he] at hok
    cases hok

end Allocation

end AllocScript
