import AllocScript.Eval.Operators
import AllocScript.Proofs.Allocation.Shares

/-!
# Sharing out weight against exact arithmetic

The weight of a symbol should be the sum over the children of the exact share times the fraction
that the symbol has of the child. `weighting_accuracy` bounds the distance by ten units for each
child, however many there are.

With few children the sums of portions are exact and every portion is off by less than two units.
With more than `10 ^ 28` of them the errors may add up to more than that. Then ten units for each
child are more than 23, and no sum of portions passes that (`addAll_bounded`).
-/

namespace AllocScript

namespace Allocation

open Decimal

/-! ## Many children -/

section Given

variable {total : Decimal} {children : List (Decimal × Allocation)}

/-- The portions of a symbol sum to no more than 23 as long as the weights of the children do not
pass the total. -/
theorem runningSum_portions_le {t : Decimal} {r : Rat} (h : Weighted children)
    (hnear : ∀ s ∈ sharesBy total children, s.Near) (hpos : 0 < total.toRat)
    (ht : sumFrom .zero (children.map Prod.fst) = .ok t) (htT : t.toRat ≤ total.toRat) (x : String)
    (hr : RunningSum 0 ((sharesBy total children).map (·.portion x)) r) : 0 ≤ r ∧ r ≤ 23 := by
  have hrun := runningSum_of_sumFrom ht
  have hweights := addends_toRat h.nonneg
  have hportions : RunningSum.Addends ((sharesBy total children).map (·.portion x)) := by
    intro p hp
    obtain ⟨s, hs, rfl⟩ := List.mem_map.1 hp
    exact ⟨portion_nonneg (hnear s hs).sharable (hnear s hs).nonneg x,
      (isDecimal_portion ..).onGrid⟩
  refine ⟨hr.le isDecimal_zero (le_refl _) fun p hp => (hportions p hp).1, ?_⟩
  -- Every weight beside its portion.
  let pairs := (sharesBy total children).map fun s => (s.exact * total.toRat, s.portion x)
  have hfst : pairs.map Prod.fst = (children.map Prod.fst).map toRat := by
    simp [pairs, sharesBy, Function.comp_def, div_mul_cancel₀ _ hpos.ne']
  have hsnd : pairs.map Prod.snd = (sharesBy total children).map (·.portion x) := by
    simp [pairs, Function.comp_def]
  rw [toRat_zero, ← hfst] at hrun
  rw [← hfst] at hweights
  rw [← hsnd] at hr hportions
  have hbound := RunningSum.le_of_parallel hpos hrun htT hr isDecimal_zero (le_refl _) hweights
    isDecimal_zero (le_refl _) hportions (fun p hp => by
      obtain ⟨s, hs, rfl⟩ := List.mem_map.1 hp
      have herror := (abs_le.1 ((hnear s hs).abs_portion_sub_le x)).2
      have hexact := (hnear s hs).exactPortion_le x
      rw [mul_div_cancel_right₀ _ hpos.ne']
      linarith) (by norm_num)
  have hone := (div_le_one hpos).2 htT
  linarith

/-- **Many children.** The weight of a symbol stays below 23, however many children there are. -/
theorem addAll_bounded (h : Weighted children)
    (ht : sumFrom .zero (children.map Prod.fst) = .ok total) (hpos : 0 < total.toRat) :
    ∃ a, addAll (sharesBy total children) = .ok a ∧
      ∀ x, 0 ≤ a.weightOf x ∧ a.weightOf x ≤ 23 := by
  have hnear := h.near ht hpos
  have hbound (x : String) (k : Nat) (r : Rat) (hr : RunningSum 0
      (((sharesBy total children).take k).map (·.portion x)) r) : 0 ≤ r ∧ r ≤ 23 := by
    obtain ⟨t, hfew, htT⟩ := exists_sumFrom_take (by rw [toRat_zero]) h.nonneg ht k
    rw [← List.map_take] at hfew
    rw [sharesBy, ← List.map_take] at hr
    exact runningSum_portions_le (fun c hc => h c (List.mem_of_mem_take hc))
      (fun s hs => hnear s (List.map_subset _ (List.take_subset k children) hs)) hpos hfew htT x hr
  obtain ⟨a, ha, hsums⟩ := addShares_runningSum (a := .empty) (Share.Near.sharable_pairs hnear)
    (fun x => (weightOf_empty x).ge) fun x k r hr => by
      rw [weightOf_empty, ← List.map_take, List.map_map] at hr
      exact (hbound x k r hr).2.trans (by norm_num [addLimit])
  refine ⟨a, by simpa [addAll, List.map_map, Function.comp_def] using ha, fun x => ?_⟩
  have hsum := hsums x
  rw [weightOf_empty, List.map_map] at hsum
  exact hbound x _ _ (by rw [List.take_length]; exact hsum)

end Given

/-! ## The distance from exact arithmetic -/

/-- What a symbol should get of children by their weights. -/
def exactByWeight (children : List (Decimal × Allocation)) (x : String) : Rat :=
  (children.map fun c => c.1.toRat / exactSum (children.map Prod.fst) * c.2.fraction x).sum

section Distance

variable {total : Decimal} {children : List (Decimal × Allocation)}

theorem exactByWeight_mem (h : Weighted children) (hW : 0 < exactSum (children.map Prod.fst))
    (x : String) : 0 ≤ exactByWeight children x ∧ exactByWeight children x ≤ 1 := by
  have hterm : ∀ c ∈ children, 0 ≤ c.1.toRat / exactSum (children.map Prod.fst) :=
    fun c hc => div_nonneg (h c hc).1 hW.le
  constructor
  · refine List.sum_nonneg fun q hq => ?_
    obtain ⟨c, hc, rfl⟩ := List.mem_map.1 hq
    exact mul_nonneg (hterm c hc) ((h c hc).2.fraction_nonneg x)
  · calc exactByWeight children x
      _ ≤ (children.map fun c => c.1.toRat / exactSum (children.map Prod.fst)).sum :=
        List.sum_le_sum fun c hc =>
          mul_le_of_le_one_right (hterm c hc) ((h c hc).2.fraction_le_one x)
      _ = exactSum (children.map Prod.fst) / exactSum (children.map Prod.fst) := by
        simp only [div_eq_mul_inv, List.sum_map_mul_right]
        rw [exactSum, List.map_map]
        rfl
      _ = 1 := div_self hW.ne'

/-- Dividing by the running total in place of the exact one scales everything alike. -/
theorem sum_exactPortion_sharesBy (hW : exactSum (children.map Prod.fst) ≠ 0) (x : String) :
    ((sharesBy total children).map (·.exactPortion x)).sum =
      exactByWeight children x * (exactSum (children.map Prod.fst) / total.toRat) := by
  rw [exactByWeight, ← List.sum_map_mul_right, sharesBy, List.map_map]
  refine congrArg _ (List.map_congr_left fun c _ => ?_)
  show c.1.toRat / total.toRat * c.2.fraction x = _
  rw [mul_right_comm, div_mul_div_cancel₀ hW]

/-- The running total is the exact one up to a unit of it for each weight. -/
theorem abs_total_sub_le (h : Weighted children)
    (ht : sumFrom .zero (children.map Prod.fst) = .ok total) :
    |total.toRat - exactSum (children.map Prod.fst)| ≤ children.length * unit * total.toRat := by
  have herror := (runningSum_of_sumFrom ht).error (isDecimal_toRat _) (by rw [toRat_zero])
    (addends_toRat h.nonneg)
  rw [toRat_zero, zero_add, List.length_map, List.length_map] at herror
  exact herror

/-- **Given shares.** Every symbol gets what it should get up to ten units for each child. -/
theorem addAll_sharesBy_accuracy (h : Weighted children)
    (ht : sumFrom .zero (children.map Prod.fst) = .ok total)
    (hW : 0 < exactSum (children.map Prod.fst)) :
    0 < total.toRat ∧ ∃ a, addAll (sharesBy total children) = .ok a ∧
      ∀ x, |a.weightOf x - exactByWeight children x| ≤ children.length / 10 ^ 27 := by
  have herror := abs_total_sub_le h ht
  have htotal : 0 < total.toRat := by
    have hnonneg := (eq_zero_of_sumFrom (by rw [toRat_zero]) h.nonneg ht).1
    refine lt_of_le_of_ne hnonneg fun h0 => ?_
    rw [← h0, mul_zero, zero_sub, abs_neg, abs_of_pos hW] at herror
    exact hW.not_ge herror
  refine ⟨htotal, ?_⟩
  generalize hn : (children.length : Rat) = n at herror ⊢
  have hratio : |exactSum (children.map Prod.fst) / total.toRat - 1| ≤ n * unit := by
    rw [div_sub_one htotal.ne', abs_div, abs_of_pos htotal, div_le_iff₀ htotal, abs_sub_comm]
    exact herror
  obtain ⟨hratio1, hratio2⟩ := abs_le.1 hratio
  have hunits : n / 10 ^ 27 = 10 * (n * unit) := by rw [unit]; ring
  by_cases hfew : n * unit ≤ 23 / 10
  · have hnear := h.near ht htotal
    have hlength : ((sharesBy total children).length : Rat) = n := by
      rw [sharesBy, List.length_map, hn]
    obtain ⟨a, ha, hweights⟩ := addAll_near hnear (by
      rw [sum_exact_sharesBy, hlength]
      linarith)
    refine ⟨a, ha, fun x => ?_⟩
    have hportions := Share.abs_sum_portion_sub_le hnear x
    rw [hlength, sum_exactPortion_sharesBy hW.ne'] at hportions
    obtain ⟨hE0, hE1⟩ := exactByWeight_mem h hW x
    rw [hweights, hunits]
    generalize exactByWeight children x = E at hE0 hE1 hportions ⊢
    generalize exactSum (children.map Prod.fst) / total.toRat = ρ at hratio hportions
    have hscale : |E * ρ - E| ≤ n * unit := by
      have hmul : E * ρ - E = E * (ρ - 1) := by ring
      rw [hmul, abs_mul, abs_of_nonneg hE0]
      exact (mul_le_mul hE1 hratio (abs_nonneg _) zero_le_one).trans (one_mul _).le
    calc |_ - E|
      _ ≤ |_ - E * ρ| + |E * ρ - E| := abs_sub_le _ _ _
      _ ≤ n * (8 / 5 * unit) + n * unit := add_le_add hportions hscale
      _ ≤ 10 * (n * unit) := by linarith [(abs_nonneg _).trans hscale]
  · obtain ⟨a, ha, hbound⟩ := addAll_bounded h ht htotal
    refine ⟨a, ha, fun x => ?_⟩
    obtain ⟨hE0, hE1⟩ := exactByWeight_mem h hW x
    obtain ⟨ha0, ha23⟩ := hbound x
    rw [hunits, abs_le]
    constructor <;> linarith

end Distance

/-- **Equal shares.** Every symbol gets what it should get up to ten units for each child. -/
theorem addAll_sharesEqually_accuracy {children : List Allocation}
    (h : ∀ c ∈ children, c.Sharable) :
    ∃ a, addAll (sharesEqually children) = .ok a ∧ ∀ x,
      |a.weightOf x - (children.map fun c => 1 / (children.length : Rat) * c.fraction x).sum| ≤
        children.length / 10 ^ 27 := by
  have hnear := near_sharesEqually h
  obtain ⟨a, ha, hweights⟩ := addAll_sharesEqually h
  refine ⟨a, ha, fun x => ?_⟩
  have herror := Share.abs_sum_portion_sub_le hnear x
  have hexact : (sharesEqually children).map (·.exactPortion x) =
      children.map fun c => 1 / (children.length : Rat) * c.fraction x := by
    rw [sharesEqually, List.map_map]
    rfl
  rw [sharesEqually, List.length_map, ← sharesEqually, hexact] at herror
  rw [hweights]
  refine herror.trans ?_
  have hn : (0 : Rat) ≤ children.length := Nat.cast_nonneg _
  unfold unit
  linarith

/-! ## Outcomes -/

/-- A sum on the way to the total of some weights is too large for a decimal. -/
def LeavesRange (ws : List Decimal) : Prop :=
  ∃ k t w, sumFrom .zero (ws.take k) = .ok t ∧ ws[k]? = some w ∧ 2 ^ 96 - 1 / 2 ≤ t.toRat + w.toRat

/-- Sharing out by given weights fails because of the total only. -/
theorem specifiedWeight_outcomes {children : List (Decimal × Allocation)}
    (h : Weighted (present children)) (hne : present children ≠ []) :
    (∃ a, specifiedWeight children = .ok a) ∨
    specifiedWeight children = .error .totalOverflow ∧
      LeavesRange ((present children).map Prod.fst) ∨
    specifiedWeight children = .error .zeroTotal ∧ ∀ c ∈ present children, c.1.toRat = 0 := by
  rcases specifiedWeight_cases h hne with ⟨kind, ht, hr⟩ | ⟨t, -, -, hr⟩ | ⟨t, ht, hpos, hr⟩
  · exact .inr (.inl ⟨hr, sumFrom_error_cases (by rw [toRat_zero]) h.nonneg ht⟩)
  · exact .inr (.inr ⟨hr, (zeroTotal_iff h hne).1 hr⟩)
  · -- With a total that is not zero, the sums of portions stay small.
    obtain ⟨a, ha, -⟩ := addAll_bounded h ht hpos
    exact .inl ⟨a, by rw [hr, ha]; rfl⟩

/-- Equal shares succeed, with the accuracy of the sum of their portions. -/
theorem equalWeight_accuracy {children : List (Decimal × Allocation)}
    (h : Weighted (present children)) :
    ∃ a, equalWeight (children.map Prod.snd) = .ok a ∧ ∀ x,
      |a.weightOf x - ((present children).map fun c =>
        1 / ((present children).length : Rat) * c.2.fraction x).sum| ≤
          (present children).length / 10 ^ 27 := by
  have hsnd : (children.map Prod.snd).filter (fun c => !c.isEmpty) =
      (present children).map Prod.snd := List.filter_map
  have hsharable : ∀ c ∈ (present children).map Prod.snd, c.Sharable := fun c hc => by
    obtain ⟨d, hd, rfl⟩ := List.mem_map.1 hc
    exact (h d hd).2
  obtain ⟨a, ha, hnear⟩ := addAll_sharesEqually_accuracy hsharable
  rw [List.length_map] at hnear
  refine ⟨a, by rw [equalWeight_eq, hsnd, ha], fun x => ?_⟩
  simpa [List.map_map, Function.comp_def] using hnear x

/-- A symbol of children without weight is not in what is shared out. -/
theorem not_mem_symbols_specifiedWeight {children : List (Decimal × Allocation)} {a : Allocation}
    (ha : specifiedWeight children = .ok a) {x : String}
    (hx : ∀ c ∈ present children, x ∈ c.2.symbols → c.1.toRat = 0) : x ∉ a.symbols := by
  intro hmem
  obtain ⟨c, hc, hweight, hempty, hsymbol⟩ := exists_weighted_of_mem_symbols ha hmem
  have hzero := hx c (List.mem_filter.2 ⟨hc, by rw [hempty]; rfl⟩) hsymbol
  rw [toRat_eq_zero_iff.1 hzero] at hweight
  cases hweight

/-- The operator ends as sharing out does: with an allocation, or with a problem of its call. -/
theorem shareOut_outcomes {children : List (Decimal × Allocation)}
    (h : Weighted (present children)) (hne : present children ≠ []) (call : Node)
    (setting : Setting) (st : EvalState) :
    let r := (Operator.shareOut call children setting st).result
    (∃ a, r = .ok (.allocation a)) ∧ (¬ ∀ c ∈ present children, c.1.toRat = 0) ∨
    r = .error (.error (.atNode call .weightsOverflow)) ∧
      LeavesRange ((present children).map Prod.fst) ∧
      (¬ ∀ c ∈ present children, c.1.toRat = 0) ∨
    r = .error (.error (.atNode call .weightsSumToZero)) ∧
      ∀ c ∈ present children, c.1.toRat = 0 := by
  intro r
  have hzero := zeroTotal_iff h hne
  rcases specifiedWeight_outcomes h hne with ⟨a, hresult⟩ | ⟨hresult, hrange⟩ | ⟨hresult, hall⟩
  · refine .inl ⟨⟨a, by simp only [r, Operator.shareOut, hresult]; rfl⟩, fun hall => ?_⟩
    rw [hzero.2 hall] at hresult
    cases hresult
  · refine .inr (.inl ⟨by simp only [r, Operator.shareOut, hresult]; rfl, hrange, fun hall => ?_⟩)
    rw [hzero.2 hall] at hresult
    cases hresult
  · exact .inr (.inr ⟨by simp only [r, Operator.shareOut, hresult]; rfl, hall⟩)

/-- **Weight is shared out as in exact arithmetic**, up to ten units for each child that is not
empty. Among whole children, of which one at least is not empty, equal shares always succeed. Given
shares succeed if the weights have a total that is not zero, and symbols of children without weight
have none. Otherwise they are refused for the total: as an overflow, where a running total leaves
the range of decimals, or as a sum of zero, where all the weights are zero. -/
theorem weighting_accuracy {children : List (Decimal × Allocation)}
    (h : ∀ c ∈ children, 0 ≤ c.1.toRat ∧ c.2.Whole) (hne : ∃ c ∈ children, c.2.isEmpty = false) :
    let n : Nat := (present children).length
    let ws := (present children).map Prod.fst
    (∃ a, equalWeight (children.map Prod.snd) = .ok a ∧ ∀ x,
      |a.weightOf x - ((present children).map fun c => 1 / (n : Rat) * c.2.fraction x).sum| ≤
        n / 10 ^ 27) ∧
    (∀ total, sumFrom .zero ws = .ok total → 0 < exactSum ws →
      ∃ a, specifiedWeight children = .ok a ∧
        (∀ x, |a.weightOf x -
          ((present children).map fun c => c.1.toRat / exactSum ws * c.2.fraction x).sum| ≤
            n / 10 ^ 27) ∧
        ∀ x, (∀ c ∈ present children, x ∈ c.2.symbols → c.1.toRat = 0) → x ∉ a.symbols) ∧
    ∀ call setting st,
      let r := (Operator.shareOut call children setting st).result
      (∀ fault, r ≠ .error (.fault fault)) ∧
      (∀ e, r = .error (.error e) →
        e.problem.detail = "weights overflow" ∧ LeavesRange ws ∨
        e.problem.detail = "weights sum to zero" ∧ ∀ w ∈ ws, w.toRat = 0) ∧
      ((∀ w ∈ ws, w.toRat = 0) →
        ∃ e, r = .error (.error e) ∧ e.problem.detail = "weights sum to zero") := by
  intro n ws
  have hpresent : present children ≠ [] := by
    obtain ⟨c, hc, hempty⟩ := hne
    exact List.ne_nil_of_mem (List.mem_filter.2 ⟨hc, by rw [hempty]; rfl⟩)
  have hweighted := weighted_present h
  refine ⟨equalWeight_accuracy hweighted, ?_, ?_⟩
  · intro total ht hW
    obtain ⟨hpos, a, ha, hnear⟩ := addAll_sharesBy_accuracy hweighted ht hW
    have hresult : specifiedWeight children = .ok a := by
      rw [specifiedWeight_of_total hweighted ht hpos, ha]
      rfl
    exact ⟨a, hresult, hnear, fun x hx => not_mem_symbols_specifiedWeight hresult hx⟩
  · intro call setting st r
    have hzero : (∀ w ∈ ws, w.toRat = 0) ↔ ∀ c ∈ present children, c.1.toRat = 0 := by simp [ws]
    rw [hzero]
    rcases shareOut_outcomes hweighted hpresent call setting st with
      ⟨⟨a, hr⟩, hsome⟩ | ⟨hr, hrange, hsome⟩ | ⟨hr, hall⟩
    · simp only [r, hr]
      exact ⟨nofun, nofun, fun hall => absurd hall hsome⟩
    · simp only [r, hr]
      refine ⟨nofun, fun e he => ?_, fun hall => absurd hall hsome⟩
      cases he
      exact .inl ⟨rfl, hrange⟩
    · simp only [r, hr]
      refine ⟨nofun, fun e he => ?_, fun _ => ⟨_, rfl, rfl⟩⟩
      cases he
      exact .inr ⟨rfl, hall⟩

/-- Weights of one and of zero, and an empty child between them. -/
theorem weighting_accuracy_zero_weight :
    ∃ a, specifiedWeight [(.one, single "A"), (.one, .empty), (.zero, single "B")] = .ok a ∧
      |a.weightOf "A" - 1| ≤ 2 / 10 ^ 27 ∧ "B" ∉ a.symbols := by
  have hwhole : ∀ c ∈ [(Decimal.one, single "A"), (.one, .empty), (.zero, single "B")],
      0 ≤ c.1.toRat ∧ c.2.Whole := by simp [whole_single, whole_empty]
  obtain ⟨-, hgiven, -⟩ := weighting_accuracy hwhole ⟨_, List.mem_cons_self, rfl⟩
  have hpresent : present [(.one, single "A"), (.one, .empty), (.zero, single "B")] =
      [(.one, single "A"), (.zero, single "B")] := by decide
  have htotal : sumFrom .zero [.one, .zero] = .ok .one := by decide +kernel
  rw [hpresent] at hgiven
  obtain ⟨a, ha, hnear, habsent⟩ := hgiven .one htotal (by simp [exactSum])
  refine ⟨a, ha, ?_, habsent "B" ?_⟩
  · have hA := hnear "A"
    have hone : (single "A").fraction "A" = 1 := by
      simp [fraction, weightOf, weight?, exactTotal, single, TextMap.single, TextMap.get?,
        TextMap.values]
    norm_num [exactSum, hone] at hA
    exact hA.trans (by norm_num)
  · simp

end Allocation

end AllocScript
