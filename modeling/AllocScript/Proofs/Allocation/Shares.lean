import AllocScript.Proofs.Allocation.Portions

/-!
# Sharing out as shares of children

Equal shares and shares by given weights are both lists of children, each with the share that it
gets and the one that it should get (`Share`): `equalWeight_eq`, `specifiedWeight_of_total`. As long
as the shares leave room for the errors, every symbol gets the sum of its portions (`addAll_near`).

Weights are shared out unless they have no total (`specifiedWeight_cases`), which takes a sum that
leaves the range of decimals (`sumFrom_error_cases`), or all of them are zero (`zeroTotal_iff`).
-/

namespace AllocScript

namespace Allocation

open Decimal

/-! ## Running totals -/

/-- A running total is the running sum of the values. -/
theorem runningSum_of_sumFrom {s t : Decimal} {ds : List Decimal} (h : sumFrom s ds = .ok t) :
    RunningSum s.toRat (ds.map toRat) t.toRat := by
  induction ds generalizing s with
  | nil =>
    cases h
    exact .nil _
  | cons d ds ih =>
    obtain ⟨c, hc, h⟩ := exists_ok_of_bind h
    exact .cons ⟨c, add?_of_sum hc, rfl⟩ (ih h)

theorem addends_toRat {ds : List Decimal} (h : ∀ d ∈ ds, 0 ≤ d.toRat) :
    RunningSum.Addends (ds.map toRat) := by
  intro q hq
  obtain ⟨d, hd, rfl⟩ := List.mem_map.1 hq
  exact ⟨h d hd, onGrid_toRat d⟩

/-- A running total comes through no more than it ends with. -/
theorem exists_sumFrom_take {s t : Decimal} {ds : List Decimal} (hs : 0 ≤ s.toRat)
    (hds : ∀ d ∈ ds, 0 ≤ d.toRat) (h : sumFrom s ds = .ok t) (k : Nat) :
    ∃ t', sumFrom s (ds.take k) = .ok t' ∧ t'.toRat ≤ t.toRat := by
  induction ds generalizing s k with
  | nil =>
    cases h
    exact ⟨t, by rw [List.take_nil, sumFrom], le_refl _⟩
  | cons d ds ih =>
    cases k with
    | zero =>
      have hle := (runningSum_of_sumFrom h).le (isDecimal_toRat s) hs
        fun p hp => (addends_toRat hds p hp).1
      exact ⟨s, rfl, hle⟩
    | succ k =>
      obtain ⟨hd, hds⟩ := List.forall_mem_cons.1 hds
      obtain ⟨c, hc, h⟩ := exists_ok_of_bind h
      have hc0 := toRat_nonneg_of_ofRat? (add?_of_sum hc) (add_nonneg hs hd)
      obtain ⟨t', ht', hle⟩ := ih hc0 hds h k
      exact ⟨t', by rw [List.take_succ_cons, sumFrom, hc, ok_bind, ht'], hle⟩

/-- A running total fails only where its next sum leaves the range of decimals. -/
theorem sumFrom_error_cases {s : Decimal} {ds : List Decimal} {kind : Overflow}
    (hs : 0 ≤ s.toRat) (hds : ∀ d ∈ ds, 0 ≤ d.toRat) (h : sumFrom s ds = .error kind) :
    ∃ k t d, sumFrom s (ds.take k) = .ok t ∧ ds[k]? = some d ∧
      2 ^ 96 - 1 / 2 ≤ t.toRat + d.toRat := by
  induction ds generalizing s with
  | nil => cases h
  | cons d ds ih =>
    obtain ⟨hd, hds⟩ := List.forall_mem_cons.1 hds
    by_cases hfits : s.toRat + d.toRat < 2 ^ 96 - 1 / 2
    · obtain ⟨r, c, hc, hr⟩ := exists_roundsTo (add_nonneg hs hd) hfits
      have hsum : sum s d = .ok c := by
        have hadd : s.add? d = some c := hc
        rw [sum, hadd]
      rw [sumFrom, hsum, ok_bind] at h
      obtain ⟨k, t, e, ht, he, hlarge⟩ :=
        ih (toRat_nonneg_of_ofRat? hc (add_nonneg hs hd)) hds h
      exact ⟨k + 1, t, e, by rw [List.take_succ_cons, sumFrom, hsum, ok_bind, ht], he, hlarge⟩
    · exact ⟨0, s, d, rfl, rfl, not_lt.1 hfits⟩

/-! ## Shares and their exact values -/

/-- A child with the share that it gets and the share that it should get. -/
structure Share where
  share : Decimal
  exact : Rat
  child : Allocation

/-- The share is within half a unit of the exact one, which is at most one. -/
structure Share.Near (s : Share) : Prop where
  sharable : s.child.Sharable
  nonneg : 0 ≤ s.share.toRat
  exact_nonneg : 0 ≤ s.exact
  exact_le_one : s.exact ≤ 1
  error : |s.share.toRat - s.exact| ≤ unit / 2

namespace Share

variable {s : Share} {l : List Share}

/-- What a symbol gets. -/
def portion (s : Share) (x : String) : Rat := Allocation.portion s.share.toRat s.child x

/-- What a symbol should get. -/
def exactPortion (s : Share) (x : String) : Rat := s.exact * s.child.fraction x

theorem Near.abs_portion_sub_le (h : s.Near) (x : String) :
    |s.portion x - s.exactPortion x| ≤ 8 / 5 * unit :=
  Allocation.abs_portion_sub_le h.sharable h.nonneg h.exact_le_one h.error x

theorem Near.exactPortion_le (h : s.Near) (x : String) : s.exactPortion x ≤ s.exact :=
  mul_le_of_le_one_right h.exact_nonneg (h.sharable.fraction_le_one x)

theorem abs_sum_portion_sub_le (h : ∀ s ∈ l, s.Near) (x : String) :
    |(l.map (·.portion x)).sum - (l.map (·.exactPortion x)).sum| ≤ l.length * (8 / 5 * unit) := by
  induction l with
  | nil => simp
  | cons s l ih =>
    obtain ⟨hs, hl⟩ := List.forall_mem_cons.1 h
    simp only [List.map_cons, List.sum_cons, List.length_cons, Nat.cast_succ]
    calc |s.portion x + (l.map (·.portion x)).sum -
          (s.exactPortion x + (l.map (·.exactPortion x)).sum)|
      _ = |(s.portion x - s.exactPortion x) +
          ((l.map (·.portion x)).sum - (l.map (·.exactPortion x)).sum)| := by congr 1; ring
      _ ≤ 8 / 5 * unit + l.length * (8 / 5 * unit) :=
        (abs_add_le _ _).trans (add_le_add (hs.abs_portion_sub_le x) (ih hl))
      _ = (l.length + 1) * (8 / 5 * unit) := by ring

theorem sum_exactPortion_le (h : ∀ s ∈ l, s.Near) (x : String) :
    (l.map (·.exactPortion x)).sum ≤ (l.map (·.exact)).sum :=
  List.sum_le_sum fun s hs => (h s hs).exactPortion_le x

end Share

/-- Sharing out by shares. -/
def addAll (l : List Share) : Except Overflow Allocation :=
  addShares .empty (l.map fun s => (.ok s.share, s.child))

theorem positive_addAll {l : List Share} {a : Allocation} (h : addAll l = .ok a) : a.Positive :=
  (gains_addShares positive_empty.nonneg h).positive positive_empty

theorem Share.Near.sharable_pairs {l : List Share} (h : ∀ s ∈ l, s.Near) :
    ∀ p ∈ l.map fun s => (s.share, s.child), 0 ≤ p.1.toRat ∧ p.1.toRat ≤ 2 ∧ p.2.Sharable := by
  intro p hp
  obtain ⟨s, hs, rfl⟩ := List.mem_map.1 hp
  have hnear := h s hs
  have hu : unit ≤ 1 := by norm_num [unit]
  exact ⟨hnear.nonneg, by linarith [(abs_le.1 hnear.error).2, hnear.exact_le_one], hnear.sharable⟩

/-- Every symbol gets the sum of its portions, if that is small. -/
theorem addAll_exact {l : List Share} (h : ∀ s ∈ l, s.Near)
    (hsmall : ∀ x, (l.map (·.portion x)).sum ≤ 7) :
    ∃ a, addAll l = .ok a ∧ ∀ x, a.weightOf x = (l.map (·.portion x)).sum := by
  obtain ⟨a, ha, hweights⟩ := addShares_exact (Share.Near.sharable_pairs h) fun x => by
    rw [List.map_map]
    exact hsmall x
  simp only [List.map_map, Function.comp_def] at ha hweights
  exact ⟨a, ha, hweights⟩

/-- **Few children.** The sums of portions are small as long as the exact shares and the errors
leave room for it. -/
theorem addAll_near {l : List Share} (h : ∀ s ∈ l, s.Near)
    (hroom : (l.map (·.exact)).sum + l.length * (8 / 5 * unit) ≤ 7) :
    ∃ a, addAll l = .ok a ∧ ∀ x, a.weightOf x = (l.map (·.portion x)).sum :=
  addAll_exact h fun x => by
    have herror := (abs_le.1 (Share.abs_sum_portion_sub_le h x)).2
    have hexact := Share.sum_exactPortion_le h x
    linarith

/-! ## Equal shares -/

/-- The share of each of several children: one over their number, rounded. -/
def equalShare (n : Nat) : Decimal := (ofRat? (1 / (n : Rat))).getD .zero

/-- Children with the same share each. -/
def sharesEqually (children : List Allocation) : List Share :=
  children.map fun c => ⟨equalShare children.length, 1 / (children.length : Rat), c⟩

theorem ofRat?_equalShare (n : Nat) : ofRat? (1 / (n : Rat)) = some (equalShare n) := by
  obtain ⟨share, hshare, -⟩ := exists_equal_share n
  rw [equalShare, hshare, Option.getD_some]

theorem equalWeight_eq (children : List Allocation) :
    equalWeight children = addAll (sharesEqually (children.filter fun c => !c.isEmpty)) := by
  rw [equalWeight_eq_addShares (ofRat?_equalShare _)]
  simp only [addAll, sharesEqually, List.map_map, Function.comp_def]

theorem near_sharesEqually {children : List Allocation} (h : ∀ c ∈ children, c.Sharable) :
    ∀ s ∈ sharesEqually children, s.Near := by
  intro s hs
  obtain ⟨c, hc, rfl⟩ := List.mem_map.1 hs
  have hpos : (1 : Rat) ≤ children.length := by
    exact_mod_cast List.length_pos_iff.2 (List.ne_nil_of_mem hc)
  have hone : 1 / (children.length : Rat) ≤ 1 := (div_le_one (by linarith)).2 hpos
  have hnonneg : 0 ≤ 1 / (children.length : Rat) := by positivity
  have herror := abs_rounded_sub_le (q := 1 / (children.length : Rat))
    (by rw [abs_of_nonneg hnonneg]; linarith)
  rw [RoundsTo.rounded_eq ⟨_, ofRat?_equalShare children.length, rfl⟩] at herror
  exact ⟨h c hc, toRat_nonneg_of_ofRat? (ofRat?_equalShare _) hnonneg, hnonneg, hone, herror⟩

theorem sum_exact_sharesEqually {children : List Allocation} (h : children ≠ []) :
    ((sharesEqually children).map (·.exact)).sum = 1 := by
  have hne : (children.length : Rat) ≠ 0 := by
    exact_mod_cast (List.length_pos_iff.2 h).ne'
  simp [sharesEqually, Function.comp_def, mul_inv_cancel₀ hne]

/-- **Equal shares never fail**, and every symbol gets the sum of its portions: the shares of a few
children leave room for the errors, and those of more than `10 ^ 28` are rounded to zero. -/
theorem addAll_sharesEqually {children : List Allocation} (h : ∀ c ∈ children, c.Sharable) :
    ∃ a, addAll (sharesEqually children) = .ok a ∧
      ∀ x, a.weightOf x = ((sharesEqually children).map (·.portion x)).sum := by
  have hnear := near_sharesEqually h
  have hu := unit_pos
  by_cases hfew : (children.length : Rat) * unit ≤ 2
  · refine addAll_near hnear ?_
    have hone : ((sharesEqually children).map (·.exact)).sum ≤ 1 := by
      by_cases hne : children = []
      · simp [hne, sharesEqually]
      · exact (sum_exact_sharesEqually hne).le
    rw [sharesEqually, List.length_map, ← sharesEqually]
    linarith
  · refine addAll_exact hnear fun x => ?_
    have hzero : (equalShare children.length).toRat = 0 := by
      refine (toRat_ofRat?_eq_zero_iff (ofRat?_equalShare _) (by positivity)).2 ?_
      rw [div_le_iff₀ (by nlinarith [not_le.1 hfew])]
      linarith
    rw [List.sum_eq_zero]
    · norm_num
    · intro p hp
      obtain ⟨s, hs, rfl⟩ := List.mem_map.1 hp
      obtain ⟨c, -, rfl⟩ := List.mem_map.1 hs
      show portion (equalShare children.length).toRat c x = 0
      rw [hzero, portion_zero]

/-- A part is not rounded to zero unless there are too many. -/
theorem equalShare_pos {n : Nat} (hn : 0 < n) (hfew : n < 2 * 10 ^ 28) :
    0 < (equalShare n).toRat := by
  have hn' : (0 : Rat) < n := by exact_mod_cast hn
  have hfew' : (n : Rat) < 2 * 10 ^ 28 := by exact_mod_cast hfew
  have hlarge : unit / 2 < 1 / (n : Rat) := by
    rw [lt_div_iff₀ hn']
    unfold unit
    linarith
  have hnonneg := toRat_nonneg_of_ofRat? (ofRat?_equalShare n) (by positivity)
  have hzero := toRat_ofRat?_eq_zero_iff (ofRat?_equalShare n) (by positivity)
  exact lt_of_le_of_ne hnonneg fun h0 => hlarge.not_ge (hzero.1 h0.symm)

theorem sum_portion_single {symbols : List String} (share : Decimal) (h : symbols.Nodup)
    (x : String) : (symbols.map fun y => portion share.toRat (single y) x).sum =
      if x ∈ symbols then share.toRat else 0 := by
  induction symbols with
  | nil => rfl
  | cons y symbols ih =>
    obtain ⟨hy, h⟩ := List.nodup_cons.1 h
    rw [List.map_cons, List.sum_cons, ih h, portion_single]
    by_cases hx : x = y
    · rw [if_pos hx, if_neg (hx ▸ hy), if_pos (hx ▸ List.mem_cons_self), add_zero]
    · simp [hx]

/-- Distinct symbols get the same weight each, unless they are so many that it is rounded to
zero. -/
theorem equalWeight_singles {symbols : List String} (h : symbols.Nodup)
    (hfew : symbols.length < 2 * 10 ^ 28) :
    ∃ a, equalWeight (symbols.map single) = .ok a ∧ (∀ x, x ∈ a.symbols ↔ x ∈ symbols) ∧
      a.size = symbols.length ∧
      ∀ x ∈ symbols, a.weightOf x = (equalShare symbols.length).toRat := by
  have hall : (symbols.map single).filter (fun c => !c.isEmpty) = symbols.map single :=
    List.filter_eq_self.2 fun c hc => by
      obtain ⟨y, -, rfl⟩ := List.mem_map.1 hc
      rfl
  have hsharable : ∀ c ∈ symbols.map single, c.Sharable := fun c hc => by
    obtain ⟨y, -, rfl⟩ := List.mem_map.1 hc
    exact (whole_single y).sharable rfl
  obtain ⟨a, ha, hsums⟩ := addAll_sharesEqually hsharable
  have hweight (x : String) :
      a.weightOf x = if x ∈ symbols then (equalShare symbols.length).toRat else 0 := by
    rw [hsums, ← sum_portion_single _ h, sharesEqually, List.map_map, List.map_map,
      List.length_map]
    rfl
  have hmem (x : String) : x ∈ a.symbols ↔ x ∈ symbols := by
    rw [(positive_addAll ha).mem_symbols_iff, hweight]
    by_cases hx : x ∈ symbols
    · rw [if_pos hx]
      exact iff_of_true (equalShare_pos (List.length_pos_of_mem hx) hfew) hx
    · rw [if_neg hx]
      exact iff_of_false (lt_irrefl 0) hx
  have hperm := (List.perm_ext_iff_of_nodup a.nodup_symbols h).2 hmem
  refine ⟨a, by rw [equalWeight_eq, hall, ha], hmem, ?_, fun x hx => by rw [hweight, if_pos hx]⟩
  rw [← hperm.length_eq, length_symbols]

/-! ## Shares by given weights -/

/-- The share of a weight: the rounded quotient by the total. -/
def shareOf (total weight : Decimal) : Decimal := (weight.div? total).getD .zero

/-- Children with the shares that their weights have of a total. -/
def sharesBy (total : Decimal) (children : List (Decimal × Allocation)) : List Share :=
  children.map fun c => ⟨shareOf total c.1, c.1.toRat / total.toRat, c.2⟩

section Given

variable {total : Decimal} {children : List (Decimal × Allocation)}

theorem quotient_shareOf {w : Decimal} (ht : 0 < total.toRat) (hw0 : 0 ≤ w.toRat)
    (hw : w.toRat ≤ total.toRat) : quotient w total = .ok (shareOf total w) ∧
      0 ≤ (shareOf total w).toRat ∧
      |(shareOf total w).toRat - w.toRat / total.toRat| ≤ unit / 2 := by
  have hone : w.toRat / total.toRat ≤ 1 := (div_le_one ht).2 hw
  obtain ⟨q, hq, hq0, herror⟩ := quotient_of_small (a := w) ht.ne' (div_nonneg hw0 ht.le)
    (by linarith)
  have hshare : shareOf total w = q := by
    unfold quotient at hq
    unfold shareOf
    split at hq
    · rename_i heq
      cases hq
      rw [heq, Option.getD_some]
    · cases hq
  rw [hshare]
  exact ⟨hq, hq0, herror⟩

/-- No weight is greater than the running total. -/
theorem le_of_sumFrom {ds : List Decimal} {d : Decimal} (hds : ∀ d ∈ ds, 0 ≤ d.toRat)
    (ht : sumFrom .zero ds = .ok total) (hd : d ∈ ds) : d.toRat ≤ total.toRat := by
  have hrun := runningSum_of_sumFrom ht
  rw [toRat_zero] at hrun
  exact hrun.mem_le isDecimal_zero (le_refl _) (fun p hp => (addends_toRat hds p hp).1)
    (List.mem_map_of_mem hd) (isDecimal_toRat d)

/-- Weights that are not negative, for children that can be shared out. -/
def Weighted (children : List (Decimal × Allocation)) : Prop :=
  ∀ c ∈ children, 0 ≤ c.1.toRat ∧ c.2.Sharable

theorem Weighted.nonneg (h : Weighted children) : ∀ d ∈ children.map Prod.fst, 0 ≤ d.toRat := by
  intro d hd
  obtain ⟨c, hc, rfl⟩ := List.mem_map.1 hd
  exact (h c hc).1

theorem Weighted.le_total (h : Weighted children)
    (ht : sumFrom .zero (children.map Prod.fst) = .ok total) :
    ∀ c ∈ children, c.1.toRat ≤ total.toRat :=
  fun _ hc => le_of_sumFrom h.nonneg ht (List.mem_map_of_mem hc)

theorem Weighted.near (h : Weighted children)
    (ht : sumFrom .zero (children.map Prod.fst) = .ok total) (hpos : 0 < total.toRat) :
    ∀ s ∈ sharesBy total children, s.Near := by
  intro s hs
  obtain ⟨c, hc, rfl⟩ := List.mem_map.1 hs
  obtain ⟨hw0, hchild⟩ := h c hc
  have hle := h.le_total ht c hc
  obtain ⟨-, hshare0, herror⟩ := quotient_shareOf hpos hw0 hle
  exact ⟨hchild, hshare0, div_nonneg hw0 hpos.le, (div_le_one hpos).2 hle, herror⟩

theorem sum_exact_sharesBy (total : Decimal) (children : List (Decimal × Allocation)) :
    ((sharesBy total children).map (·.exact)).sum =
      exactSum (children.map Prod.fst) / total.toRat := by
  induction children with
  | nil => simp [sharesBy]
  | cons c rest ih =>
    simp only [sharesBy, List.map_cons, List.sum_cons, exactSum_cons, add_div] at ih ⊢
    rw [ih]

/-- Children with a weight of zero add nothing. -/
theorem addShares_filter_isZero (h : Weighted children) (hpos : 0 < total.toRat)
    (hle : ∀ c ∈ children, c.1.toRat ≤ total.toRat) (a : Allocation) :
    a.addShares ((children.filter fun c => !c.1.isZero).map fun c => (quotient c.1 total, c.2)) =
      a.addShares ((sharesBy total children).map fun s => (.ok s.share, s.child)) := by
  induction children generalizing a with
  | nil => rfl
  | cons c rest ih =>
    obtain ⟨⟨hw0, hchild⟩, h⟩ := List.forall_mem_cons.1 h
    obtain ⟨hw, hle⟩ := List.forall_mem_cons.1 hle
    have hquotient := (quotient_shareOf hpos hw0 hw).1
    rw [List.filter_cons]
    by_cases hzero : c.1.isZero = true
    · have hshare : (shareOf total c.1).toRat = 0 := by
        rw [← RoundsTo.rounded_eq ⟨_, ofRat?_of_quotient hquotient, rfl⟩,
          toRat_eq_zero_iff.2 hzero, zero_div, rounded_zero]
      simp only [hzero, Bool.not_true, Bool.false_eq_true, ↓reduceIte]
      rw [ih h hle]
      exact (addShares_cons_zero _ hshare hchild).symm
    · simp only [hzero, Bool.not_false, ↓reduceIte, List.map_cons, sharesBy, hquotient]
      unfold addShares
      refine congrArg _ (funext fun child => congrArg _ (funext fun share => ?_))
      exact congrArg _ (funext fun a => ih h hle a)

end Given

/-! ## The outcomes of sharing out by given weights -/

/-- The children that are not empty. -/
def present (children : List (Decimal × Allocation)) : List (Decimal × Allocation) :=
  children.filter fun c => !c.2.isEmpty

section Outcomes

variable {children : List (Decimal × Allocation)}

theorem weighted_present (h : ∀ c ∈ children, 0 ≤ c.1.toRat ∧ c.2.Whole) :
    Weighted (present children) := by
  intro c hc
  obtain ⟨hmem, hne⟩ := List.mem_filter.1 hc
  exact ⟨(h c hmem).1, (h c hmem).2.sharable (by simpa using hne)⟩

theorem specifiedWeight_of_nil (h : present children = []) :
    specifiedWeight children = .ok .empty := by
  have hnil : (children.filter fun c => !c.2.isEmpty).isEmpty = true := List.isEmpty_iff.2 h
  unfold specifiedWeight
  simp only [hnil, ↓reduceIte]

/-- What becomes of the weights, if there is a child that is not empty. -/
theorem specifiedWeight_eq (hne : present children ≠ []) :
    specifiedWeight children =
      match sumFrom .zero ((present children).map Prod.fst) with
      | .error _ => .error .totalOverflow
      | .ok total =>
        if total.isZero then .error .zeroTotal
        else (addShares .empty (((present children).filter fun c => !c.1.isZero).map
          fun c => (quotient c.1 total, c.2))).mapError .overflow := by
  have hnot : (children.filter fun c => !c.2.isEmpty).isEmpty = false :=
    List.isEmpty_eq_false_iff.2 hne
  unfold specifiedWeight
  simp only [hnot, Bool.false_eq_true, ↓reduceIte, present]
  cases sumFrom .zero ((children.filter fun c => !c.2.isEmpty).map Prod.fst) with
  | error kind => rfl
  | ok total =>
    dsimp only
    split
    · rfl
    · cases addShares .empty _ <;> rfl

/-- Weights with a total that is not zero are shared out by it. -/
theorem specifiedWeight_of_total {total : Decimal} (h : Weighted (present children))
    (ht : sumFrom .zero ((present children).map Prod.fst) = .ok total) (hpos : 0 < total.toRat) :
    specifiedWeight children =
      (addAll (sharesBy total (present children))).mapError .overflow := by
  have hne : present children ≠ [] := by
    intro hnil
    rw [hnil] at ht
    cases ht
    rw [toRat_zero] at hpos
    exact lt_irrefl 0 hpos
  rw [specifiedWeight_eq hne, ht]
  dsimp only
  rw [if_neg fun hz => hpos.ne' (toRat_eq_zero_iff.2 hz),
    addShares_filter_isZero h hpos (h.le_total ht)]
  rfl

/-- **What becomes of the weights**: they have no total, a total of zero, or one by which they are
shared out. -/
theorem specifiedWeight_cases (h : Weighted (present children)) (hne : present children ≠ []) :
    (∃ kind, sumFrom .zero ((present children).map Prod.fst) = .error kind ∧
      specifiedWeight children = .error .totalOverflow) ∨
    (∃ t, sumFrom .zero ((present children).map Prod.fst) = .ok t ∧ t.toRat = 0 ∧
      specifiedWeight children = .error .zeroTotal) ∨
    ∃ t, sumFrom .zero ((present children).map Prod.fst) = .ok t ∧ 0 < t.toRat ∧
      specifiedWeight children = (addAll (sharesBy t (present children))).mapError .overflow := by
  cases ht : sumFrom .zero ((present children).map Prod.fst) with
  | error kind => exact .inl ⟨kind, rfl, by rw [specifiedWeight_eq hne, ht]⟩
  | ok t =>
    by_cases hz : t.isZero = true
    · refine .inr (.inl ⟨t, rfl, toRat_eq_zero_iff.2 hz, ?_⟩)
      rw [specifiedWeight_eq hne, ht]
      exact if_pos hz
    · have hnonneg := (eq_zero_of_sumFrom (by rw [toRat_zero]) h.nonneg ht).1
      have hpos := lt_of_le_of_ne hnonneg fun h0 => hz (toRat_eq_zero_iff.1 h0.symm)
      exact .inr (.inr ⟨t, rfl, hpos, specifiedWeight_of_total h ht hpos⟩)

/-- A running total is zero exactly if all the values are. -/
theorem sumFrom_isZero_iff {ds : List Decimal} (hds : ∀ d ∈ ds, 0 ≤ d.toRat) :
    (∃ t, sumFrom .zero ds = .ok t ∧ t.isZero = true) ↔ ∀ d ∈ ds, d.toRat = 0 := by
  constructor
  · rintro ⟨t, ht, hz⟩
    exact ((eq_zero_of_sumFrom (by rw [toRat_zero]) hds ht).2 (toRat_eq_zero_iff.2 hz)).2
  · intro hzero
    have hsum : exactSum ds = 0 := List.sum_eq_zero fun q hq => by
      obtain ⟨d, hd, rfl⟩ := List.mem_map.1 hq
      exact hzero d hd
    obtain ⟨t, ht, hval⟩ := sumFrom_of_small (s := .zero) (by rw [toRat_zero]) hds
      (by rw [hsum, toRat_zero]; norm_num)
    exact ⟨t, ht, toRat_eq_zero_iff.1 (by rw [hval, hsum, toRat_zero, add_zero])⟩

/-- The weights sum to zero exactly if all the weights of children that are not empty are zero. -/
theorem zeroTotal_iff (h : Weighted (present children)) (hne : present children ≠ []) :
    specifiedWeight children = .error .zeroTotal ↔ ∀ c ∈ present children, c.1.toRat = 0 := by
  have hall : (∀ c ∈ present children, c.1.toRat = 0) ↔
      ∀ d ∈ (present children).map Prod.fst, d.toRat = 0 := by simp
  rw [hall, ← sumFrom_isZero_iff h.nonneg]
  rcases specifiedWeight_cases h hne with ⟨kind, ht, hr⟩ | ⟨t, ht, hz, hr⟩ | ⟨t, ht, hpos, hr⟩
  · simp [ht, hr]
  · simp [ht, hr, toRat_eq_zero_iff.1 hz]
  · have hz : t.isZero = false := by
      rw [← Bool.not_eq_true, ← toRat_eq_zero_iff]
      exact hpos.ne'
    rw [hr]
    cases addAll (sharesBy t (present children)) <;> simp [ht, hz, Except.mapError]

end Outcomes

/-! ## Equal weights -/

/-- The running total of several times the same weight is exact if all multiples are decimals. -/
theorem exists_sumFrom_replicate {w start : Decimal} {j : Nat} (n : Nat)
    (hstart : start.toRat = j * w.toRat)
    (hmultiples : ∀ k ≤ j + n, IsDecimal ((k : Rat) * w.toRat)) :
    ∃ t, sumFrom start (List.replicate n w) = .ok t ∧
      t.toRat = ((j + n : Nat) : Rat) * w.toRat := by
  induction n generalizing start j with
  | zero => exact ⟨start, rfl, hstart⟩
  | succ n ih =>
    obtain ⟨d, hd⟩ := hmultiples (j + 1) (by omega)
    obtain ⟨c, hc, hval⟩ := roundsTo_toRat d
    have hadd : start.add? w = some c := by
      rw [add?, hstart, ← hc, hd, Nat.cast_succ, add_mul, one_mul]
    obtain ⟨t, ht, htotal⟩ := ih (hval.trans hd) fun k hk => hmultiples k (by omega)
    refine ⟨t, by rw [List.replicate_succ, sumFrom, sum, hadd]; exact ht, ?_⟩
    rw [htotal, Nat.add_right_comm, Nat.add_assoc]

/-- The share of a weight of several times that weight. -/
theorem quotient_of_multiple {w t : Decimal} {n : Nat} (hw : 0 < w.toRat)
    (ht : t.toRat = n * w.toRat) (hpos : t.toRat ≠ 0) : quotient w t = .ok (equalShare n) := by
  have hdiv : w.div? t = some (equalShare n) := by
    rw [div?, if_neg fun hz => hpos (toRat_eq_zero_iff.2 hz), ← ofRat?_equalShare, ht,
      div_mul_cancel_right₀ hw.ne', one_div]
  rw [quotient, hdiv]

/-- **Equal weights are equal shares**, as long as all multiples of the weight up to the number of
children that are not empty are decimals. -/
theorem specifiedWeight_const {w : Decimal} {children : List Allocation} (hw : 0 < w.toRat)
    (hmultiples : ∀ k ≤ (children.filter fun c => !c.isEmpty).length,
      IsDecimal ((k : Rat) * w.toRat)) :
    specifiedWeight (children.map fun c => (w, c)) =
      (equalWeight children).mapError .overflow := by
  have hpresent : present (children.map fun c => (w, c)) =
      (children.filter fun c => !c.isEmpty).map fun c => (w, c) := List.filter_map
  rw [equalWeight_eq]
  generalize hps : children.filter (fun c => !c.isEmpty) = ps at hpresent hmultiples
  by_cases hnil : ps = []
  · rw [specifiedWeight_of_nil (by rw [hpresent, hnil, List.map_nil]), hnil]
    rfl
  · have hn : (ps.length : Rat) ≠ 0 := by exact_mod_cast (List.length_pos_iff.2 hnil).ne'
    have hzero : Decimal.zero.toRat = ((0 : Nat) : Rat) * w.toRat := by simp
    obtain ⟨t, ht, htotal⟩ := exists_sumFrom_replicate ps.length hzero (by simpa using hmultiples)
    rw [Nat.zero_add] at htotal
    have hpos : t.toRat ≠ 0 := by
      rw [htotal]
      exact mul_ne_zero hn hw.ne'
    have hweights : (ps.map fun c => (w, c)).map Prod.fst = List.replicate ps.length w := by
      simp [List.map_map, Function.comp_def, List.map_const']
    have hquotient := quotient_of_multiple hw htotal hpos
    have hweighted : (ps.map fun c => (w, c)).filter (fun c => !c.1.isZero) =
        ps.map fun c => (w, c) := by
      refine List.filter_eq_self.2 fun c hc => ?_
      obtain ⟨d, -, rfl⟩ := List.mem_map.1 hc
      have hz : w.isZero = false := by
        rw [← Bool.not_eq_true, ← toRat_eq_zero_iff]
        exact hw.ne'
      simp [hz]
    rw [specifiedWeight_eq (by simpa [hpresent] using hnil), hpresent, hweights, ht]
    dsimp only
    rw [if_neg fun hz => hpos (toRat_eq_zero_iff.2 hz), hweighted]
    simp only [addAll, sharesEqually, List.map_map, Function.comp_def, hquotient]

end Allocation

end AllocScript
