import AllocScript.Eval
import AllocScript.Proofs.Allocation.Weighting
import AllocScript.Proofs.Eval.Ensures
import AllocScript.Proofs.Node.Grammar
import AllocScript.Proofs.Token.Scan
import AllocScript.Source

/-!
# Evaluation conserves weight

Every allocation that comes about in an evaluation is whole: it is empty, or its weights are
positive and their exact sum is within `10 ^ -9` of one.

The invariant (`Value.Fair`) says two things of the value of a node: all allocations in it are
whole, and together they have no more symbols than the node has nodes in it. The second part bounds
the errors of rounding by the size of the tree. `Conserves` is the invariant as a guarantee of a
computation; it also says that the computation stops with an error of the strategy and never with a
fault. Each operator keeps it (`Form.apply_conserves`), so the evaluation of a node does
(`Node.eval_conserves`).
-/

namespace AllocScript

/-! ## Sizes and invariants -/

namespace Value

mutual

/-- Every allocation in a value satisfies `P` and every selector `Q`. -/
def All (P : Allocation → Prop) (Q : Selector → Prop) : Value → Prop
  | allocation a => P a
  | selector s => Q s
  | list items => AllInItems P Q items
  | map entries => AllInEntries P Q entries
  | _ => True

def AllInItems (P : Allocation → Prop) (Q : Selector → Prop) : List Value → Prop
  | [] => True
  | v :: vs => v.All P Q ∧ AllInItems P Q vs

def AllInEntries (P : Allocation → Prop) (Q : Selector → Prop) : List (Value × Value) → Prop
  | [] => True
  | (k, v) :: rest => (k.All P Q ∧ v.All P Q) ∧ AllInEntries P Q rest

end

mutual

/-- The number of symbols that a value can bring into allocations: those of its allocations and one
for each text. -/
def symbolCount : Value → Nat
  | string _ => 1
  | allocation a => a.size
  | list items => symbolCountOfItems items
  | map entries => symbolCountOfEntries entries
  | _ => 0

def symbolCountOfItems : List Value → Nat
  | [] => 0
  | v :: vs => v.symbolCount + symbolCountOfItems vs

def symbolCountOfEntries : List (Value × Value) → Nat
  | [] => 0
  | (k, v) :: rest => k.symbolCount + v.symbolCount + symbolCountOfEntries rest

end

/-- All allocations in a value are whole, and it brings in no more than `n` symbols. -/
def Fair (n : Nat) (v : Value) : Prop :=
  v.All Allocation.Whole (fun _ => True) ∧ v.symbolCount ≤ n

theorem Fair.mono {m n : Nat} {v : Value} (h : v.Fair m) (hmn : m ≤ n) : v.Fair n :=
  ⟨h.1, h.2.trans hmn⟩

theorem fair_number (n : Nat) (d : Decimal) : (number d).Fair n := ⟨trivial, Nat.zero_le _⟩

theorem fair_boolean (n : Nat) (b : Bool) : (boolean b).Fair n := ⟨trivial, Nat.zero_le _⟩

theorem fair_keyword (n : Nat) (k : String) : (keyword k).Fair n := ⟨trivial, Nat.zero_le _⟩

theorem fair_metric (n : Nat) (m : Metric) : (metric m).Fair n := ⟨trivial, Nat.zero_le _⟩

theorem fair_selector (n : Nat) (s : Selector) : (selector s).Fair n := ⟨trivial, Nat.zero_le _⟩

theorem fair_allocation {n : Nat} {a : Allocation} (h : a.Whole) (hn : a.size ≤ n) :
    (allocation a).Fair n := ⟨h, hn⟩

end Value

/-- An allocation that a node is found to have is whole. -/
def Event.IsWhole : Event → Prop
  | found _ (.allocation a) => a.Whole
  | _ => True

/-- The strategy is at fault, not the evaluation of it. -/
def Stop.IsError : Stop → Prop
  | error _ => True
  | fault _ => False

namespace Eval

variable {α : Type}

/-- A computation that finds whole allocations only, stops only with an error of the strategy, and
ends with a value that satisfies `Q`. -/
abbrev Conserves (Q : α → Prop) (x : Eval α) : Prop := Ensures Event.IsWhole Stop.IsError Q x

theorem conserves_fail {Q : α → Prop} (node : Node) (p : EvalProblem) :
    Conserves Q (fail node p) := Ensures.fail trivial

theorem conserves_record (step : String) : Conserves (fun _ => True) (record step) :=
  Ensures.emit trivial

theorem conserves_setMetadata (key text : String) :
    Conserves (fun _ => True) (setMetadata key text) := Ensures.emit trivial

/-- An operation on weights that has a result is no fault. -/
theorem conserves_ofWeights {Q : α → Prop} {r : Except Overflow α} {a : α} (h : r = .ok a)
    (ha : Q a) : Conserves Q (ofWeights r) := by
  rw [h]
  exact Ensures.pure ha

theorem conserves_fetch (node : Node) (r : Request) : Conserves (fun _ => True) (fetch node r) :=
  Ensures.fetch trivial fun _ => trivial

/-! ## Values of the expected kind -/

theorem expectNumber_conserves (node : Node) (v : Value) :
    Conserves (fun _ => True) (expectNumber node v) := by
  cases v <;> first | exact Ensures.pure trivial | exact conserves_fail ..

theorem expectBoolean_conserves (node : Node) (v : Value) :
    Conserves (fun _ => True) (expectBoolean node v) := by
  cases v <;> first | exact Ensures.pure trivial | exact conserves_fail ..

theorem expectString_conserves (node : Node) (v : Value) :
    Conserves (fun _ => True) (expectString node v) := by
  cases v <;> first | exact Ensures.pure trivial | exact conserves_fail ..

theorem expectScalar_conserves (node : Node) (v : Value) :
    Conserves (fun _ => True) (expectScalar node v) := by
  cases v <;> first | exact Ensures.pure trivial | exact conserves_fail ..

theorem expectMetric_conserves (node : Node) (v : Value) :
    Conserves (fun _ => True) (expectMetric node v) := by
  cases v <;> first | exact Ensures.pure trivial | exact conserves_fail ..

theorem expectSelector_conserves (node : Node) (v : Value) :
    Conserves (fun _ => True) (expectSelector node v) := by
  cases v <;> first | exact Ensures.pure trivial | exact conserves_fail ..

theorem expectPositive_conserves (node : Node) (what : String) (d : Decimal) :
    Conserves (fun _ => True) (expectPositive node what d) := by
  unfold expectPositive
  split
  · exact Ensures.pure trivial
  · exact conserves_fail ..

theorem expectWindow_conserves (node : Node) (window : Option Value)
    (entries : List (Value × Value)) :
    Conserves (fun _ => True) (expectWindow node window entries) := by
  fun_induction expectWindow node window entries with
  | case1 => exact Ensures.pure trivial
  | case2 _ _ _ ih => exact ih
  | case3 => exact conserves_fail ..

theorem expectPeriod_conserves (node : Node) (v : Value) :
    Conserves (fun _ => True) (expectPeriod node v) := by
  unfold expectPeriod
  split
  · exact expectPositive_conserves ..
  · refine (expectWindow_conserves ..).bind fun window _ => ?_
    split
    · exact expectPositive_conserves ..
    · exact conserves_fail ..
    · exact conserves_fail ..
  · exact conserves_fail ..

theorem expectWeight_conserves (node : Node) (v : Value) :
    Conserves (fun w => 0 ≤ w.toRat) (expectWeight node v) := by
  refine (expectNumber_conserves node v).bind fun w _ => ?_
  split
  · exact conserves_fail ..
  · rename_i hneg
    refine Ensures.pure (Decimal.toRat_nonneg_iff.2 ?_)
    simpa [Decimal.isNegative] using hneg

/-- An allocation to be weighted is whole, and so is a symbol that stands for one. -/
theorem expectChild_conserves (node : Node) {n : Nat} {v : Value} (h : v.Fair n) :
    Conserves (fun a => a.Whole ∧ a.size ≤ n) (expectChild node v) := by
  cases v with
  | allocation a => exact Ensures.pure h
  | string s => exact Ensures.pure ⟨Allocation.whole_single s, h.2⟩
  | _ => exact conserves_fail ..

theorem expectItems_conserves (node : Node) (items : List Value)
    (h : Value.AllInItems Allocation.Whole (fun _ => True) items) :
    Conserves (fun as => (∀ a ∈ as, a.Whole) ∧
      Allocation.symbolCount as ≤ Value.symbolCountOfItems items) (expectItems node items) := by
  fun_induction expectItems node items with
  | case1 => exact Ensures.pure ⟨by simp, by simp⟩
  | case2 a vs ih =>
    obtain ⟨ha, hvs⟩ := h
    refine (ih hvs).bind fun as has => Ensures.pure ⟨?_, ?_⟩
    · intro b hb
      rcases List.mem_cons.1 hb with rfl | hb
      · exact ha
      · exact has.1 b hb
    · simp only [Allocation.symbolCount_cons, Value.symbolCountOfItems, Value.symbolCount]
      exact Nat.add_le_add_left has.2 _
  | case3 => exact conserves_fail ..

theorem expectAllocations_conserves (node : Node) {n : Nat} {v : Value} (h : v.Fair n) :
    Conserves (fun as => (∀ a ∈ as, a.Whole) ∧ Allocation.symbolCount as ≤ n)
      (expectAllocations node v) := by
  cases v with
  | allocation a =>
    have hwhole : a.Whole := h.1
    have hsize : a.size ≤ n := h.2
    exact Ensures.pure ⟨by simpa using hwhole, by simpa using hsize⟩
  | list items =>
    exact (expectItems_conserves node items h.1).mono fun as has => ⟨has.1, has.2.trans h.2⟩
  | _ => exact conserves_fail ..

end Eval

/-! ## Operands -/

namespace Operand

open Eval

/-- The value of an operand brings in no more symbols than its node has nodes. -/
def Conserves (o : Operand) : Prop := Eval.Conserves (fun v => v.Fair o.node.size) o.value

/-- The number of nodes of several operands. -/
def sizeOfAll (operands : List Operand) : Nat := (operands.map fun o => o.node.size).sum

@[simp] theorem sizeOfAll_nil : sizeOfAll [] = 0 := rfl

@[simp] theorem sizeOfAll_cons (o : Operand) (os : List Operand) :
    sizeOfAll (o :: os) = o.node.size + sizeOfAll os := rfl

variable {o : Operand}

theorem Conserves.number (h : o.Conserves) : Eval.Conserves (fun _ => True) o.number :=
  h.bind fun _ _ => expectNumber_conserves ..

theorem Conserves.boolean (h : o.Conserves) : Eval.Conserves (fun _ => True) o.boolean :=
  h.bind fun _ _ => expectBoolean_conserves ..

theorem Conserves.string (h : o.Conserves) : Eval.Conserves (fun _ => True) o.string :=
  h.bind fun _ _ => expectString_conserves ..

theorem Conserves.period (h : o.Conserves) : Eval.Conserves (fun _ => True) o.period :=
  h.bind fun _ _ => expectPeriod_conserves ..

theorem Conserves.count (h : o.Conserves) : Eval.Conserves (fun _ => True) o.count :=
  h.bind fun _ _ => (expectNumber_conserves ..).bind fun _ _ => expectPositive_conserves ..

theorem Conserves.weight (h : o.Conserves) : Eval.Conserves (fun w => 0 ≤ w.toRat) o.weight :=
  h.bind fun _ _ => expectWeight_conserves ..

theorem Conserves.child (h : o.Conserves) :
    Eval.Conserves (fun a => a.Whole ∧ a.size ≤ o.node.size) o.child :=
  h.bind fun _ hv => expectChild_conserves _ hv

theorem Conserves.allocations (h : o.Conserves) :
    Eval.Conserves (fun as => (∀ a ∈ as, a.Whole) ∧ Allocation.symbolCount as ≤ o.node.size)
      o.allocations :=
  h.bind fun _ hv => expectAllocations_conserves _ hv

end Operand

/-! ## Operators -/

namespace Operator

open Eval

variable {operands : List Operand} {n : Nat}

theorem writeParameters_conserves (node : Node) (entries : List (Value × Value)) :
    Conserves (fun _ => True) (writeParameters node entries) := by
  fun_induction writeParameters node entries with
  | case1 => exact Ensures.pure trivial
  | case2 _ _ _ ih =>
    exact (expectScalar_conserves ..).bind fun _ _ =>
      (conserves_setMetadata ..).bind fun _ _ => ih
  | case3 => exact conserves_fail ..

theorem defsymphony_conserves (h : ∀ o ∈ operands, o.Conserves)
    (hn : (Arity.between 2 3).accepts operands.length) :
    Conserves (fun v => v.Fair (Operand.sizeOfAll operands)) (defsymphony operands) := by
  cases operands with
  | nil => cases hn
  | cons title rest =>
    unfold defsymphony
    refine (h title (by simp)).string.bind fun name _ => (conserves_setMetadata ..).bind fun _ _ =>
      (conserves_record _).bind fun _ _ => ?_
    split
    · rename_i body
      refine (h body (by simp)).mono fun v hv => hv.mono ?_
      simp only [Operand.sizeOfAll_cons]
      omega
    · rename_i parameters body
      refine (h parameters (by simp)).bind fun v _ => ?_
      have hbody : Conserves (fun v => v.Fair (Operand.sizeOfAll [title, parameters, body]))
          body.value := by
        refine (h body (by simp)).mono fun v hv => hv.mono ?_
        simp only [Operand.sizeOfAll_cons]
        omega
      split
      · exact (writeParameters_conserves ..).bind fun _ _ => hbody
      · exact Ensures.bind (P := fun _ => True) (conserves_fail ..) fun _ _ => hbody
    · exact conserves_fail ..

theorem group_conserves (h : ∀ o ∈ operands, o.Conserves)
    (hn : (Arity.exactly 2).accepts operands.length) :
    Conserves (fun v => v.Fair (Operand.sizeOfAll operands)) (group operands) := by
  obtain ⟨title, body, rfl⟩ := List.length_eq_two.1 (beq_iff_eq.1 hn)
  refine (h title (by simp)).string.bind fun name _ => (conserves_record _).bind fun _ _ => ?_
  refine (h body (by simp)).mono fun v hv => hv.mono ?_
  simp only [Operand.sizeOfAll_cons]
  omega

theorem conditional_conserves (h : ∀ o ∈ operands, o.Conserves)
    (hn : (Arity.between 2 3).accepts operands.length) :
    Conserves (fun v => v.Fair (Operand.sizeOfAll operands)) (conditional operands) := by
  match operands, hn with
  | condition :: consequent :: rest, _ =>
    unfold conditional
    refine (h condition (by simp)).boolean.bind fun holds _ => ?_
    simp only []
    split
    · refine (conserves_record _).bind fun _ _ => ?_
      refine (h consequent (by simp)).mono fun v hv => hv.mono ?_
      simp only [Operand.sizeOfAll_cons]
      omega
    · split
      · rename_i alternative others _
        refine (conserves_record _).bind fun _ _ => ?_
        refine (h alternative (by simp)).mono fun v hv => hv.mono ?_
        simp only [Operand.sizeOfAll_cons]
        omega
      · exact (conserves_record _).bind fun _ _ =>
          Ensures.pure (Value.fair_allocation Allocation.whole_empty (Nat.zero_le _))

theorem logical_conserves (decisive : Bool) (h : ∀ o ∈ operands, o.Conserves) :
    Conserves (fun v => v.Fair n) (logical decisive operands) := by
  induction operands with
  | nil => exact Ensures.pure (Value.fair_boolean ..)
  | cons o rest ih =>
    refine (h o (by simp)).boolean.bind fun b _ => ?_
    split
    · exact Ensures.pure (Value.fair_boolean ..)
    · exact ih fun o ho => h o (List.mem_cons_of_mem _ ho)

theorem negation_conserves (h : ∀ o ∈ operands, o.Conserves)
    (hn : (Arity.exactly 1).accepts operands.length) :
    Conserves (fun v => v.Fair n) (negation operands) := by
  obtain ⟨o, rfl⟩ := List.length_eq_one_iff.1 (beq_iff_eq.1 hn)
  exact (h o (by simp)).boolean.bind fun b _ => Ensures.pure (Value.fair_boolean ..)

theorem comparison_conserves (op : Comparison) (h : ∀ o ∈ operands, o.Conserves)
    (hn : (Arity.exactly 2).accepts operands.length) :
    Conserves (fun v => v.Fair n) (comparison op operands) := by
  obtain ⟨left, right, rfl⟩ := List.length_eq_two.1 (beq_iff_eq.1 hn)
  exact (h left (by simp)).number.bind fun a _ => (h right (by simp)).number.bind fun b _ =>
    Ensures.pure (Value.fair_boolean ..)

theorem numbers_conserves (h : ∀ o ∈ operands, o.Conserves) :
    Conserves (fun _ => True) (numbers operands) := by
  induction operands with
  | nil => exact Ensures.pure trivial
  | cons o rest ih =>
    exact (h o (by simp)).number.bind fun d _ =>
      (ih fun o ho => h o (List.mem_cons_of_mem _ ho)).bind fun ds _ => Ensures.pure trivial

theorem accumulate_conserves (call : Node) (op : Operation) (acc : Decimal)
    (ds : List (Node × Decimal)) : Conserves (fun _ => True) (accumulate call op acc ds) := by
  fun_induction accumulate call op acc ds with
  | case1 => exact Ensures.pure trivial
  | case2 => exact conserves_fail ..
  | case3 _ _ _ _ _ _ _ ih => exact ih
  | case4 => exact conserves_fail ..

theorem arithmetic_conserves (call : Node) (op : Operation) (h : ∀ o ∈ operands, o.Conserves) :
    Conserves (fun v => v.Fair n) (arithmetic call op operands) := by
  refine (numbers_conserves h).bind fun ds _ => ?_
  split
  · exact conserves_fail ..
  · exact Ensures.pure (Value.fair_number ..)
  · exact (accumulate_conserves ..).bind fun d _ => Ensures.pure (Value.fair_number ..)

theorem asset_conserves (h : ∀ o ∈ operands, o.Conserves)
    (hn : (Arity.between 1 2).accepts operands.length) :
    Conserves (fun v => v.Fair (Operand.sizeOfAll operands)) (asset operands) := by
  cases operands with
  | nil => cases hn
  | cons symbol rest =>
    have hsize : 1 ≤ Operand.sizeOfAll (symbol :: rest) := by
      have : 1 ≤ symbol.node.size := by cases symbol.node <;> simp [Node.size]
      simp only [Operand.sizeOfAll_cons]
      omega
    have hsingle (ticker : String) :
        (Value.allocation (.single ticker)).Fair (Operand.sizeOfAll (symbol :: rest)) :=
      Value.fair_allocation (Allocation.whole_single ticker) hsize
    refine (h symbol (by simp)).string.bind fun ticker _ => ?_
    split
    · exact conserves_fail ..
    · split
      · exact Ensures.pure (hsingle ticker)
      · rename_i title others
        exact (h title (by simp)).string.bind fun _ _ => Ensures.pure (hsingle ticker)

/-! ## Sharing weight -/

theorem weightEqual_conserves (h : ∀ o ∈ operands, o.Conserves)
    (hn : (Arity.exactly 1).accepts operands.length)
    (hsize : Operand.sizeOfAll operands ≤ Allocation.maxSymbols) :
    Conserves (fun v => v.Fair (Operand.sizeOfAll operands)) (weightEqual operands) := by
  obtain ⟨children, rfl⟩ := List.length_eq_one_iff.1 (beq_iff_eq.1 hn)
  refine (h children (by simp)).allocations.bind fun as has => ?_
  simp only [Operand.sizeOfAll_cons, Operand.sizeOfAll_nil, Nat.add_zero] at hsize ⊢
  obtain ⟨a, ha, hwhole, hcount⟩ := Allocation.equalWeight_spec has.1 (has.2.trans hsize)
  have hfair := Value.fair_allocation hwhole (hcount.trans has.2)
  exact (conserves_ofWeights ha hfair).bind fun _ hb => Ensures.pure hb

/-- What sharing needs of children with their weights. -/
def FairShares (n : Nat) (weighted : List (Decimal × Allocation)) : Prop :=
  (∀ c ∈ weighted, 0 ≤ c.1.toRat ∧ c.2.Whole) ∧
    Allocation.symbolCount (weighted.map Prod.snd) ≤ n

theorem FairShares.cons {m n : Nat} {w : Decimal} {a : Allocation}
    {weighted : List (Decimal × Allocation)} (h : FairShares n weighted) (hw : 0 ≤ w.toRat)
    (ha : a.Whole) (hsize : a.size ≤ m) : FairShares (m + n) ((w, a) :: weighted) := by
  refine ⟨fun c hc => ?_, ?_⟩
  · rcases List.mem_cons.1 hc with rfl | hc
    · exact ⟨hw, ha⟩
    · exact h.1 c hc
  · simp only [List.map_cons, Allocation.symbolCount_cons]
    exact Nat.add_le_add hsize h.2

theorem weightsOfMap_conserves (node : Node) (entries : List (Value × Value))
    (h : Value.AllInEntries Allocation.Whole (fun _ => True) entries) :
    Conserves (FairShares (Value.symbolCountOfEntries entries)) (weightsOfMap node entries) := by
  induction entries with
  | nil => exact Ensures.pure ⟨by simp, by simp⟩
  | cons e rest ih =>
    obtain ⟨child, weight⟩ := e
    obtain ⟨⟨hchild, -⟩, hrest⟩ := h
    refine (expectWeight_conserves node weight).bind fun w hw => ?_
    refine (expectChild_conserves node ⟨hchild, Nat.le_refl _⟩).bind fun a ha => ?_
    refine (ih hrest).bind fun others hothers => Ensures.pure ?_
    have hcons := hothers.cons hw ha.1 ha.2
    refine ⟨hcons.1, hcons.2.trans ?_⟩
    simp only [Value.symbolCountOfEntries]
    omega

/-- Operands whose number is even leave no weight without a child. -/
theorem weightsOfPairs_conserves (h : ∀ o ∈ operands, o.Conserves)
    (heven : operands.length % 2 = 0) :
    Conserves (FairShares (Operand.sizeOfAll operands)) (weightsOfPairs operands) := by
  fun_induction weightsOfPairs operands with
  | case1 weight child rest ih =>
    refine (h weight (by simp)).weight.bind fun w hw => ?_
    refine (h child (by simp)).child.bind fun a ha => ?_
    have hrest : rest.length % 2 = 0 := by
      simp only [List.length_cons] at heven
      omega
    refine (ih (fun o ho => h o (by simp [ho])) hrest).bind fun others hothers => Ensures.pure ?_
    have hcons := hothers.cons hw ha.1 ha.2
    refine ⟨hcons.1, hcons.2.trans ?_⟩
    simp only [Operand.sizeOfAll_cons]
    omega
  | case2 => simp at heven
  | case3 => exact Ensures.pure ⟨by simp, by simp⟩

theorem shareOut_conserves (call : Node) {weighted : List (Decimal × Allocation)}
    (h : FairShares n weighted) (hn : n ≤ Allocation.maxSymbols) :
    Conserves (fun v => v.Fair n) (shareOut call weighted) := by
  unfold shareOut
  rcases Allocation.specifiedWeight_spec h.1 (h.2.trans hn) with
    ⟨a, ha, hwhole, hcount⟩ | ha | ha <;> rw [ha]
  · exact Ensures.pure (Value.fair_allocation hwhole (hcount.trans h.2))
  · exact conserves_fail ..
  · exact conserves_fail ..

theorem weightSpecified_conserves (call : Node) (h : ∀ o ∈ operands, o.Conserves)
    (hsize : Operand.sizeOfAll operands ≤ Allocation.maxSymbols) :
    Conserves (fun v => v.Fair (Operand.sizeOfAll operands)) (weightSpecified call operands) := by
  unfold weightSpecified
  split
  · rename_i weights
    simp only [Operand.sizeOfAll_cons, Operand.sizeOfAll_nil, Nat.add_zero] at hsize ⊢
    refine (h weights (by simp)).bind fun v hv => ?_
    split
    · rename_i entries
      refine (weightsOfMap_conserves _ entries hv.1).bind fun weighted hw => ?_
      exact shareOut_conserves call ⟨hw.1, hw.2.trans hv.2⟩ hsize
    · exact conserves_fail ..
  · split
    · rename_i heven
      exact (weightsOfPairs_conserves h heven).bind fun weighted hw =>
        shareOut_conserves call hw hsize
    · exact conserves_fail ..

/-! ## Rankings and indicators -/

theorem select_conserves (selector : Nat → Selector) (h : ∀ o ∈ operands, o.Conserves)
    (hn : (Arity.exactly 1).accepts operands.length) :
    Conserves (fun v => v.Fair n) (select selector operands) := by
  obtain ⟨o, rfl⟩ := List.length_eq_one_iff.1 (beq_iff_eq.1 hn)
  exact (h o (by simp)).count.bind fun k _ => Ensures.pure (Value.fair_selector ..)

/-- There are no more candidates than symbols that they come from. -/
theorem candidates_conserves (call node : Node) (metric : Metric) (seen : List String)
    (as : List Allocation) :
    Conserves (fun cs => cs.length ≤ Allocation.symbolCount as)
      (candidates call node metric seen as) := by
  induction as generalizing seen with
  | nil => exact Ensures.pure (Nat.le_refl _)
  | cons a rest ih =>
    have hle : Allocation.symbolCount rest ≤ Allocation.symbolCount (a :: rest) :=
      Nat.le_add_left ..
    unfold candidates
    split
    · exact (ih seen).mono fun cs hcs => hcs.trans hle
    · rename_i symbol hsymbols
      have hone : a.size = 1 := by
        simpa [Allocation.symbols, TextMap.keys, Allocation.size, TextMap.size] using
          congrArg List.length hsymbols
      split
      · exact (ih seen).mono fun cs hcs => hcs.trans hle
      · refine (conserves_fetch ..).bind fun value _ => (ih _).bind fun others hothers =>
          Ensures.pure ?_
        simp only [List.length_cons, Allocation.symbolCount_cons, hone]
        omega
    · exact conserves_fail ..

/-- Candidates share the weight equally. -/
theorem shareEqually_conserves {cs : List Candidate} (hcs : cs.length ≤ n)
    (hn : n ≤ Allocation.maxSymbols) :
    Conserves (fun a => (Value.allocation a).Fair n)
      (ofWeights (Allocation.equalWeight (cs.map fun c => Allocation.single c.symbol))) := by
  have hwhole : ∀ a ∈ cs.map (fun c => Allocation.single c.symbol), a.Whole := by
    intro a ha
    obtain ⟨c, -, rfl⟩ := List.mem_map.1 ha
    exact Allocation.whole_single _
  have hcount :
      Allocation.symbolCount (cs.map fun c => Allocation.single c.symbol) = cs.length := by
    simp [Allocation.symbolCount, Function.comp_def]
  obtain ⟨a, ha, hfair, hsize⟩ := Allocation.equalWeight_spec hwhole (by omega)
  exact conserves_ofWeights ha (Value.fair_allocation hfair (by omega))

theorem filter_conserves (call : Node) (h : ∀ o ∈ operands, o.Conserves)
    (hn : (Arity.exactly 3).accepts operands.length)
    (hsize : Operand.sizeOfAll operands ≤ Allocation.maxSymbols) :
    Conserves (fun v => v.Fair (Operand.sizeOfAll operands)) (filter call operands) := by
  obtain ⟨metric, selector, children, rfl⟩ := List.length_eq_three.1 (beq_iff_eq.1 hn)
  unfold filter
  refine (h metric (by simp)).bind fun v _ => (expectMetric_conserves ..).bind fun m _ => ?_
  refine (h selector (by simp)).bind fun v _ => (expectSelector_conserves ..).bind fun s _ => ?_
  refine (h children (by simp)).allocations.bind fun as has => ?_
  refine (candidates_conserves call children.node m [] as).bind fun cs hcs => ?_
  refine (conserves_record _).bind fun _ _ => ?_
  have hchosen : ((s.rank cs).take s.count).length ≤
      Operand.sizeOfAll [metric, selector, children] := by
    have hrank : (s.rank cs).length = cs.length := List.length_mergeSort _
    have htake := List.length_take_le' s.count (s.rank cs)
    have hchildren := has.2
    simp only [Operand.sizeOfAll_cons]
    omega
  exact (shareEqually_conserves hchosen hsize).bind fun _ hb => Ensures.pure hb

theorem indicator_conserves (call : Node) (i : Indicator) (h : ∀ o ∈ operands, o.Conserves) :
    Conserves (fun v => v.Fair n) (indicator call i operands) := by
  unfold indicator
  split
  · split
    · rename_i period
      exact (h period (by simp)).period.bind fun k _ => Ensures.pure (Value.fair_metric ..)
    · rename_i symbol period
      exact (h symbol (by simp)).string.bind fun s _ => (h period (by simp)).period.bind fun k _ =>
        (conserves_fetch ..).bind fun d _ => Ensures.pure (Value.fair_number ..)
    · exact conserves_fail ..
  · split
    · exact Ensures.pure (Value.fair_metric ..)
    · rename_i symbol others
      exact (h symbol (by simp)).string.bind fun s _ =>
        (conserves_fetch ..).bind fun d _ => Ensures.pure (Value.fair_number ..)

end Operator

/-! ## Calls and nodes -/

namespace Form

/-- The accepted numbers of arguments of an operator. -/
def arity : Form → Arity
  | defsymphony | conditional => .between 2 3
  | group | comparison _ => .exactly 2
  | conjunction | disjunction | weightSpecified => .atLeast 1
  | negation | weightEqual | selectTop | selectBottom => .exactly 1
  | arithmetic .divide => .atLeast 2
  | arithmetic _ => .atLeast 1
  | asset => .between 1 2
  | filter => .exactly 3
  | indicator i => if i.takesPeriod then .between 1 2 else .between 0 1

theorem arity_of_lookup? {name : String} {entry : FormEntry} (h : lookup? name = some entry) :
    entry.form.arity = entry.arity := by
  have hall : ∀ entry ∈ table, entry.form.arity = entry.arity := by decide
  exact hall entry (List.mem_of_find?_eq_some h)

/-- The name of an operator is known where it is the only one of its kind. -/
theorem name_of_lookup? {form : Form} {operator : String}
    (hall : ∀ entry ∈ table, entry.form = form → entry.name = operator) {name : String}
    {entry : FormEntry} (h : lookup? name = some entry) (hform : entry.form = form) :
    name = operator := by
  have hname := List.find?_some h
  rw [← beq_iff_eq.1 hname, hall entry (List.mem_of_find?_eq_some h) hform]

open Eval Operator

/-- **Operators conserve weight.** An operator with an accepted number of operands ends in a value
that brings in no more symbols than the operands have nodes, and in whole allocations. -/
theorem apply_conserves (call : Node) (form : Form) {operands : List Operand}
    (h : ∀ o ∈ operands, o.Conserves) (hn : form.arity.accepts operands.length)
    (hsize : Operand.sizeOfAll operands ≤ Allocation.maxSymbols) :
    Conserves (fun v => v.Fair (Operand.sizeOfAll operands)) (form.apply call operands) := by
  cases form with
  | defsymphony => exact defsymphony_conserves h hn
  | group => exact group_conserves h hn
  | conditional => exact conditional_conserves h hn
  | conjunction => exact logical_conserves false h
  | disjunction => exact logical_conserves true h
  | negation => exact negation_conserves h hn
  | comparison op => exact comparison_conserves op h hn
  | arithmetic op => exact arithmetic_conserves call op h
  | asset => exact asset_conserves h hn
  | weightEqual => exact weightEqual_conserves h hn hsize
  | weightSpecified => exact weightSpecified_conserves call h hsize
  | filter => exact filter_conserves call h hn hsize
  | selectTop => exact select_conserves .top h hn
  | selectBottom => exact select_conserves .bottom h hn
  | indicator i => exact indicator_conserves call i h

end Form

namespace Node

open Eval

theorem atom_conserves (node : Node) (a : Atom) : Conserves (fun v => v.Fair 1) (a.eval node) := by
  cases a with
  | number d => exact Ensures.pure (Value.fair_number ..)
  | string s => exact Ensures.pure ⟨trivial, Nat.le_refl _⟩
  | symbol name =>
    simp only [Atom.eval]
    split
    · exact Ensures.pure (Value.fair_keyword ..)
    · split
      · exact Ensures.pure (Value.fair_boolean ..)
      · split
        · exact Ensures.pure (Value.fair_boolean ..)
        · split
          · exact conserves_fail ..
          · exact conserves_fail ..

theorem valuesOf_conserves {operands : List Operand} (h : ∀ o ∈ operands, o.Conserves) :
    Conserves (fun vs => Value.AllInItems Allocation.Whole (fun _ => True) vs ∧
      Value.symbolCountOfItems vs ≤ Operand.sizeOfAll operands) (valuesOf operands) := by
  induction operands with
  | nil => exact Ensures.pure ⟨trivial, Nat.le_refl _⟩
  | cons o rest ih =>
    refine (h o (by simp)).bind fun v hv => ?_
    refine (ih fun o ho => h o (List.mem_cons_of_mem _ ho)).bind fun vs hvs => Ensures.pure ?_
    exact ⟨⟨hv.1, hvs.1⟩, Nat.add_le_add hv.2 hvs.2⟩

theorem entriesOf_conserves (node : Node) {operands : List Operand}
    (h : ∀ o ∈ operands, o.Conserves) :
    Conserves (fun es => Value.AllInEntries Allocation.Whole (fun _ => True) es ∧
      Value.symbolCountOfEntries es ≤ Operand.sizeOfAll operands) (entriesOf node operands) := by
  fun_induction entriesOf node operands with
  | case1 => exact Ensures.pure ⟨trivial, Nat.le_refl _⟩
  | case2 key => exact (h key (by simp)).bind fun _ _ => conserves_fail ..
  | case3 key value rest ih =>
    refine (h key (by simp)).bind fun k hk => (h value (by simp)).bind fun v hv => ?_
    refine (ih fun o ho => h o (by simp [ho])).bind fun others hothers => Ensures.pure ?_
    refine ⟨⟨⟨hk.1, hv.1⟩, hothers.1⟩, ?_⟩
    have hks := hk.2
    have hvs := hv.2
    have hos := hothers.2
    simp only [Value.symbolCountOfEntries, Operand.sizeOfAll_cons]
    omega

theorem call_conserves (node : Node) (name : String) {operands : List Operand}
    (h : ∀ o ∈ operands, o.Conserves)
    (hsize : Operand.sizeOfAll operands ≤ Allocation.maxSymbols) :
    Conserves (fun v => v.Fair (Operand.sizeOfAll operands)) (call node name operands) := by
  unfold call
  split
  · exact conserves_fail ..
  · rename_i entry hentry
    split
    · rename_i hn
      rw [← Form.arity_of_lookup? hentry] at hn
      exact Form.apply_conserves node entry.form h hn hsize
    · exact conserves_fail ..

/-- A list that begins with the name of an operator has its operands behind it. -/
theorem evalList_conserves (node : Node) (kind : ListKind) {operands : List Operand}
    (hhead : ∀ name, node.head? = some name → operands ≠ []) (h : ∀ o ∈ operands, o.Conserves)
    (hsize : Operand.sizeOfAll operands ≤ Allocation.maxSymbols) :
    Conserves (fun v => v.Fair (Operand.sizeOfAll operands)) (evalList node kind operands) := by
  unfold evalList
  split
  · exact (entriesOf_conserves node h).bind fun es hes => Ensures.pure hes
  · split
    · rename_i o arguments _
      have hrest : Operand.sizeOfAll arguments ≤ Operand.sizeOfAll (o :: arguments) :=
        Nat.le_add_left ..
      exact (call_conserves node _ (fun o ho => h o (List.mem_cons_of_mem _ ho))
        (hrest.trans hsize)).mono fun v hv => hv.mono hrest
    · rename_i name hname
      exact absurd rfl (hhead name hname)
    · exact (valuesOf_conserves h).bind fun vs hvs => Ensures.pure hvs

/-- The first child of a list that begins with a name is among its operands. -/
theorem operandsOf_ne_nil {kind : ListKind} {children : List Node} {p : Nat} {name : String}
    (h : (list kind children p).head? = some name) (path : NodePath) (index : Nat) :
    operandsOf children path index ≠ [] := by
  cases children with
  | nil => cases kind <;> cases h
  | cons n ns =>
    rw [operandsOf]
    exact List.cons_ne_nil _ _

theorem sizeOfAll_operandsOf (children : List Node) (path : NodePath) (index : Nat) :
    Operand.sizeOfAll (operandsOf children path index) = sizeOfAll children := by
  induction children generalizing index with
  | nil => rfl
  | cons n ns ih => simp only [operandsOf, sizeOfAll, Operand.sizeOfAll_cons, ih]

/-- What is found at a node is whole if its value is fair. -/
theorem found_conserves {n : Nat} (path : NodePath) {v : Value} (h : v.Fair n) :
    Conserves (fun _ => True) (emit (.found path v)) := by
  refine Ensures.emit ?_
  cases v <;> first | exact h.1 | exact trivial

mutual

/-- **Evaluation conserves weight**, at every node of a tree. -/
theorem eval_conserves (n : Node) (path : NodePath) (hsize : n.size ≤ Allocation.maxSymbols) :
    Conserves (fun v => v.Fair n.size) (n.eval path) := by
  cases n with
  | atom a p =>
    refine (Ensures.emit trivial).bind fun _ _ => (atom_conserves _ a).bind fun v hv => ?_
    exact (found_conserves path hv).bind fun _ _ => Ensures.pure hv
  | list kind children p =>
    have hchildren : sizeOfAll children ≤ Allocation.maxSymbols := by
      simp only [size] at hsize
      omega
    have hoperands := operandsOf_conserve children path 0 hchildren
    rw [← sizeOfAll_operandsOf children path 0] at hchildren
    have hlist := evalList_conserves (list kind children p) kind
      (fun _ h => operandsOf_ne_nil h path 0) hoperands hchildren
    refine (Ensures.emit trivial).bind fun _ _ => (Ensures.nested trivial hlist).bind fun v hv => ?_
    refine (found_conserves path hv).bind fun _ _ => Ensures.pure (hv.mono ?_)
    rw [sizeOfAll_operandsOf]
    exact Nat.le_add_left ..

theorem operandsOf_conserve (children : List Node) (path : NodePath) (index : Nat)
    (hsize : sizeOfAll children ≤ Allocation.maxSymbols) :
    ∀ o ∈ operandsOf children path index, o.Conserves := by
  cases children with
  | nil => exact fun o ho => by cases ho
  | cons n ns =>
    simp only [sizeOfAll] at hsize
    intro o ho
    rcases List.mem_cons.1 ho with rfl | ho
    · exact eval_conserves n (index :: path) (by omega)
    · exact operandsOf_conserve ns path (index + 1) (by omega) o ho

end

theorem evalStrategy_conserves (n : Node) (hsize : n.size ≤ Allocation.maxSymbols) :
    Conserves Allocation.Whole n.evalStrategy := by
  refine (eval_conserves n [] hsize).bind fun v hv => ?_
  split
  · exact Ensures.pure hv.1
  · exact conserves_fail ..

/-- The tree of a text has no more nodes than the text has bytes. -/
theorem size_le_of_ofText {source : String} {n : Node} (h : ofText source = .ok n) :
    n.size ≤ source.utf8ByteSize := by
  obtain ⟨tokens, htokens, hn⟩ := ofText_eq_ok_iff.1 h
  obtain ⟨d, hd, -, rfl⟩ := exists_derives_of_ofTokens hn
  calc d.tree.size ≤ d.tokens.length := d.size_tree_le
    _ ≤ tokens.length := by rw [hd.2]; exact List.length_filter_le ..
    _ ≤ source.utf8ByteSize := length_le_of_tokenize htokens

theorem size_le_of_ofSource {source : String} {n : Node} (h : ofSource source = .ok n) :
    n.size ≤ maxSourceBytes := by
  obtain ⟨hsize, htext⟩ := ofSource_eq_ok_iff.1 h
  exact (size_le_of_ofText htext).trans hsize

end Node

/-- **Weight conservation.** From a tree of at most `10 ^ 15` nodes, so from the tree of any source,
every evaluation gives a whole allocation if it gives one, and every node that is an allocation on
the way is a whole one. -/
theorem evaluate_conserves_weight :
    (∀ (n : Node) (setting : Setting) (context : Context), n.size ≤ 10 ^ 15 →
      (∀ a, (evaluate n setting context).result = .ok a → a.Whole) ∧
      ∀ path a, .found path (.allocation a) ∈ (n.evalStrategy setting (.initial context)).events →
        a.Whole) ∧
    ∀ source n, Node.ofSource source = .ok n → n.size ≤ 10 ^ 15 := by
  refine ⟨fun n setting context hsize => ?_, fun source n h => ?_⟩
  · have hconserves := Node.evalStrategy_conserves n hsize
    refine ⟨fun a ha => ?_, fun path a ha => hconserves.events _ _ _ ha⟩
    change (n.evalStrategy setting (.initial context)).result.map _ = _ at ha
    cases hr : (n.evalStrategy setting (.initial context)).result with
    | error e => rw [hr] at ha; cases ha
    | ok b =>
      rw [hr] at ha
      injection ha with ha
      -- Metadata do not touch the weights.
      have hweights : a.weights = b.weights := by rw [← ha]; rfl
      have hb : b.Whole := hconserves.value _ _ b hr
      unfold Allocation.Whole Allocation.isEmpty Allocation.Positive Allocation.exactTotal at hb ⊢
      rwa [hweights]
  · exact (Node.size_le_of_ofSource h).trans (by decide)

/-- Three equal shares are whole, though a third has no exact decimal. -/
theorem evaluate_conserves_thirds :
    ∃ n a, Node.ofSource "(weight-equal [(asset \"A\") (asset \"B\") (asset \"C\")])" = .ok n ∧
      (evaluate n ⟨fun r => .error ⟨r.symbol, r.metric, "closed"⟩, some maxDepth, true⟩
        .fresh).result = .ok a ∧ a.Whole := by
  have hrun : (match Node.ofSource "(weight-equal [(asset \"A\") (asset \"B\") (asset \"C\")])" with
      | .ok n => (evaluate n ⟨fun r => .error ⟨r.symbol, r.metric, "closed"⟩, some maxDepth, true⟩
          .fresh).result.toOption.isSome
      | .error _ => false) = true := by decide +kernel
  split at hrun
  · rename_i n hn
    cases hr : (evaluate n ⟨fun r => .error ⟨r.symbol, r.metric, "closed"⟩, some maxDepth, true⟩
        .fresh).result with
    | error e => rw [hr] at hrun; cases hrun
    | ok a =>
      have hsize := evaluate_conserves_weight.2 _ n hn
      exact ⟨n, a, hn, hr, (evaluate_conserves_weight.1 n _ _ hsize).1 a hr⟩
  · cases hrun

/-- **No faults.** The evaluation of a tree of at most `10 ^ 15` nodes ends with an allocation or
with an error of the strategy: no argument that an operator needs is missing, and no operation on
weights leaves the range of decimals or divides by zero. -/
theorem evaluate_never_faults (n : Node) (setting : Setting) (context : Context)
    (hsize : n.size ≤ 10 ^ 15) :
    (∃ a, (evaluate n setting context).result = .ok a) ∨
      ∃ e, (evaluate n setting context).result = .error (.error e) := by
  cases hr : (evaluate n setting context).result with
  | ok a => exact .inl ⟨a, rfl⟩
  | error stop =>
    have hstop := (Node.evalStrategy_conserves n hsize).stop _ _ stop (evaluate_eq_error_iff.1 hr)
    cases stop with
    | error e => exact .inr ⟨e, rfl⟩
    | fault f => cases hstop

/-- The smallest weight that there is beside the second greatest: their quotient is rounded to
zero. -/
theorem evaluate_never_faults_extremes :
    ∃ n, Node.ofSource
      "(weight-specified 0.0000000000000000000000000001 \"A\" 79228162514264337593543950334 \"B\")"
        = .ok n ∧ n.size ≤ 10 ^ 15 ∧
      let run := evaluate n ⟨fun _ => .ok .zero, some maxDepth, true⟩ .fresh
      (∃ a, run.result = .ok a) ∨ ∃ e, run.result = .error (.error e) := by
  have hparses : (Node.ofSource
      "(weight-specified 0.0000000000000000000000000001 \"A\" 79228162514264337593543950334 \"B\")"
        ).toOption.isSome = true := by decide +kernel
  cases hn : Node.ofSource
      "(weight-specified 0.0000000000000000000000000001 \"A\" 79228162514264337593543950334 \"B\")"
  with
  | error e =>
    rw [hn] at hparses
    cases hparses
  | ok n =>
    have hsize : n.size ≤ 10 ^ 15 := (Node.size_le_of_ofSource hn).trans (by decide)
    exact ⟨n, rfl, hsize, evaluate_never_faults n _ .fresh hsize⟩

end AllocScript
