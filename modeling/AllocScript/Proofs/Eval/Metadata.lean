import AllocScript.Proofs.Eval.Conservation
import AllocScript.Proofs.TextMap

/-!
# Where the texts of an allocation come from

While a strategy is evaluated, its allocations carry no texts (`Node.eval_bare`): they are made
without any (`bare_equalWeight`, `bare_specifiedWeight`), and no operator writes into one. So the
texts of the result are those of the context, all of them and no others
(`withMetadata_of_bare`).

The same induction shows that no selector takes `2 ^ 32` candidates or more.
-/

namespace AllocScript

namespace Allocation

/-- The allocation carries no texts of its own. -/
def Bare (a : Allocation) : Prop := a.metadata = .empty

variable {a b : Allocation}

/-! ## Operations on allocations -/

theorem metadata_add {symbol : String} {w : Decimal} (h : a.add symbol w = .ok b) :
    b.metadata = a.metadata := by
  unfold add at h
  split at h
  · obtain ⟨c, -, rfl⟩ := exists_ok_of_map h
    rfl
  · cases h
    rfl

theorem metadata_addScaled {factor : Decimal} {entries : List (String × Decimal)}
    (h : a.addScaled factor entries = .ok b) : b.metadata = a.metadata := by
  induction entries generalizing a with
  | nil =>
    cases h
    rfl
  | cons e rest ih =>
    obtain ⟨w, -, h⟩ := exists_ok_of_bind h
    obtain ⟨a', hadd, h⟩ := exists_ok_of_bind h
    exact (ih h).trans (metadata_add hadd)

theorem metadata_addShares {shares : List (Except Overflow Decimal × Allocation)}
    (h : a.addShares shares = .ok b) : b.metadata = a.metadata := by
  induction shares generalizing a with
  | nil =>
    cases h
    rfl
  | cons c rest ih =>
    obtain ⟨child, -, h⟩ := exists_ok_of_bind h
    obtain ⟨share, -, h⟩ := exists_ok_of_bind h
    obtain ⟨a', hmerge, h⟩ := exists_ok_of_bind h
    exact (ih h).trans (metadata_addScaled hmerge)

/-- The texts of the children, if they had any, are left behind. -/
theorem bare_equalWeight {children : List Allocation} (h : equalWeight children = .ok a) :
    a.Bare := by
  unfold equalWeight at h
  dsimp only at h
  split at h
  · cases h
    rfl
  · obtain ⟨share, -, h⟩ := exists_ok_of_bind h
    exact metadata_addShares h

theorem bare_specifiedWeight {children : List (Decimal × Allocation)}
    (h : specifiedWeight children = .ok a) : a.Bare := by
  unfold specifiedWeight at h
  dsimp only at h
  split at h
  · cases h
    rfl
  · split at h
    · cases h
    · split at h
      · cases h
      · split at h
        · cases h
        · rename_i hshares
          cases h
          exact metadata_addShares hshares

/-! ## Texts of a context -/

/-- A text of the allocation's own stays, and the others are those of the context. -/
theorem get?_withMetadata (a : Allocation) (metadata : TextMap String) (key : String) :
    (a.withMetadata metadata).metadata.get? key =
      (a.metadata.get? key).or (metadata.get? key) :=
  TextMap.get?_foldl_insertNew metadata.entries a.metadata key

theorem withMetadata_of_bare (h : a.Bare) (metadata : TextMap String) :
    a.withMetadata metadata = ⟨a.weights, metadata⟩ := by
  have hmetadata : (a.withMetadata metadata).metadata = metadata := by
    refine TextMap.ext_get? fun key => ?_
    rw [get?_withMetadata, h]
    rfl
  exact congrArg (Allocation.mk a.weights) hmetadata

end Allocation

/-- Every allocation in the value carries no texts, and every selector takes fewer than `2 ^ 32`
candidates. -/
def Value.Bare (v : Value) : Prop := v.All Allocation.Bare (·.count < 2 ^ 32)

/-- The value of the operand is bare. -/
def Operand.Bare (o : Operand) : Prop := Eval.Returns Value.Bare o.value

/-! ## Operators -/

namespace Operator

open Eval

variable {operands : List Operand} {call : Node}

theorem defsymphony_bare (ho : ∀ o ∈ operands, o.Bare) :
    Returns Value.Bare (defsymphony operands) := by
  unfold defsymphony
  split
  · exact .fault
  · refine .after fun _ => .after fun _ => .after fun _ => ?_
    split
    · exact ho _ (by simp)
    · refine .after fun v => ?_
      cases v <;> exact .after fun _ => ho _ (by simp)
    · exact .fail

theorem group_bare (ho : ∀ o ∈ operands, o.Bare) : Returns Value.Bare (group operands) := by
  unfold group
  split
  · exact .after fun _ => .after fun _ => ho _ (by simp)
  · exact .fault

theorem conditional_bare (ho : ∀ o ∈ operands, o.Bare) :
    Returns Value.Bare (conditional operands) := by
  unfold conditional
  split
  · refine .after fun holds => ?_
    split
    · exact .after fun _ => ho _ (by simp)
    · split
      · exact .after fun _ => ho _ (by simp)
      · exact .after fun _ => .pure rfl
  · exact .fault

theorem logical_bare (decisive : Bool) : Returns Value.Bare (logical decisive operands) := by
  induction operands with
  | nil => exact .pure trivial
  | cons o rest ih =>
    refine .after fun b => ?_
    split
    · exact .pure trivial
    · exact ih

theorem negation_bare : Returns Value.Bare (negation operands) := by
  unfold negation
  split
  · exact .after fun _ => .pure trivial
  · exact .fault

theorem comparison_bare (op : Comparison) : Returns Value.Bare (comparison op operands) := by
  unfold comparison
  split
  · exact .after fun _ => .after fun _ => .pure trivial
  · exact .fault

theorem arithmetic_bare (op : Operation) : Returns Value.Bare (arithmetic call op operands) := by
  refine .after fun ds => ?_
  split
  · exact .fail
  · exact .pure trivial
  · exact .after fun _ => .pure trivial

theorem asset_bare : Returns Value.Bare (asset operands) := by
  unfold asset
  split
  · exact .fault
  · refine .after fun ticker => ?_
    split
    · exact .fail
    · split
      · exact .pure rfl
      · exact .after fun _ => .pure rfl

theorem weightEqual_bare : Returns Value.Bare (weightEqual operands) := by
  unfold weightEqual
  split
  · exact .after fun as =>
      .bind (.ofWeights _) fun a ha => .pure (Allocation.bare_equalWeight ha)
  · exact .fault

theorem shareOut_bare (weighted : List (Decimal × Allocation)) :
    Returns Value.Bare (shareOut call weighted) := by
  unfold shareOut
  split
  · rename_i a ha
    exact .pure (Allocation.bare_specifiedWeight ha)
  · exact .fail
  · exact .fail
  · exact .fault

theorem weightSpecified_bare : Returns Value.Bare (weightSpecified call operands) := by
  unfold weightSpecified
  split
  · refine .after fun v => ?_
    split
    · exact .after shareOut_bare
    · exact .fail
  · split
    · exact .after shareOut_bare
    · exact .fail

/-- A count is below `2 ^ 32`. -/
theorem count_lt (o : Operand) : Returns (· < 2 ^ 32) o.count := by
  refine .after fun _ => .after fun d => ?_
  unfold expectPositive Decimal.toCount?
  split
  · rename_i hcount
    obtain ⟨⟨-, hpos, hlt⟩, heq⟩ := Option.ite_none_right_eq_some.1 hcount
    cases heq
    exact .pure (by omega)
  · exact .fail

theorem select_bare {selector : Nat → Selector} (h : ∀ n, (selector n).count = n) :
    Returns Value.Bare (select selector operands) := by
  unfold select
  split
  · exact (count_lt _).bind fun n hn => .pure ((h n).trans_lt hn)
  · exact .fault

theorem filter_bare : Returns Value.Bare (filter call operands) := by
  unfold filter
  split
  · refine .after fun _ => .after fun _ => .after fun _ => .after fun _ => .after fun _ => ?_
    refine .after fun _ => .after fun _ => ?_
    exact .bind (.ofWeights _) fun a ha => .pure (Allocation.bare_equalWeight ha)
  · exact .fault

theorem indicator_bare (i : Indicator) : Returns Value.Bare (indicator call i operands) := by
  unfold indicator
  split
  · split
    · exact .after fun _ => .pure trivial
    · exact .after fun _ => .after fun _ => .after fun _ => .pure trivial
    · exact .fail
  · split
    · exact .pure trivial
    · exact .after fun _ => .after fun _ => .pure trivial

end Operator

/-- **Operators write no texts into allocations.** -/
theorem Form.apply_bare (form : Form) {call : Node} {operands : List Operand}
    (ho : ∀ o ∈ operands, o.Bare) : Eval.Returns Value.Bare (form.apply call operands) := by
  cases form with
  | defsymphony => exact Operator.defsymphony_bare ho
  | group => exact Operator.group_bare ho
  | conditional => exact Operator.conditional_bare ho
  | conjunction => exact Operator.logical_bare false
  | disjunction => exact Operator.logical_bare true
  | negation => exact Operator.negation_bare
  | comparison op => exact Operator.comparison_bare op
  | arithmetic op => exact Operator.arithmetic_bare op
  | asset => exact Operator.asset_bare
  | weightEqual => exact Operator.weightEqual_bare
  | weightSpecified => exact Operator.weightSpecified_bare
  | filter => exact Operator.filter_bare
  | selectTop => exact Operator.select_bare fun _ => rfl
  | selectBottom => exact Operator.select_bare fun _ => rfl
  | indicator i => exact Operator.indicator_bare i

/-! ## Nodes -/

namespace Node

open Eval

variable {operands : List Operand}

theorem atom_bare (node : Node) (a : Atom) : Returns Value.Bare (a.eval node) := by
  cases a with
  | number d => exact .pure trivial
  | string s => exact .pure trivial
  | symbol name =>
    simp only [Atom.eval]
    split
    · exact .pure trivial
    · split
      · exact .pure trivial
      · split
        · exact .pure trivial
        · split
          · exact .fail
          · exact .fail

theorem valuesOf_bare (ho : ∀ o ∈ operands, o.Bare) :
    Returns (fun vs => (Value.list vs).Bare) (valuesOf operands) := by
  induction operands with
  | nil => exact .pure trivial
  | cons o rest ih =>
    refine .bind (ho o (by simp)) fun v hv => ?_
    exact .bind (ih fun o ho' => ho o (List.mem_cons_of_mem _ ho')) fun vs hvs => .pure ⟨hv, hvs⟩

theorem entriesOf_bare (node : Node) (ho : ∀ o ∈ operands, o.Bare) :
    Returns (fun entries => (Value.map entries).Bare) (entriesOf node operands) := by
  fun_induction entriesOf node operands with
  | case1 => exact .pure trivial
  | case2 => exact .after fun _ => .fail
  | case3 key value rest ih =>
    refine .bind (ho key (by simp)) fun k hk => .bind (ho value (by simp)) fun v hv => ?_
    exact .bind (ih fun o ho' => ho o (by simp [ho'])) fun others hothers =>
      .pure ⟨⟨hk, hv⟩, hothers⟩

theorem evalList_bare (node : Node) (kind : ListKind) (ho : ∀ o ∈ operands, o.Bare) :
    Returns Value.Bare (evalList node kind operands) := by
  unfold evalList
  split
  · exact .bind (entriesOf_bare node ho) fun entries h => .pure h
  · split
    · unfold call
      split
      · exact .fail
      · split
        · exact Form.apply_bare _ fun o ho' => ho o (List.mem_cons_of_mem _ ho')
        · exact .fail
    · exact .fault
    · exact .bind (valuesOf_bare ho) fun vs h => .pure h

mutual

/-- **No allocation on the way carries texts**: the value of every node is bare. -/
theorem eval_bare (n : Node) (path : NodePath) : Returns Value.Bare (n.eval path) := by
  cases n with
  | atom a p =>
    exact .after fun _ => .bind (atom_bare _ a) fun v hv => .after fun _ => .pure hv
  | list kind children p =>
    refine .after fun _ => ?_
    exact .bind (.nested (evalList_bare _ kind (operandsOf_bare children path 0))) fun v hv =>
      .after fun _ => .pure hv

theorem operandsOf_bare (ns : List Node) (path : NodePath) (index : Nat) :
    ∀ o ∈ operandsOf ns path index, o.Bare := by
  cases ns with
  | nil => exact fun o ho => by cases ho
  | cons n ns =>
    exact List.forall_mem_cons.2
      ⟨eval_bare n (index :: path), operandsOf_bare ns path (index + 1)⟩

end

theorem evalStrategy_bare (n : Node) : Returns Allocation.Bare n.evalStrategy := by
  refine .bind (eval_bare n []) fun v hv => ?_
  cases v with
  | allocation a => exact .pure hv
  | _ => exact .fail

end Node

end AllocScript
