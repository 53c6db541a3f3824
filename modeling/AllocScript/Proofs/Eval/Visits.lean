import AllocScript.Proofs.Eval.Simulation

/-!
# Every node has at most one value

An evaluation comes to a node once at most. The reason is that every operator evaluates each of its
operands once at most, and that no two nodes have the same path.

* `AtMost q k x`: in every run of `x` the node at `q` gets a value at most `k` times.
* `Together q operands k`: so do the operands, each of them evaluated once.
* `AtMost.apply`: an operator does not go beyond its operands.
* `evalStrategy_found_unique`: of an evaluation of a strategy, a node has one value or none.
-/

namespace AllocScript

namespace Event

/-- The value that a node gets in an event. -/
def valueAt? (q : NodePath) : Event → Option Value
  | found path v => if path = q then some v else none
  | _ => none

/-- The values that a node gets in events, in order. -/
def valuesAt (q : NodePath) (events : List Event) : List Value := events.filterMap (valueAt? q)

theorem valuesAt_append (q : NodePath) (events events' : List Event) :
    valuesAt q (events ++ events') = valuesAt q events ++ valuesAt q events' :=
  List.filterMap_append

theorem mem_valuesAt {q : NodePath} {v : Value} {events : List Event} (h : found q v ∈ events) :
    v ∈ valuesAt q events :=
  List.mem_filterMap.2 ⟨_, h, if_pos rfl⟩

end Event

/-- The node at `q` gets a value at most `k` times, in every run. -/
def AtMost {α : Type} (q : NodePath) (k : Nat) (x : Eval α) : Prop :=
  ∀ s st, (Event.valuesAt q (x s st).events).length ≤ k

namespace AtMost

open Eval

variable {α β : Type} {q : NodePath} {j k : Nat}

/-! ## Computations -/

theorem mono {x : Eval α} (h : AtMost q j x) (hjk : j ≤ k) : AtMost q k x :=
  fun s st => (h s st).trans hjk

theorem bind {x : Eval α} {f : α → Eval β} (hx : AtMost q j x) (hf : ∀ a, AtMost q k (f a)) :
    AtMost q (j + k) (x >>= f) := by
  intro s st
  cases hr : (x s st).result with
  | error e =>
    rw [run_bind_of_error hr]
    exact (hx s st).trans (Nat.le_add_right j k)
  | ok a =>
    rw [run_bind_of_ok hr, Event.valuesAt_append, List.length_append]
    exact Nat.add_le_add (hx s st) (hf a s _)

/-- What follows does not come to the node. -/
theorem andThen {x : Eval α} {f : α → Eval β} (hx : AtMost q k x) (hf : ∀ a, AtMost q 0 (f a)) :
    AtMost q k (x >>= f) := hx.bind hf

/-- What comes first does not come to the node. -/
theorem after {x : Eval α} {f : α → Eval β} (hx : AtMost q 0 x) (hf : ∀ a, AtMost q k (f a)) :
    AtMost q k (x >>= f) := (hx.bind hf).mono (Nat.zero_add k).le

theorem of_no_events {x : Eval α} (h : ∀ s st, (x s st).events = []) : AtMost q 0 x :=
  fun s st => by rw [h s st]; exact Nat.le_refl 0

theorem emit {event : Event} (h : event.valueAt? q = none) : AtMost q 0 (Eval.emit event) :=
  fun _ _ => by
    show (List.filterMap (Event.valueAt? q) [event]).length ≤ 0
    rw [List.filterMap_cons_none h]
    exact Nat.le_refl 0

theorem fetch (n : Node) (r : Request) : AtMost q 0 (Eval.fetch n r) := by
  intro s st
  unfold Eval.fetch
  split
  · exact Nat.le_refl 0
  · unfold Eval.ask
    split <;> exact Nat.le_refl 0

/-- In a list nothing comes to the node but what is evaluated in it. -/
theorem nested (n : Node) {x : Eval α} (hx : AtMost q k x) : AtMost q k (Eval.nested n x) := by
  intro s st
  unfold Eval.nested
  split
  · exact Nat.zero_le k
  · exact hx s _

/-- Nothing but the operands of an operator comes to nodes. -/
def quiet (q : NodePath) : Simulation where
  node := Eq
  rel x _ := AtMost q 0 x
  pure _ := of_no_events fun _ _ => rfl
  bind := bind
  fail _ _ := of_no_events fun _ _ => rfl
  fault _ := of_no_events fun _ _ => rfl
  record _ := emit rfl
  quote _ _ := emit rfl
  setMetadata _ _ := emit rfl
  fetch _ _ := fetch _ _

abbrev quietSteps (q : NodePath) : StepSimulation := (quiet q).toStepSimulation

theorem silent (a : α) : AtMost q 0 (Pure.pure a : Eval α) := (quiet q).pure a

theorem fail {n : Node} {problem : EvalProblem} : AtMost q k (Eval.fail n problem : Eval α) :=
  (of_no_events fun _ _ => rfl : AtMost q 0 _).mono (Nat.zero_le k)

theorem fault {f : Fault} : AtMost q k (Eval.fault f : Eval α) :=
  (of_no_events fun _ _ => rfl : AtMost q 0 _).mono (Nat.zero_le k)

/-! ## Operands -/

variable {o : Operand}

theorem number (h : AtMost q k o.value) : AtMost q k o.number :=
  h.andThen (StepSimulation.expectNumber (S := quietSteps q) rfl)

theorem boolean (h : AtMost q k o.value) : AtMost q k o.boolean :=
  h.andThen (StepSimulation.expectBoolean (S := quietSteps q) rfl)

theorem string (h : AtMost q k o.value) : AtMost q k o.string :=
  h.andThen (StepSimulation.expectString (S := quietSteps q) rfl)

theorem allocations (h : AtMost q k o.value) : AtMost q k o.allocations :=
  h.andThen (StepSimulation.expectAllocations (S := quietSteps q) rfl)

theorem period (h : AtMost q k o.value) : AtMost q k o.period :=
  h.andThen (StepSimulation.expectPeriod (S := quietSteps q) rfl)

theorem count (h : AtMost q k o.value) : AtMost q k o.count :=
  h.andThen (StepSimulation.expectCount (S := quietSteps q) rfl)

theorem weight (h : AtMost q k o.value) : AtMost q k o.weight :=
  h.andThen (StepSimulation.expectWeight (S := quietSteps q) rfl)

theorem child (h : AtMost q k o.value) : AtMost q k o.child :=
  h.andThen (StepSimulation.expectChild (S := quietSteps q) rfl)

end AtMost

/-- Operands, each of them evaluated once, give the node at `q` a value at most so many times. -/
inductive Together (q : NodePath) : List Operand → Nat → Prop
  | nil : Together q [] 0
  | cons {o : Operand} {operands : List Operand} {j k : Nat} : AtMost q j o.value →
      Together q operands k → Together q (o :: operands) (j + k)

namespace AtMost

open Eval

variable {q : NodePath} {k : Nat} {operands : List Operand}

/-! ## Operators -/

theorem defsymphony (h : Together q operands k) : AtMost q k (Operator.defsymphony operands) := by
  cases h with
  | nil => exact fault
  | cons htitle hrest =>
    refine (string htitle).bind fun name => .after ((quiet q).setMetadata _ _) fun _ =>
      .after ((quiet q).record _) fun _ => ?_
    cases hrest with
    | nil => exact fail
    | cons hfirst hrest =>
      cases hrest with
      | nil => exact hfirst
      | cons hbody hrest =>
        cases hrest with
        | cons => exact fail
        | nil =>
          refine hfirst.bind fun v => ?_
          cases v with
          | map entries =>
            exact .after (Simulation.writeParameters (S := quiet q) rfl entries) fun _ => hbody
          | _ => exact .after (fail (α := Unit)) fun _ => hbody

theorem group (h : Together q operands k) : AtMost q k (Operator.group operands) := by
  cases h with
  | nil => exact fault
  | cons htitle hrest =>
    cases hrest with
    | nil => exact fault
    | cons hbody hrest =>
      cases hrest with
      | nil => exact (string htitle).bind fun _ => .after ((quiet q).record _) fun _ => hbody
      | cons => exact fault

/-- One branch is evaluated and not the other, so together they are within the sum of both. -/
theorem conditional (h : Together q operands k) : AtMost q k (Operator.conditional operands) := by
  cases h with
  | nil => exact fault
  | cons hcondition hrest =>
    cases hrest with
    | nil => exact fault
    | cons hthen hrest =>
      refine (boolean hcondition).bind fun holds => ?_
      cases holds with
      | true =>
        exact .after ((quiet q).record _) fun _ => hthen.mono (Nat.le_add_right _ _)
      | false =>
        cases hrest with
        | nil =>
          exact .after ((quiet q).record _) fun _ => (silent _).mono (Nat.zero_le _)
        | cons helse hrest =>
          refine .after ((quiet q).record _) fun _ => helse.mono ?_
          exact (Nat.le_add_right _ _).trans (Nat.le_add_left _ _)

theorem logical (decisive : Bool) (h : Together q operands k) :
    AtMost q k (Operator.logical decisive operands) := by
  induction h with
  | nil => exact silent _
  | cons ho _ ih =>
    refine (boolean ho).bind fun b => ?_
    by_cases hb : b = decisive
    · rw [if_pos hb]
      exact (silent _).mono (Nat.zero_le _)
    · rw [if_neg hb]
      exact ih

theorem negation (h : Together q operands k) : AtMost q k (Operator.negation operands) := by
  cases h with
  | nil => exact fault
  | cons ho hrest =>
    cases hrest with
    | nil => exact (boolean ho).andThen fun _ => silent _
    | cons => exact fault

theorem comparison (op : Comparison) (h : Together q operands k) :
    AtMost q k (Operator.comparison op operands) := by
  cases h with
  | nil => exact fault
  | cons hleft hrest =>
    cases hrest with
    | nil => exact fault
    | cons hright hrest =>
      cases hrest with
      | nil => exact (number hleft).bind fun _ => (number hright).andThen fun _ => silent _
      | cons => exact fault

theorem numbers (h : Together q operands k) : AtMost q k (Operator.numbers operands) := by
  induction h with
  | nil => exact silent _
  | cons ho _ ih => exact (number ho).bind fun _ => ih.andThen fun _ => silent _

theorem accumulate (call : Node) (op : Operation) (acc : Decimal) (ds : List (Node × Decimal)) :
    AtMost q 0 (Operator.accumulate call op acc ds) := by
  induction ds generalizing acc with
  | nil => exact silent acc
  | cons d ds ih =>
    unfold Operator.accumulate
    split
    · exact fail
    · split
      · exact ih _
      · exact fail

theorem arithmetic (call : Node) (op : Operation) (h : Together q operands k) :
    AtMost q k (Operator.arithmetic call op operands) := by
  refine (numbers h).andThen fun ds => ?_
  cases ds with
  | nil => exact fail
  | cons d ds =>
    cases ds with
    | nil => exact silent _
    | cons d' ds => exact (accumulate call op d.2 (d' :: ds)).andThen fun _ => silent _

theorem asset (h : Together q operands k) : AtMost q k (Operator.asset operands) := by
  cases h with
  | nil => exact fault
  | cons hsymbol hrest =>
    refine (string hsymbol).bind fun ticker => ?_
    cases isBlankText ticker with
    | true => exact fail
    | false =>
      cases hrest with
      | nil => exact silent _
      | cons htitle hrest =>
        refine mono ?_ (Nat.le_add_right _ _)
        exact (string htitle).andThen fun _ => silent _

theorem weightEqual (h : Together q operands k) : AtMost q k (Operator.weightEqual operands) := by
  cases h with
  | nil => exact fault
  | cons hchildren hrest =>
    cases hrest with
    | nil =>
      refine (allocations hchildren).andThen fun _ => ?_
      exact .andThen (StepSimulation.ofWeights (S := quietSteps q) _) fun _ => silent _
    | cons => exact fault

theorem weightsOfPairs {operands : List Operand} {k : Nat} :
    Together q operands k → AtMost q k (Operator.weightsOfPairs operands)
  | .nil => silent _
  | .cons hweight .nil => (weight hweight).andThen fun _ => fault
  | .cons hweight (.cons hchild hrest) =>
    (weight hweight).bind fun _ => (child hchild).bind fun _ =>
      (weightsOfPairs hrest).andThen fun _ => silent _

theorem weightSpecified (call : Node) (h : Together q operands k) :
    AtMost q k (Operator.weightSpecified call operands) := by
  -- However many operands there are but one, they are taken in pairs.
  have hpairs : AtMost q k (if operands.length % 2 = 0 then do
      Operator.shareOut call (← Operator.weightsOfPairs operands)
    else Eval.fail call (.weightArguments operands.length)) := by
    split
    · exact (weightsOfPairs h).andThen (StepSimulation.shareOut (S := quietSteps q) rfl)
    · exact fail
  cases h with
  | nil => exact hpairs
  | cons hweights hrest =>
    cases hrest with
    | nil =>
      refine hweights.andThen fun v => ?_
      cases v with
      | map entries =>
        exact .andThen (StepSimulation.weightsOfMap (S := quietSteps q) rfl entries)
          (StepSimulation.shareOut (S := quietSteps q) rfl)
      | _ => exact fail
    | cons => exact hpairs

theorem select (selector : Nat → Selector) (h : Together q operands k) :
    AtMost q k (Operator.select selector operands) := by
  cases h with
  | nil => exact fault
  | cons ho hrest =>
    cases hrest with
    | nil => exact (count ho).andThen fun _ => silent _
    | cons => exact fault

theorem filter (call : Node) (h : Together q operands k) :
    AtMost q k (Operator.filter call operands) := by
  cases h with
  | nil => exact fault
  | cons hmetric hrest =>
    cases hrest with
    | nil => exact fault
    | cons hselector hrest =>
      cases hrest with
      | nil => exact fault
      | cons hchildren hrest =>
        cases hrest with
        | cons => exact fault
        | nil =>
          refine hmetric.bind fun v =>
            .after (StepSimulation.expectMetric (S := quietSteps q) rfl v) fun m => ?_
          refine hselector.bind fun v =>
            .after (StepSimulation.expectSelector (S := quietSteps q) rfl v) fun s => ?_
          refine (allocations hchildren).andThen fun as => ?_
          refine .andThen (StepSimulation.candidates (S := quietSteps q) rfl rfl m [] as) fun cs =>
            ?_
          refine .andThen ((quiet q).record _) fun _ => ?_
          exact .andThen (StepSimulation.ofWeights (S := quietSteps q) _) fun _ => silent _

theorem indicator (call : Node) (i : Indicator) (h : Together q operands k) :
    AtMost q k (Operator.indicator call i operands) := by
  unfold Operator.indicator
  by_cases hperiod : i.takesPeriod = true
  · rw [if_pos hperiod]
    cases h with
    | nil => exact fail
    | cons hfirst hrest =>
      cases hrest with
      | nil => exact (period hfirst).andThen fun _ => silent _
      | cons hsecond hrest =>
        cases hrest with
        | nil =>
          exact (string hfirst).bind fun _ => (period hsecond).andThen fun _ =>
            (fetch _ _).andThen fun _ => silent _
        | cons => exact fail
  · rw [if_neg hperiod]
    cases h with
    | nil => exact silent _
    | cons hsymbol hrest =>
      refine mono ?_ (Nat.le_add_right _ _)
      exact (string hsymbol).andThen fun _ => (fetch _ _).andThen fun _ => silent _

/-- **An operator evaluates each of its operands once at most.** -/
theorem apply (call : Node) (form : Form) (h : Together q operands k) :
    AtMost q k (form.apply call operands) := by
  cases form with
  | defsymphony => exact defsymphony h
  | group => exact group h
  | conditional => exact conditional h
  | conjunction => exact logical false h
  | disjunction => exact logical true h
  | negation => exact negation h
  | comparison op => exact comparison op h
  | arithmetic op => exact arithmetic call op h
  | asset => exact asset h
  | weightEqual => exact weightEqual h
  | weightSpecified => exact weightSpecified call h
  | filter => exact filter call h
  | selectTop => exact select .top h
  | selectBottom => exact select .bottom h
  | indicator i => exact indicator call i h

/-! ## Lists -/

theorem valuesOf (h : Together q operands k) : AtMost q k (Node.valuesOf operands) := by
  induction h with
  | nil => exact silent _
  | cons ho _ ih => exact ho.bind fun _ => ih.andThen fun _ => silent _

theorem entriesOf (n : Node) {operands : List Operand} {k : Nat} :
    Together q operands k → AtMost q k (Node.entriesOf n operands)
  | .nil => silent _
  | .cons hkey .nil => hkey.andThen fun _ => fail
  | .cons hkey (.cons hvalue hrest) =>
    hkey.bind fun _ => hvalue.bind fun _ => (entriesOf n hrest).andThen fun _ => silent _

theorem evalList (n : Node) (kind : ListKind) (h : Together q operands k) :
    AtMost q k (Node.evalList n kind operands) := by
  cases kind with
  | map => exact (entriesOf n h).andThen fun _ => silent _
  | plain =>
    unfold Node.evalList
    cases n.head? with
    | none => exact (valuesOf h).andThen fun _ => silent _
    | some name =>
      cases h with
      | nil => exact fault
      | cons _ hrest =>
        refine mono ?_ (Nat.le_add_left _ _)
        dsimp only
        unfold Node.call
        split
        · exact fail
        · split
          · exact apply n _ hrest
          · exact fail

/-! ## Trees -/

/-- The node itself gets its value at the end. -/
theorem found (path : NodePath) (v : Value) :
    AtMost q (if path = q then 1 else 0) (Eval.emit (.found path v)) := by
  by_cases h : path = q
  · rw [if_pos h]
    exact fun _ _ => List.length_filterMap_le _ _
  · rw [if_neg h]
    exact emit (if_neg h)

/-- A path goes through one child of a list at most. -/
theorem child_unique {path : NodePath} {i j : Nat} (hi : (i :: path) <:+ q)
    (hj : (j :: path) <:+ q) : i = j := by
  have h : i :: path <:+ j :: path := List.suffix_of_suffix_length_le hi hj (Nat.le_refl _)
  exact (List.cons.inj (h.eq_of_length rfl)).1

mutual

/-- **An evaluation comes to a node once at most**, and only on the way that leads to it. -/
theorem eval (q : NodePath) (n : Node) (path : NodePath) :
    ∃ k ≤ 1, (k ≠ 0 → path <:+ q) ∧ AtMost q k (n.eval path) := by
  cases n with
  | atom a p =>
    refine ⟨if path = q then 1 else 0, by split <;> omega, fun h => ?_, ?_⟩
    · by_cases hq : path = q
      · exact hq ▸ List.suffix_rfl
      · exact absurd (if_neg hq) h
    · exact .after (emit rfl) fun _ => .after (StepSimulation.atomEval (S := quietSteps q) rfl a)
        fun v => (found path v).andThen fun _ => silent v
  | list kind children p =>
    obtain ⟨k, hk, hway, hoperands⟩ := operandsOf q children path 0
    have hvalue : AtMost q (k + if path = q then 1 else 0)
        (Node.eval (.list kind children p) path) :=
      .after (emit rfl) fun _ => (nested _ (evalList _ kind hoperands)).bind fun v =>
        (found path v).andThen fun _ => silent v
    by_cases hq : path = q
    · -- No child is on the way to the list itself.
      have hzero : k = 0 := by
        by_contra hne
        obtain ⟨j, -, hj⟩ := hway hne
        have hlength := hj.length_le
        rw [hq, List.length_cons] at hlength
        omega
      rw [if_pos hq, hzero] at hvalue
      exact ⟨1, Nat.le_refl 1, fun _ => hq ▸ List.suffix_rfl, hvalue⟩
    · rw [if_neg hq] at hvalue
      refine ⟨k, hk, fun hne => ?_, hvalue⟩
      obtain ⟨j, -, hj⟩ := hway hne
      exact (List.suffix_cons j path).trans hj

theorem operandsOf (q : NodePath) (ns : List Node) (path : NodePath) (index : Nat) :
    ∃ k ≤ 1, (k ≠ 0 → ∃ j, index ≤ j ∧ (j :: path) <:+ q) ∧
      Together q (Node.operandsOf ns path index) k := by
  cases ns with
  | nil => exact ⟨0, Nat.zero_le 1, fun h => absurd rfl h, .nil⟩
  | cons n ns =>
    obtain ⟨k, hk, hfirst, hvalue⟩ := eval q n (index :: path)
    obtain ⟨k', hk', hrest, hoperands⟩ := operandsOf q ns path (index + 1)
    refine ⟨k + k', ?_, fun hne => ?_, .cons hvalue hoperands⟩
    · by_contra hmany
      obtain ⟨j, hindex, hj⟩ := hrest (by omega)
      have heq : index = j := child_unique (hfirst (by omega)) hj
      omega
    · by_cases hzero : k = 0
      · obtain ⟨j, hindex, hj⟩ := hrest (by omega)
        exact ⟨j, by omega, hj⟩
      · exact ⟨index, Nat.le_refl _, hfirst hzero⟩

end

theorem evalStrategy (q : NodePath) (n : Node) : AtMost q 1 n.evalStrategy := by
  obtain ⟨k, hk, -, hvalue⟩ := eval q n []
  refine mono (hvalue.andThen fun v => ?_) hk
  cases v with
  | allocation a => exact silent a
  | _ => exact fail

end AtMost

/-- **A node has one value** in an evaluation, if it has any. -/
theorem evalStrategy_found_unique {n : Node} {s : Setting} {st : EvalState} {q : NodePath}
    {v w : Value} (hv : .found q v ∈ (n.evalStrategy s st).events)
    (hw : .found q w ∈ (n.evalStrategy s st).events) : v = w := by
  have hlength := AtMost.evalStrategy q n s st
  have hv := Event.mem_valuesAt hv
  have hw := Event.mem_valuesAt hw
  generalize Event.valuesAt q (n.evalStrategy s st).events = values at hlength hv hw
  cases values with
  | nil => cases hv
  | cons a rest =>
    have hrest : rest = [] :=
      List.length_eq_zero_iff.1 (Nat.le_zero.1 (Nat.le_of_succ_le_succ hlength))
    rw [hrest, List.mem_singleton] at hv hw
    rw [hv, hw]

end AllocScript
