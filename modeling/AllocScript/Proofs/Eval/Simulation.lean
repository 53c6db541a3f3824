import Mathlib
import AllocScript.Eval
import AllocScript.Proofs.Eval.Ensures
import AllocScript.Proofs.Node.Paths

/-!
# Simulations between evaluations

A `Simulation` relates nodes, and computations to computations: it holds of the steps that
operators are made of, at related nodes, and goes through a sequence. Then it holds of what every
operator does with related operands (`Simulation.apply`) and of what a list does with them
(`Simulation.evalList`). A `StepSimulation` need not hold of the writing of texts, so it says
nothing of `defsymphony`, the only operator that writes any (`StepSimulation.apply`). A
`TreeSimulation` relates trees node by node and holds of the steps that lead from node to node as
well, so it holds of the evaluations of related trees (`TreeSimulation.eval`,
`TreeSimulation.evalStrategy`).

The operators are not looked at again: a property of all evaluations is a simulation, and what is
left to prove of it are its fields. A property of one computation is a simulation of it by itself.
-/

namespace AllocScript

namespace EvalProblem

/-- A problem that is neither a refusal of the feed nor the depth of the lists. -/
def isOwn : EvalProblem → Bool
  | unavailable .. | nestedTooDeep => false
  | _ => true

theorem cause?_of_isOwn {problem : EvalProblem} (h : problem.isOwn = true) :
    problem.cause? = none := by
  cases problem <;> first | rfl | cases h

theorem ne_nestedTooDeep_of_isOwn {problem : EvalProblem} (h : problem.isOwn = true) :
    problem ≠ .nestedTooDeep := by
  rintro rfl
  cases h

end EvalProblem

/-- A relation between computations that the steps of operators keep, all but the writing of texts,
which is for `defsymphony` alone. Only `fetch` may fail because of the feed, and nothing but
`nested` because of the depth. -/
structure StepSimulation where
  /-- Nodes at which computations fail alike. -/
  node : Node → Node → Prop
  rel : {α : Type} → Eval α → Eval α → Prop
  pure : ∀ {α : Type} (a : α), rel (Pure.pure a) (Pure.pure a)
  bind : ∀ {α β : Type} {x y : Eval α} {f g : α → Eval β}, rel x y → (∀ a, rel (f a) (g a)) →
    rel (x >>= f) (y >>= g)
  fail : ∀ {α : Type} {n n'} {problem : EvalProblem}, problem.isOwn = true → node n n' →
    rel (Eval.fail (α := α) n problem) (Eval.fail n' problem)
  fault : ∀ {α : Type} (f : Fault), rel (Eval.fault (α := α) f) (Eval.fault f)
  record : ∀ step, rel (Eval.record step) (Eval.record step)
  /-- A step of the trace may quote the condition that decided for a branch. -/
  quote : ∀ {n n'} (branch : String), node n n' →
    rel (Eval.record ("if " ++ n.excerpt ++ branch)) (Eval.record ("if " ++ n'.excerpt ++ branch))
  fetch : ∀ {n n'} (request : Request), node n n' →
    rel (Eval.fetch n request) (Eval.fetch n' request)

/-- A relation between computations that all steps of operators keep. -/
structure Simulation extends StepSimulation where
  setMetadata : ∀ key text, rel (Eval.setMetadata key text) (Eval.setMetadata key text)

/-- A simulation between trees that have the same shape. -/
structure TreeSimulation extends Simulation where
  /-- Nodes that are related to a leaf are the same leaf. -/
  atom : ∀ {a p n}, node (.atom a p) n → ∃ p', n = .atom a p'
  /-- Nodes that are related to a list are lists of related nodes. -/
  list : ∀ {kind children p n}, node (.list kind children p) n →
    ∃ children' p', n = .list kind children' p' ∧ List.Forall₂ node children children'
  begun : ∀ path, rel (Eval.emit (.begun path)) (Eval.emit (.begun path))
  found : ∀ path v, rel (Eval.emit (.found path v)) (Eval.emit (.found path v))
  nested : ∀ {n n'} {x y : Eval Value}, node n n' → rel x y →
    rel (Eval.nested n x) (Eval.nested n' y)

namespace StepSimulation

variable (S : StepSimulation)

/-- Operands with related nodes and values. -/
structure Operands (o o' : Operand) : Prop where
  node : S.node o.node o'.node
  value : S.rel o.value o'.value

variable {S} {n n' : Node}

/-! ## Values of the expected kind -/

theorem expectNumber (h : S.node n n') (v : Value) :
    S.rel (Eval.expectNumber n v) (Eval.expectNumber n' v) := by
  cases v <;> first | exact S.pure _ | exact S.fail rfl h

theorem expectBoolean (h : S.node n n') (v : Value) :
    S.rel (Eval.expectBoolean n v) (Eval.expectBoolean n' v) := by
  cases v <;> first | exact S.pure _ | exact S.fail rfl h

theorem expectString (h : S.node n n') (v : Value) :
    S.rel (Eval.expectString n v) (Eval.expectString n' v) := by
  cases v <;> first | exact S.pure _ | exact S.fail rfl h

theorem expectScalar (h : S.node n n') (v : Value) :
    S.rel (Eval.expectScalar n v) (Eval.expectScalar n' v) := by
  cases v <;> first | exact S.pure _ | exact S.fail rfl h

theorem expectMetric (h : S.node n n') (v : Value) :
    S.rel (Eval.expectMetric n v) (Eval.expectMetric n' v) := by
  cases v <;> first | exact S.pure _ | exact S.fail rfl h

theorem expectSelector (h : S.node n n') (v : Value) :
    S.rel (Eval.expectSelector n v) (Eval.expectSelector n' v) := by
  cases v <;> first | exact S.pure _ | exact S.fail rfl h

theorem expectChild (h : S.node n n') (v : Value) :
    S.rel (Eval.expectChild n v) (Eval.expectChild n' v) := by
  cases v <;> first | exact S.pure _ | exact S.fail rfl h

theorem expectPositive (h : S.node n n') (what : String) (d : Decimal) :
    S.rel (Eval.expectPositive n what d) (Eval.expectPositive n' what d) := by
  unfold Eval.expectPositive
  cases d.toCount? with
  | some k => exact S.pure k
  | none => exact S.fail rfl h

theorem expectCount (h : S.node n n') (v : Value) :
    S.rel (Eval.expectCount n v) (Eval.expectCount n' v) :=
  S.bind (expectNumber h v) fun d => expectPositive h "count" d

theorem expectWeight (h : S.node n n') (v : Value) :
    S.rel (Eval.expectWeight n v) (Eval.expectWeight n' v) := by
  refine S.bind (expectNumber h v) fun w => ?_
  cases w.isNegative with
  | true => exact S.fail rfl h
  | false => exact S.pure w

theorem expectItems (h : S.node n n') (items : List Value) :
    S.rel (Eval.expectItems n items) (Eval.expectItems n' items) := by
  induction items with
  | nil => exact S.pure []
  | cons v vs ih =>
    cases v with
    | allocation a => exact S.bind ih fun as => S.pure (a :: as)
    | _ => exact S.fail rfl h

theorem expectAllocations (h : S.node n n') (v : Value) :
    S.rel (Eval.expectAllocations n v) (Eval.expectAllocations n' v) := by
  cases v with
  | allocation a => exact S.pure [a]
  | list items => exact expectItems h items
  | _ => exact S.fail rfl h

theorem expectWindow (h : S.node n n') (window : Option Value) (entries : List (Value × Value)) :
    S.rel (Eval.expectWindow n window entries) (Eval.expectWindow n' window entries) := by
  induction entries generalizing window with
  | nil => exact S.pure window
  | cons e rest ih =>
    obtain ⟨k, v⟩ := e
    by_cases hk : k = .keyword "window"
    · rw [hk]
      exact ih (some v)
    · rw [Eval.expectWindow, Eval.expectWindow]
      · exact S.fail rfl h
      · exact hk
      · exact hk

theorem expectPeriod (h : S.node n n') (v : Value) :
    S.rel (Eval.expectPeriod n v) (Eval.expectPeriod n' v) := by
  cases v with
  | number d => exact expectPositive h "period" d
  | map entries =>
    refine S.bind (expectWindow h none entries) fun window => ?_
    cases window with
    | none => exact S.fail rfl h
    | some v =>
      cases v with
      | number d => exact expectPositive h "period" d
      | _ => exact S.fail rfl h
  | _ => exact S.fail rfl h

/-! ## Operands -/

variable {o o' : Operand}

theorem number (h : S.Operands o o') : S.rel o.number o'.number :=
  S.bind h.value (expectNumber h.node)

theorem boolean (h : S.Operands o o') : S.rel o.boolean o'.boolean :=
  S.bind h.value (expectBoolean h.node)

theorem string (h : S.Operands o o') : S.rel o.string o'.string :=
  S.bind h.value (expectString h.node)

theorem allocations (h : S.Operands o o') : S.rel o.allocations o'.allocations :=
  S.bind h.value (expectAllocations h.node)

theorem period (h : S.Operands o o') : S.rel o.period o'.period :=
  S.bind h.value (expectPeriod h.node)

theorem count (h : S.Operands o o') : S.rel o.count o'.count :=
  S.bind h.value (expectCount h.node)

theorem weight (h : S.Operands o o') : S.rel o.weight o'.weight :=
  S.bind h.value (expectWeight h.node)

theorem child (h : S.Operands o o') : S.rel o.child o'.child :=
  S.bind h.value (expectChild h.node)

/-! ## Operators -/

variable {operands operands' : List Operand} {call call' : Node}

theorem group (h : List.Forall₂ S.Operands operands operands') :
    S.rel (Operator.group operands) (Operator.group operands') := by
  cases h with
  | nil => exact S.fault _
  | cons htitle hrest =>
    cases hrest with
    | nil => exact S.fault _
    | cons hbody hrest =>
      cases hrest with
      | nil =>
        exact S.bind (string htitle) fun name => S.bind (S.record _) fun _ => hbody.value
      | cons => exact S.fault _

theorem conditional (h : List.Forall₂ S.Operands operands operands') :
    S.rel (Operator.conditional operands) (Operator.conditional operands') := by
  cases h with
  | nil => exact S.fault _
  | cons hcondition hrest =>
    cases hrest with
    | nil => exact S.fault _
    | cons hthen hrest =>
      refine S.bind (boolean hcondition) fun holds => ?_
      have hquote := fun branch => S.quote branch hcondition.node
      cases holds with
      | true => exact S.bind (hquote " -> then") fun _ => hthen.value
      | false =>
        cases hrest with
        | nil => exact S.bind (hquote " -> else (empty)") fun _ => S.pure _
        | cons helse hrest => exact S.bind (hquote " -> else") fun _ => helse.value

theorem logical (decisive : Bool) (h : List.Forall₂ S.Operands operands operands') :
    S.rel (Operator.logical decisive operands) (Operator.logical decisive operands') := by
  induction h with
  | nil => exact S.pure _
  | cons ho _ ih =>
    refine S.bind (boolean ho) fun b => ?_
    by_cases hb : b = decisive
    · rw [if_pos hb, if_pos hb]
      exact S.pure _
    · rw [if_neg hb, if_neg hb]
      exact ih

theorem negation (h : List.Forall₂ S.Operands operands operands') :
    S.rel (Operator.negation operands) (Operator.negation operands') := by
  cases h with
  | nil => exact S.fault _
  | cons ho hrest =>
    cases hrest with
    | nil => exact S.bind (boolean ho) fun b => S.pure _
    | cons => exact S.fault _

theorem comparison (op : Comparison) (h : List.Forall₂ S.Operands operands operands') :
    S.rel (Operator.comparison op operands) (Operator.comparison op operands') := by
  cases h with
  | nil => exact S.fault _
  | cons hleft hrest =>
    cases hrest with
    | nil => exact S.fault _
    | cons hright hrest =>
      cases hrest with
      | nil =>
        exact S.bind (number hleft) fun a => S.bind (number hright) fun b => S.pure _
      | cons => exact S.fault _

/-! The numbers of an arithmetic operator come with the nodes of its operands, which may differ in
what is related. So the numbers are separated from the nodes first. -/

/-- The numbers of operands without their nodes. -/
def decimals : List Operand → Eval (List Decimal)
  | [] => Pure.pure []
  | o :: rest => do
    let d ← o.number
    let ds ← decimals rest
    Pure.pure (d :: ds)

theorem numbers_eq (operands : List Operand) :
    Operator.numbers operands =
      decimals operands >>= fun ds => Pure.pure ((operands.map Operand.node).zip ds) := by
  induction operands with
  | nil => rfl
  | cons o rest ih =>
    simp only [Operator.numbers, decimals, ih, bind_assoc, pure_bind, List.map_cons,
      List.zip_cons_cons]

theorem decimals_rel (h : List.Forall₂ S.Operands operands operands') :
    S.rel (decimals operands) (decimals operands') := by
  induction h with
  | nil => exact S.pure []
  | cons ho _ ih => exact S.bind (number ho) fun d => S.bind ih fun ds => S.pure (d :: ds)

theorem accumulate (hcall : S.node call call') (op : Operation) (acc : Decimal)
    {nodes nodes' : List Node} (h : List.Forall₂ S.node nodes nodes') (ds : List Decimal) :
    S.rel (Operator.accumulate call op acc (nodes.zip ds))
      (Operator.accumulate call' op acc (nodes'.zip ds)) := by
  induction h generalizing acc ds with
  | nil => exact S.pure acc
  | cons hn _ ih =>
    cases ds with
    | nil => exact S.pure acc
    | cons d ds =>
      simp only [List.zip_cons_cons, Operator.accumulate]
      by_cases hzero : op = .divide ∧ d.isZero = true
      · rw [if_pos hzero, if_pos hzero]
        exact S.fail rfl hn
      · rw [if_neg hzero, if_neg hzero]
        cases op.apply? acc d with
        | some acc => exact ih acc ds
        | none => exact S.fail rfl hcall

theorem arithmetic (hcall : S.node call call') (op : Operation)
    (h : List.Forall₂ S.Operands operands operands') :
    S.rel (Operator.arithmetic call op operands) (Operator.arithmetic call' op operands') := by
  have hnodes : List.Forall₂ S.node (operands.map Operand.node) (operands'.map Operand.node) := by
    rw [List.forall₂_map_left_iff, List.forall₂_map_right_iff]
    exact h.imp fun _ _ ho => ho.node
  unfold Operator.arithmetic
  rw [numbers_eq, numbers_eq, bind_assoc, bind_assoc]
  refine S.bind (decimals_rel h) fun ds => ?_
  simp only [pure_bind]
  generalize operands.map Operand.node = nodes at hnodes ⊢
  generalize operands'.map Operand.node = nodes' at hnodes ⊢
  cases hnodes with
  | nil => exact S.fail rfl hcall
  | cons hn hrest =>
    cases ds with
    | nil => exact S.fail rfl hcall
    | cons d ds =>
      cases hrest with
      | nil => exact S.pure _
      | cons hn' hrest =>
        cases ds with
        | nil => exact S.pure _
        | cons d' ds =>
          exact S.bind (accumulate hcall op d (.cons hn' hrest) (d' :: ds)) fun r => S.pure _

theorem asset (h : List.Forall₂ S.Operands operands operands') :
    S.rel (Operator.asset operands) (Operator.asset operands') := by
  cases h with
  | nil => exact S.fault _
  | cons hsymbol hrest =>
    refine S.bind (string hsymbol) fun ticker => ?_
    cases isBlankText ticker with
    | true => exact S.fail rfl hsymbol.node
    | false =>
      cases hrest with
      | nil => exact S.pure _
      | cons htitle hrest => exact S.bind (string htitle) fun _ => S.pure _

theorem ofWeights {α : Type} (r : Except Overflow α) :
    S.rel (Eval.ofWeights r) (Eval.ofWeights r) := by
  cases r with
  | ok a => exact S.pure a
  | error kind => exact S.fault _

theorem weightEqual (h : List.Forall₂ S.Operands operands operands') :
    S.rel (Operator.weightEqual operands) (Operator.weightEqual operands') := by
  cases h with
  | nil => exact S.fault _
  | cons hchildren hrest =>
    cases hrest with
    | nil =>
      exact S.bind (allocations hchildren) fun as => S.bind (ofWeights _) fun a => S.pure _
    | cons => exact S.fault _

theorem weightsOfMap (h : S.node n n') (entries : List (Value × Value)) :
    S.rel (Operator.weightsOfMap n entries) (Operator.weightsOfMap n' entries) := by
  induction entries with
  | nil => exact S.pure []
  | cons e rest ih =>
    exact S.bind (expectWeight h e.2) fun w => S.bind (expectChild h e.1) fun a =>
      S.bind ih fun others => S.pure _

theorem weightsOfPairs {operands operands' : List Operand} :
    List.Forall₂ S.Operands operands operands' →
      S.rel (Operator.weightsOfPairs operands) (Operator.weightsOfPairs operands')
  | .nil => S.pure []
  | .cons hweight .nil => S.bind (weight hweight) fun _ => S.fault _
  | .cons hweight (.cons hchild hrest) =>
    S.bind (weight hweight) fun w => S.bind (child hchild) fun a =>
      S.bind (weightsOfPairs hrest) fun others => S.pure ((w, a) :: others)

theorem shareOut (hcall : S.node call call') (weighted : List (Decimal × Allocation)) :
    S.rel (Operator.shareOut call weighted) (Operator.shareOut call' weighted) := by
  unfold Operator.shareOut
  cases Allocation.specifiedWeight weighted with
  | ok a => exact S.pure _
  | error e =>
    cases e with
    | totalOverflow => exact S.fail rfl hcall
    | zeroTotal => exact S.fail rfl hcall
    | overflow kind => exact S.fault _

theorem weightSpecified (hcall : S.node call call')
    (h : List.Forall₂ S.Operands operands operands') :
    S.rel (Operator.weightSpecified call operands) (Operator.weightSpecified call' operands') := by
  have hpairs : S.rel
      (if operands.length % 2 = 0 then
        Operator.weightsOfPairs operands >>= Operator.shareOut call
      else Eval.fail call (.weightArguments operands.length))
      (if operands'.length % 2 = 0 then
        Operator.weightsOfPairs operands' >>= Operator.shareOut call'
      else Eval.fail call' (.weightArguments operands'.length)) := by
    rw [h.length_eq]
    by_cases heven : operands'.length % 2 = 0
    · rw [if_pos heven, if_pos heven]
      exact S.bind (weightsOfPairs h) (shareOut hcall)
    · rw [if_neg heven, if_neg heven]
      exact S.fail rfl hcall
  cases h with
  | nil => exact hpairs
  | cons hweights hrest =>
    cases hrest with
    | cons => exact hpairs
    | nil =>
      refine S.bind hweights.value fun v => ?_
      cases v with
      | map entries => exact S.bind (weightsOfMap hweights.node entries) (shareOut hcall)
      | _ => exact S.fail rfl hweights.node

theorem select (selector : Nat → Selector) (h : List.Forall₂ S.Operands operands operands') :
    S.rel (Operator.select selector operands) (Operator.select selector operands') := by
  cases h with
  | nil => exact S.fault _
  | cons ho hrest =>
    cases hrest with
    | nil => exact S.bind (count ho) fun k => S.pure _
    | cons => exact S.fault _

theorem candidates (hcall : S.node call call') (h : S.node n n') (metric : Metric)
    (seen : List String) (as : List Allocation) :
    S.rel (Operator.candidates call n metric seen as)
      (Operator.candidates call' n' metric seen as) := by
  induction as generalizing seen with
  | nil => exact S.pure []
  | cons a rest ih =>
    unfold Operator.candidates
    cases a.symbols with
    | nil => exact ih seen
    | cons symbol more =>
      cases more with
      | cons => exact S.fail rfl h
      | nil =>
        dsimp only
        cases seen.contains symbol with
        | true => exact ih seen
        | false =>
          exact S.bind (S.fetch _ hcall) fun value => S.bind (ih _) fun others => S.pure _

theorem filter (hcall : S.node call call') (h : List.Forall₂ S.Operands operands operands') :
    S.rel (Operator.filter call operands) (Operator.filter call' operands') := by
  cases h with
  | nil => exact S.fault _
  | cons hmetric hrest =>
    cases hrest with
    | nil => exact S.fault _
    | cons hselector hrest =>
      cases hrest with
      | nil => exact S.fault _
      | cons hchildren hrest =>
        cases hrest with
        | cons => exact S.fault _
        | nil =>
          refine S.bind hmetric.value fun v => S.bind (expectMetric hmetric.node v) fun m => ?_
          refine S.bind hselector.value fun v => ?_
          refine S.bind (expectSelector hselector.node v) fun s => ?_
          refine S.bind (allocations hchildren) fun as => ?_
          refine S.bind (candidates hcall hchildren.node m [] as) fun cs => ?_
          exact S.bind (S.record _) fun _ => S.bind (ofWeights _) fun a => S.pure _

theorem indicator (hcall : S.node call call') (i : Indicator)
    (h : List.Forall₂ S.Operands operands operands') :
    S.rel (Operator.indicator call i operands) (Operator.indicator call' i operands') := by
  unfold Operator.indicator
  have hlength := h.length_eq
  by_cases hperiod : i.takesPeriod = true
  · rw [if_pos hperiod, if_pos hperiod]
    cases h with
    | nil => exact S.fail rfl hcall
    | cons hfirst hrest =>
      cases hrest with
      | nil => exact S.bind (period hfirst) fun k => S.pure _
      | cons hsecond hrest =>
        cases hrest with
        | nil =>
          exact S.bind (string hfirst) fun s => S.bind (period hsecond) fun k =>
            S.bind (S.fetch _ hcall) fun d => S.pure _
        | cons =>
          dsimp only
          rw [hlength]
          exact S.fail rfl hcall
  · rw [if_neg hperiod, if_neg hperiod]
    cases h with
    | nil => exact S.pure _
    | cons hsymbol hrest =>
      exact S.bind (string hsymbol) fun s => S.bind (S.fetch _ hcall) fun d => S.pure _

/-- **Operators keep simulations of steps**, all but `defsymphony`: they do the same with related
operands. -/
theorem apply (hcall : S.node call call') {form : Form} (hform : form ≠ .defsymphony)
    (h : List.Forall₂ S.Operands operands operands') :
    S.rel (form.apply call operands) (form.apply call' operands') := by
  cases form with
  | defsymphony => exact absurd rfl hform
  | group => exact group h
  | conditional => exact conditional h
  | conjunction => exact logical false h
  | disjunction => exact logical true h
  | negation => exact negation h
  | comparison op => exact comparison op h
  | arithmetic op => exact arithmetic hcall op h
  | asset => exact asset h
  | weightEqual => exact weightEqual h
  | weightSpecified => exact weightSpecified hcall h
  | filter => exact filter hcall h
  | selectTop => exact select .top h
  | selectBottom => exact select .bottom h
  | indicator i => exact indicator hcall i h

/-! ## Nodes -/

theorem atomEval (h : S.node n n') (a : Atom) : S.rel (a.eval n) (a.eval n') := by
  cases a with
  | number d => exact S.pure _
  | string s => exact S.pure _
  | symbol name =>
    simp only [Atom.eval]
    split
    · exact S.pure _
    · by_cases htrue : name = "true"
      · rw [if_pos htrue, if_pos htrue]
        exact S.pure _
      · rw [if_neg htrue, if_neg htrue]
        by_cases hfalse : name = "false"
        · rw [if_pos hfalse, if_pos hfalse]
          exact S.pure _
        · rw [if_neg hfalse, if_neg hfalse]
          by_cases hform : (Form.lookup? name).isSome = true
          · rw [if_pos hform, if_pos hform]
            exact S.fail rfl h
          · rw [if_neg hform, if_neg hform]
            exact S.fail rfl h

theorem valuesOf (h : List.Forall₂ S.Operands operands operands') :
    S.rel (Node.valuesOf operands) (Node.valuesOf operands') := by
  induction h with
  | nil => exact S.pure []
  | cons ho _ ih => exact S.bind ho.value fun v => S.bind ih fun vs => S.pure _

theorem entriesOf (hn : S.node n n') {operands operands' : List Operand} :
    List.Forall₂ S.Operands operands operands' →
      S.rel (Node.entriesOf n operands) (Node.entriesOf n' operands')
  | .nil => S.pure []
  | .cons hkey .nil => S.bind hkey.value fun _ => S.fail rfl hn
  | .cons hkey (.cons hvalue hrest) =>
    S.bind hkey.value fun k => S.bind hvalue.value fun v =>
      S.bind (entriesOf hn hrest) fun others => S.pure ((k, v) :: others)

/-- Calls are related if the operator does the same with related operands. -/
theorem evalCall (hn : S.node n n') (name : String)
    (h : List.Forall₂ S.Operands operands operands')
    (happly : ∀ entry, Form.lookup? name = some entry →
      S.rel (entry.form.apply n operands) (entry.form.apply n' operands')) :
    S.rel (Node.call n name operands) (Node.call n' name operands') := by
  unfold Node.call
  cases hentry : Form.lookup? name with
  | none => exact S.fail rfl hn
  | some entry =>
    dsimp only
    rw [h.length_eq]
    cases entry.arity.accepts operands'.length with
    | true => exact happly entry hentry
    | false => exact S.fail rfl hn

/-- So are lists. -/
theorem evalList (hn : S.node n n') (hhead : n.head? = n'.head?) (kind : ListKind)
    (h : List.Forall₂ S.Operands operands operands')
    (happly : ∀ name entry, n.head? = some name → Form.lookup? name = some entry →
      List.Forall₂ S.Operands operands.tail operands'.tail →
        S.rel (entry.form.apply n operands.tail) (entry.form.apply n' operands'.tail)) :
    S.rel (Node.evalList n kind operands) (Node.evalList n' kind operands') := by
  cases kind with
  | map => exact S.bind (entriesOf hn h) fun es => S.pure _
  | plain =>
    unfold Node.evalList
    dsimp only
    rw [← hhead]
    cases hname : n.head? with
    | none => exact S.bind (valuesOf h) fun vs => S.pure _
    | some name =>
      cases h with
      | nil => exact S.fault _
      | cons _ hrest =>
        exact evalCall hn name hrest fun entry hentry => happly name entry hname hentry hrest

end StepSimulation

namespace Simulation

open StepSimulation (expectScalar string)

variable {S : Simulation} {n n' : Node} {operands operands' : List Operand} {call call' : Node}

theorem writeParameters (h : S.node n n') (entries : List (Value × Value)) :
    S.rel (Operator.writeParameters n entries) (Operator.writeParameters n' entries) := by
  induction entries with
  | nil => exact S.pure ()
  | cons e rest ih =>
    obtain ⟨k, v⟩ := e
    cases k with
    | keyword key =>
      exact S.bind (expectScalar h v) fun text => S.bind (S.setMetadata key text) fun _ => ih
    | _ => exact S.fail rfl h

theorem defsymphony (h : List.Forall₂ S.Operands operands operands') :
    S.rel (Operator.defsymphony operands) (Operator.defsymphony operands') := by
  cases h with
  | nil => exact S.fault _
  | cons htitle hrest =>
    refine S.bind (string htitle) fun name => S.bind (S.setMetadata "name" name) fun _ =>
      S.bind (S.record _) fun _ => ?_
    cases hrest with
    | nil => exact S.fail rfl htitle.node
    | cons hfirst hrest =>
      cases hrest with
      | nil => exact hfirst.value
      | cons hbody hrest =>
        cases hrest with
        | cons => exact S.fail rfl htitle.node
        | nil =>
          refine S.bind hfirst.value fun v => ?_
          cases v with
          | map entries => exact S.bind (writeParameters hfirst.node entries) fun _ => hbody.value
          | _ => exact S.bind (S.fail (α := Unit) rfl hfirst.node) fun _ => hbody.value

/-- **Operators keep simulations**: they do the same with related operands. -/
theorem apply (hcall : S.node call call') (form : Form)
    (h : List.Forall₂ S.Operands operands operands') :
    S.rel (form.apply call operands) (form.apply call' operands') := by
  by_cases hform : form = .defsymphony
  · rw [hform]
    exact defsymphony h
  · exact StepSimulation.apply hcall hform h

theorem evalList (hn : S.node n n') (hhead : n.head? = n'.head?) (kind : ListKind)
    (h : List.Forall₂ S.Operands operands operands') :
    S.rel (Node.evalList n kind operands) (Node.evalList n' kind operands') :=
  StepSimulation.evalList hn hhead kind h fun _ entry _ _ htail => apply hn entry.form htail

/-- With another child in the place of one, the other operands stay. -/
theorem operandsOf_set {ns : List Node} {i : Nat} {m m' : Node} {path : NodePath}
    (hchild : ns[i]? = some m)
    (hm : S.Operands ⟨m, m.eval (i :: path)⟩ ⟨m', m'.eval (i :: path)⟩)
    (hbeside : ∀ j c, j ≠ i → ns[j]? = some c →
      S.Operands ⟨c, c.eval (j :: path)⟩ ⟨c, c.eval (j :: path)⟩) :
    List.Forall₂ S.Operands (Node.operandsOf ns path 0) (Node.operandsOf (ns.set i m') path 0) := by
  have hlength : (ns.set i m').length = ns.length := List.length_set
  refine List.forall₂_iff_get.2 ⟨by simp only [length_operandsOf, hlength], fun j hj hj' => ?_⟩
  rw [length_operandsOf] at hj hj'
  rw [get_operandsOf ns path 0 hj, get_operandsOf _ path 0 hj', Nat.zero_add]
  by_cases h : j = i
  · subst h
    obtain ⟨_, rfl⟩ := List.getElem?_eq_some_iff.1 hchild
    rwa [List.getElem_set_self]
  · rw [List.getElem_set_ne (Ne.symm h)]
    exact hbeside j _ h (List.getElem?_eq_getElem hj)

end Simulation

namespace TreeSimulation

/-! A simulation of a computation by itself relates every node to itself alone. -/

theorem atom_of_eq {a : Atom} {p : Nat} {n : Node} (h : .atom a p = n) : ∃ p', n = .atom a p' :=
  ⟨p, h.symm⟩

theorem list_of_eq {kind : ListKind} {children : List Node} {p : Nat} {n : Node}
    (h : .list kind children p = n) :
    ∃ children' p', n = .list kind children' p' ∧ List.Forall₂ Eq children children' :=
  ⟨children, p, h.symm, List.forall₂_refl children⟩

variable {S : TreeSimulation} {n n' : Node}

open StepSimulation (atomEval)
open Simulation (evalList)

/-- Related lists call the same operator. -/
theorem head_eq (h : S.node n n') : n.head? = n'.head? := by
  cases n with
  | atom a p =>
    obtain ⟨p', rfl⟩ := S.atom h
    rfl
  | list kind children p =>
    obtain ⟨children', p', rfl, hchildren⟩ := S.list h
    cases kind with
    | map => rfl
    | plain =>
      cases hchildren with
      | nil => rfl
      | @cons first first' _ _ hfirst _ =>
        have hsymbol : first.symbol? = first'.symbol? := by
          cases first with
          | atom a p =>
            obtain ⟨p', rfl⟩ := S.atom hfirst
            cases a <;> rfl
          | list kind children p =>
            obtain ⟨_, _, rfl, -⟩ := S.list hfirst
            rfl
        have hkeyword : first.isKeyword = first'.isKeyword := by
          unfold Node.isKeyword
          rw [hsymbol]
        show (if first.isKeyword then none else first.symbol?) = _
        rw [hkeyword, hsymbol]
        rfl

mutual

/-- **Related trees have related evaluations.** -/
theorem eval {n n' : Node} (h : S.node n n') (path : NodePath) :
    S.rel (n.eval path) (n'.eval path) := by
  cases n with
  | atom a p =>
    obtain ⟨p', rfl⟩ := S.atom h
    exact S.bind (S.begun path) fun _ => S.bind (atomEval h a) fun v =>
      S.bind (S.found path v) fun _ => S.pure v
  | list kind children p =>
    obtain ⟨children', p', rfl, hchildren⟩ := S.list h
    have hoperands := operandsOf children children' hchildren path 0
    exact S.bind (S.begun path) fun _ =>
      S.bind (S.nested h (evalList h (head_eq h) kind hoperands)) fun v =>
        S.bind (S.found path v) fun _ => S.pure v

theorem operandsOf (ns ns' : List Node) (h : List.Forall₂ S.node ns ns') (path : NodePath)
    (index : Nat) :
    List.Forall₂ S.Operands (Node.operandsOf ns path index) (Node.operandsOf ns' path index) := by
  cases ns with
  | nil =>
    cases h
    exact .nil
  | cons n ns =>
    cases h with
    | cons hn hrest =>
      exact .cons ⟨hn, eval hn (index :: path)⟩ (operandsOf ns _ hrest path (index + 1))

end

theorem evalStrategy (h : S.node n n') : S.rel n.evalStrategy n'.evalStrategy := by
  refine S.bind (eval h []) fun v => ?_
  cases v with
  | allocation a => exact S.pure a
  | _ => exact S.fail rfl h

end TreeSimulation

end AllocScript
