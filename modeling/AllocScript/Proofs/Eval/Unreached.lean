import AllocScript.Proofs.Eval.Quotes
import AllocScript.Proofs.Eval.Visits

/-!
# Nodes that an evaluation does not reach

The branch that an `if` does not take, and the operands of an `and` or an `or` behind the one that
decides it, have no influence on an evaluation. Other trees may stand in their place.

* `Outcome.Alike`: two computations end alike in states that agree, and the same events come about
  in both. They may differ in texts that quote a node with other trees in it.
* `Unless old new q v x y`: the computations are alike in every run in which the node at `q` does
  not have the value `v`.
* `unlessSimulation`: what is made of such computations in the same way is related like that, too.
* `Unreached`: which arguments a call may have instead of its own.
-/

namespace AllocScript

/-! ## Outcomes alike -/

/-- The same event, or steps of the trace that are alike. -/
inductive Event.Alike (old new : Node) : Event → Event → Prop
  | refl (e : Event) : Event.Alike old new e e
  | decided {step step' : String} : StepAlike old new step step' →
      Event.Alike old new (.decided step) (.decided step')

/-- Outcomes that differ in texts only. -/
structure Outcome.Alike (old new : Node) {α : Type} (o o' : Outcome α) : Prop where
  result : EndsAlike old new o.result o'.result
  events : List.Forall₂ (Event.Alike old new) o.events o'.events
  state : o.state.Agree o'.state

theorem Outcome.Alike.of_agree {old new : Node} {α : Type} {o o' : Outcome α} (h : o.Agree o') :
    Outcome.Alike old new o o' where
  result := h.result ▸ .refl _
  events := h.events ▸ List.forall₂_same.2 fun e _ => .refl e
  state := h.state

namespace Event

variable {old new : Node} {events events' : List Event}

theorem filterMap_eq_of_alike {α : Type} {f : Event → Option α}
    (hf : ∀ step, f (.decided step) = none)
    (h : List.Forall₂ (Event.Alike old new) events events') :
    events.filterMap f = events'.filterMap f := by
  induction h with
  | nil => rfl
  | cons he _ ih =>
    cases he with
    | refl e => rw [List.filterMap_cons, List.filterMap_cons, ih]
    | decided => rwa [List.filterMap_cons_none (hf _), List.filterMap_cons_none (hf _)]

theorem steps_alike (h : List.Forall₂ (Event.Alike old new) events events') :
    List.Forall₂ (StepAlike old new) (steps events) (steps events') := by
  induction h with
  | nil => exact .nil
  | @cons e _ _ _ he _ ih =>
    cases he with
    | refl =>
      cases e with
      | decided step => exact .cons (.refl step) ih
      | _ => exact ih
    | decided hstep => exact .cons hstep ih

end Event

/-! ## Computations alike unless a node has a value -/

/-- From states that agree, the computations are alike when the node at `q` does not have the value
`v` in the first one. -/
def Unless (old new : Node) (q : NodePath) (v : Value) {α : Type} (x y : Eval α) : Prop :=
  ∀ s {st st'}, st.Agree st' → .found q v ∉ (x s st).events →
    Outcome.Alike old new (x s st) (y s st')

namespace Unless

open Eval

variable {α β : Type} {old new c c' : Node} {q : NodePath} {v : Value}

theorem refl {x : Eval α} (hx : Framed x) : Unless old new q v x x := fun s _ _ hst _ =>
  .of_agree (hx.agree s hst)

/-- In a sequence, what follows a value has to be alike if that value can come without `q` having
the value `v`. -/
theorem bind_of_result {x y : Eval α} {f g : α → Eval β} (hx : Unless old new q v x y)
    (hf : ∀ s st a, (x s st).result = .ok a → .found q v ∉ (x s st).events →
      Unless old new q v (f a) (g a)) : Unless old new q v (x >>= f) (y >>= g) := by
  intro s st st' hst hnot
  cases hr : (x s st).result with
  | error e =>
    rw [run_bind_of_error hr] at hnot ⊢
    obtain ⟨hresult, hevents, hstate⟩ := hx s hst hnot
    rw [hr] at hresult
    obtain ⟨e', hr', he⟩ := hresult.eq_error
    rw [run_bind_of_error hr']
    exact ⟨.error he, hevents, hstate⟩
  | ok a =>
    rw [run_bind_of_ok hr] at hnot ⊢
    have hfirst : .found q v ∉ (x s st).events := fun h => hnot (List.mem_append_left _ h)
    obtain ⟨hresult, hevents, hstate⟩ := hx s hst hfirst
    rw [hr] at hresult
    have hrest := hf s st a hr hfirst s hstate fun h => hnot (List.mem_append_right _ h)
    rw [run_bind_of_ok hresult.eq_ok]
    exact ⟨hrest.result, List.rel_append hevents hrest.events, hrest.state⟩

theorem bind {x y : Eval α} {f g : α → Eval β} (hx : Unless old new q v x y)
    (hf : ∀ a, Unless old new q v (f a) (g a)) : Unless old new q v (x >>= f) (y >>= g) :=
  hx.bind_of_result fun _ _ a _ _ => hf a

variable (hroot : old.position = new.position)

include hroot

theorem fail (h : c = c' ∨ Replaced old new c c') (problem : EvalProblem) :
    Unless old new q v (Eval.fail (α := α) c problem) (Eval.fail c' problem) :=
  fun _ _ _ hst _ => ⟨.atNode hroot h problem, .nil, hst⟩

theorem fetch (h : c = c' ∨ Replaced old new c c') (r : Request) :
    Unless old new q v (Eval.fetch c r) (Eval.fetch c' r) := by
  intro s st st' hst hnot
  cases hr : s.feed r with
  | ok value =>
    -- Without a problem, the node is not looked at.
    have hsame : Eval.fetch c r s st = Eval.fetch c' r s st := by
      simp only [Eval.fetch, Eval.ask, hr]
    rw [hsame]
    exact .of_agree ((Framed.fetch c' r).agree s hst)
  | error e =>
    unfold Eval.fetch
    rw [hst.answers]
    split
    · exact .of_agree ⟨rfl, rfl, hst⟩
    · unfold Eval.ask
      rw [hr]
      exact ⟨.atNode hroot h _, List.forall₂_same.2 fun e _ => .refl e, hst⟩

theorem nested (h : c = c' ∨ Replaced old new c c') {x y : Eval α} (hxy : Unless old new q v x y) :
    Unless old new q v (Eval.nested c x) (Eval.nested c' y) := by
  intro s st st' hst hnot
  unfold Eval.nested at hnot ⊢
  by_cases hdeep : s.depthLimit.any (· ≤ st'.depth) = true
  · rw [if_pos (hst.depth ▸ hdeep), if_pos hdeep]
    exact ⟨.atNode hroot h _, .nil, hst⟩
  · rw [if_neg (hst.depth ▸ hdeep)] at hnot ⊢
    rw [if_neg hdeep]
    obtain ⟨hresult, hevents, hstate⟩ := hxy s (hst.setDepth (· + 1)) hnot
    exact ⟨hresult, hevents, hstate.setDepth (· - 1)⟩

end Unless

/-- What is done in the same way with computations that are alike unless `q` has the value `v` is
alike unless it has. -/
def unlessSimulation {old new : Node} (hroot : old.position = new.position) (q : NodePath)
    (v : Value) : Simulation where
  node c c' := c = c' ∨ Replaced old new c c'
  rel := Unless old new q v
  pure a := .refl (.pure a)
  bind := Unless.bind
  fail _ h := .fail hroot h _
  fault f := .refl (.fault f)
  record _ := .refl (.emit _)
  quote branch h := fun _ _ _ hst _ =>
    ⟨.ok (), .cons (.decided (.quote h branch)) .nil,
      hst.write (.decided _) (.decided _)⟩
  setMetadata _ _ := .refl (.emit _)
  fetch r h := .fetch hroot h r

/-! ## Values told -/

/-- The value of the computation is told as that of the node at `q`. -/
def Tells (q : NodePath) (x : Eval Value) : Prop :=
  ∀ s st v, (x s st).result = .ok v → .found q v ∈ (x s st).events

namespace Tells

open Eval

variable {α : Type} {q : NodePath}

theorem found (v : Value) : Tells q (do Eval.emit (.found q v); pure v) := by
  intro s st w h
  cases h
  exact List.mem_cons_self

theorem after {x : Eval α} {f : α → Eval Value} (h : ∀ a, Tells q (f a)) : Tells q (x >>= f) := by
  intro s st v hv
  cases hr : (x s st).result with
  | error e =>
    rw [run_bind_of_error hr] at hv
    cases hv
  | ok a =>
    rw [run_bind_of_ok hr] at hv ⊢
    exact List.mem_append_right _ (h a s _ v hv)

/-- A node that has a value has told it. -/
theorem eval (n : Node) (q : NodePath) : Tells q (n.eval q) := by
  cases n with
  | atom a p => exact .after fun _ => .after fun v => .found v
  | list kind children p => exact .after fun _ => .after fun v => .found v

end Tells

namespace Unless

open Eval

variable {α : Type} {old new : Node} {q : NodePath} {v : Value}

/-! ## Decisions -/

/-- Behind a node, only what follows for other values has to be alike. -/
theorem eval_bind {n : Node} {f g : Value → Eval α}
    (h : ∀ w, w ≠ v → Unless old new q v (f w) (g w)) :
    Unless old new q v (n.eval q >>= f) (n.eval q >>= g) := by
  refine (refl (n.eval_framed q)).bind_of_result fun s st w hr hnot => h w ?_
  rintro rfl
  exact hnot (Tells.eval n q s st w hr)

/-- Behind a truth value, only what follows for the one that `q` may have has to be alike. -/
theorem boolean_bind (n : Node) (b : Bool) {f g : Bool → Eval α}
    (h : Unless old new q (.boolean !b) (f b) (g b)) :
    Unless old new q (.boolean !b) (Operand.boolean ⟨n, n.eval q⟩ >>= f)
      (Operand.boolean ⟨n, n.eval q⟩ >>= g) := by
  unfold Operand.boolean
  rw [bind_assoc, bind_assoc]
  refine eval_bind fun w hw => ?_
  cases w with
  | boolean b' =>
    have hb : b' = b := by
      cases b <;> cases b' <;> first | rfl | exact absurd rfl hw
    rw [hb]
    exact h
  | _ => exact .refl (.fail _ _)

/-- If the condition is not false, the second branch does not matter. -/
theorem conditional_true (n : Node) {t : Operand} (ht : Framed t.value)
    (rest rest' : List Operand) :
    Unless old new q (.boolean false) (Operator.conditional (⟨n, n.eval q⟩ :: t :: rest))
      (Operator.conditional (⟨n, n.eval q⟩ :: t :: rest')) :=
  boolean_bind n true (.refl ((Framed.emit _).bind fun _ => ht))

/-- If the condition is not true, the first branch does not matter. -/
theorem conditional_false (n : Node) (t t' : Operand) {rest : List Operand}
    (hrest : ∀ o ∈ rest, Framed o.value) :
    Unless old new q (.boolean true) (Operator.conditional (⟨n, n.eval q⟩ :: t :: rest))
      (Operator.conditional (⟨n, n.eval q⟩ :: t' :: rest)) := by
  refine boolean_bind n false (.refl ?_)
  cases rest with
  | nil => exact (Framed.emit _).bind fun _ => .pure _
  | cons e rest => exact (Framed.emit _).bind fun _ => hrest e List.mem_cons_self

/-- If an operand does not go against the decisive value, those behind it do not matter. -/
theorem logical (decisive : Bool) {before : List Operand} (hbefore : ∀ o ∈ before, Framed o.value)
    (n : Node) (rest rest' : List Operand) :
    Unless old new q (.boolean !decisive)
      (Operator.logical decisive (before ++ ⟨n, n.eval q⟩ :: rest))
      (Operator.logical decisive (before ++ ⟨n, n.eval q⟩ :: rest')) := by
  induction before with
  | nil =>
    refine boolean_bind n decisive ?_
    rw [if_pos rfl, if_pos rfl]
    exact .refl (.pure _)
  | cons b before ih =>
    obtain ⟨hb, hbefore⟩ := List.forall_mem_cons.1 hbefore
    have hboolean : Framed b.boolean := hb.bind fun _ =>
      StepSimulation.expectBoolean (S := frameSimulation.toStepSimulation) rfl _
    refine (refl hboolean).bind fun holds => ?_
    by_cases h : holds = decisive
    · rw [if_pos h, if_pos h]
      exact .refl (.pure _)
    · rw [if_neg h, if_neg h]
      exact ih hbefore

end Unless

/-! ## Calls with arguments that are not reached -/

/-- `args'` may stand for the arguments `args` of the operator `name` called at `path`: those that
differ are not reached, going by the values of nodes. -/
inductive Unreached (value : NodePath → Value → Prop) (path : NodePath) :
    String → List Node → List Node → Prop
  /-- The second branch, the condition being true. -/
  | alternative {c t : Node} {rest rest' : List Node} : value (1 :: path) (.boolean true) →
      rest.length = rest'.length → Unreached value path "if" (c :: t :: rest) (c :: t :: rest')
  /-- The first branch, the condition being false. -/
  | consequent {c t t' : Node} {rest : List Node} : value (1 :: path) (.boolean false) →
      Unreached value path "if" (c :: t :: rest) (c :: t' :: rest)
  /-- What is behind an operand of an `and` that is false. -/
  | conjunction {before : List Node} {o : Node} {rest rest' : List Node} :
      value ((before.length + 1) :: path) (.boolean false) → rest.length = rest'.length →
      Unreached value path "and" (before ++ o :: rest) (before ++ o :: rest')
  /-- What is behind an operand of an `or` that is true. -/
  | disjunction {before : List Node} {o : Node} {rest rest' : List Node} :
      value ((before.length + 1) :: path) (.boolean true) → rest.length = rest'.length →
      Unreached value path "or" (before ++ o :: rest) (before ++ o :: rest')

namespace Unreached

variable {value : NodePath → Value → Prop} {path : NodePath} {name : String}
  {args args' : List Node}

theorem head? (h : Unreached value path name args args') (p z : Nat) :
    (Node.list .plain (.atom (.symbol name) p :: args) z).head? = some name ∧
      (Node.list .plain (.atom (.symbol name) p :: args') z).head? = some name := by
  cases h <;> exact ⟨rfl, rfl⟩

theorem length_eq (h : Unreached value path name args args') : args.length = args'.length := by
  cases h with
  | alternative _ hlength => exact congrArg (· + 2) hlength
  | consequent => rfl
  | conjunction _ hlength | disjunction _ hlength =>
    simp only [List.length_append, List.length_cons, hlength]

/-- A node has one value, and the operator does the same unless it has another. -/
theorem unless_apply (h : Unreached value path name args args') (old new : Node) :
    ∃ entry q v w, Form.lookup? name = some entry ∧ value q w ∧ w ≠ v ∧ ∀ call call',
      Unless old new q v (entry.form.apply call (Node.operandsOf args path 1))
        (entry.form.apply call' (Node.operandsOf args' path 1)) := by
  cases h with
  | @alternative c t rest rest' hvalue _ =>
    exact ⟨_, 1 :: path, .boolean false, _, rfl, hvalue, nofun,
      fun _ _ => Unless.conditional_true c (t.eval_framed _) _ _⟩
  | @consequent c t t' rest hvalue =>
    exact ⟨_, 1 :: path, .boolean true, _, rfl, hvalue, nofun,
      fun _ _ => Unless.conditional_false c _ _ (Node.framed_of_mem_operandsOf rest path 3)⟩
  | @conjunction before o rest rest' hvalue _ =>
    refine ⟨_, _, .boolean true, _, rfl, hvalue, nofun, fun _ _ => ?_⟩
    rw [operandsOf_append, operandsOf_append, Nat.add_comm 1]
    exact Unless.logical false (Node.framed_of_mem_operandsOf before path 1) o _ _
  | @disjunction before o rest rest' hvalue _ =>
    refine ⟨_, _, .boolean false, _, rfl, hvalue, nofun, fun _ _ => ?_⟩
    rw [operandsOf_append, operandsOf_append, Nat.add_comm 1]
    exact Unless.logical true (Node.framed_of_mem_operandsOf before path 1) o _ _

/-- So does the call. -/
theorem unless_eval (h : Unreached value path name args args') (p z : Nat) :
    let call (args : List Node) : Node := .list .plain (.atom (.symbol name) p :: args) z
    ∃ q v w, value q w ∧ w ≠ v ∧
      Unless (call args) (call args') q v ((call args).eval path) ((call args').eval path) := by
  intro call
  obtain ⟨entry, q, v, w, hentry, hvalue, hne, happly⟩ := h.unless_apply (call args) (call args')
  obtain ⟨hhead, hhead'⟩ := h.head? p z
  have hroot : (call args).position = (call args').position := rfl
  have hlength : (Node.operandsOf args path 1).length = (Node.operandsOf args' path 1).length := by
    rw [length_operandsOf, length_operandsOf, h.length_eq]
  have hlist : Unless (call args) (call args') q v
      (Node.evalList (call args) .plain
        (Node.operandsOf (.atom (.symbol name) p :: args) path 0))
      (Node.evalList (call args') .plain
        (Node.operandsOf (.atom (.symbol name) p :: args') path 0)) := by
    unfold Node.operandsOf
    rw [evalList_call hhead hentry, evalList_call hhead' hentry, hlength]
    split
    · exact happly _ _
    · exact .fail hroot (.inr .here) _
  exact ⟨q, v, w, hvalue, hne, .bind (.refl (.emit _)) fun _ =>
    .bind (.nested hroot (.inr .here) hlist) fun v => .refl ((Framed.emit _).bind fun _ => .pure v)⟩

end Unreached

namespace Unless

variable {old new m m' : Node} {q : NodePath} {v : Value}

/-! ## From a node to the root -/

/-- A list with another child does the same unless that child makes a difference. -/
theorem withChild (hroot : old.position = new.position) {kind : ListKind} {children : List Node}
    {i z : Nat} {path : NodePath} (hchild : children[i]? = some m)
    (hreplaced : Replaced old new m m') (hsymbol : m.symbol? = m'.symbol?)
    (h : Unless old new q v (m.eval (i :: path)) (m'.eval (i :: path))) :
    Unless old new q v ((Node.list kind children z).eval path)
      ((Node.list kind (children.set i m') z).eval path) := by
  have hoperands := Simulation.operandsOf_set (S := unlessSimulation hroot q v) hchild
    ⟨.inr hreplaced, h⟩ fun _ c _ _ => ⟨.inl rfl, .refl (c.eval_framed _)⟩
  have hnode : (unlessSimulation hroot q v).node (.list kind children z)
      (.list kind (children.set i m') z) := .inr (.child hchild hreplaced)
  have hlist := Simulation.evalList hnode (Node.head?_set hchild (fun _ _ => hsymbol) z) kind
    hoperands
  exact bind (.refl (.emit _)) fun _ => bind (.nested hroot hnode hlist) fun v =>
    .refl ((Framed.emit _).bind fun _ => .pure v)

/-- From the place of a node it gets to the root. -/
theorem replaceAt {n : Node} {path : NodePath} (hplace : n.subtree? path = some old)
    (hroot : old.position = new.position) (hsymbol : old.symbol? = new.symbol?)
    (h : Unless old new q v (old.eval path) (new.eval path)) :
    Replaced old new n (n.replaceAt path new) ∧
      Unless old new q v (n.eval []) ((n.replaceAt path new).eval []) := by
  obtain ⟨hreplaced, -, heval⟩ := Replaced.replaceAt
    (P := fun path c c' => Replaced old new c c' ∧ c.symbol? = c'.symbol? ∧
      Unless old new q v (c.eval path) (c'.eval path))
    (fun _ hchild ⟨hreplaced, hsymbol, heval⟩ =>
      ⟨.child hchild hreplaced, rfl, withChild hroot hchild hreplaced hsymbol heval⟩)
    hplace ⟨.here, hsymbol, h⟩
  exact ⟨hreplaced, heval⟩

theorem evalStrategy {n n' : Node} (hroot : old.position = new.position)
    (hreplaced : Replaced old new n n') (h : Unless old new q v (n.eval []) (n'.eval [])) :
    Unless old new q v n.evalStrategy n'.evalStrategy := by
  refine bind h fun w => ?_
  cases w with
  | allocation a => exact .refl (.pure a)
  | _ => exact .fail hroot (.inr hreplaced) _

end Unless

/-- The node at a path has a value in the evaluation of a strategy. -/
def Node.Yields (n : Node) (setting : Setting) (context : Context) (path : NodePath) (v : Value) :
    Prop := .found path v ∈ (n.evalStrategy setting (.initial context)).events

theorem evalStrategy_alike {n : Node} {setting : Setting} {context : Context} {path : NodePath}
    {name : String} {args args' : List Node} {p z : Nat}
    (hcall : n.subtree? path = some (.list .plain (.atom (.symbol name) p :: args) z))
    (h : Unreached (n.Yields setting context) path name args args') :
    let call (args : List Node) : Node := .list .plain (.atom (.symbol name) p :: args) z
    Outcome.Alike (call args) (call args') (n.evalStrategy setting (.initial context))
      ((n.replaceAt path (call args')).evalStrategy setting (.initial context)) := by
  intro call
  obtain ⟨q, v, w, hw, hne, hunless⟩ := h.unless_eval p z
  have hroot : (call args).position = (call args').position := rfl
  have hsymbol : (call args).symbol? = (call args').symbol? := rfl
  obtain ⟨hreplaced, heval⟩ := Unless.replaceAt hcall hroot hsymbol hunless
  -- The node has the value `w`, so it does not have the value `v`.
  exact Unless.evalStrategy hroot hreplaced heval setting ⟨rfl, rfl⟩ fun hv =>
    hne (evalStrategy_found_unique hw hv)

/-- **What is not reached has no influence.** In a call of `if`, `and` or `or` anywhere in a
strategy, other arguments may stand for those that are not reached: the branch not taken, or all
operands behind the one that decides. Then the evaluation has the same allocation with the same
metadata, or an error with the same problem, so the same message and cause, at the same position; it
makes the same requests in the same order, and it leaves the same answers and texts. The trace has
as many steps, and they are the same. Only where the context of the error, or a step of an `if`,
quotes a node that has the call in it, the other one quotes that node with the other call in it. -/
theorem evaluate_ignores_unreached (n : Node) (setting : Setting) (context : Context)
    (path : NodePath) (name : String) (args args' : List Node) (p z : Nat)
    (hcall : n.subtree? path = some (.list .plain (.atom (.symbol name) p :: args) z))
    (h : Unreached (n.Yields setting context) path name args args') :
    let call (args : List Node) : Node := .list .plain (.atom (.symbol name) p :: args) z
    let run := evaluate n setting context
    let run' := evaluate (n.replaceAt path (call args')) setting context
    EndsAlike (call args) (call args') run.result run'.result ∧ run.requests = run'.requests ∧
      run.context.answers = run'.context.answers ∧
      run.context.metadata = run'.context.metadata ∧
      List.Forall₂ (StepAlike (call args) (call args')) run.context.trace run'.context.trace := by
  obtain ⟨hresult, hevents, hstate⟩ := evalStrategy_alike hcall h
  intro call run run'
  have hnotes := Event.filterMap_eq_of_alike (f := Event.note?) (fun _ => rfl) hevents
  refine ⟨hresult.evaluate hnotes, Event.filterMap_eq_of_alike (fun _ => rfl) hevents,
    hstate.answers, metadata_eq_of_notes hnotes, ?_⟩
  simp only [run, run', evaluate_context]
  exact List.rel_append (List.forall₂_same.2 fun step _ => .refl step) (Event.steps_alike hevents)

/-- `(if (or true (current-price "B")) (asset "A"))` does not ask for the price, and a call without
arguments in its place does not fail. -/
theorem evaluate_ignores_unreached_price :
    let strategy (operand : Node) : Node := .list .plain
      [.atom (.symbol "if") 1,
        .list .plain [.atom (.symbol "or") 5, .atom (.symbol "true") 8, operand] 4,
        .list .plain [.atom (.symbol "asset") 35, .atom (.string "A") 41] 34] 0
    let price : Node := .list .plain [.atom (.symbol "current-price") 14, .atom (.string "B") 28] 13
    let broken : Node := .list .plain [.atom (.symbol "filter") 14] 13
    let setting : Setting := ⟨fun r => .error ⟨r.symbol, r.metric, "closed"⟩, some maxDepth, true⟩
    let call (operand : Node) : Node :=
      .list .plain [.atom (.symbol "or") 5, .atom (.symbol "true") 8, operand] 4
    (strategy price).subtree? [1] = some (call price) ∧
    Unreached ((strategy price).Yields setting .fresh) [1] "or" [.atom (.symbol "true") 8, price]
      [.atom (.symbol "true") 8, broken] ∧
    EndsAlike (call price) (call broken) (evaluate (strategy price) setting .fresh).result
      (evaluate (strategy broken) setting .fresh).result := by
  intro strategy price broken setting call
  -- It is the fourth event of the evaluation.
  have hyields : (strategy price).Yields setting .fresh [1, 1] (.boolean true) :=
    List.mem_of_getElem? (i := 3) rfl
  have hunreached : Unreached ((strategy price).Yields setting .fresh) [1] "or"
      [.atom (.symbol "true") 8, price] [.atom (.symbol "true") 8, broken] :=
    @Unreached.disjunction _ _ [] _ _ _ hyields rfl
  exact ⟨rfl, hunreached, (evaluate_ignores_unreached (strategy price) setting .fresh [1] "or"
    _ _ 5 4 rfl hunreached).1⟩

end AllocScript
