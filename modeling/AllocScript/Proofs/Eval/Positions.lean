import AllocScript.Proofs.Eval.Simulation
import AllocScript.Proofs.Node.RoundTrip
import AllocScript.Strategy

/-!
# Positions mean nothing

Where the nodes of a tree stand in its text has no influence on its evaluation, except on the
position that an error tells. Excerpts of equal trees are equal (`Node.excerpt_erasePositions`), and
what is made in the same way of computations that differ in such positions differs in them only
(`positionSimulation`).

A tree is read back from its canonical text up to positions, so the canonical text of a strategy
means what the strategy means.
-/

namespace AllocScript

/-! ## Excerpts -/

namespace Node

mutual

theorem writeOn_erasePositions (page : Page) (n : Node) :
    writeOn page n.erasePositions = writeOn page n := by
  cases n with
  | atom => rfl
  | list kind children p =>
    simp only [erasePositions, writeOn]
    refine congrArg (_ >>= ·) (funext fun page => ?_)
    rw [writeAllOn_eraseAllPositions page children]

theorem writeAllOn_eraseAllPositions (page : Page) (ns : List Node) :
    writeAllOn page (eraseAllPositions ns) = writeAllOn page ns := by
  cases ns with
  | nil => rfl
  | cons n ns =>
    simp only [eraseAllPositions, writeAllOn, writeOn_erasePositions page n]
    exact congrArg (_ >>= ·) (funext fun page => writeTailOn_eraseAllPositions page ns)

theorem writeTailOn_eraseAllPositions (page : Page) (ns : List Node) :
    writeTailOn page (eraseAllPositions ns) = writeTailOn page ns := by
  cases ns with
  | nil => rfl
  | cons n ns =>
    simp only [eraseAllPositions, writeTailOn]
    refine congrArg (_ >>= ·) (funext fun page => ?_)
    rw [writeOn_erasePositions page n]
    exact congrArg (_ >>= ·) (funext fun page => writeTailOn_eraseAllPositions page ns)

end

theorem excerpt_erasePositions (n : Node) : n.erasePositions.excerpt = n.excerpt := by
  rw [excerpt, writeOn_erasePositions]
  rfl

/-- Trees that differ in positions only. -/
def SameShape (n n' : Node) : Prop := n.erasePositions = n'.erasePositions

namespace SameShape

variable {n n' : Node}

theorem excerpt_eq (h : n.SameShape n') : n.excerpt = n'.excerpt := by
  rw [← excerpt_erasePositions, h, excerpt_erasePositions]

theorem atom {a : Atom} {p : Nat} (h : (Node.atom a p).SameShape n) : ∃ p', n = .atom a p' := by
  cases n with
  | atom a' p' =>
    injection h with ha
    exact ⟨p', by rw [ha]⟩
  | list => cases h

theorem forall₂ : {ns ns' : List Node} → eraseAllPositions ns = eraseAllPositions ns' →
    List.Forall₂ SameShape ns ns'
  | [], [], _ => .nil
  | [], _ :: _, h => by cases h
  | _ :: _, [], h => by cases h
  | n :: ns, n' :: ns', h => by
    injection h with hn hns
    exact .cons hn (forall₂ hns)

theorem list {kind : ListKind} {children : List Node} {p : Nat}
    (h : (Node.list kind children p).SameShape n) :
    ∃ children' p', n = .list kind children' p' ∧ List.Forall₂ SameShape children children' := by
  cases n with
  | atom => cases h
  | list kind' children' p' =>
    injection h with hkind hchildren
    exact ⟨children', p', by rw [hkind], forall₂ hchildren⟩

end SameShape

end Node

/-! ## Errors up to positions -/

def EvalError.erasePosition (e : EvalError) : EvalError := { e with position := 0 }

def Stop.erasePosition : Stop → Stop
  | .error e => .error e.erasePosition
  | .fault f => .fault f

def StrategyError.erasePosition : StrategyError → StrategyError
  | .evaluation detail context _ cause => .evaluation detail context 0 cause
  | e => e

def Failure.erasePosition : Failure → Failure
  | .error e => .error e.erasePosition
  | .fault f => .fault f

theorem Failure.erasePosition_ofStop (e : Stop) :
    (Failure.ofStop e).erasePosition = Failure.ofStop e.erasePosition := by
  cases e <;> rfl

theorem EvalError.erasePosition_atNode {n n' : Node} (h : n.SameShape n') (problem : EvalProblem) :
    (EvalError.atNode n problem).erasePosition = (EvalError.atNode n' problem).erasePosition := by
  simp only [EvalError.atNode, erasePosition, h.excerpt_eq]

/-- The outcomes differ in the position of an error at most. -/
structure Outcome.SameButPosition {α : Type} (o o' : Outcome α) : Prop where
  result : o.result.mapError Stop.erasePosition = o'.result.mapError Stop.erasePosition
  events : o.events = o'.events
  state : o.state = o'.state

theorem Outcome.SameButPosition.refl {α : Type} (o : Outcome α) : o.SameButPosition o :=
  ⟨rfl, rfl, rfl⟩

/-- The runs of the computations differ in the position of an error at most. -/
def SameButPositions {α : Type} (x y : Eval α) : Prop :=
  ∀ s st, (x s st).SameButPosition (y s st)

namespace SameButPositions

open Eval

variable {α β : Type} {n n' : Node}

theorem refl (x : Eval α) : SameButPositions x x := fun _ _ => .refl _

theorem fail (h : n.SameShape n') (problem : EvalProblem) :
    SameButPositions (Eval.fail (α := α) n problem) (Eval.fail n' problem) := by
  refine fun s st => ⟨?_, rfl, rfl⟩
  exact congrArg (fun e => Except.error (Stop.error e)) (EvalError.erasePosition_atNode h problem)

theorem bind {x y : Eval α} {f g : α → Eval β} (hx : SameButPositions x y)
    (hf : ∀ a, SameButPositions (f a) (g a)) : SameButPositions (x >>= f) (y >>= g) := by
  intro s st
  obtain ⟨hresult, hevents, hstate⟩ := hx s st
  cases hr : (x s st).result with
  | error e =>
    cases hr' : (y s st).result with
    | ok b => rw [hr, hr'] at hresult; cases hresult
    | error e' =>
      rw [run_bind_of_error hr, run_bind_of_error hr']
      rw [hr, hr'] at hresult
      injection hresult with he
      exact ⟨congrArg Except.error he, hevents, hstate⟩
  | ok a =>
    cases hr' : (y s st).result with
    | error e => rw [hr, hr'] at hresult; cases hresult
    | ok b =>
      rw [hr, hr'] at hresult
      injection hresult with hab
      have hrest := hf a s (x s st).state
      rw [run_bind_of_ok hr, run_bind_of_ok hr', ← hstate, ← hab]
      exact ⟨hrest.result, congrArg₂ (· ++ ·) hevents hrest.events, hrest.state⟩

theorem fetch (h : n.SameShape n') (r : Request) :
    SameButPositions (Eval.fetch n r) (Eval.fetch n' r) := by
  intro s st
  unfold Eval.fetch
  split
  · exact .refl _
  · unfold Eval.ask
    split
    · exact .refl _
    · refine ⟨?_, rfl, rfl⟩
      exact congrArg (fun e => Except.error (Stop.error e)) (EvalError.erasePosition_atNode h _)

theorem nested (h : n.SameShape n') {x y : Eval α} (hxy : SameButPositions x y) :
    SameButPositions (Eval.nested n x) (Eval.nested n' y) := by
  intro s st
  unfold Eval.nested
  split
  · exact fail h .nestedTooDeep s st
  · obtain ⟨hresult, hevents, hstate⟩ := hxy s { st with depth := st.depth + 1 }
    have hleave := congrArg (fun st : EvalState => { st with depth := st.depth - 1 }) hstate
    exact ⟨hresult, hevents, hleave⟩

end SameButPositions

/-- **Evaluations of trees of the same shape** differ in the position of an error at most. -/
def positionSimulation : TreeSimulation where
  node := Node.SameShape
  rel := SameButPositions
  pure _ := .refl _
  bind := SameButPositions.bind
  fail _ h := .fail h _
  fault _ := .refl _
  record _ := .refl _
  quote branch h := by
    rw [h.excerpt_eq]
    exact .refl _
  setMetadata _ _ := .refl _
  fetch r h := .fetch h r
  atom := Node.SameShape.atom
  list := Node.SameShape.list
  begun _ := .refl _
  found _ _ := .refl _
  nested h hxy := .nested h hxy

theorem mapError_map {α β ε ε' : Type} (r : Except ε α) (f : α → β) (g : ε → ε') :
    (r.map f).mapError g = (r.mapError g).map f := by
  cases r <;> rfl

theorem evaluate_sameShape {n n' : Node} (h : n.SameShape n') (setting : Setting)
    (context : Context) :
    (evaluate n setting context).result.mapError Stop.erasePosition =
        (evaluate n' setting context).result.mapError Stop.erasePosition ∧
      (evaluate n setting context).context = (evaluate n' setting context).context ∧
      (evaluate n setting context).requests = (evaluate n' setting context).requests := by
  obtain ⟨hresult, hevents, hstate⟩ :=
    positionSimulation.evalStrategy h setting (.initial context)
  have hcontext : (evaluate n setting context).context = (evaluate n' setting context).context :=
    congrArg EvalState.toContext hstate
  refine ⟨?_, hcontext, congrArg Event.requests hevents⟩
  calc (evaluate n setting context).result.mapError Stop.erasePosition
      = ((n.evalStrategy setting (.initial context)).result.mapError Stop.erasePosition).map
          (·.withMetadata (evaluate n setting context).context.metadata) := mapError_map ..
    _ = ((n'.evalStrategy setting (.initial context)).result.mapError Stop.erasePosition).map
          (·.withMetadata (evaluate n' setting context).context.metadata) := by
        rw [hresult, hcontext]
    _ = (evaluate n' setting context).result.mapError Stop.erasePosition := (mapError_map ..).symm

theorem evaluateNode_sameShape {n n' : Node} (h : n.SameShape n') (feed : Feed) :
    (evaluateNode n feed).outcome.mapError Failure.erasePosition =
        (evaluateNode n' feed).outcome.mapError Failure.erasePosition ∧
      (evaluateNode n feed).requests = (evaluateNode n' feed).requests := by
  obtain ⟨hresult, hcontext, hrequests⟩ := evaluate_sameShape h { feed } .fresh
  unfold evaluateNode
  dsimp only
  rw [hcontext, hrequests]
  generalize (evaluate n { feed } .fresh).result = r at hresult ⊢
  generalize (evaluate n' { feed } .fresh).result = r' at hresult ⊢
  cases r with
  | ok a =>
    cases r' with
    | ok a' =>
      injection hresult with ha
      rw [ha]
      exact ⟨rfl, rfl⟩
    | error e' => cases hresult
  | error e =>
    cases r' with
    | ok a' => cases hresult
    | error e' =>
      injection hresult with he
      refine ⟨congrArg Except.error ?_, rfl⟩
      rw [Failure.erasePosition_ofStop, Failure.erasePosition_ofStop, he]

/-- **Positions mean nothing, and neither does the way a strategy is written.** Trees that differ in
positions only have evaluations that differ in the position of an error at most: in the same setting
and context there is the same allocation with the same metadata, or an error with the same problem
and excerpt or the same fault; the same context is left, with its trace, texts and answers; and the
same requests are made. So the canonical text of a strategy, if it is not too long, is evaluated as
the text that was read. -/
theorem evaluate_ignores_positions :
    (∀ (n n' : Node) (setting : Setting) (context : Context), n.SameShape n' →
      let run := evaluate n setting context
      let run' := evaluate n' setting context
      run.result.mapError Stop.erasePosition = run'.result.mapError Stop.erasePosition ∧
        run.context = run'.context ∧ run.requests = run'.requests) ∧
    ∀ (source : String) (n : Node) (feed : Feed), Node.ofSource source = .ok n →
      n.render.utf8ByteSize ≤ maxSourceBytes →
      let evaluation := evaluateSource source feed
      let evaluation' := evaluateSource n.render feed
      evaluation.outcome.mapError Failure.erasePosition =
          evaluation'.outcome.mapError Failure.erasePosition ∧
        evaluation.requests = evaluation'.requests := by
  refine ⟨fun n n' setting context h => evaluate_sameShape h setting context,
    fun source n feed hn hsize => ?_⟩
  obtain ⟨_, n', -, -, hshape, -, hsource⟩ := (Node.wellFormed_of_ofSource hn).roundTrips
  simp only [evaluateSource, hn, hsource hsize]
  exact evaluateNode_sameShape hshape.symm feed

/-- Other brackets, a comma, a comment and another spelling of the weight. -/
theorem evaluate_ignores_positions_brackets :
    ∃ n, Node.ofSource "[weight-specified, +01 \"A\"] ; all" = .ok n ∧
      n.render = "(weight-specified 1 \"A\")" ∧
      let feed : Feed := fun r => .error ⟨r.symbol, r.metric, "closed"⟩
      (evaluateSource "[weight-specified, +01 \"A\"] ; all" feed).outcome.mapError
          Failure.erasePosition =
        (evaluateSource "(weight-specified 1 \"A\")" feed).outcome.mapError
          Failure.erasePosition := by
  have hrender : (match Node.ofSource "[weight-specified, +01 \"A\"] ; all" with
      | .ok n => decide (n.render = "(weight-specified 1 \"A\")")
      | .error _ => false) = true := by decide +kernel
  split at hrender
  · rename_i n hn
    have htext := of_decide_eq_true hrender
    have hsize : n.render.utf8ByteSize ≤ maxSourceBytes := by rw [htext]; decide +kernel
    refine ⟨n, hn, htext, ?_⟩
    rw [← htext]
    exact (evaluate_ignores_positions.2 _ n _ hn hsize).1
  · cases hrender

end AllocScript
