import AllocScript.Eval.Problem

/-!
# Computations of the evaluator

A computation of type `Eval α` reads its `Setting` and a state: the context that evaluations hand
on (the trace of decisions, the texts about the strategy and the answers fetched so far) and the
number of lists that are being evaluated. Its `Outcome` is a value or a `Stop`, together with the
state by then, which stays when the computation stops.

An outcome also tells which events came about. They are a history for the reader: no computation
has them at hand.
-/

namespace AllocScript

/-- A source of indicator values. It answers a request or says why it cannot. -/
abbrev Feed := Request → Except LookupError Decimal

/-- Answers of a feed, the latest first. -/
abbrev Answers := List (Request × Decimal)

/-- What an evaluation runs against: the feed, the greatest number of nested lists, if there is
one, and whether an answer is kept and used again. -/
structure Setting where
  feed : Feed
  depthLimit : Option Nat := some maxDepth
  reuse : Bool := true

/-- The way from the root to a node: which child it is of its list, which child that list is of its
own, and so on. Its length is the number of lists around the node. -/
abbrev NodePath := List Nat

/-- Something that comes about in an evaluation. -/
inductive Event where
  /-- The evaluation of a node begins. -/
  | begun (path : NodePath)
  /-- A node has a value. -/
  | found (path : NodePath) (value : Value)
  /-- A decision is taken. -/
  | decided (step : String)
  /-- A text about the strategy is written. -/
  | noted (key text : String)
  /-- The feed is asked. -/
  | asked (request : Request)

namespace Event

def step? : Event → Option String
  | decided step => some step
  | _ => none

def note? : Event → Option (String × String)
  | noted key text => some (key, text)
  | _ => none

def request? : Event → Option Request
  | asked request => some request
  | _ => none

/-- The decisions among events, in order. -/
def steps (events : List Event) : List String := events.filterMap step?

/-- The texts written in events, in order. -/
def notes (events : List Event) : List (String × String) := events.filterMap note?

/-- The requests among events, in order. -/
def requests (events : List Event) : List Request := events.filterMap request?

end Event

/-- What evaluations leave to the ones after them. -/
structure Context where
  trace : List String
  metadata : TextMap String
  answers : Answers

namespace Context

/-- The context of a strategy that has not begun. -/
def fresh : Context := ⟨[], .empty, []⟩

instance : Inhabited Context := ⟨fresh⟩

end Context

/-- A context, and the number of lists whose evaluation has begun and not ended. -/
structure EvalState extends Context where
  depth : Nat

namespace EvalState

/-- A context before the evaluation of a strategy. -/
def initial (context : Context) : EvalState := ⟨context, 0⟩

/-- A decision goes to the end of the trace and a text under its key. -/
def write (st : EvalState) : Event → EvalState
  | .decided step => { st with trace := st.trace ++ [step] }
  | .noted key text => { st with metadata := st.metadata.insert key text }
  | _ => st

/-- An answer is kept. -/
def keep (st : EvalState) (request : Request) (value : Decimal) : EvalState :=
  { st with answers := (request, value) :: st.answers }

end EvalState

/-- How a computation ends, what came about in it and which state it leaves. -/
structure Outcome (α : Type) where
  result : Except Stop α
  events : List Event
  state : EvalState

/-- A computation of the evaluator. -/
def Eval (α : Type) : Type := Setting → EvalState → Outcome α

namespace Eval

variable {α β : Type}

protected def pure (a : α) : Eval α := fun _ st => ⟨.ok a, [], st⟩

protected def bind (x : Eval α) (f : α → Eval β) : Eval β := fun s st =>
  match x s st with
  | ⟨.ok a, before, st⟩ =>
    let o := f a s st
    ⟨o.result, before ++ o.events, o.state⟩
  | ⟨.error e, before, st⟩ => ⟨.error e, before, st⟩

instance : Monad Eval where
  pure := Eval.pure
  bind := Eval.bind

def stop (e : Stop) : Eval α := fun _ st => ⟨.error e, [], st⟩

/-- Ends the evaluation with a problem at a node. -/
def fail (node : Node) (problem : EvalProblem) : Eval α := stop (.error (.atNode node problem))

def fault (f : Fault) : Eval α := stop (.fault f)

/-- The result of an operation on weights. -/
def ofWeights : Except Overflow α → Eval α
  | .ok a => pure a
  | .error kind => fault (.overflow kind)

/-- An event comes about. -/
def emit (event : Event) : Eval Unit := fun _ st => ⟨.ok (), [event], st.write event⟩

/-- Adds a step to the trace. -/
def record (step : String) : Eval Unit := emit (.decided step)

/-- Writes a text about the strategy. -/
def setMetadata (key text : String) : Eval Unit := emit (.noted key text)

/-- Evaluates a list inside the lists that are being evaluated, unless they are too many already.
The list counts as one of them until its evaluation ends, with a value or without. -/
def nested (node : Node) (x : Eval α) : Eval α := fun s st =>
  if s.depthLimit.any (· ≤ st.depth) then fail node .nestedTooDeep s st
  else
    let o := x s { st with depth := st.depth + 1 }
    { o with state := { o.state with depth := o.state.depth - 1 } }

/-- Asks the feed. A failure is a problem of the node and is not remembered. -/
def ask (node : Node) (request : Request) : Eval Decimal := fun s st =>
  match s.feed request with
  | .ok value => ⟨.ok value, [.asked request], if s.reuse then st.keep request value else st⟩
  | .error e => ⟨.error (.error (.atNode node (.unavailable request e))), [.asked request], st⟩

/-- The value of a metric, from the answers fetched before or from the feed. -/
def fetch (node : Node) (request : Request) : Eval Decimal := fun s st =>
  match if s.reuse then st.answers.lookup request else none with
  | some value => ⟨.ok value, [], st⟩
  | none => ask node request s st

end Eval

/-- An argument of an operator: its node, and the computation of its value. -/
structure Operand where
  node : Node
  value : Eval Value

end AllocScript
