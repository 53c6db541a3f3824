import AllocScript.Eval
import AllocScript.Source

/-!
# Strategies

`evaluateSource` takes the text of a strategy and a feed to its target allocation and the trace of
decisions that led there. Every evaluation starts from a fresh context, so strategies do not see
each other.
-/

namespace AllocScript

/-- Why a strategy has no allocation. -/
inductive Failure where
  | error (error : StrategyError)
  | fault (fault : Fault)
deriving DecidableEq

namespace Failure

def ofStop : Stop → Failure
  | .error e => .error e.toStrategyError
  | .fault f => .fault f

def message : Failure → String
  | error e => e.message
  | fault f => f.message

/-- The status with which a program ends because of the failure. -/
def exitStatus : Failure → Nat
  | error e => e.exitStatus
  | fault _ => 101

end Failure

/-- The allocation of a strategy and the decisions that led to it. -/
structure Decision where
  allocation : Allocation
  trace : List String
deriving DecidableEq

/-- The trace as text, a line for each step. -/
def Decision.traceText (d : Decision) : String := "\n".intercalate d.trace

/-- The outcome of an evaluation and the requests that it made. -/
structure Evaluation where
  outcome : Except Failure Decision
  requests : List Request

/-- Evaluates a tree on its own. -/
def evaluateNode (node : Node) (feed : Feed) : Evaluation :=
  let run := evaluate node { feed } .fresh
  match run.result with
  | .ok allocation => ⟨.ok ⟨allocation, run.context.trace⟩, run.requests⟩
  | .error e => ⟨.error (.ofStop e), run.requests⟩

/-- Evaluates the text of a strategy. -/
def evaluateSource (source : String) (feed : Feed) : Evaluation :=
  match Node.ofSource source with
  | .error e => ⟨.error (.error e), []⟩
  | .ok node => evaluateNode node feed

end AllocScript
