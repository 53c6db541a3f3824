import AllocScript.Error
import AllocScript.Form
import AllocScript.Node.Printer
import AllocScript.Value

/-!
# Why an evaluation stops

An evaluation that fails names a node and a problem: `EvalError` holds the problem, the excerpt of
the node's text and its position. A `Fault` is no answer to a strategy but a defect of the
evaluation itself, such as weights that leave the range of decimals.
-/

namespace AllocScript

inductive EvalProblem where
  | nestedTooDeep
  | keyWithoutValue
  | unknownOperator (name : String)
  | argumentCount (name : String) (arity : Arity) (count : Nat)
  | undefinedSymbol (name : String)
  | bareOperator (name : String)
  | unavailable (request : Request) (cause : LookupError)
  | wrongType (expected found : String)
  | wrongItem (found : String)
  | notPositiveInteger (what : String) (value : Decimal)
  | unknownParameter (key : String)
  | missingWindow
  | parameterKey (found : String)
  | parameterValue (found : String)
  | malformedDefsymphony
  | noOperand
  | divisionByZero
  | arithmeticOverflow
  | emptyTicker
  | negativeWeight (weight : Decimal)
  | weightArguments (count : Nat)
  | weightsOverflow
  | weightsSumToZero
  | severalSymbols (count : Nat)
  | indicatorArguments (indicator : Indicator) (count : Nat)
  | notAllocation (found : String)
deriving DecidableEq

namespace EvalProblem

def detail : EvalProblem → String
  | nestedTooDeep => s!"maximum nesting depth {maxDepth} exceeded"
  | keyWithoutValue => "map key without a value"
  | unknownOperator name => s!"unknown operator '{name}'"
  | argumentCount name arity count => s!"'{name}' expects {arity.render}, got {count}"
  | undefinedSymbol name => s!"undefined symbol '{name}'"
  | bareOperator name =>
    s!"undefined symbol '{name}' (operators must be called inside a list)"
  | unavailable request cause =>
    s!"indicator {request.metric.render} unavailable for '{request.symbol}': {cause.reason}"
  | wrongType expected found => s!"expected {expected}, got {found}"
  | wrongItem found => s!"expected a list of allocations, found {found}"
  | notPositiveInteger what value =>
    s!"{what} must be a positive integer, got {value.renderShort}"
  | unknownParameter key => s!"unknown indicator parameter {key}"
  | missingWindow => "missing :window parameter"
  | parameterKey found => s!"parameter keys must be keywords, got {found}"
  | parameterValue found => s!"strategy parameter must be a scalar, got {found}"
  | malformedDefsymphony => "malformed defsymphony"
  | noOperand => "arithmetic needs at least one operand"
  | divisionByZero => "division by zero"
  | arithmeticOverflow => "arithmetic overflow"
  | emptyTicker => "asset ticker must not be empty"
  | negativeWeight weight => s!"weight must be non-negative, got {weight.renderShort}"
  | weightArguments count =>
    s!"'weight-specified' expects a weight map or weight/child pairs, got {count} arguments"
  | weightsOverflow => "weights overflow"
  | weightsSumToZero => "weights sum to zero"
  | severalSymbols count =>
    s!"filter candidates must be single assets, got an allocation over {count} symbols"
  | indicatorArguments indicator count =>
    s!"'{indicator.name}' expects 1 to 2 arguments, got {count}"
  | notAllocation found => s!"strategy must evaluate to an allocation, got {found}"

/-- The failed look-up behind a problem. -/
def cause? : EvalProblem → Option LookupError
  | unavailable _ cause => some cause
  | _ => none

end EvalProblem

/-- A problem and the node that raised it. -/
structure EvalError where
  problem : EvalProblem
  context : String
  position : Nat
deriving DecidableEq

namespace EvalError

/-- A problem at a node. -/
def atNode (node : Node) (problem : EvalProblem) : EvalError :=
  ⟨problem, node.excerpt, node.position⟩

def toStrategyError (e : EvalError) : StrategyError :=
  .evaluation e.problem.detail e.context e.position e.problem.cause?

end EvalError

/-- A defect of an evaluation. -/
inductive Fault where
  /-- An operation on weights left the range of decimals. -/
  | overflow (kind : Overflow)
  /-- An operator was applied without an argument that it needs. -/
  | missingArgument
deriving DecidableEq

def Fault.message : Fault → String
  | .overflow kind => kind.message
  | .missingArgument => "argument index out of range"

/-- How an evaluation ends without a value. -/
inductive Stop where
  | error (error : EvalError)
  | fault (fault : Fault)
deriving DecidableEq

end AllocScript
