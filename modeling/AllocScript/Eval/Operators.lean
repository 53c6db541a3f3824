import AllocScript.Eval.Expect
import AllocScript.Eval.Ranking
import AllocScript.Eval.Weighting

/-!
# What the operators do

Each operator is a function of its operands, which it evaluates from left to right as far as it
needs them. An operand is a node with the computation of its value, so nothing in this module
depends on how nodes are evaluated. `Form.apply` brings the operators together.
-/

namespace AllocScript

namespace Operand

/-! ## Values of operands

Each function evaluates an operand and asks for a value of the kind that the caller needs. -/

def number (o : Operand) : Eval Decimal := do Eval.expectNumber o.node (← o.value)

def boolean (o : Operand) : Eval Bool := do Eval.expectBoolean o.node (← o.value)

def string (o : Operand) : Eval String := do Eval.expectString o.node (← o.value)

/-- A list of allocations, one of them standing for the list that holds it alone. -/
def allocations (o : Operand) : Eval (List Allocation) := do
  Eval.expectAllocations o.node (← o.value)

/-- A look-back period. -/
def period (o : Operand) : Eval Nat := do Eval.expectPeriod o.node (← o.value)

/-- The number of candidates to select. -/
def count (o : Operand) : Eval Nat := do Eval.expectCount o.node (← o.value)

/-- A number that is not negative. -/
def weight (o : Operand) : Eval Decimal := do Eval.expectWeight o.node (← o.value)

/-- An allocation to be weighted, or the symbol that one holds alone. -/
def child (o : Operand) : Eval Allocation := do Eval.expectChild o.node (← o.value)

end Operand

namespace Operator

open Eval

/-! ## Strategies, groups and decisions -/

/-- Writes the parameters of a strategy, one after the other. -/
def writeParameters (node : Node) : List (Value × Value) → Eval Unit
  | [] => pure ()
  | (.keyword key, v) :: rest => do
    let text ← expectScalar node v
    setMetadata key text
    writeParameters node rest
  | (k, _) :: _ => fail node (.parameterKey k.typeName)

/-- Names the strategy and goes on with its body, after the parameters if there are any. -/
def defsymphony : List Operand → Eval Value
  | [] => fault .missingArgument
  | title :: rest => do
    let name ← title.string
    setMetadata "name" name
    record s!"strategy {quote name}"
    match rest with
    | [body] => body.value
    | [parameters, body] =>
      match ← parameters.value with
      | .map entries => writeParameters parameters.node entries
      | v => wrongType parameters.node "parameter map" v
      body.value
    | _ => fail title.node .malformedDefsymphony

def group : List Operand → Eval Value
  | [title, body] => do
    let name ← title.string
    record s!"group {quote name}"
    body.value
  | _ => fault .missingArgument

/-- Evaluates the branch that the condition decides for. Without a second branch there is the empty
allocation in its place. -/
def conditional : List Operand → Eval Value
  | condition :: consequent :: rest => do
    let holds ← condition.boolean
    let shown := condition.node.excerpt
    if holds then
      record s!"if {shown} -> then"
      consequent.value
    else
      match rest with
      | alternative :: _ =>
        record s!"if {shown} -> else"
        alternative.value
      | [] =>
        record s!"if {shown} -> else (empty)"
        pure (.allocation .empty)
  | _ => fault .missingArgument

/-! ## Logic, comparison and arithmetic -/

/-- Evaluates operands up to the first whose value is `decisive`. -/
def logical (decisive : Bool) : List Operand → Eval Value
  | [] => pure (.boolean !decisive)
  | o :: rest => do
    let b ← o.boolean
    if b = decisive then pure (.boolean decisive) else logical decisive rest

def negation : List Operand → Eval Value
  | [o] => do pure (.boolean !(← o.boolean))
  | _ => fault .missingArgument

end Operator

def Comparison.holds (left right : Decimal) : Comparison → Bool
  | .greater => right.lt left
  | .less => left.lt right
  | .greaterEqual => right.le left
  | .lessEqual => left.le right
  | .equal => left.sameValue right

/-- The rounded result of an operation, if it fits. The divisor is not zero. -/
def Operation.apply? (left right : Decimal) : Operation → Option Decimal
  | .add => left.add? right
  | .subtract => left.sub? right
  | .multiply => left.mul? right
  | .divide => left.div? right

namespace Operator

open Eval

def comparison (op : Comparison) : List Operand → Eval Value
  | [left, right] => do
    let a ← left.number
    let b ← right.number
    pure (.boolean (op.holds a b))
  | _ => fault .missingArgument

/-- The numbers of all operands, each with its node. -/
def numbers : List Operand → Eval (List (Node × Decimal))
  | [] => pure []
  | o :: rest => do
    let d ← o.number
    let ds ← numbers rest
    pure ((o.node, d) :: ds)

/-- Applies an operation from left to right. -/
def accumulate (call : Node) (op : Operation) (acc : Decimal) :
    List (Node × Decimal) → Eval Decimal
  | [] => pure acc
  | (node, d) :: rest =>
    if op = .divide ∧ d.isZero then fail node .divisionByZero
    else
      match op.apply? acc d with
      | some acc => accumulate call op acc rest
      | none => fail call .arithmeticOverflow

/-- Arithmetic on all operands. One operand is the result itself, but its opposite for a
subtraction. -/
def arithmetic (call : Node) (op : Operation) (operands : List Operand) : Eval Value := do
  match ← numbers operands with
  | [] => fail call .noOperand
  | [(_, d)] => pure (.number (if op = .subtract then d.neg else d))
  | (_, d) :: rest => do pure (.number (← accumulate call op d rest))

/-! ## Allocations -/

/-- One symbol with the whole weight. A second text names it for readers. -/
def asset : List Operand → Eval Value
  | [] => fault .missingArgument
  | symbol :: rest => do
    let ticker ← symbol.string
    if isBlankText ticker then fail symbol.node .emptyTicker
    else
      match rest with
      | [] => pure (.allocation (.single ticker))
      | title :: _ =>
        let _ ← title.string
        pure (.allocation (.single ticker))

def weightEqual : List Operand → Eval Value
  | [children] => do
    let as ← children.allocations
    pure (.allocation (← ofWeights (Allocation.equalWeight as)))
  | _ => fault .missingArgument

/-- The weights and children of a map from children to weights. -/
def weightsOfMap (node : Node) : List (Value × Value) → Eval (List (Decimal × Allocation))
  | [] => pure []
  | (child, weight) :: rest => do
    let w ← expectWeight node weight
    let a ← expectChild node child
    let others ← weightsOfMap node rest
    pure ((w, a) :: others)

/-- The weights and children of operands that come in pairs, the weight first. -/
def weightsOfPairs : List Operand → Eval (List (Decimal × Allocation))
  | weight :: child :: rest => do
    let w ← weight.weight
    let a ← child.child
    let others ← weightsOfPairs rest
    pure ((w, a) :: others)
  | [weight] => do
    let _ ← weight.weight
    fault .missingArgument
  | [] => pure []

/-- Shares weight among children by given weights. -/
def shareOut (call : Node) (weighted : List (Decimal × Allocation)) : Eval Value :=
  match Allocation.specifiedWeight weighted with
  | .ok a => pure (.allocation a)
  | .error .totalOverflow => fail call .weightsOverflow
  | .error .zeroTotal => fail call .weightsSumToZero
  | .error (.overflow kind) => fault (.overflow kind)

/-- Children with their weights, given as one map or as pairs of operands. -/
def weightSpecified (call : Node) (operands : List Operand) : Eval Value := do
  match operands with
  | [weights] =>
    match ← weights.value with
    | .map entries => shareOut call (← weightsOfMap weights.node entries)
    | v => wrongType weights.node "weight map" v
  | _ =>
    if operands.length % 2 = 0 then shareOut call (← weightsOfPairs operands)
    else fail call (.weightArguments operands.length)

/-! ## Rankings -/

def select (selector : Nat → Selector) : List Operand → Eval Value
  | [o] => do pure (.selector (selector (← o.count)))
  | _ => fault .missingArgument

/-- The distinct symbols of the candidates with their values, in order. A candidate is empty or has
one symbol. -/
def candidates (call node : Node) (metric : Metric) (seen : List String) :
    List Allocation → Eval (List Candidate)
  | [] => pure []
  | a :: rest =>
    match a.symbols with
    | [] => candidates call node metric seen rest
    | [symbol] =>
      if seen.contains symbol then candidates call node metric seen rest
      else do
        let value ← fetch call ⟨symbol, metric⟩
        let others ← candidates call node metric (symbol :: seen) rest
        pure (⟨value, symbol⟩ :: others)
    | _ :: _ :: _ => fail node (.severalSymbols a.size)

/-- The step of the trace that tells how candidates were ranked and which were chosen. -/
def rankingStep (metric : Metric) (selector : Selector) (ranked : List Candidate) : String :=
  let all := ranked.map fun c => c.symbol ++ "=" ++ c.value.renderShort
  let chosen := (ranked.take selector.count).map (·.symbol)
  "filter " ++ metric.render ++ " " ++ selector.render ++ ": [" ++ ", ".intercalate all ++ "] -> ["
    ++ ", ".intercalate chosen ++ "]"

/-- The first candidates of the ranking by a metric, with equal weights. -/
def filter (call : Node) : List Operand → Eval Value
  | [metric, selector, children] => do
    let m ← expectMetric metric.node (← metric.value)
    let s ← expectSelector selector.node (← selector.value)
    let as ← children.allocations
    let ranked := s.rank (← candidates call children.node m [] as)
    record (rankingStep m s ranked)
    let chosen := (ranked.take s.count).map fun c => Allocation.single c.symbol
    pure (.allocation (← ofWeights (Allocation.equalWeight chosen)))
  | _ => fault .missingArgument

/-! ## Indicators -/

/-- The value of an indicator for a symbol, or the metric that still waits for one. -/
def indicator (call : Node) (i : Indicator) (operands : List Operand) : Eval Value := do
  if i.takesPeriod then
    match operands with
    | [period] => do
      let n ← period.period
      pure (.metric ⟨i, n⟩)
    | [symbol, period] => do
      let s ← symbol.string
      let n ← period.period
      pure (.number (← fetch call ⟨s, ⟨i, n⟩⟩))
    | _ => fail call (.indicatorArguments i operands.length)
  else
    match operands with
    | [] => pure (.metric ⟨i, 0⟩)
    | symbol :: _ => do
      let s ← symbol.string
      pure (.number (← fetch call ⟨s, ⟨i, 0⟩⟩))

end Operator

/-- Applies an operator to its operands. -/
def Form.apply (call : Node) (operands : List Operand) : Form → Eval Value
  | .defsymphony => Operator.defsymphony operands
  | .group => Operator.group operands
  | .conditional => Operator.conditional operands
  | .conjunction => Operator.logical false operands
  | .disjunction => Operator.logical true operands
  | .negation => Operator.negation operands
  | .comparison op => Operator.comparison op operands
  | .arithmetic op => Operator.arithmetic call op operands
  | .asset => Operator.asset operands
  | .weightEqual => Operator.weightEqual operands
  | .weightSpecified => Operator.weightSpecified call operands
  | .filter => Operator.filter call operands
  | .selectTop => Operator.select .top operands
  | .selectBottom => Operator.select .bottom operands
  | .indicator i => Operator.indicator call i operands

end AllocScript
