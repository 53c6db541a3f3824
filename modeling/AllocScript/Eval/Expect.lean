import AllocScript.Eval.Basic
import AllocScript.Text.Blank

/-!
# Values of the expected kind

Each function here takes the value of a node and gives what an operator needs of it, or fails at
that node with the kind that was expected and the kind that was found.
-/

namespace AllocScript

namespace Eval

variable {α : Type}

def wrongType (node : Node) (expected : String) (found : Value) : Eval α :=
  fail node (.wrongType expected found.typeName)

def expectNumber (node : Node) : Value → Eval Decimal
  | .number d => pure d
  | v => wrongType node "number" v

def expectBoolean (node : Node) : Value → Eval Bool
  | .boolean b => pure b
  | v => wrongType node "boolean" v

def expectString (node : Node) : Value → Eval String
  | .string s => pure s
  | v => wrongType node "string" v

/-- The allocations of a list. -/
def expectItems (node : Node) : List Value → Eval (List Allocation)
  | [] => pure []
  | .allocation a :: vs => do
    let as ← expectItems node vs
    pure (a :: as)
  | v :: _ => fail node (.wrongItem v.typeName)

/-- A list of allocations, or one allocation in place of the list that holds it alone. -/
def expectAllocations (node : Node) : Value → Eval (List Allocation)
  | .allocation a => pure [a]
  | .list items => expectItems node items
  | v => wrongType node "list of allocations" v

/-- A whole number from 1 to the greatest period. -/
def expectPositive (node : Node) (what : String) (d : Decimal) : Eval Nat :=
  match d.toCount? with
  | some n => pure n
  | none => fail node (.notPositiveInteger what d)

def expectCount (node : Node) (v : Value) : Eval Nat := do
  expectPositive node "count" (← expectNumber node v)

/-- The value under the key `:window`, the last one if there are several, and no other keys. -/
def expectWindow (node : Node) (window : Option Value) :
    List (Value × Value) → Eval (Option Value)
  | [] => pure window
  | (.keyword "window", v) :: rest => expectWindow node (some v) rest
  | (k, _) :: _ => fail node (.unknownParameter k.render)

/-- A look-back period, as a number or as a map with the key `:window`. -/
def expectPeriod (node : Node) : Value → Eval Nat
  | .number d => expectPositive node "period" d
  | .map entries => do
    match ← expectWindow node none entries with
    | some (.number d) => expectPositive node "period" d
    | some v => wrongType node "numeric :window" v
    | none => fail node .missingWindow
  | v => wrongType node "period or \x7b:window n\x7d" v

/-- A weight is a number that is not negative. -/
def expectWeight (node : Node) (v : Value) : Eval Decimal := do
  let weight ← expectNumber node v
  if weight.isNegative then fail node (.negativeWeight weight) else pure weight

/-- An allocation, or a symbol that stands for the allocation of it alone. -/
def expectChild (node : Node) : Value → Eval Allocation
  | .allocation a => pure a
  | .string symbol => pure (.single symbol)
  | v => wrongType node "allocation" v

/-- The text of a scalar. -/
def expectScalar (node : Node) : Value → Eval String
  | .string s => pure s
  | .keyword k => pure k
  | .number d => pure d.renderShort
  | .boolean b => pure (toString b)
  | v => fail node (.parameterValue v.typeName)

def expectMetric (node : Node) : Value → Eval Metric
  | .metric m => pure m
  | v => wrongType node "an indicator metric such as (rsi 10)" v

def expectSelector (node : Node) : Value → Eval Selector
  | .selector s => pure s
  | v => wrongType node "(select-top n) or (select-bottom n)" v

end Eval

end AllocScript
