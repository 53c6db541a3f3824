import AllocScript.Eval.Operators

/-!
# Evaluation

`Node.eval` gives the value of a node. Numbers and strings stand for themselves, a keyword for its
name, and `true` and `false` for truth values; no other symbol has a value. A plain list that
begins with a symbol calls an operator, any other plain list gives the list of its values, and a
map evaluates its keys and values in order. `evaluate` asks for an allocation, from the context
that earlier evaluations have left.

The recursion is on the tree: the children of a list become operands, and what an operator does
with its operands is no matter of this module. Every node tells when its evaluation begins and
which value it has.
-/

namespace AllocScript

open Eval

/-- The value of a leaf. -/
def Atom.eval (node : Node) : Atom → Eval Value
  | .number d => pure (.number d)
  | .string s => pure (.string s)
  | .symbol name =>
    match name.toList with
    | ':' :: keyword => pure (.keyword (String.ofList keyword))
    | _ =>
      if name = "true" then pure (.boolean true)
      else if name = "false" then pure (.boolean false)
      else if (Form.lookup? name).isSome then fail node (.bareOperator name)
      else fail node (.undefinedSymbol name)

namespace Node

/-- The values of operands in order. -/
def valuesOf : List Operand → Eval (List Value)
  | [] => pure []
  | o :: rest => do
    let v ← o.value
    let vs ← valuesOf rest
    pure (v :: vs)

/-- The entries of a map whose operands are keys and values by turns. -/
def entriesOf (node : Node) : List Operand → Eval (List (Value × Value))
  | [] => pure []
  | [key] => do
    let _ ← key.value
    fail node .keyWithoutValue
  | key :: value :: rest => do
    let k ← key.value
    let v ← value.value
    let others ← entriesOf node rest
    pure ((k, v) :: others)

/-- Calls the operator of a name. -/
def call (node : Node) (name : String) (operands : List Operand) : Eval Value :=
  match Form.lookup? name with
  | none => fail node (.unknownOperator name)
  | some entry =>
    if entry.arity.accepts operands.length then entry.form.apply node operands
    else fail node (.argumentCount name entry.arity operands.length)

/-- The value of a list whose children are the operands. -/
def evalList (node : Node) (kind : ListKind) (operands : List Operand) : Eval Value :=
  match kind with
  | .map => do pure (.map (← entriesOf node operands))
  | .plain =>
    match node.head?, operands with
    | some name, _ :: arguments => call node name arguments
    | some _, [] => fault .missingArgument
    | none, _ => do pure (.list (← valuesOf operands))

mutual

/-- The value of the node at a path. -/
def eval : Node → NodePath → Eval Value
  | atom a p, path => do
    emit (.begun path)
    let v ← a.eval (atom a p)
    emit (.found path v)
    pure v
  | list kind children p, path => do
    emit (.begun path)
    let v ← nested (list kind children p)
      (evalList (list kind children p) kind (operandsOf children path 0))
    emit (.found path v)
    pure v

/-- The children of the list at a path as operands, the first one having this index. -/
def operandsOf : List Node → NodePath → Nat → List Operand
  | [], _, _ => []
  | n :: ns, path, index => ⟨n, n.eval (index :: path)⟩ :: operandsOf ns path (index + 1)

end

/-- The allocation that a strategy evaluates to. -/
def evalStrategy (node : Node) : Eval Allocation := do
  match ← node.eval [] with
  | .allocation a => pure a
  | v => fail node (.notAllocation v.typeName)

end Node

/-! ## Evaluations in a context -/

/-- An allocation with the texts that have been written. A text of its own stays. -/
def Allocation.withMetadata (a : Allocation) (metadata : TextMap String) : Allocation :=
  { a with metadata := metadata.entries.foldl (fun m e => m.insertNew e.1 e.2) a.metadata }

/-- The result of an evaluation, the context that it leaves, and the requests that it made. -/
structure Run where
  result : Except Stop Allocation
  context : Context
  requests : List Request

/-- Evaluates a strategy from a context. An evaluation has a thread of its own, with a stack for as
many nested lists as the limit admits. It is assumed that this thread starts: the error of a system
that cannot start another one is left out. -/
def evaluate (node : Node) (setting : Setting) (context : Context) : Run :=
  let o := node.evalStrategy setting (.initial context)
  ⟨o.result.map (·.withMetadata o.state.metadata), o.state.toContext, Event.requests o.events⟩

end AllocScript
