import AllocScript.Decimal.Text
import AllocScript.TextMap

/-!
# Target allocations

An `Allocation` gives weights to symbols and carries some texts about the strategy that it came
from. Weights are decimals, so every operation on them may leave the range of decimals; it then
says by which kind of arithmetic (`Overflow`).

The sum of the weights need not be one: a strategy whose branch yields nothing has the empty
allocation as its result. `normalized` divides by the sum.
-/

namespace AllocScript

/-- An operation on weights whose result is too large for a decimal. -/
inductive Overflow where
  | addition
  | multiplication
  | division
deriving DecidableEq

def Overflow.message : Overflow → String
  | addition => "Addition overflowed"
  | multiplication => "Multiplication overflowed"
  | division => "Division overflowed"

/-- Weights by symbol, and texts by key. -/
structure Allocation where
  weights : TextMap Decimal
  metadata : TextMap String
deriving DecidableEq

namespace Allocation

def empty : Allocation := ⟨.empty, .empty⟩

instance : Inhabited Allocation := ⟨empty⟩

/-- One symbol with the whole weight. -/
def single (symbol : String) : Allocation := ⟨.single symbol .one, .empty⟩

def isEmpty (a : Allocation) : Bool := a.weights.isEmpty

def size (a : Allocation) : Nat := a.weights.size

def symbols (a : Allocation) : List String := a.weights.keys

def weight? (a : Allocation) (symbol : String) : Option Decimal := a.weights.get? symbol

/-! ## Checked arithmetic on weights -/

def sum (a b : Decimal) : Except Overflow Decimal :=
  match a.add? b with
  | some c => .ok c
  | none => .error .addition

def product (a b : Decimal) : Except Overflow Decimal :=
  match a.mul? b with
  | some c => .ok c
  | none => .error .multiplication

def quotient (a b : Decimal) : Except Overflow Decimal :=
  match a.div? b with
  | some c => .ok c
  | none => .error .division

/-! ## Operations -/

/-- The sum of decimals from left to right, each step rounded. -/
def sumFrom (start : Decimal) : List Decimal → Except Overflow Decimal
  | [] => .ok start
  | d :: ds => sum start d >>= fun start => sumFrom start ds

/-- The sum of the weights in the order of the symbols. -/
def total (a : Allocation) : Except Overflow Decimal := sumFrom .zero a.weights.values

/-- Adds to the weight of a symbol. A weight of zero or less changes nothing. -/
def add (a : Allocation) (symbol : String) (weight : Decimal) : Except Overflow Allocation :=
  if weight.isPositive then
    (sum ((a.weight? symbol).getD .zero) weight).map fun w =>
      { a with weights := a.weights.insert symbol w }
  else
    .ok a

/-- Divides every weight by the sum of all. An allocation whose weights sum to zero stays as it
is. -/
def normalized (a : Allocation) : Except Overflow Allocation :=
  a.total >>= fun total =>
    if total.isZero then .ok a
    else (a.weights.mapValues fun w => quotient w total).map fun ws => { a with weights := ws }

/-- Adds weights, each multiplied by a factor. -/
def addScaled (a : Allocation) (factor : Decimal) :
    List (String × Decimal) → Except Overflow Allocation
  | [] => .ok a
  | (symbol, w) :: rest =>
    product w factor >>= fun w => a.add symbol w >>= fun a => a.addScaled factor rest

/-- Adds every weight of another allocation, multiplied by a factor. -/
def mergeScaled (a other : Allocation) (factor : Decimal) : Except Overflow Allocation :=
  a.addScaled factor other.weights.entries

/-- The same symbols with weights of the same value, and the same texts. -/
def same (a b : Allocation) : Bool :=
  a.metadata == b.metadata && a.symbols == b.symbols &&
    (a.weights.values.zip b.weights.values).all fun (v, w) => v.sameValue w

/-! ## Written forms -/

/-- The allocation in one line, for messages. -/
def render (a : Allocation) : String :=
  "\x7b" ++ ", ".intercalate (a.weights.entries.map fun (s, w) => s ++ ": " ++ w.renderShort)
    ++ "\x7d"

/-- A line for each symbol: the symbol, a blank and its weight. -/
def report (a : Allocation) : String :=
  "\n".intercalate (a.weights.entries.map fun (s, w) => s ++ " " ++ w.renderShort)

end Allocation

end AllocScript
