import AllocScript.Indicator

/-!
# The vocabulary of operators

`Form` lists what an operator may be, `Arity` how many arguments it takes, and `Form.table` gives
every operator its name and its arity.
-/

namespace AllocScript

inductive Comparison where
  | greater
  | less
  | greaterEqual
  | lessEqual
  | equal
deriving DecidableEq

inductive Operation where
  | add
  | subtract
  | multiply
  | divide
deriving DecidableEq

inductive Form where
  | defsymphony
  | group
  | conditional
  | conjunction
  | disjunction
  | negation
  | comparison (op : Comparison)
  | arithmetic (op : Operation)
  | asset
  | weightEqual
  | weightSpecified
  | filter
  | selectTop
  | selectBottom
  | indicator (indicator : Indicator)
deriving DecidableEq

/-- The accepted numbers of arguments, without the operator itself. -/
inductive Arity where
  | exactly (count : Nat)
  | between (low high : Nat)
  | atLeast (count : Nat)
deriving DecidableEq

namespace Arity

def accepts (n : Nat) : Arity → Bool
  | exactly k => n == k
  | between low high => low ≤ n && n ≤ high
  | atLeast k => k ≤ n

def counted (n : Nat) : String := s!"{n} " ++ if n = 1 then "argument" else "arguments"

def render : Arity → String
  | exactly k => counted k
  | between low high => s!"{low} to {high} arguments"
  | atLeast k => "at least " ++ counted k

end Arity

/-- An operator with its name and its arity. -/
structure FormEntry where
  name : String
  form : Form
  arity : Arity
deriving DecidableEq

namespace Form

/-- An indicator is asked for with a period and before that a symbol, unless the symbol is to come
from a filter. The current price has no period. -/
def indicatorEntry (i : Indicator) : FormEntry :=
  ⟨i.name, .indicator i, if i.takesPeriod then .between 1 2 else .between 0 1⟩

/-- Every operator. -/
def table : List FormEntry :=
  [⟨"defsymphony", .defsymphony, .between 2 3⟩,
    ⟨"group", .group, .exactly 2⟩,
    ⟨"if", .conditional, .between 2 3⟩,
    ⟨"and", .conjunction, .atLeast 1⟩,
    ⟨"or", .disjunction, .atLeast 1⟩,
    ⟨"not", .negation, .exactly 1⟩,
    ⟨">", .comparison .greater, .exactly 2⟩,
    ⟨"<", .comparison .less, .exactly 2⟩,
    ⟨">=", .comparison .greaterEqual, .exactly 2⟩,
    ⟨"<=", .comparison .lessEqual, .exactly 2⟩,
    ⟨"=", .comparison .equal, .exactly 2⟩,
    ⟨"+", .arithmetic .add, .atLeast 1⟩,
    ⟨"-", .arithmetic .subtract, .atLeast 1⟩,
    ⟨"*", .arithmetic .multiply, .atLeast 1⟩,
    ⟨"/", .arithmetic .divide, .atLeast 2⟩,
    ⟨"asset", .asset, .between 1 2⟩,
    ⟨"weight-equal", .weightEqual, .exactly 1⟩,
    ⟨"weight-specified", .weightSpecified, .atLeast 1⟩,
    ⟨"filter", .filter, .exactly 3⟩,
    ⟨"select-top", .selectTop, .exactly 1⟩,
    ⟨"select-bottom", .selectBottom, .exactly 1⟩] ++ Indicator.all.map indicatorEntry

def lookup? (name : String) : Option FormEntry := table.find? fun entry => entry.name == name

end Form

end AllocScript
