import AllocScript.Decimal.Basic

/-!
# Syntax trees

A strategy is a tree of nodes. A leaf is a number, a string or a symbol; a keyword is a symbol that
begins with a colon. A list is plain, written in round or square brackets, or a map, written in
curly brackets with keys and values by turns. Every node knows the byte offset where it begins.
-/

namespace AllocScript

inductive Atom where
  | number (value : Decimal)
  | string (text : String)
  | symbol (name : String)
deriving DecidableEq

inductive ListKind where
  | plain
  | map
deriving DecidableEq

/-- The greatest number of lists that may lie in each other. -/
def maxDepth : Nat := 300

inductive Node where
  | atom (atom : Atom) (position : Nat)
  | list (kind : ListKind) (children : List Node) (position : Nat)

namespace Node

instance : Inhabited Node := ⟨list .plain [] 0⟩

def position : Node → Nat
  | atom _ p => p
  | list _ _ p => p

/-- The name of a symbol. -/
def symbol? : Node → Option String
  | atom (.symbol name) _ => some name
  | _ => none

def isKeyword (n : Node) : Bool :=
  match n.symbol? with
  | some name => name.toList.head? == some ':'
  | none => false

def children? : Node → Option (List Node)
  | atom .. => none
  | list _ children _ => some children

/-- The operator of a call: the symbol at the head of a plain list, unless it is a keyword. -/
def head? : Node → Option String
  | list .plain (first :: _) _ => if first.isKeyword then none else first.symbol?
  | _ => none

mutual

/-- The number of lists around the innermost node. -/
def depth : Node → Nat
  | atom .. => 0
  | list _ children _ => 1 + depthOfAll children

def depthOfAll : List Node → Nat
  | [] => 0
  | n :: ns => max n.depth (depthOfAll ns)

end

end Node

end AllocScript
