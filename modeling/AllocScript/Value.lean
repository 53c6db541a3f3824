import AllocScript.Allocation
import AllocScript.Indicator
import AllocScript.Text.Quoted

/-!
# Values of expressions

Every expression of a strategy has a value: a number, a truth value, a text, a keyword, a list, a
map, an allocation, a metric that waits for a symbol, or a selector that takes the first few of a
ranking.
-/

namespace AllocScript

/-- Takes a number of candidates from the upper or the lower end of a ranking. -/
inductive Selector where
  | top (count : Nat)
  | bottom (count : Nat)
deriving DecidableEq

namespace Selector

def count : Selector → Nat
  | top n | bottom n => n

def render : Selector → String
  | top n => s!"select-top {n}"
  | bottom n => s!"select-bottom {n}"

end Selector

inductive Value where
  | number (value : Decimal)
  | boolean (value : Bool)
  | string (text : String)
  /-- A keyword without its colon. -/
  | keyword (name : String)
  | list (items : List Value)
  | map (entries : List (Value × Value))
  | allocation (value : Allocation)
  | metric (value : Metric)
  | selector (value : Selector)

namespace Value

instance : Inhabited Value := ⟨boolean false⟩

def typeName : Value → String
  | number _ => "number"
  | boolean _ => "boolean"
  | string _ => "string"
  | keyword _ => "keyword"
  | list _ => "list"
  | map _ => "map"
  | allocation _ => "allocation"
  | metric _ => "metric"
  | selector _ => "selector"

mutual

/-- The text of a value in messages. -/
def render : Value → String
  | number d => d.renderShort
  | boolean b => toString b
  | string s => quote s
  | keyword k => ":" ++ k
  | list items => "[" ++ " ".intercalate (renderItems items) ++ "]"
  | map entries => "\x7b" ++ " ".intercalate (renderEntries entries) ++ "\x7d"
  | allocation a => a.render
  | metric m => m.render
  | selector s => s.render

def renderItems : List Value → List String
  | [] => []
  | v :: vs => v.render :: renderItems vs

def renderEntries : List (Value × Value) → List String
  | [] => []
  | (k, v) :: rest => (k.render ++ " " ++ v.render) :: renderEntries rest

end

mutual

/-- Equality by value: numbers and weights are compared without regard to their scale. -/
def same : Value → Value → Bool
  | number a, number b => a.sameValue b
  | boolean a, boolean b => a == b
  | string a, string b => a == b
  | keyword a, keyword b => a == b
  | list as, list bs => sameItems as bs
  | map as, map bs => sameEntries as bs
  | allocation a, allocation b => a.same b
  | metric a, metric b => a == b
  | selector a, selector b => a == b
  | _, _ => false

def sameItems : List Value → List Value → Bool
  | [], [] => true
  | a :: as, b :: bs => a.same b && sameItems as bs
  | _, _ => false

def sameEntries : List (Value × Value) → List (Value × Value) → Bool
  | [], [] => true
  | (k, v) :: as, (k', v') :: bs => k.same k' && v.same v' && sameEntries as bs
  | _, _ => false

end

end Value

end AllocScript
