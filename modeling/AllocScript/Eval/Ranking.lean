import AllocScript.Value

/-!
# Rankings

`rank` orders candidates by value, the greatest first for a selector from the top and the least
first for one from the bottom. Candidates of one value are ordered by symbol.
-/

namespace AllocScript

/-- A symbol with the value that it is ranked by. -/
structure Candidate where
  value : Decimal
  symbol : String
deriving DecidableEq

namespace Selector

/-- Whether a candidate may stand before another. -/
def ranksBefore (s : Selector) (a b : Candidate) : Bool :=
  let ahead := match s with
    | top _ => b.value.lt a.value
    | bottom _ => a.value.lt b.value
  ahead || (a.value.sameValue b.value && a.symbol ≤ b.symbol)

/-- The candidates in the order of a selector. -/
def rank (s : Selector) (candidates : List Candidate) : List Candidate :=
  candidates.mergeSort s.ranksBefore

end Selector

end AllocScript
