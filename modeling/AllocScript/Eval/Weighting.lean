import AllocScript.Allocation

/-!
# Sharing weight among allocations

`equalWeight` gives every non-empty child the same share; `specifiedWeight` gives each its own
weight over the sum of the weights. Either rescales a child to the sum one before it takes the
share. Empty children count for nothing.
-/

namespace AllocScript

namespace Allocation

/-- Adds the children, each rescaled and multiplied by its share. -/
def addShares (sum : Allocation) : List (Except Overflow Decimal × Allocation) →
    Except Overflow Allocation
  | [] => .ok sum
  | (share, child) :: rest => do
    let child ← child.normalized
    let share ← share
    let sum ← sum.mergeScaled child share
    addShares sum rest

/-- The same share, `1 / n` rounded, for each of the `n` children that are not empty. -/
def equalWeight (children : List Allocation) : Except Overflow Allocation :=
  let present := children.filter fun c => !c.isEmpty
  if present.isEmpty then .ok .empty
  else do
    let share ← quotient .one (.ofCount present.length)
    addShares .empty (present.map fun c => (.ok share, c))

/-- Why weights cannot be shared out. -/
inductive WeightProblem where
  | totalOverflow
  | zeroTotal
  | overflow (kind : Overflow)
deriving DecidableEq

/-- The share `weight / total` for each child that is not empty, where `total` sums the weights of
those children. A child with weight zero is left out. -/
def specifiedWeight (children : List (Decimal × Allocation)) :
    Except WeightProblem Allocation :=
  let present := children.filter fun c => !c.2.isEmpty
  if present.isEmpty then .ok .empty
  else
    match sumFrom .zero (present.map Prod.fst) with
    | .error _ => .error .totalOverflow
    | .ok total =>
      if total.isZero then .error .zeroTotal
      else
        let weighted := present.filter fun c => !c.1.isZero
        match addShares .empty (weighted.map fun c => (quotient c.1 total, c.2)) with
        | .error kind => .error (.overflow kind)
        | .ok a => .ok a

end Allocation

end AllocScript
