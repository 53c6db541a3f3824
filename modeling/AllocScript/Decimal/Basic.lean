/-!
# Decimals

A `Decimal` is `coefficient / 10 ^ scale` with a coefficient below `2 ^ 96` in size and a scale of
at most 28. Its meaning is the rational number `toRat`; two decimals with one meaning may differ in
scale, which only their written form shows.

* `ofRat?` is the one rounding: the decimal nearest to a rational number, at the largest scale at
  which the rounded coefficient fits, a half going to the even neighbour, without trailing zeros.
  It has no value where the number is too large even at scale 0.
* `add?`, `sub?`, `mul?` and `div?` are the exact operations on `Rat` followed by that rounding.

That the operations round so is assumed of the decimals that the program computes with: once, to
the nearest, ties to even, at the largest scale that fits. Also assumed is that zero has no sign, so
that no number is written as `-0`.
-/

namespace AllocScript

/-- Powers in the definitions of this module, whatever other instances are in scope. -/
local instance (priority := 2000) powNat {α : Type} [NatPow α] : Pow α Nat := instPowNat

/-- A decimal number with up to 28 digits after the point. -/
structure Decimal where
  coefficient : Int
  scale : Nat
  coefficient_lt : coefficient.natAbs < 2 ^ (96 : Nat)
  scale_le : scale ≤ 28
deriving DecidableEq

/-- The integer nearest to a rational number; of two nearest, the even one. -/
def roundHalfEven (q : Rat) : Int :=
  let low := q.floor
  let rest := q - low
  if rest < 1 / 2 then low
  else if 1 / 2 < rest then low + 1
  else if low % 2 = 0 then low
  else low + 1

namespace Decimal

/-- The number that a decimal stands for. -/
def toRat (d : Decimal) : Rat := (d.coefficient : Rat) / ((10 ^ d.scale : Nat) : Rat)

def zero : Decimal := ⟨0, 0, by decide, by decide⟩

def one : Decimal := ⟨1, 0, by decide, by decide⟩

instance : Inhabited Decimal := ⟨zero⟩

/-- The decimal of a count. It is exact for every number of things that a memory can hold, and stays
at the greatest decimal from there on. -/
def ofCount (n : Nat) : Decimal :=
  ⟨(min n (2 ^ (96 : Nat) - 1) : Nat), 0, by omega, by decide⟩

/-! ## Comparison by value -/

def isZero (d : Decimal) : Bool := d.coefficient == 0

def isNegative (d : Decimal) : Bool := d.coefficient < 0

def isPositive (d : Decimal) : Bool := 0 < d.coefficient

def lt (a b : Decimal) : Bool := a.toRat < b.toRat

def le (a b : Decimal) : Bool := a.toRat ≤ b.toRat

/-- Equality by value: `1.50` and `1.5` are the same. -/
def sameValue (a b : Decimal) : Bool := a.toRat == b.toRat

/-! ## Scale -/

/-- The decimal `c / 10 ^ scale` with zeros at the end of the fraction dropped. -/
def dropZeros (c : Int) : (scale : Nat) → c.natAbs < 2 ^ (96 : Nat) → scale ≤ 28 → Decimal
  | 0, hc, hs => ⟨c, 0, hc, hs⟩
  | s + 1, hc, hs =>
    if c % 10 = 0 then dropZeros (c / 10) s (by omega) (by omega) else ⟨c, s + 1, hc, hs⟩

/-- The same value at the smallest scale. -/
def normalize (d : Decimal) : Decimal :=
  dropZeros d.coefficient d.scale d.coefficient_lt d.scale_le

/-! ## Rounding -/

/-- The nearest decimal of a given scale, if its coefficient fits. -/
def atScale? (q : Rat) (scale : Nat) (h : scale ≤ 28) : Option Decimal :=
  let c := roundHalfEven (q * ((10 ^ scale : Nat) : Rat))
  if hc : c.natAbs < 2 ^ (96 : Nat) then some ⟨c, scale, hc, h⟩ else none

/-- The nearest decimal at the largest fitting scale up to `scale`. -/
def fit? (q : Rat) : (scale : Nat) → scale ≤ 28 → Option Decimal
  | 0, h => atScale? q 0 h
  | s + 1, h => (atScale? q (s + 1) h).orElse fun _ => fit? q s (by omega)

/-- The decimal nearest to a rational number. -/
def ofRat? (q : Rat) : Option Decimal := (fit? q 28 (by decide)).map normalize

/-! ## Arithmetic -/

def neg (d : Decimal) : Decimal :=
  ⟨-d.coefficient, d.scale, by simpa using d.coefficient_lt, d.scale_le⟩

def add? (a b : Decimal) : Option Decimal := ofRat? (a.toRat + b.toRat)

def sub? (a b : Decimal) : Option Decimal := ofRat? (a.toRat - b.toRat)

def mul? (a b : Decimal) : Option Decimal := ofRat? (a.toRat * b.toRat)

/-- The rounded quotient. There is none by zero. -/
def div? (a b : Decimal) : Option Decimal :=
  if b.isZero then none else ofRat? (a.toRat / b.toRat)

/-- The value of a whole number from 1 to `2 ^ 32 - 1`. -/
def toCount? (d : Decimal) : Option Nat :=
  let q := d.toRat
  if q.den = 1 ∧ 0 < q.num ∧ q.num < 2 ^ (32 : Nat) then some q.num.toNat else none

end Decimal

end AllocScript
