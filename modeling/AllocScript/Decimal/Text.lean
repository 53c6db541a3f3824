import AllocScript.Decimal.Basic

/-!
# Decimals as text

`Decimal.render` writes a decimal with as many fraction digits as its scale. `Decimal.read` accepts
an optional sign and digits with at most one point, underscores being allowed after the first
digit; it neither rounds nor cuts, and reports the first fault from the left.
-/

namespace AllocScript

namespace Decimal

/-- Powers in the definitions of this module, whatever other instances are in scope. -/
local instance (priority := 2000) powNat {α : Type} [NatPow α] : Pow α Nat := instPowNat

/-! ## Writing -/

/-- The last `places` digits of a number, with zeros in front where it has fewer. -/
def lastDigits : (places : Nat) → Nat → List Char
  | 0, _ => []
  | places + 1, n => lastDigits places (n / 10) ++ [Nat.digitChar (n % 10)]

/-- The written form of a decimal; its scale is the number of digits after the point. -/
def renderChars (d : Decimal) : List Char :=
  let size := d.coefficient.natAbs
  (if d.isNegative then ['-'] else []) ++ Nat.toDigits 10 (size / 10 ^ d.scale)
    ++ if d.scale = 0 then [] else '.' :: lastDigits d.scale size

def render (d : Decimal) : String := String.ofList d.renderChars

/-- The shortest written form: the digits after the point end in no zero. -/
def renderShort (d : Decimal) : String := d.normalize.render

/-! ## Reading -/

/-- Why a text is no decimal. -/
inductive ReadError where
  | empty
  | noDigits
  | secondPoint
  | leadingUnderscore
  | unknownCharacter
  | tooManyDigits
  | tooPrecise
deriving DecidableEq

def ReadError.message : ReadError → String
  | .empty => "Invalid decimal: empty"
  | .noDigits => "Invalid decimal: no digits found"
  | .secondPoint => "Invalid decimal: two decimal points"
  | .leadingUnderscore => "Invalid decimal: must start lead with a number"
  | .unknownCharacter => "Invalid decimal: unknown character"
  | .tooManyDigits => "Invalid decimal: overflow from too many digits"
  | .tooPrecise => "Number has a high precision that can not be represented."

/-- What has been read of a number: its digits as one integer, how many of them stand after the
point, and whether there has been a digit and a point. -/
structure Digits where
  value : Nat
  places : Nat
  started : Bool
  pointed : Bool
  value_lt : value < 2 ^ (96 : Nat)
  places_le : places ≤ 28

namespace Digits

def start : Digits := ⟨0, 0, false, false, zero.coefficient_lt, zero.scale_le⟩

/-- Reads one more digit. -/
def push (r : Digits) (digit : Nat) : Except ReadError Digits :=
  let value := r.value * 10 + digit
  let places := if r.pointed then r.places + 1 else r.places
  if h : value < 2 ^ (96 : Nat) ∧ places ≤ 28 then
    .ok ⟨value, places, true, r.pointed, h.1, h.2⟩
  else
    .error (if r.pointed then .tooPrecise else .tooManyDigits)

/-- Reads one more character. -/
def step (r : Digits) (c : Char) : Except ReadError Digits :=
  if r.places = 28 then .error .tooPrecise
  else if c.isDigit then r.push (c.toNat - '0'.toNat)
  else if c = '.' then
    if r.pointed then .error .secondPoint else .ok { r with pointed := true }
  else if c = '_' then
    if r.started then .ok r else .error .leadingUnderscore
  else .error .unknownCharacter

def readAll (r : Digits) : List Char → Except ReadError Digits
  | [] => .ok r
  | c :: cs => r.step c >>= fun r => r.readAll cs

/-- The decimal with these digits and this sign. -/
def toDecimal (r : Digits) (negative : Bool) : Decimal :=
  ⟨if negative then -r.value else r.value, r.places,
    by have := r.value_lt; split <;> omega, r.places_le⟩

end Digits

/-- The decimal whose digits follow a sign. -/
def readUnsigned (negative : Bool) (cs : List Char) : Except ReadError Decimal :=
  Digits.start.readAll cs >>= fun r =>
    if r.started then .ok (r.toDecimal negative) else .error .noDigits

def readChars : List Char → Except ReadError Decimal
  | [] => .error .empty
  | '-' :: cs => readUnsigned true cs
  | '+' :: cs => readUnsigned false cs
  | cs => readUnsigned false cs

/-- Reads a decimal exactly. -/
def read (s : String) : Except ReadError Decimal := readChars s.toList

end Decimal

end AllocScript
