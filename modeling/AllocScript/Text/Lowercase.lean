import AllocScript.Text.CaseTables

/-!
# Small letters

`lowercase` writes a text in small letters by the full case mapping of the Unicode standard. Every
capital has one small letter, with two exceptions: the dotted capital I becomes an i with a dot
above, and a capital sigma at the end of a word takes the final form.
-/

namespace AllocScript

/-- Whether letter case applies to a character. -/
def isCased (c : Char) : Bool := casedRanges.contains c

/-- Whether the search for the ends of a word passes over a character. -/
def isCaseIgnorable (c : Char) : Bool := caseIgnorableRanges.contains c

namespace CaseRun

/-- The small letter of a code point, if it is one of the capitals of the run. -/
def small? (run : CaseRun) (n : Nat) : Option Nat :=
  if run.first ≤ n && n ≤ run.last && (n - run.first) % run.stride == 0 then
    some (run.small + (n - run.first))
  else
    none

/-- The small letter that the first fitting run gives, or the code point itself. -/
def smallCode (n : Nat) : List CaseRun → Nat
  | [] => n
  | run :: runs =>
    if n < run.first then n else (run.small? n).getD (smallCode n runs)

end CaseRun

/-- The small letters of one character, whatever stands around it. -/
def lowercaseChar (c : Char) : List Char :=
  if c == '\u0130' then ['i', '\u0307'] else [Char.ofNat (CaseRun.smallCode c.toNat caseRuns)]

/-- Whether a word begins or goes on in these characters, read away from a sigma. -/
def reachesCased (cs : List Char) : Bool :=
  match cs.dropWhile isCaseIgnorable with
  | [] => false
  | c :: _ => isCased c

/-- Small letters for the characters `cs` that follow the characters `before`, last one first. -/
def lowercaseFrom (before : List Char) : List Char → List Char
  | [] => []
  | c :: cs =>
    let small :=
      if c == 'Σ' then
        if reachesCased before && !reachesCased cs then ['ς'] else ['σ']
      else
        lowercaseChar c
    small ++ lowercaseFrom (c :: before) cs

/-- A text in small letters. -/
def lowercase (s : String) : String := String.ofList (lowercaseFrom [] s.toList)

end AllocScript
