import AllocScript.Text.Ranges

/-!
# Blank space

`isBlank` is the property White_Space of the Unicode standard. `trim` takes blank space from both
ends of a text, and `isBlankText` holds for a text with nothing else in it.
-/

namespace AllocScript

/-- The code points with the property White_Space, in ascending order. -/
def blankRanges : Ranges := [
  (0x9, 0xD), (0x20, 0x20), (0x85, 0x85), (0xA0, 0xA0), (0x1680, 0x1680), (0x2000, 0x200A),
  (0x2028, 0x2029), (0x202F, 0x202F), (0x205F, 0x205F), (0x3000, 0x3000)]

/-- A character with the property White_Space. -/
def isBlank (c : Char) : Bool := blankRanges.contains c

/-- Takes the blank characters from both ends. -/
def trimChars (cs : List Char) : List Char :=
  ((cs.dropWhile isBlank).reverse.dropWhile isBlank).reverse

/-- Takes the blank characters from both ends of a text. -/
def trim (s : String) : String := String.ofList (trimChars s.toList)

/-- A text without a character that is not blank. -/
def isBlankText (s : String) : Bool := s.toList.all isBlank

end AllocScript
