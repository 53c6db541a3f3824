/-!
# Places in a text

A place is given by its byte offset in the UTF-8 form of a text. `placeOf` turns it into the line
and the column that a reader counts, both from one, where a column is a character. `sourceLine`
gives the text of a line without its ending.
-/

namespace AllocScript

/-- The number of bytes that characters take in UTF-8. -/
def byteLength (cs : List Char) : Nat := cs.foldl (fun n c => n + c.utf8Size) 0

/-- The characters before a byte offset, in front of those of `taken`, which is last one first. An
offset inside a character has no such part; one past the end stands for the end. -/
def takeBytesFrom? (taken : List Char) (offset : Nat) : List Char → Option (List Char)
  | [] => some taken.reverse
  | c :: cs =>
    if offset = 0 then some taken.reverse
    else if offset < c.utf8Size then none
    else takeBytesFrom? (c :: taken) (offset - c.utf8Size) cs

/-- The characters before a byte offset. -/
def takeBytes? (offset : Nat) (source : List Char) : Option (List Char) :=
  takeBytesFrom? [] offset source

/-- The line and the column that follow the characters read, from the ones before them. -/
def advance (line column : Nat) : List Char → Nat × Nat
  | [] => (line, column)
  | c :: cs => if c = '\n' then advance (line + 1) 1 cs else advance line (column + 1) cs

/-- The line and the column of a byte offset. An offset inside a character counts as the end of
the text. -/
def placeOf (source : List Char) (offset : Nat) : Nat × Nat :=
  advance 1 1 ((takeBytes? offset source).getD source)

/-- A line before a line feed, last character first, without the carriage return that may belong
to its ending. -/
def dropReturn : List Char → List Char
  | '\r' :: line => line
  | line => line

/-- The lines `done`, last one first, followed by those of a text whose first line has begun with
the characters `line`, last one first. -/
def linesFrom (done : List (List Char)) (line : List Char) : List Char → List (List Char)
  | [] => (if line.isEmpty then done else line.reverse :: done).reverse
  | c :: cs =>
    if c = '\n' then linesFrom ((dropReturn line).reverse :: done) [] cs
    else linesFrom done (c :: line) cs

/-- The lines of a text, each with its ending cut off: a line feed, or a carriage return and a
line feed. A text that ends in a line feed has no empty line after it. -/
def lines (source : List Char) : List (List Char) := linesFrom [] [] source

/-- The text of a line, counted from one; empty where the text has no such line. -/
def sourceLine (source : List Char) (line : Nat) : List Char :=
  (lines source)[line - 1]?.getD []

end AllocScript
