/-!
# Records of comma-separated values

`Records.ofBytes` cuts the bytes of a file into records and these into fields. Fields are divided
by commas. A quote that is the first byte of a field opens a quoted part, where commas and line
ends are ordinary bytes and two quotes stand for one; what follows the closing quote belongs to the
field as it is. A record ends at a line feed or a carriage return. Empty lines and lines that begin
with a number sign lie between records.

A record remembers where the search for it began: the byte behind the end of the record before it,
and the number of the line in which that byte is, one more than the line feeds before it.
-/

namespace AllocScript

/-- A record and the place where the search for it began. -/
structure Record where
  fields : List (List UInt8)
  line : Nat
  byte : Nat
deriving DecidableEq

namespace Records

def comma : UInt8 := 44
def doubleQuote : UInt8 := 34
def numberSign : UInt8 := 35
def lineFeed : UInt8 := 10
def carriageReturn : UInt8 := 13

/-- How the bytes of a field have gone so far. -/
inductive FieldState where
  /-- No byte yet. -/
  | start
  /-- Outside quotes. -/
  | plain
  /-- Inside quotes. -/
  | quoted
  /-- Behind a quote inside quotes, which closes them unless another one follows. -/
  | closing
deriving DecidableEq

/-- Where the reader is. -/
inductive Place where
  | between
  | comment
  /-- In a record with some complete fields and the bytes of one more, all last one first. -/
  | record (fields : List (List UInt8)) (field : List UInt8) (state : FieldState)
deriving DecidableEq

/-- The reader: the records found, last one first, its place, the place where the search for the
next record began, and the line and the byte to be read next. -/
structure Reader where
  found : List Record
  place : Place
  searchLine : Nat
  searchByte : Nat
  line : Nat
  byte : Nat

/-- A record ends with these fields, last one first, and the search for the next one begins. -/
def Reader.finish (r : Reader) (fields : List (List UInt8)) : Reader :=
  { r with
    found := ⟨fields.reverse, r.searchLine, r.searchByte⟩ :: r.found
    place := .between, searchLine := r.line, searchByte := r.byte }

/-- Takes a byte into a record. -/
def Reader.takeField (r : Reader) (fields : List (List UInt8)) (field : List UInt8)
    (state : FieldState) (b : UInt8) : Reader :=
  match state with
  | .quoted =>
    if b = doubleQuote then { r with place := .record fields field .closing }
    else { r with place := .record fields (b :: field) .quoted }
  | .start | .plain | .closing =>
    if b = comma then { r with place := .record (field.reverse :: fields) [] .start }
    else if b = lineFeed ∨ b = carriageReturn then r.finish (field.reverse :: fields)
    else if b = doubleQuote ∧ state = .start then { r with place := .record fields field .quoted }
    else if b = doubleQuote ∧ state = .closing then
      { r with place := .record fields (b :: field) .quoted }
    else { r with place := .record fields (b :: field) .plain }

/-- Takes the next byte. -/
def Reader.step (r : Reader) (b : UInt8) : Reader :=
  let r :=
    { r with line := if b = lineFeed then r.line + 1 else r.line, byte := r.byte + 1 }
  match r.place with
  | .between =>
    if b = lineFeed ∨ b = carriageReturn then r
    else if b = numberSign then { r with place := .comment }
    else r.takeField [] [] .start b
  | .comment => if b = lineFeed then { r with place := .between } else r
  | .record fields field state => r.takeField fields field state b

/-- The records at the end of the bytes. A comment without a line end leaves a record with one
empty field. -/
def Reader.records (r : Reader) : List Record :=
  match r.place with
  | .between => r.found.reverse
  | .comment => (r.finish [[]]).found.reverse
  | .record fields field _ => (r.finish (field.reverse :: fields)).found.reverse

/-- A byte order mark at the beginning of a text. -/
def byteOrderMark : List UInt8 := [0xEF, 0xBB, 0xBF]

/-- The records of a file. -/
def ofBytes (bytes : List UInt8) : List Record :=
  let mark := if byteOrderMark.isPrefixOf bytes then byteOrderMark.length else 0
  ((bytes.drop mark).foldl Reader.step ⟨[], .between, 1, 0, 1, mark⟩).records

end Records

end AllocScript
