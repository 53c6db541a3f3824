import AllocScript.Snapshot
import AllocScript.Snapshot.Records
import AllocScript.Text.Blank
import AllocScript.Text.Lowercase
import AllocScript.Text.Utf8

/-!
# Snapshots from files

`Snapshot.ofCsv` reads a snapshot from comma-separated values with the columns `symbol`,
`indicator`, `period` and `value`. It takes all records or none: the first record with a fault
decides the error, and in a record the columns are checked from left to right before the record is
compared with the ones before it.
-/

namespace AllocScript

/-- What is wrong with the contents of a record. -/
inductive RowProblem where
  | missingSymbol
  | unknownIndicator (name : String)
  | unusedPeriod (indicator : Indicator) (text : String)
  | invalidPeriod (indicator : Indicator) (text : String)
  | invalidValue (text : String) (error : Decimal.ReadError)
  | duplicate (request : Request)
deriving DecidableEq

def RowProblem.message : RowProblem → String
  | .missingSymbol => "missing symbol"
  | .unknownIndicator name => s!"unknown indicator '{name}'"
  | .unusedPeriod indicator text => s!"{indicator.name} takes no period, found '{text}'"
  | .invalidPeriod indicator text => s!"invalid period '{text}' for {indicator.name}"
  | .invalidValue text error => s!"invalid value '{text}': {error.message}"
  | .duplicate request => s!"duplicate entry for {request.symbol} {request.metric.render}"

/-- Why a file holds no snapshot. -/
inductive SnapshotProblem where
  | header (found : List String)
  | fieldCount (number : Nat) (record : Record)
  | encoding (number : Nat) (record : Record) (field : Nat) (offset : Nat)
  | row (line : Nat) (problem : RowProblem)
deriving DecidableEq

namespace SnapshotProblem

/-- The columns of a snapshot. -/
def columns : List String := ["symbol", "indicator", "period", "value"]

def message : SnapshotProblem → String
  | header found =>
    let expected := ",".intercalate columns
    let given := ",".intercalate found
    s!"expected header '{expected}', found '{given}'"
  | fieldCount number record =>
    s!"CSV parse error: CSV error: record {number} (line: {record.line}, byte: {record.byte}): "
      ++ s!"found record with {record.fields.length} fields, "
      ++ s!"but the previous record has {columns.length} fields"
  | encoding number record field offset =>
    let stage := if number = 0 then "CSV header error" else "CSV parse error"
    s!"{stage}: CSV parse error: record {number} "
      ++ s!"(line {record.line}, field: {field}, byte: {record.byte}): "
      ++ s!"invalid utf-8: invalid UTF-8 in field {field} near byte index {offset}"
  | row line problem => s!"row {line}: {problem.message}"

end SnapshotProblem

namespace Csv

/-- The texts of fields from number `index` on, without the blank space around them; otherwise the
number of the first field that is not text, and the offset of its fault. -/
def decodeFields (index : Nat) : List (List UInt8) → Except (Nat × Nat) (List String)
  | [] => .ok []
  | field :: fields =>
    match decodeUtf8 ⟨field.toArray⟩ with
    | .error offset => .error (index, offset)
    | .ok text => (decodeFields (index + 1) fields).map (trim text :: ·)

def decodeRecord (number : Nat) (record : Record) : Except SnapshotProblem (List String) :=
  match decodeFields 0 record.fields with
  | .error (field, offset) => .error (.encoding number record field offset)
  | .ok texts => .ok texts

/-- A whole number from 1 to the greatest period, with a plus sign in front or without. -/
def readPeriod? (text : String) : Option Nat :=
  let digits := match text.toList with
    | '+' :: cs => cs
    | cs => cs
  if digits.isEmpty || !digits.all Char.isDigit then none
  else
    let n := Nat.ofDigitChars 10 digits 0
    if 0 < n ∧ n ≤ maxPeriod then some n else none

/-- The period of an indicator; the current price has none, written as nothing or as zero. -/
def readPeriod (indicator : Indicator) (text : String) : Except RowProblem Nat :=
  if indicator.takesPeriod then
    match readPeriod? text with
    | some n => .ok n
    | none => .error (.invalidPeriod indicator text)
  else if text = "" ∨ text = "0" then .ok 0
  else .error (.unusedPeriod indicator text)

/-- The request and the value that a record states. -/
def readRow (symbol name period value : String) : Except RowProblem (Request × Decimal) :=
  if symbol = "" then .error .missingSymbol
  else
    match Indicator.ofName? name with
    | none => .error (.unknownIndicator name)
    | some indicator => do
      let n ← readPeriod indicator period
      match Decimal.read value with
      | .error e => .error (.invalidValue value e)
      | .ok d => .ok (⟨symbol, indicator, n⟩, d)

/-- Adds the value that a record states to a snapshot. -/
def addRow (snapshot : Snapshot) (texts : List String) : Except RowProblem Snapshot := do
  let (request, value) ←
    readRow (texts[0]?.getD "") (texts[1]?.getD "") (texts[2]?.getD "") (texts[3]?.getD "")
  if (snapshot.get? request).isSome then .error (.duplicate request)
  else .ok (snapshot.insert request value)

/-- Adds one record, the one with this number behind the header. -/
def addRecord (snapshot : Snapshot) (number : Nat) (record : Record) :
    Except SnapshotProblem Snapshot := do
  if record.fields.length ≠ SnapshotProblem.columns.length then
    .error (.fieldCount number record)
  else
    let texts ← decodeRecord number record
    match addRow snapshot texts with
    | .ok snapshot => .ok snapshot
    | .error problem => .error (.row record.line problem)

/-- Adds records, the first one having this number. -/
def addRecords (snapshot : Snapshot) (number : Nat) :
    List Record → Except SnapshotProblem Snapshot
  | [] => .ok snapshot
  | record :: records =>
    addRecord snapshot number record >>= fun snapshot => addRecords snapshot (number + 1) records

/-- The snapshot that a header and records state. -/
def load : List Record → Except SnapshotProblem Snapshot
  | [] => .error (.header [])
  | header :: records => do
    let names ← decodeRecord 0 header
    let found := names.map lowercase
    if found = SnapshotProblem.columns then addRecords .empty 1 records
    else .error (.header found)

end Csv

/-- Reads a snapshot from comma-separated values. -/
def Snapshot.ofCsv (bytes : List UInt8) : Except SnapshotProblem Snapshot :=
  Csv.load (Records.ofBytes bytes)

end AllocScript
