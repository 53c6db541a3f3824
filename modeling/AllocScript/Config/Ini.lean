import AllocScript.Text.Blank
import AllocScript.Text.Lowercase
import AllocScript.Text.Position

/-!
# Settings in sections

`Ini.ofText` reads settings from lines. A line in square brackets begins a section, any other line
holds a key and, behind the first equals sign or colon, its value. A semicolon or a number sign
begins a comment. Sections and keys are the same in capital and in small letters, a later value
takes the place of an earlier one, and keys in front of the first section belong to the section
`default`.
-/

namespace AllocScript

/-- Why a text holds no settings. -/
inductive IniError where
  | unclosedSection (line : Nat)
  | emptyKey (line byte : Nat)
deriving DecidableEq

def IniError.message : IniError → String
  | unclosedSection line =>
    s!"line {line}: Found opening bracket for section name but no closing bracket"
  | emptyKey line byte => s!"line {line}:{byte}: Key cannot be empty"

/-- A key of a section with its value, if the line gave one. -/
structure IniEntry where
  part : String
  key : String
  value : Option String
deriving DecidableEq

/-- Settings, the latest first. -/
structure Ini where
  entries : List IniEntry

namespace Ini

/-- What a line states. -/
inductive Statement where
  | blank
  | part (name : String)
  | setting (key : String) (value : Option String)
deriving DecidableEq

def isCommentStart (c : Char) : Bool := c = ';' || c = '#'

def isDelimiter (c : Char) : Bool := c = '=' || c = ':'

/-- The characters in front of the last closing bracket, if there is one. -/
def beforeLastBracket? (cs : List Char) : Option (List Char) :=
  match cs.reverse.dropWhile (· ≠ ']') with
  | [] => none
  | _ :: before => some before.reverse

/-- What a line with this number states. -/
def readLine (number : Nat) (line : List Char) : Except IniError Statement :=
  let line := trimChars (line.takeWhile fun c => !isCommentStart c)
  match line with
  | [] => .ok .blank
  | '[' :: inner =>
    match beforeLastBracket? inner with
    | some name => .ok (.part (lowercase (String.ofList (trimChars name))))
    | none => .error (.unclosedSection number)
  | _ =>
    let key := line.takeWhile fun c => !isDelimiter c
    let name := lowercase (String.ofList (trimChars key))
    match line.dropWhile fun c => !isDelimiter c with
    | [] => .ok (.setting name none)
    | _ :: value =>
      if (trimChars key).isEmpty then .error (.emptyKey number (byteLength key))
      else .ok (.setting name (some (String.ofList (trimChars value))))

/-- Reads lines of which the first has this number, within a section. -/
def readLines (settings : Ini) (part : String) (number : Nat) :
    List (List Char) → Except IniError Ini
  | [] => .ok settings
  | line :: rest => do
    match ← readLine number line with
    | .blank => readLines settings part (number + 1) rest
    | .part name => readLines settings name (number + 1) rest
    | .setting key value =>
      readLines ⟨⟨part, key, value⟩ :: settings.entries⟩ part (number + 1) rest

/-- Reads settings from a text. -/
def ofText (text : String) : Except IniError Ini :=
  readLines ⟨[]⟩ "default" 1 (lines text.toList)

/-- The value of a key in a section. -/
def get? (ini : Ini) (part key : String) : Option String :=
  match ini.entries.find? fun e => e.part = lowercase part ∧ e.key = lowercase key with
  | some e => e.value
  | none => none

end Ini

end AllocScript
