import AllocScript.Text.Unprintable

/-!
# Quoted text

Two ways to write a text between double quotes. `literal` is the way of the strategy language:
only the quote, the backslash, the line feed, the tab and the carriage return are escaped. `quote`
is the way of messages to a reader: in addition NUL is short, and every character that would not
be seen is written by its code point in hexadecimal.
-/

namespace AllocScript

/-- The digits of a number in base sixteen, with small letters. -/
def hexadecimal (n : Nat) : List Char := Nat.toDigits 16 n

/-- A character inside a string literal of the strategy language. -/
def literalChar : Char → List Char
  | '"' => ['\\', '"']
  | '\\' => ['\\', '\\']
  | '\n' => ['\\', 'n']
  | '\t' => ['\\', 't']
  | '\r' => ['\\', 'r']
  | c => [c]

/-- A text as a string literal of the strategy language. -/
def literal (s : String) : List Char := '"' :: s.toList.flatMap literalChar ++ ['"']

/-- A character inside a quoted text of a message. -/
def quoteChar (c : Char) : List Char :=
  match c with
  | '"' => ['\\', '"']
  | '\\' => ['\\', '\\']
  | '\n' => ['\\', 'n']
  | '\t' => ['\\', 't']
  | '\r' => ['\\', 'r']
  | '\x00' => ['\\', '0']
  | _ =>
    if isUnprintable c then ['\\', 'u', '\x7b'] ++ hexadecimal c.toNat ++ ['\x7d'] else [c]

/-- A text in quotes for a message. -/
def quote (s : String) : String := String.ofList ('"' :: s.toList.flatMap quoteChar ++ ['"'])

end AllocScript
