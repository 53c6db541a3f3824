import AllocScript.Error
import AllocScript.Text.Alphabetic
import AllocScript.Text.Blank
import AllocScript.Text.Position
import AllocScript.Token

/-!
# Tokens of a text

`Scan.ofText` cuts a text into tokens by longest match: at each place every rule says how many
characters it takes, the longest match wins, and of equal ones the rule that stands first in
`rules`. A string is cut by its closing quote instead. The scan goes on to the end of the text or
to the first fault, and leaves out the tokens without meaning. A `Tokenizer` gives what a scan finds
one by one, as it is asked (`Tokenizer.next`).
-/

namespace AllocScript

/-- Why a text cannot be cut into tokens. -/
inductive LexProblem where
  | unexpectedCharacter (c : Char)
  | unterminatedString
  | invalidEscape (c : Char)
deriving DecidableEq

def LexProblem.detail : LexProblem → String
  | .unexpectedCharacter c => s!"unexpected character '{c}'"
  | .unterminatedString => "unterminated string"
  | .invalidEscape c => s!"invalid escape sequence '\\{c}'"

structure LexError where
  problem : LexProblem
  position : Nat
deriving DecidableEq

def LexError.toSourceError (e : LexError) : SourceError :=
  ⟨.lexical, e.problem.detail, e.position⟩

namespace Lexer

/-! ## Rules -/

/-- A character that can begin a symbol. -/
def isSymbolStart (c : Char) : Bool := "*+!-_?<>=/.%&$".toList.contains c || isLetter c

/-- A character that can go on a symbol. -/
def isSymbolChar (c : Char) : Bool := "'#:".toList.contains c || c.isDigit || isSymbolStart c

/-- How many characters of the text have a property before the first that has not. -/
def spanLength (p : Char → Bool) (cs : List Char) : Nat := (cs.takeWhile p).length

def matchBlank (cs : List Char) : Nat := spanLength isBlank cs

/-- A comment runs from a semicolon up to the end of the line. -/
def matchComment : List Char → Nat
  | ';' :: cs => 1 + spanLength (· ≠ '\n') cs
  | _ => 0

def matchChar (c : Char) : List Char → Nat
  | d :: _ => if d = c then 1 else 0
  | [] => 0

def matchSign : List Char → Nat
  | c :: _ => if c = '-' ∨ c = '+' then 1 else 0
  | [] => 0

/-- Digits, with a sign in front or without. -/
def matchInteger (cs : List Char) : Nat :=
  let sign := matchSign cs
  let digits := spanLength Char.isDigit (cs.drop sign)
  if digits = 0 then 0 else sign + digits

/-- An integer, a point and at least one more digit. -/
def matchFloat (cs : List Char) : Nat :=
  let whole := matchInteger cs
  match whole, cs.drop whole with
  | _ + 1, '.' :: rest =>
    let places := spanLength Char.isDigit rest
    if places = 0 then 0 else whole + 1 + places
  | _, _ => 0

def matchSymbol : List Char → Nat
  | c :: cs => if isSymbolStart c then 1 + spanLength isSymbolChar cs else 0
  | [] => 0

/-- A colon and at least one character of a symbol. -/
def matchKeyword : List Char → Nat
  | ':' :: cs =>
    let tail := spanLength isSymbolChar cs
    if tail = 0 then 0 else 1 + tail
  | _ => 0

/-- The rules in order of precedence. Numbers stand before symbols, so that `-5` is a number. -/
def rules : List (TokenKind × (List Char → Nat)) :=
  [(.blank, matchBlank), (.comment, matchComment), (.comma, matchChar ','),
    (.opening .round, matchChar '('), (.closing .round, matchChar ')'),
    (.opening .square, matchChar '['), (.closing .square, matchChar ']'),
    (.opening .curly, matchChar '\x7b'), (.closing .curly, matchChar '\x7d'),
    (.float, matchFloat), (.integer, matchInteger), (.keyword, matchKeyword),
    (.symbol, matchSymbol)]

/-- The kind and the length of the longest match, the earliest rule going first; none if no rule
takes a character. -/
def longestMatch (cs : List Char) : Option (TokenKind × Nat) :=
  rules.foldl (fun best rule =>
    let length := rule.2 cs
    if (match best with | none => 0 | some b => b.2) < length then some (rule.1, length) else best)
    none

/-! ## Strings -/

/-- The characters that may follow a backslash in a string. -/
def isEscape (c : Char) : Bool := "\"\\ntr".toList.contains c

/-- The number of characters of a string that begins at byte `start`, where `length` characters
have been read and the next one has the byte offset `here`. -/
def stringLength (start length here : Nat) : List Char → Except LexError Nat
  | [] => .error ⟨.unterminatedString, start⟩
  | '"' :: _ => .ok (length + 1)
  | ['\\'] => .error ⟨.unterminatedString, start⟩
  | '\\' :: c :: cs =>
    if isEscape c then stringLength start (length + 2) (here + 1 + c.utf8Size) cs
    else .error ⟨.invalidEscape c, here⟩
  | c :: cs => stringLength start (length + 1) (here + c.utf8Size) cs

/-! ## The scan -/

/-- The kind and the length of the lexeme at the front of a text that begins at byte `start`. -/
def cut (start : Nat) (cs : List Char) : Except LexError (TokenKind × Nat) :=
  match cs with
  | '"' :: rest => (stringLength start 1 (start + 1) rest).map fun length => (.string, length)
  | _ =>
    match longestMatch cs with
    | some best => .ok best
    | none => .error ⟨.unexpectedCharacter (cs.head?.getD '\x00'), start⟩

end Lexer

/-- The tokens of a text up to its end or to the first fault. -/
structure Scan where
  tokens : List Token
  stopped : Option LexError
deriving DecidableEq

namespace Scan

/-- Goes on with a scan at byte `position`, where the first `skip` characters still belong to the
last lexeme and `done` holds the tokens so far, last one first. -/
def scanFrom (done : List Token) (skip position : Nat) : List Char → Scan
  | [] => ⟨done.reverse, none⟩
  | c :: cs =>
    match skip with
    | skip + 1 => scanFrom done skip (position + c.utf8Size) cs
    | 0 =>
      match Lexer.cut position (c :: cs) with
      | .error e => ⟨done.reverse, some e⟩
      | .ok (kind, length) =>
        let done :=
          if kind.isDiscarded then done
          else ⟨kind, String.ofList ((c :: cs).take length), position⟩ :: done
        scanFrom done (length - 1) (position + c.utf8Size) cs

def ofText (source : String) : Scan := scanFrom [] 0 0 source.toList

/-- The tokens, and the fault as the last of all. -/
def items (s : Scan) : List (Except LexError Token) :=
  s.tokens.map .ok ++ s.stopped.toList.map .error

/-- All tokens, if there was no fault. -/
def result (s : Scan) : Except LexError (List Token) :=
  match s.stopped with
  | none => .ok s.tokens
  | some e => .error e

end Scan

/-- The tokens of a text that can be cut into tokens to its end. -/
def tokenize (source : String) : Except LexError (List Token) := (Scan.ofText source).result

/-! ## A stream of tokens -/

/-- A stream of tokens: the rest of a text, the byte at which it begins, and whether there has been
a fault. -/
structure Tokenizer where
  rest : List Char
  position : Nat
  failed : Bool

namespace Tokenizer

def ofText (source : String) : Tokenizer := ⟨source.toList, 0, false⟩

/-- The next token or fault, if there is one, and the stream behind it. What is discarded is passed
over. A stream that has failed gives nothing more. -/
def next (t : Tokenizer) : Option (Except LexError Token) × Tokenizer :=
  if t.failed then (none, t)
  else
    match _ : t.rest with
    | [] => (none, t)
    | c :: cs =>
      match Lexer.cut t.position (c :: cs) with
      | .error e => (some (.error e), { t with failed := true })
      | .ok (kind, length) =>
        let behind : Tokenizer := ⟨cs.drop (length - 1),
          t.position + c.utf8Size + byteLength (cs.take (length - 1)), false⟩
        if kind.isDiscarded then behind.next
        else (some (.ok ⟨kind, String.ofList ((c :: cs).take length), t.position⟩), behind)
termination_by t.rest.length
decreasing_by
  simp only [*, List.length_drop, List.length_cons]
  omega

/-- What the stream gives when it is asked again after `n` times. -/
def ask : Nat → Tokenizer → Option (Except LexError Token)
  | 0, t => t.next.1
  | n + 1, t => ask n t.next.2

end Tokenizer

end AllocScript
