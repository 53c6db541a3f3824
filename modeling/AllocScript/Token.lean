/-!
# Tokens

A token is a piece of strategy source with its kind and the byte offset at which it begins. Blank
space, comments and commas are recognised but carry no meaning (`TokenKind.isDiscarded`).
`unescape` turns the lexeme of a string token into the text that it stands for.
-/

namespace AllocScript

/-- The three families of brackets. -/
inductive Bracket where
  | round
  | square
  | curly
deriving DecidableEq

namespace Bracket

def openChar : Bracket → Char
  | round => '('
  | square => '['
  | curly => '\x7b'

def closeChar : Bracket → Char
  | round => ')'
  | square => ']'
  | curly => '\x7d'

end Bracket

inductive TokenKind where
  | blank
  | comment
  | comma
  | opening (bracket : Bracket)
  | closing (bracket : Bracket)
  | string
  | float
  | integer
  | keyword
  | symbol
deriving DecidableEq

namespace TokenKind

/-- Separates other tokens and means nothing itself. -/
def isDiscarded : TokenKind → Bool
  | blank | comment | comma => true
  | _ => false

def isCloser : TokenKind → Bool
  | closing _ => true
  | _ => false

end TokenKind

/-- A piece of source and the byte offset of its first character. -/
structure Token where
  kind : TokenKind
  lexeme : String
  position : Nat
deriving DecidableEq

namespace Token

/-- The byte offset just behind the token. -/
def stop (t : Token) : Nat := t.position + t.lexeme.utf8ByteSize

/-- The text between two quotes; any other text stays whole. -/
def withoutQuotes : List Char → List Char
  | '"' :: inner => if inner.getLast? = some '"' then inner.dropLast else '"' :: inner
  | cs => cs

/-- The character that a backslash before `c` stands for. -/
def escaped (c : Char) : Char :=
  if c = 'n' then '\n' else if c = 't' then '\t' else if c = 'r' then '\r' else c

/-- Resolves every escape. A backslash with nothing after it stands for itself. -/
def resolveEscapes : List Char → List Char
  | [] => []
  | ['\\'] => ['\\']
  | '\\' :: c :: cs => escaped c :: resolveEscapes cs
  | c :: cs => c :: resolveEscapes cs

/-- The text that a string lexeme stands for. -/
def unescape (lexeme : String) : String :=
  String.ofList (resolveEscapes (withoutQuotes lexeme.toList))

end Token

end AllocScript
