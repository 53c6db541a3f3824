import AllocScript.Decimal.Text
import AllocScript.Error
import AllocScript.Node
import AllocScript.Token

/-!
# Trees from tokens

`Node.ofTokens` reads one expression from a list of tokens. The parser goes through the tokens
once and keeps the lists that are open, innermost first, with the children found so far: an opening
bracket adds a list, its closing bracket completes it, and a completed node becomes a child of the
innermost open list or, where none is open, the result. Every fault is reported at the token that
causes it.
-/

namespace AllocScript

/-- Why tokens are not one expression. -/
inductive GrammarProblem where
  | emptyInput
  | unexpectedCloser (lexeme : String)
  | numberOutOfRange (lexeme : String)
  | nestedTooDeep
  | unclosed (bracket : Bracket) (opener : Token)
  | wrongCloser (bracket : Bracket) (opener : Token) (lexeme : String)
  | oddMap (count : Nat)
  | trailingInput (lexeme : String)
deriving DecidableEq

/-- Which closing bracket an open list asks for. -/
def closerExpected (bracket : Bracket) (opener : Token) : String :=
  s!"expected '{bracket.closeChar}' to close '{opener.lexeme}' at position {opener.position}"

def GrammarProblem.detail : GrammarProblem → String
  | .emptyInput => "empty input, expected an expression"
  | .unexpectedCloser lexeme => s!"unexpected '{lexeme}'"
  | .numberOutOfRange lexeme => s!"number literal out of range: {lexeme}"
  | .nestedTooDeep => s!"maximum nesting depth {maxDepth} exceeded"
  | .unclosed bracket opener =>
    s!"{closerExpected bracket opener}, found end of input"
  | .wrongCloser bracket opener lexeme =>
    s!"{closerExpected bracket opener}, found '{lexeme}'"
  | .oddMap count => s!"map has {count} forms, expected key/value pairs"
  | .trailingInput lexeme => s!"unexpected trailing input '{lexeme}'"

structure GrammarError where
  problem : GrammarProblem
  position : Nat
deriving DecidableEq

def GrammarError.toSourceError (e : GrammarError) : SourceError :=
  ⟨.grammatical, e.problem.detail, e.position⟩

namespace Parser

/-- Curly brackets make a map, the others a plain list. -/
def listKind : Bracket → ListKind
  | .curly => .map
  | .round | .square => .plain

/-- A list whose closing bracket has not come yet. Its children are held last one first. -/
structure Frame where
  bracket : Bracket
  opener : Token
  children : List Node

/-- How far the parser has come. -/
inductive State where
  /-- Some lists are open, innermost first, or nothing has begun. -/
  | reading (frames : List Frame)
  /-- The expression is complete. -/
  | complete (node : Node)

/-- Adds a complete node to the innermost open list. -/
def attach (node : Node) : List Frame → State
  | [] => .complete node
  | frame :: frames => .reading ({ frame with children := node :: frame.children } :: frames)

/-- The list that a frame has become at its closing bracket. -/
def closeFrame (frame : Frame) : Except GrammarError Node :=
  let kind := listKind frame.bracket
  let count := frame.children.length
  if kind = .map ∧ count % 2 ≠ 0 then
    .error ⟨.oddMap count, frame.opener.position⟩
  else
    .ok (.list kind frame.children.reverse frame.opener.position)

/-- The number that a token stands for; a plus sign in front is dropped. -/
def readNumber (token : Token) : Except GrammarError Node :=
  let digits := match token.lexeme.toList with
    | '+' :: cs => cs
    | cs => cs
  match Decimal.readChars digits with
  | .ok value => .ok (.atom (.number value) token.position)
  | .error _ => .error ⟨.numberOutOfRange token.lexeme, token.position⟩

/-- Takes one token with meaning while lists are open or nothing has begun. -/
def take (frames : List Frame) (token : Token) : Except GrammarError State :=
  match token.kind with
  | .opening bracket =>
    if maxDepth ≤ frames.length then .error ⟨.nestedTooDeep, token.position⟩
    else .ok (.reading (⟨bracket, token, []⟩ :: frames))
  | .closing bracket =>
    match frames with
    | [] => .error ⟨.unexpectedCloser token.lexeme, token.position⟩
    | frame :: frames =>
      if frame.bracket = bracket then
        (closeFrame frame).map fun node => attach node frames
      else
        .error ⟨.wrongCloser frame.bracket frame.opener token.lexeme, token.position⟩
  | .string => .ok (attach (.atom (.string (Token.unescape token.lexeme)) token.position) frames)
  | .float | .integer => (readNumber token).map fun node => attach node frames
  | .keyword | .symbol => .ok (attach (.atom (.symbol token.lexeme) token.position) frames)
  | .blank | .comment | .comma => .ok (.reading frames)

/-- Takes one token. -/
def step (state : State) (token : Token) : Except GrammarError State :=
  if token.kind.isDiscarded then .ok state
  else match state with
    | .reading frames => take frames token
    | .complete _ => .error ⟨.trailingInput token.lexeme, token.position⟩

/-- Takes all tokens. -/
def run (state : State) : List Token → Except GrammarError State
  | [] => .ok state
  | token :: tokens => step state token >>= fun state => run state tokens

/-- The result when there are no more tokens and the last one ended at byte `stop`. -/
def finish (stop : Nat) : State → Except GrammarError Node
  | .complete node => .ok node
  | .reading [] => .error ⟨.emptyInput, 0⟩
  | .reading (frame :: _) => .error ⟨.unclosed frame.bracket frame.opener, stop⟩

end Parser

/-- The tree of exactly one expression. -/
def Node.ofTokens (tokens : List Token) : Except GrammarError Node :=
  Parser.run (.reading []) tokens >>= Parser.finish ((tokens.getLast?.map Token.stop).getD 0)

end AllocScript
