import AllocScript.Node.Parser
import AllocScript.Token.Lexer

/-!
# Strategy source

`Node.ofSource` reads the text of a whole strategy: it refuses a text above the size limit, cuts it
into tokens and parses them.
-/

namespace AllocScript

/-- The greatest size of a strategy's text, ten mebibytes. -/
def maxSourceBytes : Nat := 10 * 1024 * 1024

def checkSourceSize (size : Nat) : Except StrategyError Unit :=
  if maxSourceBytes < size then .error (.tooLarge size maxSourceBytes) else .ok ()

/-- The tree of the one expression that a text holds, whatever its size. -/
def Node.ofText (source : String) : Except SourceError Node :=
  match tokenize source with
  | .error e => .error e.toSourceError
  | .ok tokens =>
    match Node.ofTokens tokens with
    | .error e => .error e.toSourceError
    | .ok node => .ok node

/-- The tree of a strategy. -/
def Node.ofSource (source : String) : Except StrategyError Node :=
  checkSourceSize source.utf8ByteSize >>= fun _ =>
    match Node.ofText source with
    | .error e => .error (.source e)
    | .ok node => .ok node

end AllocScript
