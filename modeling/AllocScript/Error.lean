import AllocScript.Indicator
import AllocScript.Text.Position

/-!
# Errors as a caller sees them

`StrategyError` is the one type in which loading a configuration or a snapshot and reading, parsing
and evaluating a strategy fail. `message` is its text and `exitStatus` the status with which a
program ends because of it. `SourceError` is a fault in the text of a strategy; `SourceError.render`
shows the line it is on.
-/

namespace AllocScript

/-- Whether a fault was found in the characters or in the order of the tokens. -/
inductive SourceStage where
  | lexical
  | grammatical
deriving DecidableEq

def SourceStage.name : SourceStage → String
  | lexical => "lexical error"
  | grammatical => "syntax error"

/-- A fault in the text of a strategy, at a byte offset. -/
structure SourceError where
  stage : SourceStage
  detail : String
  position : Nat
deriving DecidableEq

namespace SourceError

def message (e : SourceError) : String :=
  s!"{e.stage.name} at position {e.position}: {e.detail}"

/-- The line and the column of the fault in the source. -/
def place (e : SourceError) (source : String) : Nat × Nat := placeOf source.toList e.position

/-- The fault with its line of the source and a caret below the place. -/
def render (e : SourceError) (source : String) : String :=
  let (line, column) := e.place source
  let text := String.ofList (sourceLine source.toList line)
  let caret := String.ofList (List.replicate (column - 1) ' ' ++ ['^'])
  s!"line {line}, column {column}:\n{text}\n{caret}\n{e.message}"

end SourceError

/-- A failed look-up of an indicator. -/
structure LookupError where
  symbol : String
  metric : Metric
  reason : String
deriving DecidableEq

def LookupError.message (e : LookupError) : String :=
  s!"{e.metric.render} unavailable for {e.symbol}: {e.reason}"

inductive StrategyError where
  | source (error : SourceError)
  | tooLarge (size limit : Nat)
  | evaluation (detail context : String) (position : Nat) (cause : Option LookupError)
  | unreadableConfig (file reason : String)
  | missingSetting (part key : String)
  | invalidSetting (part key reason : String)
  | snapshot (reason : String)
  | io (reason : String)
deriving DecidableEq

namespace StrategyError

def message : StrategyError → String
  | source e => e.message
  | tooLarge size limit => s!"source is {size} bytes, exceeding the {limit} byte limit"
  | evaluation detail context position _ =>
    s!"evaluation error at position {position}: {detail} (in {context})"
  | unreadableConfig file reason => s!"config parse error in {file}: {reason}"
  | missingSetting part key => s!"missing config key [{part}] {key}"
  | invalidSetting part key reason => s!"invalid config value [{part}] {key}: {reason}"
  | snapshot reason => s!"indicator snapshot error: {reason}"
  | io reason => reason

def exitStatus : StrategyError → Nat
  | io _ => 1
  | unreadableConfig .. | missingSetting .. | invalidSetting .. => 2
  | snapshot _ => 3
  | source _ | tooLarge .. => 4
  | evaluation .. => 5

end StrategyError

end AllocScript
