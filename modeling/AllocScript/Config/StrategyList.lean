import AllocScript.Text.Blank

/-!
# Lists of strategies

`readStrategyList` reads entries that are divided by commas. Every entry has something in it beside
blank space, and no entry stands twice.
-/

namespace AllocScript

/-- Why a text is no list of strategies. -/
inductive StrategyListError where
  | emptyEntry
  | duplicate (entry : String)
deriving DecidableEq

def StrategyListError.message : StrategyListError → String
  | emptyEntry => "empty entry in strategy list"
  | duplicate entry => s!"duplicate strategy: {entry}"

/-- Divides characters at every comma. -/
def splitCommas : List Char → List (List Char)
  | [] => [[]]
  | c :: cs =>
    if c = ',' then [] :: splitCommas cs
    else
      match splitCommas cs with
      | [] => [[c]]
      | piece :: rest => (c :: piece) :: rest

/-- The entries of a list, where the entries in `seen` have come before. -/
def readEntries (seen : List String) : List (List Char) → Except StrategyListError (List String)
  | [] => .ok []
  | piece :: rest =>
    let entry := String.ofList (trimChars piece)
    if entry = "" then .error .emptyEntry
    else if seen.contains entry then .error (.duplicate entry)
    else (readEntries (entry :: seen) rest).map (entry :: ·)

/-- The entries of a comma-separated list, in order. -/
def readStrategyList (text : String) : Except StrategyListError (List String) :=
  readEntries [] (splitCommas text.toList)

end AllocScript
