import AllocScript.Config.Ini
import AllocScript.Config.StrategyList
import AllocScript.Error
import AllocScript.Files.Path

/-!
# Plans of a run

`Settings` answers what a configuration says, wherever it comes from. `Settings.check` tests whether
it describes a run, and `RunPlan.ofSettings` makes the plan: the snapshot and the strategies with
their paths resolved against a base directory, and how to log.
-/

namespace AllocScript

/-- What a configuration says under a section and a key: a text, or a truth value in place of a
default. -/
structure Settings where
  text? : String → String → Option String
  flag : String → String → Bool → Bool

/-- The truth value that a text spells. -/
def readFlag? (text : String) : Option Bool :=
  let word := lowercase text
  if word = "true" ∨ word = "yes" ∨ word = "1" then some true
  else if word = "false" ∨ word = "no" ∨ word = "0" then some false
  else none

/-- Settings in sections as a configuration. -/
def Ini.settings (ini : Ini) : Settings where
  text? := ini.get?
  flag part key default := ((ini.get? part key).bind readFlag?).getD default

/-- The levels of a log, the most talkative first. -/
def logLevels : List String := ["trace", "debug", "info", "warn", "error"]

/-- The level of a log that no setting changes. -/
def defaultLogLevel : String := "warn"

/-- How to run strategies. -/
structure RunPlan where
  snapshot : String
  strategies : List String
  logLevel : String
  logJson : Bool
deriving DecidableEq

namespace Settings

/-- A text that is not blank. -/
def required (settings : Settings) (part key : String) : Except StrategyError String :=
  match settings.text? part key with
  | none => .error (.missingSetting part key)
  | some text => if isBlankText text then .error (.missingSetting part key) else .ok text

def checkStrategies (settings : Settings) : Except StrategyError Unit := do
  let list ← settings.required "engine" "strategies"
  match readStrategyList list with
  | .ok _ => .ok ()
  | .error e => .error (.invalidSetting "engine" "strategies" e.message)

def checkLogLevel (settings : Settings) : Except StrategyError Unit :=
  match settings.text? "logging" "level" with
  | none => .ok ()
  | some level =>
    if logLevels.contains (lowercase (trim level)) then .ok ()
    else
      .error (.invalidSetting "logging" "level"
        ("level must be one of " ++ ", ".intercalate logLevels))

/-- Passes if the settings describe a run. -/
def check (settings : Settings) : Except StrategyError Unit := do
  let _ ← settings.required "engine" "snapshot"
  settings.checkStrategies
  settings.checkLogLevel

end Settings

/-- The plan that settings describe, with paths below a base directory. -/
def RunPlan.ofSettings (settings : Settings) (base : String) : Except StrategyError RunPlan := do
  settings.check
  let some snapshot := settings.text? "engine" "snapshot"
    | .error (.missingSetting "engine" "snapshot")
  let some list := settings.text? "engine" "strategies"
    | .error (.missingSetting "engine" "strategies")
  match readStrategyList list with
  | .error e => .error (.invalidSetting "engine" "strategies" e.message)
  | .ok strategies =>
    .ok {
      snapshot := Path.join base (trim snapshot)
      strategies := strategies.map (Path.join base)
      logLevel := match settings.text? "logging" "level" with
        | some level => lowercase (trim level)
        | none => defaultLogLevel
      logJson := settings.flag "logging" "json" false }

end AllocScript
