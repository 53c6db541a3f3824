import AllocScript.Batch
import AllocScript.Command.Arguments
import AllocScript.Config.RunPlan

/-!
# Running a command

`Command.execute` runs a command on a disk and gives everything that the program shows: the lines
of its two outputs and its status. Allocations go to the standard output, all that is said about
them to the other one.
-/

namespace AllocScript

/-- What a program shows. -/
structure Shown where
  output : List String
  messages : List String
  status : Nat
deriving DecidableEq

namespace Shown

/-- Lines as text, each with its end. -/
def textOf (shown : List String) : String := String.join (shown.map (· ++ "\n"))

/-- Nothing but a message of an error. -/
def failed (message : String) (status : Nat) : Shown := ⟨[], [message], status⟩

/-- Something said before all the rest. -/
def after (s : Shown) (message : String) : Shown := { s with messages := message :: s.messages }

end Shown

namespace FileOutcome

/-- The lines of the standard output about a strategy file. -/
def output (o : FileOutcome) : List String :=
  let heading := "# " ++ o.path
  match o.evaluation.outcome with
  | .ok d => if d.allocation.isEmpty then [heading] else [heading, d.allocation.report]
  | .error _ => [heading]

/-- The messages about a strategy file, with the trace if it is wanted. -/
def messages (o : FileOutcome) (trace : Bool) : List String :=
  match o.evaluation.outcome with
  | .ok d =>
    (if d.allocation.isEmpty then [o.path ++ ": empty allocation"] else [])
      ++ if trace && !d.trace.isEmpty then
        ("trace for " ++ o.path ++ ":") :: d.trace.map ("  " ++ ·)
      else []
  | .error e => ["error: " ++ o.path ++ ": " ++ e.message]

/-- The status after a strategy file. It is kept once a file has failed. -/
def statusAfter (status : Nat) (o : FileOutcome) : Nat :=
  match o.evaluation.outcome with
  | .ok _ => status
  | .error e => if status = 0 then e.exitStatus else status

end FileOutcome

namespace Command

variable {m : Type → Type} [Monad m]

/-- What is shown of the outcomes of all files. -/
def reportOutcomes (trace : Bool) (outcomes : List FileOutcome) : Shown :=
  let failed := outcomes.countP (! ·.isOk)
  let summary :=
    if 0 < failed then [s!"{failed} of {outcomes.length} strategies failed"] else []
  ⟨outcomes.flatMap FileOutcome.output,
    outcomes.flatMap (FileOutcome.messages · trace) ++ summary,
    outcomes.foldl FileOutcome.statusAfter 0⟩

/-- Evaluates files against the snapshot in another file. -/
def executeEvaluate (disk : Disk m) (snapshot : String) (trace : Bool) (files : List String) :
    m Shown := do
  match ← disk.readSnapshot snapshot with
  | .error e => return .failed ("error: " ++ e.message) e.exitStatus
  | .ok values =>
    let outcomes ← disk.evaluateFiles values.feed files
    let loaded := s!"Loaded {values.size} indicator values from {snapshot}"
    return (reportOutcomes trace outcomes).after loaded

/-- The settings in a file. -/
def readSettings (disk : Disk m) (path : String) : m (Except StrategyError Settings) := do
  match ← disk.readText path with
  | .error e => return .error (.unreadableConfig path s!"couldn't read {path}: {e.message}")
  | .ok text =>
    match Ini.ofText text with
    | .error e => return .error (.unreadableConfig path s!"couldn't read {path}: {e.message}")
    | .ok ini => return .ok ini.settings

/-- Evaluates the strategies that a configuration lists. Its paths lie below its own directory. -/
def executeRun (disk : Disk m) (config : String) (trace : Bool) : m Shown := do
  match ← readSettings disk config with
  | .error e => return .failed ("error: " ++ e.message) e.exitStatus
  | .ok settings =>
    match RunPlan.ofSettings settings ((Path.parent? config).getD ".") with
    | .error e => return .failed ("error: " ++ e.message) e.exitStatus
    | .ok plan =>
      let shown ← executeEvaluate disk plan.snapshot trace plan.strategies
      return shown.after s!"Running {plan.strategies.length} strategies from {config}"

/-- Parses a strategy file and prints its canonical form. -/
def executeValidate (disk : Disk m) (file : String) : m Shown := do
  let opening := "Validating strategy: " ++ file
  match ← disk.readStrategy file with
  | .error e =>
    return (Shown.failed ("error: " ++ file ++ ": " ++ e.message) e.exitStatus).after opening
  | .ok source =>
    match Node.ofSource source with
    | .ok node => return ⟨[node.render], [opening, "Strategy is valid."], 0⟩
    | .error (.source e) =>
      return (Shown.failed ("error: " ++ e.render source)
        (StrategyError.source e).exitStatus).after opening
    | .error e => return (Shown.failed ("error: " ++ e.message) e.exitStatus).after opening

/-- Runs a command. -/
def execute (disk : Disk m) : Command → m Shown
  | validate file => executeValidate disk file
  | evaluate snapshot trace files => executeEvaluate disk snapshot trace files
  | run config trace => executeRun disk config trace

end Command

end AllocScript
