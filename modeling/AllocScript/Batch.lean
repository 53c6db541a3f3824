import AllocScript.Files.Disk
import AllocScript.Snapshot.Csv
import AllocScript.Strategy

/-!
# Batches of strategy files

`evaluateFiles` evaluates files one by one against one feed. A file that fails does not keep the
others from being evaluated.
-/

namespace AllocScript

/-- A strategy file and how its evaluation went. -/
structure FileOutcome where
  path : String
  evaluation : Evaluation

/-- Whether the evaluation came to an allocation. -/
def FileOutcome.isOk (o : FileOutcome) : Bool := o.evaluation.outcome.isOk

/-- Notes in the allocation which file it came from. -/
def Evaluation.fromFile (e : Evaluation) (path : String) : Evaluation :=
  { e with
    outcome := e.outcome.map fun d =>
      { d with
        allocation :=
          { d.allocation with metadata := d.allocation.metadata.insert "source" path } } }

namespace Disk

variable {m : Type → Type} [Monad m]

/-- Evaluates a strategy file. -/
def evaluateFile (disk : Disk m) (feed : Feed) (path : String) : m FileOutcome := do
  match ← disk.readStrategy path with
  | .error e => return ⟨path, ⟨.error (.error e), []⟩⟩
  | .ok source => return ⟨path, (evaluateSource source feed).fromFile path⟩

/-- Evaluates strategy files in order. -/
def evaluateFiles (disk : Disk m) (feed : Feed) (paths : List String) : m (List FileOutcome) :=
  paths.mapM (disk.evaluateFile feed)

/-- The snapshot in a file. -/
def readSnapshot (disk : Disk m) (path : String) : m (Except StrategyError Snapshot) := do
  match ← disk.read path with
  | .error .isDirectory =>
    return .error (.snapshot s!"CSV header error: {FileError.isDirectory.message}")
  | .error e => return .error (.snapshot s!"failed to open {path}: {e.message}")
  | .ok bytes =>
    match Snapshot.ofCsv bytes.toList with
    | .error e => return .error (.snapshot e.message)
    | .ok snapshot => return .ok snapshot

end Disk

end AllocScript
