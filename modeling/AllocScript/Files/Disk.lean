import AllocScript.Error
import AllocScript.Source
import AllocScript.Text.Utf8

/-!
# Files

A `Disk` tells the size of files and reads them, in some monad, so that the same program runs on a
real disk and on a folder in memory. `readText` reads a text, and `readStrategy` refuses a file
above the size limit before it reads it.
-/

namespace AllocScript

/-- Why a file cannot be read. -/
inductive FileError where
  | notFound
  | notDirectory
  | isDirectory
  | nameTooLong
  | notText
  | other (reason : String)
deriving DecidableEq

def FileError.message : FileError → String
  | notFound => "No such file or directory (os error 2)"
  | notDirectory => "Not a directory (os error 20)"
  | isDirectory => "Is a directory (os error 21)"
  | nameTooLong => "File name too long (os error 36)"
  | notText => "stream did not contain valid UTF-8"
  | other reason => reason

/-- Access to files by path. -/
structure Disk (m : Type → Type) where
  size : String → m (Except FileError Nat)
  read : String → m (Except FileError ByteArray)

namespace Disk

variable {m : Type → Type} [Monad m]

/-- The contents of a file as text. -/
def readText (disk : Disk m) (path : String) : m (Except FileError String) := do
  match ← disk.read path with
  | .error e => return .error e
  | .ok bytes =>
    match decodeUtf8 bytes with
    | .ok text => return .ok text
    | .error _ => return .error .notText

/-- The text of a strategy file. -/
def readStrategy (disk : Disk m) (path : String) : m (Except StrategyError String) := do
  match ← disk.size path with
  | .error e => return .error (.io e.message)
  | .ok size =>
    match checkSourceSize size with
    | .error e => return .error e
    | .ok () =>
      match ← disk.readText path with
      | .error e => return .error (.io e.message)
      | .ok text => return .ok text

end Disk

end AllocScript
