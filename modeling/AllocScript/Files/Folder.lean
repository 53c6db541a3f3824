import AllocScript.Files.Disk
import AllocScript.Files.Path

/-!
# A folder in memory

A `Folder` lists files and directories with their paths. As a disk it is the working directory:
paths are resolved against it step by step, and a directory exists if it is listed or if something
lies in it.
-/

namespace AllocScript

/-- What a path leads to. -/
inductive FolderEntry where
  | file (bytes : ByteArray)
  /-- A file of this many zero bytes. -/
  | zeros (size : Nat)
  | directory

/-- Files and directories by the names on the way to them. -/
structure Folder where
  entries : List (List String × FolderEntry)

namespace Folder

def empty : Folder := ⟨[]⟩

/-- Puts a file or a directory at a path. -/
def add (f : Folder) (path : String) (entry : FolderEntry) : Folder :=
  ⟨((Path.segments path).filter fun s => !Path.isIdle s, entry) :: f.entries⟩

/-- What lies at the end of a list of names. -/
def find? (f : Folder) (names : List String) : Option FolderEntry :=
  if names = [] then some .directory
  else
    match f.entries.find? fun e => e.1 = names with
    | some e => some e.2
    | none =>
      if f.entries.any fun e => names.isPrefixOf e.1 then some .directory else none

/-- The greatest length of a name in bytes. -/
def maxNameBytes : Nat := 255

/-- Follows segments from the place with the names `place`, last one first. Nothing is known of
what lies outside of the folder, save that it is a directory. -/
def walk (f : Folder) (place : Option (List String)) (entry : FolderEntry) :
    List String → Except FileError FolderEntry
  | [] => .ok entry
  | segment :: rest =>
    match entry with
    | .directory =>
      if Path.isIdle segment then f.walk place entry rest
      else if segment = ".." then
        match place with
        | some (_ :: above) => f.walk (some above) .directory rest
        | _ => f.walk none .directory rest
      else if maxNameBytes < segment.utf8ByteSize then .error .nameTooLong
      else
        match place with
        | none => .error .notFound
        | some names =>
          match f.find? (segment :: names).reverse with
          | none => .error .notFound
          | some entry => f.walk (some (segment :: names)) entry rest
    | _ => .error .notDirectory

/-- What a path leads to. -/
def resolve (f : Folder) (path : String) : Except FileError FolderEntry :=
  if path = "" then .error .notFound
  else f.walk (if Path.isAbsolute path then none else some []) .directory (Path.segments path)

/-- The size that is told of a directory. -/
def directorySize : Nat := 4096

def sizeOf (f : Folder) (path : String) : Except FileError Nat :=
  (f.resolve path).map fun
    | .file bytes => bytes.size
    | .zeros size => size
    | .directory => directorySize

def read (f : Folder) (path : String) : Except FileError ByteArray :=
  match f.resolve path with
  | .error e => .error e
  | .ok (.file bytes) => .ok bytes
  | .ok (.zeros size) => .ok ⟨Array.replicate size 0⟩
  | .ok .directory => .error .isDirectory

/-- The folder as the working directory. -/
def disk (f : Folder) : Disk Id where
  size path := f.sizeOf path
  read path := f.read path

end Folder

end AllocScript
