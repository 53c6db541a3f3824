/-!
# Paths

`Path.join` resolves a path against a base and `Path.parent?` gives the directory that a path lies
in. Both work on the written form and clean up nothing else.
-/

namespace AllocScript

namespace Path

/-- Divides characters at every slash. -/
def segmentsOf : List Char → List (List Char)
  | [] => [[]]
  | c :: cs =>
    if c = '/' then [] :: segmentsOf cs
    else
      match segmentsOf cs with
      | [] => [[c]]
      | segment :: rest => (c :: segment) :: rest

/-- The pieces of a path between its slashes. -/
def segments (path : String) : List String := (segmentsOf path.toList).map String.ofList

/-- An absolute path begins with a slash. -/
def isAbsolute (path : String) : Bool := path.toList.head? == some '/'

/-- A path below a base. An absolute path stands for itself. -/
def join (base path : String) : String :=
  if isAbsolute path || base = "" then path
  else if base.toList.getLast? = some '/' then base ++ path
  else base ++ "/" ++ path

/-- A segment that leads nowhere. -/
def isIdle (segment : String) : Bool := segment = "" || segment = "."

/-- Drops the segments at the end that lead nowhere. -/
def dropIdle (segments : List String) : List String :=
  (segments.reverse.dropWhile isIdle).reverse

/-- The path without its last name. The root and the empty path have none. -/
def parent? (path : String) : Option String :=
  match segments path with
  | [] => none
  | first :: rest =>
    let names := dropIdle rest
    if names.isEmpty then if first = "" then none else some ""
    else
      let kept := dropIdle names.dropLast
      some (if first = "" && kept.isEmpty then "/" else "/".intercalate (first :: kept))

end Path

end AllocScript
