import AllocScript.Eval.Basic

/-!
# Snapshots

A `Snapshot` holds indicator values, one for each request that it can answer. As a feed it answers
those requests and fails for all others.
-/

namespace AllocScript

/-- Indicator values by request, in the order in which the requests were first given a value. -/
structure Snapshot where
  values : List (Request × Decimal)

namespace Snapshot

def empty : Snapshot := ⟨[]⟩

instance : Inhabited Snapshot := ⟨empty⟩

def size (s : Snapshot) : Nat := s.values.length

def isEmpty (s : Snapshot) : Bool := s.values.isEmpty

def get? (s : Snapshot) (request : Request) : Option Decimal := s.values.lookup request

/-- Puts a value under a request in a list, in place of the one that may be there. -/
def insertValue (request : Request) (value : Decimal) :
    List (Request × Decimal) → List (Request × Decimal)
  | [] => [(request, value)]
  | (r, v) :: rest =>
    if r = request then (request, value) :: rest else (r, v) :: insertValue request value rest

/-- Sets the value of a request. -/
def insert (s : Snapshot) (request : Request) (value : Decimal) : Snapshot :=
  ⟨insertValue request value s.values⟩

/-- The failure of a request that has no value. -/
def missing (request : Request) : LookupError :=
  ⟨request.symbol, request.metric, "not present in snapshot"⟩

def feed (s : Snapshot) : Feed := fun request =>
  match s.get? request with
  | some value => .ok value
  | none => .error (missing request)

end Snapshot

end AllocScript
