/-!
# Maps keyed by text

A `TextMap` holds one value for each of finitely many texts and lists them in ascending order of
their characters' code points. The order is part of the type, so two maps with the same values are
the same list.
-/

namespace AllocScript

/-- Values under distinct texts, in ascending order of the texts. -/
structure TextMap (β : Type) where
  entries : List (String × β)
  ascending : (entries.map Prod.fst).Pairwise (· < ·)
deriving DecidableEq

namespace TextMap

variable {β γ ε : Type}

def empty : TextMap β := ⟨[], List.Pairwise.nil⟩

instance : Inhabited (TextMap β) := ⟨empty⟩

def isEmpty (m : TextMap β) : Bool := m.entries.isEmpty

def size (m : TextMap β) : Nat := m.entries.length

def keys (m : TextMap β) : List String := m.entries.map Prod.fst

def values (m : TextMap β) : List β := m.entries.map Prod.snd

/-- The value under a text. -/
def get? (m : TextMap β) (key : String) : Option β := m.entries.lookup key

/-- Puts a value under a text in an ascending list, in place of the one that may be there. -/
def insertEntry (key : String) (value : β) : List (String × β) → List (String × β)
  | [] => [(key, value)]
  | (k, v) :: rest =>
    if key < k then (key, value) :: (k, v) :: rest
    else if k < key then (k, v) :: insertEntry key value rest
    else (k, value) :: rest

theorem mem_keys_insertEntry {key k : String} {value : β} {l : List (String × β)}
    (h : k ∈ (insertEntry key value l).map Prod.fst) : k = key ∨ k ∈ l.map Prod.fst := by
  induction l with
  | nil => simpa [insertEntry] using h
  | cons e rest ih =>
    simp only [insertEntry] at h
    split at h
    · simpa using h
    · split at h
      · rcases List.mem_cons.1 h with h | h
        · exact .inr (by simp [h])
        · exact (ih h).imp_right (List.mem_cons_of_mem _)
      · exact .inr h

theorem ascending_insertEntry {key : String} {value : β} {l : List (String × β)}
    (h : (l.map Prod.fst).Pairwise (· < ·)) :
    ((insertEntry key value l).map Prod.fst).Pairwise (· < ·) := by
  induction l with
  | nil => simp [insertEntry]
  | cons e rest ih =>
    have hrest := List.pairwise_cons.1 h
    simp only [insertEntry]
    split
    next hlt =>
      refine List.pairwise_cons.2 ⟨fun k hk => ?_, h⟩
      rcases List.mem_cons.1 hk with rfl | hk
      · exact hlt
      · exact String.lt_trans hlt (hrest.1 k hk)
    next =>
      split
      next hlt =>
        refine List.pairwise_cons.2 ⟨fun k hk => ?_, ih hrest.2⟩
        rcases mem_keys_insertEntry hk with rfl | hk
        · exact hlt
        · exact hrest.1 k hk
      next => exact h

/-- Puts a value under a text. -/
def insert (m : TextMap β) (key : String) (value : β) : TextMap β :=
  ⟨insertEntry key value m.entries, ascending_insertEntry m.ascending⟩

/-- Puts a value under a text that has none yet. -/
def insertNew (m : TextMap β) (key : String) (value : β) : TextMap β :=
  if (m.get? key).isSome then m else m.insert key value

/-- The map with one value. -/
def single (key : String) (value : β) : TextMap β := ⟨[(key, value)], by simp⟩

/-- Applies a function that may fail to every value of a list of entries, in order. -/
def mapEntries (f : β → Except ε γ) : (l : List (String × β)) →
    Except ε { r : List (String × γ) // r.map Prod.fst = l.map Prod.fst }
  | [] => .ok ⟨[], rfl⟩
  | (k, v) :: rest =>
    match f v with
    | .error e => .error e
    | .ok w =>
      match mapEntries f rest with
      | .error e => .error e
      | .ok r => .ok ⟨(k, w) :: r.1, by simp [r.2]⟩

/-- Applies a function that may fail to every value, in order. -/
def mapValues (m : TextMap β) (f : β → Except ε γ) : Except ε (TextMap γ) :=
  match mapEntries f m.entries with
  | .error e => .error e
  | .ok r => .ok ⟨r.1, by rw [r.2]; exact m.ascending⟩

end TextMap

end AllocScript
