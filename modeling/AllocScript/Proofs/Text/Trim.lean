import Mathlib
import AllocScript.Text.Blank

/-!
# Trimmed texts

A text is what `trim` leaves of it with blank space on both sides (`exists_trimChars`), and blank
space around a text makes no difference to it (`trimChars_padded`). So `trim` leaves nothing of a
text if and only if the text is blank (`trim_eq_empty_iff`).
-/

namespace AllocScript

/-- Characters that are all blank. -/
def AllBlank (cs : List Char) : Prop := ∀ c ∈ cs, isBlank c = true

theorem AllBlank.reverse {cs : List Char} (h : AllBlank cs) : AllBlank cs.reverse :=
  fun c hc => h c (List.mem_reverse.1 hc)

theorem isBlankText_iff {s : String} : isBlankText s = true ↔ AllBlank s.toList := List.all_eq_true

theorem allBlank_takeWhile (cs : List Char) : AllBlank (cs.takeWhile isBlank) :=
  fun _ hc => List.mem_takeWhile_imp hc

/-- Blank space is all that is taken away. -/
theorem exists_trimChars (cs : List Char) :
    ∃ front back, AllBlank front ∧ AllBlank back ∧ cs = front ++ trimChars cs ++ back := by
  refine ⟨cs.takeWhile isBlank, ((cs.dropWhile isBlank).reverse.takeWhile isBlank).reverse,
    allBlank_takeWhile cs, (allBlank_takeWhile _).reverse, ?_⟩
  rw [trimChars, List.append_assoc, ← List.reverse_append, List.takeWhile_append_dropWhile,
    List.reverse_reverse, List.takeWhile_append_dropWhile]

theorem dropWhile_of_allBlank {front : List Char} (h : AllBlank front) (cs : List Char) :
    (front ++ cs).dropWhile isBlank = cs.dropWhile isBlank :=
  List.dropWhile_append_of_pos h

/-- Blank space around characters makes no difference. -/
theorem trimChars_padded {front back : List Char} (hfront : AllBlank front)
    (hback : AllBlank back) (cs : List Char) : trimChars (front ++ cs ++ back) = trimChars cs := by
  rw [trimChars, trimChars, List.append_assoc, dropWhile_of_allBlank hfront, List.dropWhile_append]
  split
  next hnone =>
    have hdrop : back.dropWhile isBlank = [] := List.dropWhile_eq_nil_iff.2 hback
    rw [hdrop, List.isEmpty_iff.1 hnone]
  next => rw [List.reverse_append, dropWhile_of_allBlank hback.reverse]

theorem trimChars_eq_nil_iff {cs : List Char} : trimChars cs = [] ↔ AllBlank cs := by
  constructor
  · intro h
    obtain ⟨front, back, hfront, hback, heq⟩ := exists_trimChars cs
    rw [heq, h, List.append_nil]
    exact fun c hc => (List.mem_append.1 hc).elim (hfront c) (hback c)
  · intro h
    have hnil : AllBlank [] := List.forall_mem_nil _
    have hpadded := trimChars_padded h hnil []
    rwa [List.append_nil, List.append_nil] at hpadded

theorem trim_eq_empty_iff {s : String} : trim s = "" ↔ isBlankText s = true := by
  rw [isBlankText_iff, ← trimChars_eq_nil_iff, trim, ← String.toList_inj, String.toList_ofList]
  exact Iff.rfl

theorem trim_ne_empty {s : String} (h : isBlankText s = false) : trim s ≠ "" := by
  rw [Ne, trim_eq_empty_iff, h]
  decide

/-- What is not blank is not blank when it is trimmed. -/
theorem isBlankText_trim (s : String) : isBlankText (trim s) = isBlankText s := by
  rw [Bool.eq_iff_iff, isBlankText_iff, isBlankText_iff, trim, String.toList_ofList]
  constructor
  · intro h
    obtain ⟨front, back, hfront, hback, heq⟩ := exists_trimChars s.toList
    rw [heq]
    intro c hc
    simp only [List.mem_append] at hc
    rcases hc with (hc | hc) | hc
    exacts [hfront c hc, h c hc, hback c hc]
  · intro h
    rw [trimChars_eq_nil_iff.2 h]
    exact fun c hc => by cases hc

end AllocScript
