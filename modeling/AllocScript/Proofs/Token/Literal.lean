import Mathlib
import AllocScript.Text.Quoted
import AllocScript.Token.Lexer

/-!
# String literals

The literal of a text is one lexeme, whatever follows it (`Lexer.cut_literal`), and stands for the
text (`Token.unescape_literal`). Both are inductions over the text with one step for each way to
write a character.
-/

namespace AllocScript

namespace Lexer

/-- A character is passed over with what escapes it. -/
theorem stringLength_literalChar (start length here : Nat) (c : Char) (rest : List Char) :
    ∃ here', stringLength start length here (literalChar c ++ rest) =
      stringLength start (length + (literalChar c).length) here' rest := by
  unfold literalChar
  split
  · exact ⟨_, rfl⟩
  · exact ⟨_, rfl⟩
  · exact ⟨_, rfl⟩
  · exact ⟨_, rfl⟩
  · exact ⟨_, rfl⟩
  · rename_i hquote hbackslash _ _ _
    refine ⟨here + c.utf8Size, ?_⟩
    rw [List.singleton_append, List.length_singleton, stringLength]
    · exact hquote
    · exact fun h => absurd h hbackslash
    · exact fun _ _ h => absurd h hbackslash

theorem stringLength_literal (start length here : Nat) (cs rest : List Char) :
    stringLength start length here (cs.flatMap literalChar ++ '"' :: rest) =
      .ok (length + (cs.flatMap literalChar).length + 1) := by
  induction cs generalizing length here with
  | nil => rfl
  | cons c cs ih =>
    rw [List.flatMap_cons, List.append_assoc]
    obtain ⟨here', hc⟩ := stringLength_literalChar start length here c
      (cs.flatMap literalChar ++ '"' :: rest)
    rw [hc, ih, List.length_append, Nat.add_assoc length]

/-- **A literal is one lexeme.** -/
theorem cut_literal (position : Nat) (s : String) (rest : List Char) :
    cut position (literal s ++ rest) = .ok (.string, (literal s).length) := by
  have hlength := stringLength_literal position 1 (position + 1) s.toList rest
  unfold literal
  simp only [List.cons_append, List.append_assoc, List.nil_append, cut, hlength]
  simp [Except.map]
  omega

end Lexer

namespace Token

theorem resolveEscapes_literalChar (c : Char) (rest : List Char) :
    resolveEscapes (literalChar c ++ rest) = c :: resolveEscapes rest := by
  unfold literalChar
  split
  · rfl
  · rfl
  · rfl
  · rfl
  · rfl
  · rename_i hquote hbackslash _ _ _
    rw [List.singleton_append, resolveEscapes]
    · exact fun h => absurd h hbackslash
    · exact fun _ _ h => absurd h hbackslash

theorem resolveEscapes_flatMap_literalChar (cs : List Char) :
    resolveEscapes (cs.flatMap literalChar) = cs := by
  induction cs with
  | nil => rfl
  | cons c cs ih => rw [List.flatMap_cons, resolveEscapes_literalChar, ih]

/-- **A literal stands for its text.** -/
theorem unescape_literal (s : String) : unescape (String.ofList (literal s)) = s := by
  have hquotes : withoutQuotes (literal s) = s.toList.flatMap literalChar := by
    simp [literal, withoutQuotes]
  rw [unescape, String.toList_ofList, hquotes, resolveEscapes_flatMap_literalChar,
    String.ofList_toList]

end Token

end AllocScript
