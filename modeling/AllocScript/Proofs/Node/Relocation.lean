import Mathlib
import AllocScript.Proofs.Node.RoundTrip
import AllocScript.Proofs.Token.Separators

/-!
# Tokens at other positions

The parser copies the positions of tokens into trees and errors and does nothing else with them. So
tokens at other positions are parsed as the same tree up to positions, or they are refused at the
same token for the same reason (`Node.parsedAlike`). The proof goes token by token: states of the
parser that differ in positions stay so (`Parser.step_alike`).

Together with the scan this makes separators interchangeable (`separators_interchangeable`).
-/

namespace AllocScript

/-! ## Errors up to positions -/

/-- The tokens stand at the same place of two sequences and differ in their positions at most. -/
structure Token.Facing (ts ts' : List Token) (t t' : Token) : Prop extends SameLexeme t t' where
  place : ∃ k : Nat, ts[k]? = some t ∧ ts'[k]? = some t'

theorem Token.forall₂_facing {ts ts' : List Token} (h : List.Forall₂ SameLexeme ts ts') :
    List.Forall₂ (Facing ts ts') ts ts' := by
  obtain ⟨hlength, hsame⟩ := List.forall₂_iff_zip.1 h
  refine List.forall₂_iff_zip.2 ⟨hlength, fun {t t'} hmem => ⟨hsame hmem, ?_⟩⟩
  obtain ⟨k, hk⟩ := List.mem_iff_getElem?.1 hmem
  exact ⟨k, List.getElem?_zip_eq_some.1 hk⟩

/-- The opening bracket that a problem quotes with its position. -/
def GrammarProblem.opener? : GrammarProblem → Option Token
  | .unclosed _ opener | .wrongCloser _ opener _ => some opener
  | _ => none

/-- Errors for the same reason at the same token of two sequences. A message quotes another position
only for an opening bracket, which is the same one too. -/
inductive GrammarError.Alike (ts ts' : List Token) : GrammarError → GrammarError → Prop where
  | empty : Alike ts ts' ⟨.emptyInput, 0⟩ ⟨.emptyInput, 0⟩
  | token {problem : GrammarProblem} {t t' : Token} : problem.opener? = none →
      t.Facing ts ts' t' → Alike ts ts' ⟨problem, t.position⟩ ⟨problem, t'.position⟩
  | wrongCloser {bracket : Bracket} {lexeme : String} {opener opener' t t' : Token} :
      opener.Facing ts ts' opener' → t.Facing ts ts' t' →
        Alike ts ts' ⟨.wrongCloser bracket opener lexeme, t.position⟩
          ⟨.wrongCloser bracket opener' lexeme, t'.position⟩
  | unclosed {bracket : Bracket} {opener opener' last last' : Token} :
      opener.Facing ts ts' opener' → ts.getLast? = some last → ts'.getLast? = some last' →
        Alike ts ts' ⟨.unclosed bracket opener, last.stop⟩ ⟨.unclosed bracket opener', last'.stop⟩

/-- The results are related, or they are errors alike. -/
inductive ResultsAlike {α : Type} (ts ts' : List Token) (R : α → α → Prop) :
    Except GrammarError α → Except GrammarError α → Prop where
  | ok {a a' : α} : R a a' → ResultsAlike ts ts' R (.ok a) (.ok a')
  | error {e e' : GrammarError} : e.Alike ts ts' e' → ResultsAlike ts ts' R (.error e) (.error e')

/-- Both sequences are parsed as the same tree up to positions, or refused at the same token for the
same reason. -/
def ParsedAlike (ts ts' : List Token) : Prop :=
  ResultsAlike ts ts' (fun n n' => n.erasePositions = n'.erasePositions) (Node.ofTokens ts)
    (Node.ofTokens ts')

namespace ResultsAlike

variable {α β : Type} {ts ts' : List Token} {R : α → α → Prop} {S : β → β → Prop}
  {r r' : Except GrammarError α}

theorem bind {f g : α → Except GrammarError β} (h : ResultsAlike ts ts' R r r')
    (hf : ∀ a a', R a a' → ResultsAlike ts ts' S (f a) (g a')) :
    ResultsAlike ts ts' S (r >>= f) (r' >>= g) := by
  cases h with
  | ok h => exact hf _ _ h
  | error h => exact .error h

theorem map {f g : α → β} (h : ResultsAlike ts ts' R r r') (hf : ∀ a a', R a a' → S (f a) (g a')) :
    ResultsAlike ts ts' S (r.map f) (r'.map g) := by
  cases h with
  | ok h => exact .ok (hf _ _ h)
  | error h => exact .error h

end ResultsAlike

/-! ## States of the parser up to positions -/

theorem Node.eraseAllPositions_eq_map (ns : List Node) :
    Node.eraseAllPositions ns = ns.map Node.erasePositions := by
  induction ns with
  | nil => rfl
  | cons n ns ih => rw [Node.eraseAllPositions, ih, List.map_cons]

namespace Parser

variable {ts ts' : List Token}

/-- The open lists have grown alike. -/
structure Frame.Alike (ts ts' : List Token) (frame frame' : Frame) : Prop where
  bracket : frame.bracket = frame'.bracket
  opener : frame.opener.Facing ts ts' frame'.opener
  children : frame.children.map Node.erasePositions = frame'.children.map Node.erasePositions

/-- The parser has come as far. -/
inductive State.Alike (ts ts' : List Token) : State → State → Prop where
  | reading {frames frames' : List Frame} : List.Forall₂ (Frame.Alike ts ts') frames frames' →
      Alike ts ts' (.reading frames) (.reading frames')
  | complete {n n' : Node} : n.erasePositions = n'.erasePositions →
      Alike ts ts' (.complete n) (.complete n')

theorem attach_alike {n n' : Node} (hn : n.erasePositions = n'.erasePositions)
    {frames frames' : List Frame} (h : List.Forall₂ (Frame.Alike ts ts') frames frames') :
    State.Alike ts ts' (attach n frames) (attach n' frames') := by
  cases h with
  | nil => exact .complete hn
  | cons hframe hrest =>
    exact .reading (.cons ⟨hframe.bracket, hframe.opener, by simp [hn, hframe.children]⟩ hrest)

theorem leaf_alike (a : Atom) {p p' : Nat} {frames frames' : List Frame}
    (h : List.Forall₂ (Frame.Alike ts ts') frames frames') :
    State.Alike ts ts' (attach (.atom a p) frames) (attach (.atom a p') frames') :=
  attach_alike (by rfl) h

theorem closeFrame_alike {frame frame' : Frame} (h : frame.Alike ts ts' frame') :
    ResultsAlike ts ts' (fun n n' => n.erasePositions = n'.erasePositions) (closeFrame frame)
      (closeFrame frame') := by
  have hlength : frame.children.length = frame'.children.length := by
    simpa using congrArg List.length h.children
  simp only [closeFrame, h.bracket, hlength]
  split
  · exact .error (.token rfl h.opener)
  · refine .ok ?_
    simp only [Node.erasePositions, Node.eraseAllPositions_eq_map, List.map_reverse, h.children]

theorem readNumber_alike {t t' : Token} (h : t.Facing ts ts' t') :
    ResultsAlike ts ts' (fun n n' => n.erasePositions = n'.erasePositions) (readNumber t)
      (readNumber t') := by
  rw [readNumber_eq, readNumber_eq, h.lexeme]
  split
  · exact .ok rfl
  · exact .error (.token rfl h)

theorem take_alike {frames frames' : List Frame}
    (h : List.Forall₂ (Frame.Alike ts ts') frames frames') {t t' : Token}
    (ht : t.Facing ts ts' t') :
    ResultsAlike ts ts' (State.Alike ts ts') (take frames t) (take frames' t') := by
  unfold take
  rw [← ht.kind, ← ht.lexeme]
  cases t.kind with
  | opening bracket =>
    dsimp only
    rw [h.length_eq]
    split
    · exact .error (.token rfl ht)
    · exact .ok (.reading (.cons ⟨rfl, ht, rfl⟩ h))
  | closing bracket =>
    cases h with
    | nil => exact .error (.token rfl ht)
    | cons hframe hrest =>
      dsimp only
      rw [hframe.bracket]
      split
      · exact (closeFrame_alike hframe).map fun _ _ hn => attach_alike hn hrest
      · exact .error (.wrongCloser hframe.opener ht)
  | string => exact .ok (leaf_alike _ h)
  | float | integer => exact (readNumber_alike ht).map fun _ _ hn => attach_alike hn h
  | keyword | symbol => exact .ok (leaf_alike _ h)
  | blank | comment | comma => exact .ok (.reading h)

theorem step_alike {state state' : State} (h : state.Alike ts ts' state') {t t' : Token}
    (ht : t.Facing ts ts' t') :
    ResultsAlike ts ts' (State.Alike ts ts') (step state t) (step state' t') := by
  unfold step
  rw [← ht.kind]
  split
  · exact .ok h
  · cases h with
    | reading hframes => exact take_alike hframes ht
    | complete =>
      dsimp only
      rw [← ht.lexeme]
      exact .error (.token rfl ht)

theorem run_alike {state state' : State} (h : state.Alike ts ts' state') {us us' : List Token}
    (hus : List.Forall₂ (Token.Facing ts ts') us us') :
    ResultsAlike ts ts' (State.Alike ts ts') (run state us) (run state' us') := by
  induction hus generalizing state state' with
  | nil => exact .ok h
  | cons ht _ ih => exact (step_alike h ht).bind fun _ _ hstate => ih hstate

theorem finish_alike {state state' : State}
    (hstate : state.Alike ts ts' state') :
    ResultsAlike ts ts' (fun n n' => n.erasePositions = n'.erasePositions)
      (finish ((ts.getLast?.map Token.stop).getD 0) state)
      (finish ((ts'.getLast?.map Token.stop).getD 0) state') := by
  cases hstate with
  | complete hn => exact .ok hn
  | reading hframes =>
    cases hframes with
    | nil => exact .error .empty
    | @cons frame frame' _ _ hframe _ =>
      obtain ⟨k, hk, hk'⟩ := hframe.opener.place
      cases hlast : ts.getLast? with
      | none => simp [List.getLast?_eq_none_iff.1 hlast] at hk
      | some last =>
        cases hlast' : ts'.getLast? with
        | none => simp [List.getLast?_eq_none_iff.1 hlast'] at hk'
        | some last' =>
          simp only [finish, hframe.bracket]
          exact .error (.unclosed hframe.opener hlast hlast')

end Parser

/-- **Positions are copied and not looked at.** -/
theorem Node.parsedAlike {ts ts' : List Token} (h : List.Forall₂ Token.SameLexeme ts ts') :
    ParsedAlike ts ts' :=
  (Parser.run_alike (.reading .nil) (Token.forall₂_facing h)).bind fun _ _ hstate =>
    Parser.finish_alike hstate

/-! ## Sources -/

/-- **Separators are interchangeable.** Take the lexemes of a text that has tokens.

* Joined by other separators, with any separators before the first and behind the last, they are
  the lexemes of the text that is made, and the kinds are the same.
* So they are if one more separator is put behind one of them, which may go on directly there.

The tokens are then parsed as the same tree up to positions, or they are refused at the same token
for the same reason. -/
theorem separators_interchangeable (source : String) (tokens : List Token)
    (h : tokenize source = .ok tokens) :
    (∀ (separators : List (List Char)) (last : List Char),
      separators.length = tokens.length → (∀ s ∈ separators, Lexer.Separator s) →
      (∀ s ∈ separators.tail, s ≠ []) → Lexer.Separator last →
      ∃ tokens', tokenize (String.ofList (Lexer.respaced separators tokens last)) = .ok tokens' ∧
        List.Forall₂ Token.SameLexeme tokens tokens' ∧ ParsedAlike tokens tokens') ∧
    ∀ t ∈ tokens, ∀ front back s : List Char, source.toList = front ++ back →
      byteLength front = t.stop → Lexer.Separator s →
      ∃ tokens', tokenize (String.ofList (front ++ (s ++ back))) = .ok tokens' ∧
        List.Forall₂ Token.SameLexeme tokens tokens' ∧ ParsedAlike tokens tokens' := by
  refine ⟨fun separators last hlength hseparators hne hlast => ?_,
    fun t ht front back s hsource hfront hs => ?_⟩
  · obtain ⟨tokens', htokens', hsame⟩ := exists_tokenize_respaced h hlength hseparators hne hlast
    exact ⟨tokens', htokens', hsame, Node.parsedAlike hsame⟩
  · obtain ⟨tokens', htokens', hsame⟩ := exists_tokenize_insert h ht hsource hfront hs
    exact ⟨tokens', htokens', hsame, Node.parsedAlike hsame⟩

/-- Numbers that end at a sign and at a point, joined in another way, and with one comma put in. -/
theorem separators_interchangeable_numbers :
    ∃ tokens tokens' tokens'', tokenize "(5-3 3.)" = .ok tokens ∧
      tokenize ",( 5;five\n-3,3\t. )\n" = .ok tokens' ∧ ParsedAlike tokens tokens' ∧
      tokenize "(5,-3 3.)" = .ok tokens'' ∧ ParsedAlike tokens tokens'' := by
  have h : tokenize "(5-3 3.)" = .ok [⟨.opening .round, "(", 0⟩, ⟨.integer, "5", 1⟩,
      ⟨.integer, "-3", 2⟩, ⟨.integer, "3", 5⟩, ⟨.symbol, ".", 6⟩, ⟨.closing .round, ")", 7⟩] := rfl
  have hblank {c : Char} (hc : isBlank c = true) : Lexer.Separator [c] := .blank hc .nil
  have hcomma : Lexer.Separator [','] := .comma .nil
  have hcomment : Lexer.Separator ";five\n".toList :=
    Lexer.Separator.comment (show ∀ c ∈ "five".toList, c ≠ '\n' by simp) .nil
  have hseparators : ∀ s ∈ [[','], [' '], ";five\n".toList, [','], ['\t'], [' ']],
      Lexer.Separator s := by
    simp only [List.forall_mem_cons]
    exact ⟨hcomma, hblank rfl, hcomment, hcomma, hblank rfl, hblank rfl, by simp⟩
  obtain ⟨hjoin, hput⟩ := separators_interchangeable _ _ h
  obtain ⟨tokens', htokens', -, hparsed'⟩ := hjoin _ ['\n'] rfl hseparators (by simp) (hblank rfl)
  obtain ⟨tokens'', htokens'', -, hparsed''⟩ := hput ⟨.integer, "5", 1⟩ (by simp)
    ['(', '5'] "-3 3.)".toList [','] rfl rfl hcomma
  exact ⟨_, tokens', tokens'', h, htokens', hparsed', htokens'', hparsed''⟩

end AllocScript
