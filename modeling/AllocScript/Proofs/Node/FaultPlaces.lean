import Mathlib
import AllocScript.Proofs.Node.Relocation
import AllocScript.Proofs.Text.Position
import AllocScript.Source

/-!
# Where faults are shown

A fault in the text of a strategy is reported where the text has something that is not blank, in
front of the position or behind it (`Touches`): at a character that begins no token, in a string, at
a token, or behind the last one. Only the fault that there is nothing at all is reported at the
beginning. So no position parts a carriage return from its line feed, and the line that a message
shows reaches up to the place of the caret (`SourceError.points_at_fault`).
-/

namespace AllocScript

open Lexer

/-! ## Characters that are not blank -/

/-- In the text, which begins at byte `start`, byte `p` is in front of a character that is not blank
or behind one. -/
def Touches (start : Nat) (text : List Char) (p : Nat) : Prop :=
  ∃ before after, text = before ++ after ∧ p = start + byteLength before ∧
    ((∃ c ∈ before.getLast?, isBlank c = false) ∨ ∃ c ∈ after.head?, isBlank c = false)

namespace Touches

variable {start p : Nat}

theorem ahead {c : Char} (hc : isBlank c = false) (before cs : List Char) :
    Touches start (before ++ c :: cs) (start + byteLength before) :=
  ⟨before, c :: cs, rfl, rfl, .inr ⟨c, rfl, hc⟩⟩

/-- More text in front makes no difference. -/
theorem behind {rest : List Char} (front : List Char)
    (h : Touches (start + byteLength front) rest p) : Touches start (front ++ rest) p := by
  obtain ⟨before, after, rfl, rfl, hc⟩ := h
  refine ⟨front ++ before, after, (List.append_assoc ..).symm, ?_, hc.imp_left ?_⟩
  · rw [byteLength_append, Nat.add_assoc]
  · rintro ⟨c, hlast, hc⟩
    exact ⟨c, by rw [List.getLast?_append, Option.mem_def.1 hlast]; rfl, hc⟩

end Touches

namespace Lexer

/-- Nothing in a token with a meaning is blank, apart from strings. -/
theorem not_isBlank_of_spells {kind : TokenKind} {l : List Char} (h : Spells kind l)
    (hkind : kind.isDiscarded = false) : ∀ c ∈ l, isBlank c = false := by
  obtain ⟨d, ds, rfl, hd⟩ := exists_begins_of_spells h
  have hfirst : isBlank d = false := by
    by_contra hblank
    have hbegins : Begins .blank d := by simpa [Begins] using hblank
    rw [hbegins.eq_of_isDiscarded rfl hd] at hkind
    cases hkind
  rcases isSymbolChar_of_spells h hkind with hone | hall
  · obtain rfl : ds = [] := by simpa using hone
    exact List.forall_mem_singleton.2 hfirst
  · exact fun c hc => isBlank_of_isSymbolChar (hall c hc)

/-- A token with a meaning begins and ends with characters that are not blank. -/
theorem Lexeme.not_isBlank {kind : TokenKind} {l rest : List Char} (h : Lexeme kind l rest)
    (hkind : kind.isDiscarded = false) :
    (∃ c ∈ l.head?, isBlank c = false) ∧ ∃ c ∈ l.getLast?, isBlank c = false := by
  cases h with
  | @string body =>
    exact ⟨⟨'"', rfl, by decide⟩, '"', List.getLast?_concat, by decide⟩
  | longest h =>
    have hall := not_isBlank_of_spells h.spelled hkind
    have hne : l ≠ [] := List.length_pos_iff.1 (length_pos_of_spells h.spelled)
    exact ⟨⟨l.head hne, List.head?_eq_some_head hne, hall _ (List.head_mem hne)⟩,
      l.getLast hne, List.getLast?_eq_some_getLast hne, hall _ (List.getLast_mem hne)⟩

theorem Untokenizable.touches {start : Nat} {cs : List Char} {e : LexError}
    (h : Untokenizable start cs e) : Touches start cs e.position := by
  cases h with
  | @unexpected c cs _ hnone =>
    have hc : isBlank c = false := by
      by_contra hblank
      exact hnone .blank [c] cs rfl ⟨List.cons_ne_nil _ _, by simpa using hblank⟩
    exact .ahead hc [] cs
  | unterminated => exact .ahead (by decide) [] _
  | escape => exact .ahead (by decide) _ _

/-- **What a tiling reports touches something that is not blank**: the positions of its tokens,
their ends and its fault. -/
theorem Tiles.touches {start : Nat} {text : List Char} {tokens : List Token}
    {stopped : Option LexError} (h : Tiles start text tokens stopped) :
    (∀ t ∈ tokens, Touches start text t.position ∧ Touches start text t.stop) ∧
      ∀ e ∈ stopped, Touches start text e.position := by
  induction h with
  | done _ => exact ⟨nofun, nofun⟩
  | @fault _ gap _ _ _ hfault =>
    refine ⟨nofun, fun e he => ?_⟩
    cases he
    exact .behind gap hfault.touches
  | @token start gap l rest kind _ _ _ hl hkind _ ih =>
    obtain ⟨htokens, hstopped⟩ := ih
    have hbehind {p : Nat} (hp : Touches (start + byteLength gap + byteLength l) rest p) :
        Touches start (gap ++ (l ++ rest)) p := .behind gap (.behind l hp)
    refine ⟨List.forall_mem_cons.2 ⟨⟨.behind gap ?_, .behind gap ?_⟩, fun t ht => ?_⟩,
      fun e he => hbehind (hstopped e he)⟩
    · obtain ⟨⟨c, hc, hblank⟩, -⟩ := hl.not_isBlank hkind
      exact ⟨[], l ++ rest, rfl, rfl, .inr ⟨c, by rw [List.head?_append, Option.mem_def.1 hc]; rfl,
        hblank⟩⟩
    · obtain ⟨-, hlast⟩ := hl.not_isBlank hkind
      exact ⟨l, rest, rfl, by rw [Token.stop, utf8ByteSize_ofList], .inl hlast⟩
    · exact ⟨hbehind (htokens t ht).1, hbehind (htokens t ht).2⟩

end Lexer

/-! ## Faults -/

/-- A fault that is alike elsewhere is reported at a token, behind one, or at the beginning. -/
theorem GrammarError.Alike.position {ts ts' : List Token} {e e' : GrammarError}
    (h : e.Alike ts ts' e') :
    e.position = 0 ∨ ∃ t ∈ ts, e.position = t.position ∨ e.position = t.stop := by
  have hmem {t t' : Token} (hfacing : t.Facing ts ts' t') : t ∈ ts := by
    obtain ⟨k, hk, -⟩ := hfacing.place
    exact List.mem_of_getElem? hk
  cases h with
  | empty => exact .inl rfl
  | token _ ht => exact .inr ⟨_, hmem ht, .inl rfl⟩
  | wrongCloser _ ht => exact .inr ⟨_, hmem ht, .inl rfl⟩
  | unclosed _ hlast => exact .inr ⟨_, List.mem_of_getLast? hlast, .inr rfl⟩

/-- So is a fault in the order of tokens, for it is alike where the tokens are the same. -/
theorem Node.position_of_ofTokens {tokens : List Token} {e : GrammarError}
    (h : Node.ofTokens tokens = .error e) :
    e.position = 0 ∨ ∃ t ∈ tokens, e.position = t.position ∨ e.position = t.stop := by
  have hself : List.Forall₂ Token.SameLexeme tokens tokens :=
    List.forall₂_same.2 fun t _ => ⟨rfl, rfl⟩
  have hparsed := Node.parsedAlike hself
  rw [ParsedAlike, h] at hparsed
  cases hparsed with
  | error halike => exact halike.position

/-- **Where a text is refused**: at its beginning, or where something is not blank. -/
theorem Node.touches_of_ofText {source : String} {e : SourceError}
    (h : Node.ofText source = .error e) : e.position = 0 ∨ Touches 0 source.toList e.position := by
  have htiles : Tiles 0 source.toList (Scan.ofText source).tokens (Scan.ofText source).stopped :=
    Scan.tiles_scanFrom 0 source.toList
  obtain ⟨htokens, hstopped⟩ := htiles.touches
  unfold Node.ofText at h
  split at h
  · rename_i lexError hresult
    cases h
    obtain ⟨tokens, hscan⟩ := Scan.result_eq_error_iff.1 hresult
    exact .inr (hstopped lexError (by rw [hscan]; rfl))
  · rename_i tokens hresult
    have hscan := Scan.result_eq_ok_iff.1 hresult
    rw [hscan] at htokens
    split at h
    · rename_i grammarError hrefused
      cases h
      rcases Node.position_of_ofTokens hrefused with hzero | ⟨t, ht, hposition | hposition⟩
      · exact .inl hzero
      · exact .inr (by simpa only [GrammarError.toSourceError, hposition] using (htokens t ht).1)
      · exact .inr (by simpa only [GrammarError.toSourceError, hposition] using (htokens t ht).2)
    · cases h

theorem Node.ofText_of_ofSource {source : String} {e : SourceError}
    (h : Node.ofSource source = .error (.source e)) : Node.ofText source = .error e := by
  unfold Node.ofSource checkSourceSize at h
  split at h
  · cases h
  · cases hn : Node.ofText source with
    | error e' =>
      simp only [hn] at h
      cases h
      rfl
    | ok n =>
      simp only [hn] at h
      cases h

namespace SourceError

/-- The position of a fault parts no line ending. -/
theorem exists_boundary {source : String} {e : SourceError}
    (h : Node.ofSource source = .error (.source e)) :
    ∃ before after, source.toList = before ++ after ∧ e.position = byteLength before ∧
      ¬ (before.getLast? = some '\r' ∧ after.head? = some '\n') := by
  rcases Node.touches_of_ofText (Node.ofText_of_ofSource h) with
    hzero | ⟨before, after, htext, hposition, hc⟩
  · exact ⟨[], source.toList, rfl, hzero, nofun⟩
  · refine ⟨before, after, htext, by rw [hposition, Nat.zero_add], ?_⟩
    rintro ⟨hlast, hhead⟩
    rcases hc with ⟨c, hc, hblank⟩ | ⟨c, hc, hblank⟩
    · obtain rfl : '\r' = c := by simpa [hlast] using hc
      exact absurd hblank (by decide)
    · obtain rfl : '\n' = c := by simpa [hhead] using hc
      exact absurd hblank (by decide)

/-- **A fault is shown at its place.**

* The line of a position counts the line feeds before it, and its column the characters behind the
  last of them, so the position is where that line begins and the bytes of those characters.
* Of two positions the later one has the later place, and no two have the same.
* A text that is refused is refused at a position of its own. What is shown is the line of that
  place without its ending, and below it a caret under the character at the position, or directly
  behind the last one of the line. -/
theorem points_at_fault :
    (∀ (e : SourceError) (source : String) (before after : List Char),
      source.toList = before ++ after → e.position = byteLength before →
      ∃ lead line, before = lead ++ line ∧ WholeLines lead ∧ '\n' ∉ line ∧
        e.place source = (before.count '\n' + 1, line.length + 1)) ∧
    (∀ (e e' : SourceError) (source : String), IsBoundary source.toList e.position →
      IsBoundary source.toList e'.position →
      (e.position < e'.position → toLex (e.place source) < toLex (e'.place source)) ∧
        (e.place source = e'.place source → e.position = e'.position)) ∧
    ∀ (e : SourceError) (source : String), Node.ofSource source = .error (.source e) →
      IsBoundary source.toList e.position ∧ e.position ≤ source.utf8ByteSize ∧
      ∃ lead line ending rest column, Line source.toList lead line ending rest ∧
        e.place source = (lead.count '\n' + 1, column + 1) ∧ column ≤ line.length ∧
        e.position = byteLength (lead ++ line.take column) ∧
        e.render source = "line " ++ toString (lead.count '\n' + 1) ++ ", column " ++
          toString (column + 1) ++ ":\n" ++ String.ofList line ++ "\n" ++
          String.ofList (List.replicate column ' ' ++ ['^']) ++ "\n" ++ e.message := by
  refine ⟨fun e source before after htext hposition => ?_, fun e e' source he he' => ?_,
    fun e source h => ?_⟩
  · obtain ⟨lead, line, rfl, hlead, hline⟩ := exists_wholeLines before
    refine ⟨lead, line, rfl, hlead, hline, ?_⟩
    rw [place, htext, hposition, placeOf_eq hlead hline, List.count_append,
      List.count_eq_zero.2 hline, Nat.add_zero]
  · exact ⟨placeOf_lt he he', placeOf_injective he he'⟩
  · obtain ⟨before, after, htext, hposition, hparted⟩ := exists_boundary h
    obtain ⟨lead, line, ending, rest, column, hline, hcolumn, hbefore, hplace⟩ :=
      exists_line_of_not_parted hparted
    rw [← htext] at hline hplace
    rw [← hposition] at hplace
    refine ⟨⟨before, ⟨after, htext.symm⟩, hposition.symm⟩, ?_, lead, line, ending, rest, column,
      hline, hplace, hcolumn, by rw [hposition, hbefore], ?_⟩
    · have hsize := utf8ByteSize_ofList source.toList
      rw [String.ofList_toList] at hsize
      rw [hsize, htext, byteLength_append, hposition]
      exact Nat.le_add_right _ _
    · simp only [render, place, hplace, sourceLine_eq hline, Nat.add_sub_cancel]
      rfl

/-- A character that begins no token, on a line behind a carriage return and with a letter of two
bytes before it. -/
theorem points_at_fault_behind_return :
    let source := "(asset\r\n \"é\" @)"
    let e : SourceError := ⟨.lexical, "unexpected character '@'", 14⟩
    let front : SourceError := ⟨.lexical, "unexpected character '@'", 12⟩
    Node.ofSource source = .error (.source e) ∧
      (∃ lead line, "(asset\r\n \"é".toList = lead ++ line ∧ WholeLines lead ∧ '\n' ∉ line ∧
        front.place source = ("(asset\r\n \"é".toList.count '\n' + 1, line.length + 1)) ∧
      toLex (front.place source) < toLex (e.place source) ∧
      ∃ lead line ending rest column, Line source.toList lead line ending rest ∧
        e.place source = (lead.count '\n' + 1, column + 1) ∧ column ≤ line.length := by
  intro source e front
  have hrun : (match Node.ofSource source with
      | .error (.source e') => decide (e' = e)
      | _ => false) = true := by decide +kernel
  have he : Node.ofSource source = .error (.source e) := by
    split at hrun
    · rename_i e' he'
      rw [he', of_decide_eq_true hrun]
    · cases hrun
  obtain ⟨hplace, horder, hshown⟩ := points_at_fault
  have hcut : source.toList = "(asset\r\n \"é".toList ++ "\" @)".toList := by decide
  have hbytes : front.position = byteLength "(asset\r\n \"é".toList := by decide
  obtain ⟨hboundary, -, lead, line, ending, rest, column, hline, hcolumn, hle, -⟩ :=
    hshown e source he
  exact ⟨he, hplace front source _ _ hcut hbytes,
    (horder front e source ⟨_, ⟨_, hcut.symm⟩, hbytes.symm⟩ hboundary).1 (by decide), lead, line,
    ending, rest, column, hline, hcolumn, hle⟩

end SourceError

end AllocScript
