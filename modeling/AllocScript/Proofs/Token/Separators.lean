import Mathlib
import AllocScript.Proofs.Token.Tiling

/-!
# Separators between tokens

Where a token ends depends on what follows it, since it is the longest match. But no token goes on
into a separator, so tokens stay what they are when separators are put between them.

* `Lexeme.of_split`: a token in front of some text stays one if the text is cut off at some place
  and goes on with anything that begins with no character of symbols.
* **Other separators** (`exists_tokenize_respaced`): the lexemes of a text, joined by separators of
  any kind, are the lexemes of the text that is made.
* **More separators** (`exists_tokenize_insert`): a separator behind a token changes no lexeme.
-/

namespace AllocScript

/-- The tokens differ in their positions at most. -/
structure Token.SameLexeme (t t' : Token) : Prop where
  kind : t.kind = t'.kind
  lexeme : t.lexeme = t'.lexeme

namespace Lexer

/-! ## Tokens in front of a separator -/

/-- A bracket is one character, and other tokens that have a meaning are characters of symbols. -/
theorem isSymbolChar_of_spells {kind : TokenKind} {l : List Char} (h : Spells kind l)
    (hkind : kind.isDiscarded = false) : l.length = 1 ∨ ∀ c ∈ l, isSymbolChar c = true := by
  have hsign {sign : List Char} (h : IsSign sign) : ∀ c ∈ sign, isSymbolChar c = true := by
    rcases h with rfl | rfl | rfl
    · simp
    · simp [show isSymbolChar '-' = true by decide]
    · simp [show isSymbolChar '+' = true by decide]
  cases kind with
  | opening bracket | closing bracket => exact .inl (by rw [show l = _ from h]; rfl)
  | float =>
    obtain ⟨sign, ds, fs, rfl, hs, ⟨-, hds⟩, -, hfs⟩ := h
    refine .inr fun c hc => ?_
    simp only [List.mem_append, List.mem_cons] at hc
    rcases hc with (hc | hc) | rfl | hc
    · exact hsign hs c hc
    · exact isSymbolChar_of_isDigit (hds c hc)
    · decide
    · exact isSymbolChar_of_isDigit (hfs c hc)
  | integer =>
    obtain ⟨sign, ds, rfl, hs, -, hds⟩ := h
    refine .inr fun c hc => ?_
    rcases List.mem_append.1 hc with hc | hc
    · exact hsign hs c hc
    · exact isSymbolChar_of_isDigit (hds c hc)
  | keyword =>
    obtain ⟨name, rfl, -, hname⟩ := h
    exact .inr (List.forall_mem_cons.2 ⟨by decide, hname⟩)
  | symbol =>
    obtain ⟨c, cs, rfl, hc, hcs⟩ := h
    exact .inr (List.forall_mem_cons.2 ⟨isSymbolChar_of_isSymbolStart hc, hcs⟩)
  | string => exact h.elim
  | _ => cases hkind

theorem Longest.of_split {kind : TokenKind} {l front rest rest' : List Char}
    (h : Longest kind l (front ++ rest)) (hkind : kind.isDiscarded = false)
    (hrest : Boundary rest') : Longest kind l (front ++ rest') := by
  refine ⟨h.spelled, fun kind' l' tail hsplit hspells => ?_, h.earliest⟩
  obtain ⟨c, cs, rfl, hc⟩ := exists_begins_of_spells h.spelled
  obtain ⟨c', cs', rfl, hc'⟩ := exists_begins_of_spells hspells
  obtain rfl : c = c' := by simpa using congrArg List.head? hsplit
  have hkind' : kind'.isDiscarded = false := by
    by_contra hdiscard
    have heq := hc'.eq_of_isDiscarded (by simpa using hdiscard) hc
    rw [heq] at hkind
    exact hdiscard hkind
  rw [← List.append_assoc] at hsplit
  rcases List.append_eq_append_iff.1 hsplit with ⟨more, hmore, -⟩ | ⟨more, hmore, -⟩
  · -- The candidate goes on behind the front, so its next character is the one at the boundary.
    cases more with
    | nil => exact h.longest kind' _ rest (by rw [hmore]; simp) hspells
    | cons d more =>
      have hd : isSymbolChar d = false := hrest d (by simp_all)
      rcases isSymbolChar_of_spells hspells hkind' with hone | hall
      · simp [hmore] at hone
      · have hmem := hall d (by simp [hmore])
        rw [hd] at hmem
        cases hmem
  · exact h.longest kind' _ (more ++ rest) (by rw [← List.append_assoc, hmore]; simp) hspells

/-- A token stays one in front of a text that is cut off and goes on with a boundary. -/
theorem Lexeme.of_split {kind : TokenKind} {l front rest rest' : List Char}
    (h : Lexeme kind l (front ++ rest)) (hkind : kind.isDiscarded = false)
    (hrest : Boundary rest') : Lexeme kind l (front ++ rest') := by
  cases h with
  | string hbody => exact .string hbody
  | longest h => exact .longest (h.of_split hkind hrest)

/-! ## Separators -/

/-- Blank characters, commas and comments with the line feeds that end them. -/
inductive Separator : List Char → Prop where
  | nil : Separator []
  | blank {c : Char} {rest : List Char} :
      isBlank c = true → Separator rest → Separator (c :: rest)
  | comma {rest : List Char} : Separator rest → Separator (',' :: rest)
  | comment {body rest : List Char} :
      (∀ c ∈ body, c ≠ '\n') → Separator rest → Separator (';' :: body ++ '\n' :: rest)

theorem Separator.boundary {s : List Char} (h : Separator s) (hne : s ≠ []) (rest : List Char) :
    Boundary (s ++ rest) := by
  cases h with
  | nil => exact absurd rfl hne
  | blank hc => exact boundary_cons (isSymbolChar_of_isBlank hc) _
  | comma => exact boundary_cons (by decide) _
  | comment => exact boundary_cons (by decide) _

/-- A separator may stand before any gap. -/
theorem Separator.gap {s gap rest : List Char} (h : Separator s) (hgap : Gap gap rest) :
    Gap (s ++ gap) rest := by
  induction h with
  | nil => exact hgap
  | blank hc _ ih => exact .blank hc ih
  | comma _ ih => exact .comma ih
  | @comment body _ hbody _ ih =>
    have hnewline : Gap ('\n' :: (_ ++ gap)) rest := .blank (by decide) ih
    have hline := Gap.comment hbody (by simp) hnewline
    simpa using hline

/-- Only the first character behind a gap matters to it. -/
theorem Gap.congr {gap rest rest' : List Char} (h : Gap gap rest)
    (hhead : rest.head? = rest'.head?) : Gap gap rest' := by
  induction h with
  | nil => exact .nil
  | blank hc _ ih => exact .blank hc (ih hhead)
  | comma _ ih => exact .comma (ih hhead)
  | comment hbody hrest _ ih =>
    refine .comment hbody ?_ (ih hhead)
    rwa [List.head?_append, ← hhead, ← List.head?_append]

/-- The text of lexemes with a separator before each and one behind the last. -/
def respaced : List (List Char) → List Token → List Char → List Char
  | s :: separators, t :: tokens, last =>
    s ++ (t.lexeme.toList ++ respaced separators tokens last)
  | _, _, last => last

theorem boundary_respaced {separators : List (List Char)} {tokens : List Token} {last : List Char}
    (hseparators : ∀ s ∈ separators, Separator s) (hne : ∀ s ∈ separators, s ≠ [])
    (hlast : Separator last) : Boundary (respaced separators tokens last) := by
  have hend : Boundary last := by
    by_cases h : last = []
    · exact h ▸ boundary_nil
    · simpa using hlast.boundary h []
  cases separators with
  | nil => exact hend
  | cons s separators =>
    cases tokens with
    | nil => exact hend
    | cons t tokens => exact (hseparators s (by simp)).boundary (hne s (by simp)) _

/-- Tokens are tiled as such between any separators. -/
theorem exists_tiles_respaced {tokens : List Token}
    (htokens : ∀ t ∈ tokens,
      t.kind.isDiscarded = false ∧ ∃ rest, Lexeme t.kind t.lexeme.toList rest)
    {separators : List (List Char)} (hlength : separators.length = tokens.length)
    (hseparators : ∀ s ∈ separators, Separator s) (hne : ∀ s ∈ separators.tail, s ≠ [])
    {last : List Char} (hlast : Separator last) (start : Nat) :
    ∃ tokens', Tiles start (respaced separators tokens last) tokens' none ∧
      List.Forall₂ Token.SameLexeme tokens tokens' := by
  induction tokens generalizing separators start with
  | nil =>
    obtain rfl := List.length_eq_zero_iff.1 hlength
    refine ⟨[], .done ?_, .nil⟩
    simpa [respaced] using hlast.gap .nil
  | cons t tokens ih =>
    obtain ⟨s, separators, rfl⟩ := List.exists_cons_of_length_eq_add_one hlength
    obtain ⟨hkind, rest, hl⟩ := htokens t (by simp)
    have hrest : Boundary (respaced separators tokens last) :=
      boundary_respaced (fun s' hs' => hseparators s' (List.mem_cons_of_mem s hs')) hne hlast
    obtain ⟨tokens', htiles, hsame⟩ := ih (fun u hu => htokens u (by simp [hu]))
      (by simpa using hlength) (fun s' hs' => hseparators s' (List.mem_cons_of_mem s hs'))
      (fun s' hs' => hne s' (List.mem_of_mem_tail hs'))
      (start + byteLength s + byteLength t.lexeme.toList)
    have hgap : Gap s (t.lexeme.toList ++ respaced separators tokens last) := by
      simpa using (hseparators s (by simp)).gap .nil
    have hlexeme : Lexeme t.kind t.lexeme.toList ([] ++ respaced separators tokens last) :=
      hl.of_split hkind hrest
    refine ⟨_, .token hgap hlexeme hkind htiles, .cons ?_ hsame⟩
    exact ⟨rfl, String.ofList_toList.symm⟩

/-! ## One more separator -/

/-- Of two first parts of a text, the larger one begins with the other one. -/
theorem exists_append_of_byteLength_le {cs ds rest rest' : List Char}
    (h : cs ++ rest = ds ++ rest') (hsize : byteLength cs ≤ byteLength ds) :
    ∃ more, ds = cs ++ more ∧ rest = more ++ rest' := by
  rcases List.append_eq_append_iff.1 h with ⟨more, hds, hrest⟩ | ⟨more, hcs, hrest⟩
  · exact ⟨more, hds, hrest⟩
  · rw [hcs, byteLength_append] at hsize
    have hlength := length_le_byteLength more
    obtain rfl : more = [] := List.length_eq_zero_iff.1 (by omega)
    exact ⟨[], by simpa using hcs.symm, by simpa using hrest.symm⟩

/-- A tiling may begin with one more separator, and elsewhere. -/
theorem Tiles.exists_separated {start : Nat} {text : List Char} {tokens : List Token}
    {stopped : Option LexError} (h : Tiles start text tokens stopped) (hstopped : stopped = none)
    {s : List Char} (hs : Separator s) (start' : Nat) :
    ∃ tokens', Tiles start' (s ++ text) tokens' none ∧
      List.Forall₂ Token.SameLexeme tokens tokens' := by
  induction h generalizing s start' with
  | done hgap => exact ⟨[], .done (hs.gap hgap), .nil⟩
  | fault => cases hstopped
  | @token start gap l rest kind _ _ hgap hl hkind _ ih =>
    obtain ⟨tokens', htiles, hsame⟩ :=
      ih hstopped .nil (start' + byteLength (s ++ gap) + byteLength l)
    rw [← List.append_assoc]
    exact ⟨_, .token (hs.gap hgap) hl hkind htiles, .cons ⟨rfl, rfl⟩ hsame⟩

/-- A separator behind a token of a tiling leaves the lexemes as they are. -/
theorem Tiles.exists_insert {start : Nat} {text : List Char} {tokens : List Token}
    {stopped : Option LexError} (h : Tiles start text tokens stopped) (hstopped : stopped = none)
    {t : Token} (ht : t ∈ tokens) {front back s : List Char} (htext : text = front ++ back)
    (hfront : start + byteLength front = t.stop) (hs : Separator s) :
    ∃ tokens', Tiles start (front ++ (s ++ back)) tokens' none ∧
      List.Forall₂ Token.SameLexeme tokens tokens' := by
  induction h generalizing front with
  | done | fault => cases ht
  | @token start gap l rest kind tokens _ hgap hl hkind htiles ih =>
    -- What is put in comes behind the first token, since it comes behind one of the tokens.
    have hbehind : start + byteLength gap + byteLength l ≤ t.stop := by
      rcases List.mem_cons.1 ht with rfl | ht
      · simp [Token.stop, utf8ByteSize_ofList]
      · obtain ⟨-, before, after, -, hposition⟩ := htiles.exists_piece t ht
        rw [Token.stop, hposition]
        omega
    rw [← List.append_assoc] at htext
    obtain ⟨more, rfl, rfl⟩ := exists_append_of_byteLength_le htext
      (by rw [byteLength_append]; omega)
    rw [byteLength_append, byteLength_append] at hfront
    have hlexeme : Lexeme kind l (more ++ (s ++ back)) := by
      by_cases hne : s = []
      · simpa [hne] using hl
      · exact hl.of_split hkind (hs.boundary hne back)
    have hgap' : Gap gap (l ++ (more ++ (s ++ back))) := by
      refine hgap.congr ?_
      obtain ⟨c, cs, rfl⟩ := List.exists_cons_of_ne_nil hl.ne_nil
      rfl
    obtain ⟨tokens', htiles', hsame⟩ : ∃ tokens',
        Tiles (start + byteLength gap + byteLength l) (more ++ (s ++ back)) tokens' none ∧
          List.Forall₂ Token.SameLexeme tokens tokens' := by
      rcases List.mem_cons.1 ht with rfl | ht
      · simp only [Token.stop, utf8ByteSize_ofList] at hfront
        have hlength := length_le_byteLength more
        obtain rfl : more = [] := List.length_eq_zero_iff.1 (by omega)
        exact htiles.exists_separated hstopped hs _
      · exact ih hstopped ht rfl (by omega)
    refine ⟨_, ?_, .cons ⟨rfl, rfl⟩ hsame⟩
    rw [List.append_assoc, List.append_assoc]
    exact .token hgap' hlexeme hkind htiles'

/-! ## Texts -/

/-- A token of a tiling is a lexeme with a meaning. -/
theorem Tiles.exists_lexeme {start : Nat} {text : List Char} {tokens : List Token}
    {stopped : Option LexError} (h : Tiles start text tokens stopped) :
    ∀ t ∈ tokens, t.kind.isDiscarded = false ∧ ∃ rest, Lexeme t.kind t.lexeme.toList rest := by
  induction h with
  | done | fault => simp
  | @token _ _ l rest _ _ _ _ hl hkind _ ih =>
    refine List.forall_mem_cons.2 ⟨⟨hkind, rest, ?_⟩, ih⟩
    simpa using hl

end Lexer

open Lexer

theorem tokenize_ofList_eq_ok_iff {text : List Char} {tokens : List Token} :
    tokenize (String.ofList text) = .ok tokens ↔ Tiles 0 text tokens none := by
  rw [tokenize_eq_ok_iff, Scan.scanFrom_eq_iff, String.toList_ofList]

/-- **Lexemes may be joined by other separators.** -/
theorem exists_tokenize_respaced {source : String} {tokens : List Token}
    (h : tokenize source = .ok tokens) {separators : List (List Char)}
    (hlength : separators.length = tokens.length) (hseparators : ∀ s ∈ separators, Separator s)
    (hne : ∀ s ∈ separators.tail, s ≠ []) {last : List Char} (hlast : Separator last) :
    ∃ tokens', tokenize (String.ofList (respaced separators tokens last)) = .ok tokens' ∧
      List.Forall₂ Token.SameLexeme tokens tokens' := by
  have htiles := Scan.scanFrom_eq_iff.1 (tokenize_eq_ok_iff.1 h)
  simp only [tokenize_ofList_eq_ok_iff]
  exact exists_tiles_respaced htiles.exists_lexeme hlength hseparators hne hlast 0

/-- **A separator may be put behind a token.** -/
theorem exists_tokenize_insert {source : String} {tokens : List Token}
    (h : tokenize source = .ok tokens) {t : Token} (ht : t ∈ tokens) {front back s : List Char}
    (hsource : source.toList = front ++ back) (hfront : byteLength front = t.stop)
    (hs : Separator s) : ∃ tokens', tokenize (String.ofList (front ++ (s ++ back))) = .ok tokens' ∧
      List.Forall₂ Token.SameLexeme tokens tokens' := by
  have htiles := Scan.scanFrom_eq_iff.1 (tokenize_eq_ok_iff.1 h)
  simp only [tokenize_ofList_eq_ok_iff]
  exact htiles.exists_insert rfl ht hsource (by omega) hs

end AllocScript
