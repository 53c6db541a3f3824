import Mathlib
import AllocScript.Proofs.Token.Spelling

/-!
# How a text is cut into tokens

The specification of the scan, without the scan.

* A token is a string between quotes or the longest match at its place (`Lexeme`). Where there is
  none, `Untokenizable` says what is wrong and at which byte.
* A `Gap` between tokens is blank space, commas and comments. A comment leaves the line feed that
  ends it to the gap behind it.
* `Tiles` lays gaps and tokens end to end, up to the end of the text or the first place at which
  there is no token.

**The scan tiles its text** (`Scan.scanFrom_eq_iff`): it is the one tiling that the text has.
-/

namespace AllocScript

namespace Lexer

/-! ## Strings -/

theorem isEscape_eq_true_iff {c : Char} :
    isEscape c = true ↔ c = '"' ∨ c = '\\' ∨ c = 'n' ∨ c = 't' ∨ c = 'r' := by
  have hescapes : "\"\\ntr".toList = ['"', '\\', 'n', 't', 'r'] := by decide
  simp [isEscape, hescapes]

/-- What may stand between the quotes of a string. -/
inductive StringBody : List Char → Prop where
  | nil : StringBody []
  | plain {c : Char} {cs : List Char} :
      c ≠ '"' → c ≠ '\\' → StringBody cs → StringBody (c :: cs)
  | escape {c : Char} {cs : List Char} :
      c = '"' ∨ c = '\\' ∨ c = 'n' ∨ c = 't' ∨ c = 'r' → StringBody cs →
        StringBody ('\\' :: c :: cs)

theorem stringLength_plain {c : Char} (hquote : c ≠ '"') (hbackslash : c ≠ '\\')
    (start length here : Nat) (cs : List Char) :
    stringLength start length here (c :: cs) =
      stringLength start (length + 1) (here + c.utf8Size) cs := by
  rw [stringLength]
  · exact hquote
  · exact fun h => absurd h hbackslash
  · exact fun _ _ h => absurd h hbackslash

theorem StringBody.stringLength {body : List Char} (h : StringBody body)
    (start length here : Nat) (rest : List Char) :
    Lexer.stringLength start length here (body ++ rest) =
      Lexer.stringLength start (length + body.length) (here + byteLength body) rest := by
  induction h generalizing length here with
  | nil => rfl
  | plain hquote hbackslash _ ih =>
    rw [List.cons_append, stringLength_plain hquote hbackslash, ih, List.length_cons,
      byteLength_cons]
    congr 1 <;> omega
  | escape hc _ ih =>
    rw [List.cons_append, List.cons_append, Lexer.stringLength,
      if_pos (isEscape_eq_true_iff.2 hc), ih, List.length_cons, List.length_cons, byteLength_cons,
      byteLength_cons]
    have hsize : '\\'.utf8Size = 1 := rfl
    congr 1 <;> omega

/-- What a text holds behind the longest string body in front of it. -/
inductive BodyEnd : List Char → Prop where
  | quote (rest : List Char) : BodyEnd ('"' :: rest)
  | nothing : BodyEnd []
  | backslash : BodyEnd ['\\']
  | escape (c : Char) (rest : List Char) : isEscape c = false → BodyEnd ('\\' :: c :: rest)

theorem exists_stringBody : ∀ cs : List Char,
    ∃ body rest, cs = body ++ rest ∧ StringBody body ∧ BodyEnd rest
  | [] => ⟨[], [], rfl, .nil, .nothing⟩
  | [c] => by
    by_cases hquote : c = '"'
    · exact ⟨[], _, rfl, .nil, hquote ▸ .quote []⟩
    · by_cases hbackslash : c = '\\'
      · exact ⟨[], _, rfl, .nil, hbackslash ▸ .backslash⟩
      · exact ⟨[c], [], rfl, .plain hquote hbackslash .nil, .nothing⟩
  | c :: d :: cs => by
    by_cases hquote : c = '"'
    · exact ⟨[], _, rfl, .nil, hquote ▸ .quote (d :: cs)⟩
    · by_cases hbackslash : c = '\\'
      · rw [hbackslash]
        cases hd : isEscape d with
        | false => exact ⟨[], _, rfl, .nil, .escape d cs hd⟩
        | true =>
          obtain ⟨body, rest, rfl, hbody, hrest⟩ := exists_stringBody cs
          exact ⟨'\\' :: d :: body, rest, rfl, .escape (isEscape_eq_true_iff.1 hd) hbody, hrest⟩
      · obtain ⟨body, rest, hsplit, hbody, hrest⟩ := exists_stringBody (d :: cs)
        exact ⟨c :: body, rest, by rw [hsplit]; rfl, .plain hquote hbackslash hbody, hrest⟩

/-! ## Lexemes -/

/-- `l` is the token in front of `rest`, and `kind` is its kind. -/
inductive Lexeme : TokenKind → List Char → List Char → Prop where
  | string {body rest : List Char} :
      StringBody body → Lexeme .string ('"' :: body ++ ['"']) rest
  | longest {kind : TokenKind} {l rest : List Char} : Longest kind l rest → Lexeme kind l rest

/-- Nothing in front of a text that begins at byte `start` is a token, because of a fault. -/
inductive Untokenizable (start : Nat) : List Char → LexError → Prop where
  | unexpected {c : Char} {cs : List Char} :
      c ≠ '"' → (∀ kind l rest, c :: cs = l ++ rest → ¬ Spells kind l) →
        Untokenizable start (c :: cs) ⟨.unexpectedCharacter c, start⟩
  | unterminated {body rest : List Char} :
      StringBody body → rest = [] ∨ rest = ['\\'] →
        Untokenizable start ('"' :: body ++ rest) ⟨.unterminatedString, start⟩
  | escape {body rest : List Char} {c : Char} :
      StringBody body → ¬ (c = '"' ∨ c = '\\' ∨ c = 'n' ∨ c = 't' ∨ c = 'r') →
        Untokenizable start ('"' :: body ++ '\\' :: c :: rest)
          ⟨.invalidEscape c, start + byteLength ('"' :: body)⟩

theorem Lexeme.ne_nil {kind : TokenKind} {l rest : List Char} (h : Lexeme kind l rest) :
    l ≠ [] := by
  cases h with
  | string _ => exact List.cons_ne_nil _ _
  | longest h => exact List.length_pos_iff.1 (length_pos_of_spells h.spelled)

theorem Untokenizable.ne_nil {start : Nat} {cs : List Char} {e : LexError}
    (h : Untokenizable start cs e) : cs ≠ [] := by
  cases h <;> exact List.cons_ne_nil _ _

theorem cut_quote (start : Nat) {body : List Char} (h : StringBody body) (rest : List Char) :
    cut start ('"' :: body ++ rest) =
      (stringLength start (1 + body.length) (start + 1 + byteLength body) rest).map
        fun length => (.string, length) := by
  rw [← h.stringLength]
  rfl

theorem Lexeme.cut {kind : TokenKind} {l rest : List Char} (h : Lexeme kind l rest)
    (start : Nat) : Lexer.cut start (l ++ rest) = .ok (kind, l.length) := by
  cases h with
  | @string body _ hbody =>
    rw [List.append_assoc, cut_quote start hbody, List.singleton_append, Lexer.stringLength,
      Except.map, List.length_append, List.length_cons, List.length_singleton,
      Nat.add_comm 1 body.length]
  | longest h =>
    obtain ⟨c, cs, rfl, hc⟩ := exists_begins_of_spells h.spelled
    have hquote : c ≠ '"' := by
      rintro rfl
      exact not_begins_quote kind hc
    have hmatch := h.longestMatch
    rw [List.cons_append] at hmatch ⊢
    rw [cut_of_ne hquote, hmatch]

theorem Untokenizable.cut {start : Nat} {cs : List Char} {e : LexError}
    (h : Untokenizable start cs e) : Lexer.cut start cs = .error e := by
  cases h with
  | unexpected hquote hnone => rw [cut_of_ne hquote, longestMatch_eq_none_iff.2 hnone]
  | unterminated hbody hrest =>
    rw [cut_quote start hbody]
    rcases hrest with rfl | rfl <;> rfl
  | escape hbody hc =>
    rw [cut_quote start hbody, Lexer.stringLength, if_neg (mt isEscape_eq_true_iff.1 hc),
      byteLength_cons, ← Nat.add_assoc]
    rfl

/-- **A text begins with a token or with a fault.** -/
theorem exists_lexeme_or_untokenizable (start : Nat) {cs : List Char} (hne : cs ≠ []) :
    (∃ kind l rest, cs = l ++ rest ∧ Lexeme kind l rest) ∨ ∃ e, Untokenizable start cs e := by
  obtain ⟨c, cs, rfl⟩ := List.exists_cons_of_ne_nil hne
  by_cases hquote : c = '"'
  · obtain ⟨body, rest, rfl, hbody, hrest⟩ := exists_stringBody cs
    rw [hquote]
    cases hrest with
    | quote rest => exact .inl ⟨_, '"' :: body ++ ['"'], rest, by simp, .string hbody⟩
    | nothing => exact .inr ⟨_, .unterminated hbody (.inl rfl)⟩
    | backslash => exact .inr ⟨_, .unterminated hbody (.inr rfl)⟩
    | escape c rest hc =>
      exact .inr ⟨_, .escape hbody (mt isEscape_eq_true_iff.2 (by simp [hc]))⟩
  · cases hmatch : longestMatch (c :: cs) with
    | none => exact .inr ⟨_, .unexpected hquote (longestMatch_eq_none_iff.1 hmatch)⟩
    | some best =>
      obtain ⟨kind, n⟩ := best
      obtain ⟨r, hr, -, hn, -⟩ := exists_rule_of_longestMatch hmatch
      have hlength : ((c :: cs).take n).length = n := by
        rw [List.length_take, Nat.min_eq_left]
        exact hn ▸ rule_le_length _ r hr
      refine .inl ⟨kind, _, _, (List.take_append_drop n (c :: cs)).symm,
        .longest (longest_of_longestMatch ?_)⟩
      rw [List.take_append_drop, hlength, hmatch]

/-! ## Gaps -/

/-- `gap` is blank space, commas and comments, in front of `rest`. A comment goes up to a line feed
or to the end of the text. -/
inductive Gap : List Char → List Char → Prop where
  | nil {rest : List Char} : Gap [] rest
  | blank {c : Char} {gap rest : List Char} :
      isBlank c = true → Gap gap rest → Gap (c :: gap) rest
  | comma {gap rest : List Char} : Gap gap rest → Gap (',' :: gap) rest
  | comment {body gap rest : List Char} :
      (∀ c ∈ body, c ≠ '\n') → (∀ c ∈ (gap ++ rest).head?, c = '\n') → Gap gap rest →
        Gap (';' :: body ++ gap) rest

/-- A token without meaning belongs to the gap. -/
theorem Lexeme.gap {kind : TokenKind} {l gap rest : List Char}
    (h : Lexeme kind l (gap ++ rest)) (hkind : kind.isDiscarded = true) (hgap : Gap gap rest) :
    Gap (l ++ gap) rest := by
  cases h with
  | string _ => cases hkind
  | longest h =>
    have hspelled := h.spelled
    cases kind with
    | blank =>
      obtain ⟨-, hall⟩ := hspelled
      clear h
      induction l with
      | nil => exact hgap
      | cons c l ih => exact .blank (hall c (by simp)) (ih fun d hd => hall d (by simp [hd]))
    | comment =>
      obtain ⟨body, rfl, hbody⟩ := hspelled
      refine .comment hbody (fun c hc => ?_) hgap
      -- Another character in front of the line feed would make the comment longer.
      by_contra hne
      cases htext : gap ++ rest with
      | nil => rw [htext] at hc; cases hc
      | cons d cs =>
        rw [htext] at hc h
        injection hc with hc
        have hlonger := h.longest .comment (';' :: (body ++ [d])) cs (by simp)
          ⟨body ++ [d], rfl, by simpa [or_imp, forall_and, hc] using ⟨hbody, hne⟩⟩
        simp at hlonger
    | comma =>
      rw [show l = [','] from hspelled]
      exact .comma hgap
    | _ => cases hkind

theorem longest_blank {l rest : List Char} (hne : l ≠ []) (hl : ∀ c ∈ l, isBlank c = true)
    (hrest : ∀ c ∈ rest.head?, isBlank c = false) : Longest .blank l rest := by
  refine longest_of_isDiscarded rfl ⟨hne, hl⟩ fun l' rest' hsplit h' => ?_
  have hspan := le_spanLength h'.2 rest'
  rw [← hsplit] at hspan
  exact hspan.trans (spanLength_append_le l hrest)

theorem longest_comma (rest : List Char) : Longest .comma [','] rest := by
  refine longest_of_isDiscarded rfl rfl fun l' rest' hsplit h' => ?_
  rw [show l' = [','] from h']

theorem longest_comment {body rest : List Char} (hbody : ∀ c ∈ body, c ≠ '\n')
    (hrest : ∀ c ∈ rest.head?, c = '\n') : Longest .comment (';' :: body) rest := by
  refine longest_of_isDiscarded rfl ⟨body, rfl, hbody⟩ fun l' rest' hsplit h' => ?_
  obtain ⟨body', rfl, hbody'⟩ := h'
  have htail : body ++ rest = body' ++ rest' := by simpa using hsplit
  have hspan := le_spanLength (p := (· ≠ '\n')) (fun c hc => by simpa using hbody' c hc) rest'
  rw [← htail] at hspan
  have hle := spanLength_append_le (p := (· ≠ '\n')) body (fun c hc => by simpa using hrest c hc)
  exact Nat.succ_le_succ (hspan.trans hle)

/-! ## Tilings -/

/-- The text, which begins at byte `start`, is gaps and tokens in turn, up to its end or to a fault
behind the last gap. -/
inductive Tiles : Nat → List Char → List Token → Option LexError → Prop where
  | done {start : Nat} {gap : List Char} : Gap gap [] → Tiles start gap [] none
  | fault {start : Nat} {gap cs : List Char} {e : LexError} :
      Gap gap cs → Untokenizable (start + byteLength gap) cs e →
        Tiles start (gap ++ cs) [] (some e)
  | token {start : Nat} {gap l rest : List Char} {kind : TokenKind} {tokens : List Token}
      {stopped : Option LexError} :
      Gap gap (l ++ rest) → Lexeme kind l rest → kind.isDiscarded = false →
        Tiles (start + byteLength gap + byteLength l) rest tokens stopped →
          Tiles start (gap ++ (l ++ rest))
            (⟨kind, String.ofList l, start + byteLength gap⟩ :: tokens) stopped

/-- A token without meaning in front of a tiling widens its first gap. -/
theorem Tiles.discard {start : Nat} {kind : TokenKind} {l rest : List Char} {tokens : List Token}
    {stopped : Option LexError} (hl : Lexeme kind l rest) (hkind : kind.isDiscarded = true)
    (h : Tiles (start + byteLength l) rest tokens stopped) :
    Tiles start (l ++ rest) tokens stopped := by
  cases h with
  | done hgap =>
    rw [← List.append_nil rest] at hl
    exact .done (hl.gap hkind hgap)
  | @fault _ gap cs e hgap he =>
    rw [Nat.add_assoc, ← byteLength_append] at he
    rw [← List.append_assoc]
    exact .fault (hl.gap hkind hgap) he
  | @token _ gap l' rest kind' _ _ hgap hl' hkind' h =>
    rw [Nat.add_assoc start, ← byteLength_append] at h ⊢
    rw [← List.append_assoc]
    exact .token (hl.gap hkind hgap) hl' hkind' h

/-- The items of a tiling are no more than the characters of its text. -/
theorem Tiles.length_le {start : Nat} {text : List Char} {tokens : List Token}
    {stopped : Option LexError} (h : Tiles start text tokens stopped) :
    tokens.length + stopped.toList.length ≤ text.length := by
  induction h with
  | done _ => exact Nat.zero_le _
  | fault _ he =>
    have hpos := List.length_pos_iff.2 he.ne_nil
    simp
    omega
  | token _ hl _ _ ih =>
    have hpos := List.length_pos_iff.2 hl.ne_nil
    simp
    omega

/-- Every token of a tiling is a piece of the text, and its position is where the piece begins. -/
theorem Tiles.exists_piece {start : Nat} {text : List Char} {tokens : List Token}
    {stopped : Option LexError} (h : Tiles start text tokens stopped) :
    ∀ t ∈ tokens, t.lexeme.toList ≠ [] ∧ ∃ before after,
      text = before ++ t.lexeme.toList ++ after ∧ t.position = start + byteLength before := by
  induction h with
  | done _ => exact fun t ht => by cases ht
  | fault _ _ => exact fun t ht => by cases ht
  | @token start gap l rest kind _ _ _ hl _ _ ih =>
    intro t ht
    rcases List.mem_cons.1 ht with rfl | ht
    · rw [String.toList_ofList]
      exact ⟨hl.ne_nil, gap, rest, by rw [List.append_assoc], rfl⟩
    · obtain ⟨hne, before, after, hrest, hposition⟩ := ih t ht
      refine ⟨hne, gap ++ l ++ before, after, by rw [hrest]; simp, ?_⟩
      rw [hposition, byteLength_append, byteLength_append]
      omega

end Lexer

open Lexer

namespace Scan

theorem scanFrom_blank_run {run rest : List Char} (hrun : ∀ c ∈ run, isBlank c = true)
    (hrest : ∀ c ∈ rest.head?, isBlank c = false) (position : Nat) :
    scanFrom [] 0 position (run ++ rest) = scanFrom [] 0 (position + byteLength run) rest := by
  by_cases hne : run = []
  · rw [hne]
    rfl
  · exact scanFrom_lexeme [] rest hne ((Lexeme.longest (longest_blank hne hrun hrest)).cut position)

/-- Blank space is passed over one character after the other as it is in runs. -/
theorem scanFrom_blank {c : Char} (hc : isBlank c = true) (position : Nat) (cs : List Char) :
    scanFrom [] 0 position (c :: cs) = scanFrom [] 0 (position + c.utf8Size) cs := by
  have hrun : ∀ d ∈ cs.takeWhile isBlank, isBlank d = true := fun d => List.mem_takeWhile_imp
  have hrest : ∀ d ∈ (cs.dropWhile isBlank).head?, isBlank d = false := by
    intro d hd
    have hstop := List.head?_dropWhile_not isBlank cs
    rwa [hd] at hstop
  have hrun' : ∀ d ∈ c :: cs.takeWhile isBlank, isBlank d = true :=
    List.forall_mem_cons.2 ⟨hc, hrun⟩
  have hshort := scanFrom_blank_run hrun hrest (position + c.utf8Size)
  have hlong := scanFrom_blank_run hrun' hrest position
  rw [List.cons_append, List.takeWhile_append_dropWhile] at hlong
  rw [List.takeWhile_append_dropWhile] at hshort
  rw [hlong, hshort, byteLength_cons, Nat.add_assoc]

/-- **Gaps are passed over.** -/
theorem scanFrom_gap {gap rest : List Char} (h : Gap gap rest) (position : Nat) :
    scanFrom [] 0 position (gap ++ rest) = scanFrom [] 0 (position + byteLength gap) rest := by
  induction h generalizing position with
  | nil => rfl
  | blank hc _ ih =>
    rw [List.cons_append, scanFrom_blank hc, ih, byteLength_cons, Nat.add_assoc]
  | @comma gap rest _ ih =>
    have hcut := (Lexeme.longest (longest_comma (gap ++ rest))).cut position
    rw [List.cons_append, ← List.singleton_append, scanFrom_lexeme [] _ (by simp) hcut]
    exact (ih _).trans (by simp [Nat.add_assoc])
  | @comment body gap rest hbody hrest _ ih =>
    have hcut := (Lexeme.longest (longest_comment hbody hrest)).cut position
    rw [List.append_assoc, scanFrom_lexeme [] _ (by simp) hcut]
    exact (ih _).trans (by rw [byteLength_append, Nat.add_assoc])

/-- What a text is tiled with is what the scan finds. -/
theorem scanFrom_of_tiles {position : Nat} {text : List Char} {tokens : List Token}
    {stopped : Option LexError} (h : Tiles position text tokens stopped) :
    scanFrom [] 0 position text = ⟨tokens, stopped⟩ := by
  induction h with
  | done hgap =>
    have hpass := scanFrom_gap hgap
    simp only [List.append_nil] at hpass
    rw [hpass]
    rfl
  | @fault start gap cs e hgap he =>
    rw [scanFrom_gap hgap]
    obtain ⟨c, cs, rfl⟩ := List.exists_cons_of_ne_nil he.ne_nil
    simp [scanFrom, he.cut]
  | token hgap hl hkind _ ih =>
    rw [scanFrom_gap hgap, scanFrom_lexeme [] _ hl.ne_nil (hl.cut _), hkind]
    rw [scanFrom_done, ih]
    rfl

/-- What the scan finds tiles the text. -/
theorem tiles_scanFrom (position : Nat) (text : List Char) :
    Tiles position text (scanFrom [] 0 position text).tokens
      (scanFrom [] 0 position text).stopped := by
  induction hn : text.length using Nat.strong_induction_on generalizing position text with
  | _ n ih =>
    by_cases hne : text = []
    · rw [hne]
      exact .done .nil
    · rcases exists_lexeme_or_untokenizable position hne with ⟨kind, l, rest, rfl, hl⟩ | ⟨e, he⟩
      · have hpos := List.length_pos_iff.2 hl.ne_nil
        rw [List.length_append] at hn
        have hrest := ih rest.length (by omega) (position + byteLength l) rest rfl
        rw [scanFrom_lexeme [] _ hl.ne_nil (hl.cut _)]
        cases hkind : kind.isDiscarded with
        | true => exact .discard hl hkind hrest
        | false =>
          rw [scanFrom_done]
          exact .token .nil hl hkind hrest
      · obtain ⟨c, cs, rfl⟩ := List.exists_cons_of_ne_nil hne
        have hstop : scanFrom [] 0 position (c :: cs) = ⟨[], some e⟩ := by simp [scanFrom, he.cut]
        rw [hstop]
        exact .fault .nil he

/-- **The scan tiles its text,** and in the only way. -/
theorem scanFrom_eq_iff {position : Nat} {text : List Char} {tokens : List Token}
    {stopped : Option LexError} :
    scanFrom [] 0 position text = ⟨tokens, stopped⟩ ↔ Tiles position text tokens stopped := by
  refine ⟨fun h => ?_, scanFrom_of_tiles⟩
  have htiles := tiles_scanFrom position text
  rwa [h] at htiles

theorem ofText_eq_iff {source : String} {tokens : List Token} {stopped : Option LexError} :
    ofText source = ⟨tokens, stopped⟩ ↔ Tiles 0 source.toList tokens stopped :=
  scanFrom_eq_iff

end Scan

/-- **Tokens tile the text by longest match.** A text has one tiling, and its tokens and its fault
are those of the scan. So the tokens are not empty, they stand where they say, and together with
the fault they are no more than the characters. A tokenizer that is asked again and again gives the
tokens and then the fault, if there is one, and from then on nothing. -/
theorem tokenize_tiles (source : String) :
    (∀ tokens, tokenize source = .ok tokens ↔ Tiles 0 source.toList tokens none) ∧
    (∀ e, tokenize source = .error e ↔ ∃ tokens, Tiles 0 source.toList tokens (some e)) ∧
    (∀ tokens stopped,
      Scan.ofText source = ⟨tokens, stopped⟩ ↔ Tiles 0 source.toList tokens stopped) ∧
    (∀ t ∈ (Scan.ofText source).tokens, t.lexeme ≠ "" ∧ ∃ before after,
      source.toList = before ++ t.lexeme.toList ++ after ∧ t.position = byteLength before) ∧
    (Scan.ofText source).tokens.length + (Scan.ofText source).stopped.toList.length ≤
      source.length ∧
    ∀ n, (Tokenizer.ofText source).ask n = (Scan.ofText source).items[n]? := by
  have htiles : Tiles 0 source.toList (Scan.ofText source).tokens (Scan.ofText source).stopped :=
    Scan.tiles_scanFrom 0 source.toList
  refine ⟨fun tokens => ?_, fun e => ?_, fun tokens stopped => Scan.ofText_eq_iff, fun t ht => ?_,
    htiles.length_le, Tokenizer.ask_ofText source⟩
  · exact tokenize_eq_ok_iff.trans Scan.scanFrom_eq_iff
  · exact Scan.result_eq_error_iff.trans (exists_congr fun tokens => Scan.ofText_eq_iff)
  · obtain ⟨hne, before, after, htext, hposition⟩ := htiles.exists_piece t ht
    exact ⟨fun h => hne (by rw [h]; rfl), before, after, htext, by rw [hposition, Nat.zero_add]⟩

end AllocScript
