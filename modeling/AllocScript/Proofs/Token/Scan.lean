import Mathlib
import AllocScript.Token.Lexer

/-!
# Scans in parts

What a scan has found stands in front of what it finds later (`scanFrom_done`), so a text may be
scanned lexeme by lexeme (`scanFrom_lexeme`). The tokens found are no more than the characters
(`length_tokens_le`). A stream of tokens gives what the scan finds (`Tokenizer.ask_ofText`).
-/

namespace AllocScript

theorem foldl_utf8Size (n : Nat) (cs : List Char) :
    cs.foldl (fun n c => n + c.utf8Size) n = n + byteLength cs := by
  induction cs generalizing n with
  | nil => rfl
  | cons c cs ih =>
    simp only [byteLength, List.foldl_cons]
    rw [ih, ih]
    omega

@[simp] theorem byteLength_nil : byteLength [] = 0 := rfl

@[simp] theorem byteLength_cons (c : Char) (cs : List Char) :
    byteLength (c :: cs) = c.utf8Size + byteLength cs := by
  rw [← foldl_utf8Size, ← Nat.zero_add c.utf8Size]
  rfl

theorem byteLength_append (cs ds : List Char) :
    byteLength (cs ++ ds) = byteLength cs + byteLength ds := by
  induction cs with
  | nil => simp
  | cons c cs ih => simp only [List.cons_append, byteLength_cons, ih, Nat.add_assoc]

theorem length_le_byteLength (cs : List Char) : cs.length ≤ byteLength cs := by
  induction cs with
  | nil => exact Nat.le_refl _
  | cons c cs ih =>
    have hc := c.utf8Size_pos
    rw [List.length_cons, byteLength_cons]
    omega

theorem utf8ByteSize_ofList (cs : List Char) : (String.ofList cs).utf8ByteSize = byteLength cs := by
  induction cs with
  | nil => rfl
  | cons c cs ih =>
    rw [← List.singleton_append, String.ofList_append, String.utf8ByteSize_append, ih,
      List.singleton_append, byteLength_cons]
    congr 1
    exact String.utf8ByteSize_singleton

namespace Scan

open Lexer

/-- What a scan has found stands in front of what it finds later. -/
theorem scanFrom_done (done : List Token) (skip position : Nat) (cs : List Char) :
    scanFrom done skip position cs =
      ⟨done.reverse ++ (scanFrom [] skip position cs).tokens,
        (scanFrom [] skip position cs).stopped⟩ := by
  induction cs generalizing done skip position with
  | nil => simp [scanFrom]
  | cons c cs ih =>
    cases skip with
    | succ skip => exact ih done skip _
    | zero =>
      simp only [scanFrom]
      cases cut position (c :: cs) with
      | error e => simp
      | ok best =>
        dsimp only
        split
        · exact ih done _ _
        · rw [ih, ih [_]]
          simp

/-- A scan finds at most one token for each character. -/
theorem length_tokens_le (skip position : Nat) (cs : List Char) :
    (scanFrom [] skip position cs).tokens.length ≤ cs.length := by
  induction cs generalizing skip position with
  | nil => exact Nat.le_refl _
  | cons c cs ih =>
    cases skip with
    | succ skip => exact (ih skip _).trans (Nat.le_succ _)
    | zero =>
      simp only [scanFrom]
      cases cut position (c :: cs) with
      | error e => exact Nat.zero_le _
      | ok best =>
        have hrest := ih (best.2 - 1) (position + c.utf8Size)
        dsimp only
        rw [scanFrom_done]
        split <;> simp <;> omega

/-- Characters to be skipped are passed over, as far as there are any. -/
theorem scanFrom_drop (done : List Token) (skip position : Nat) (cs : List Char) :
    scanFrom done skip position cs =
      scanFrom done 0 (position + byteLength (cs.take skip)) (cs.drop skip) := by
  induction cs generalizing skip position with
  | nil => simp [scanFrom]
  | cons c cs ih =>
    cases skip with
    | zero => rfl
    | succ skip =>
      rw [List.take_succ_cons, List.drop_succ_cons, byteLength_cons, ← Nat.add_assoc, ← ih]
      rfl

/-- The rest of a lexeme is passed over. -/
theorem scanFrom_skip (done : List Token) (position : Nat) (l rest : List Char) :
    scanFrom done l.length position (l ++ rest) =
      scanFrom done 0 (position + byteLength l) rest := by
  rw [scanFrom_drop, List.take_left, List.drop_left]

/-- A lexeme is cut off, and the scan goes on behind it. -/
theorem scanFrom_lexeme (done : List Token) {position : Nat} {kind : TokenKind} {l : List Char}
    (rest : List Char) (hl : l ≠ []) (hcut : cut position (l ++ rest) = .ok (kind, l.length)) :
    scanFrom done 0 position (l ++ rest) =
      scanFrom (if kind.isDiscarded then done else ⟨kind, String.ofList l, position⟩ :: done) 0
        (position + byteLength l) rest := by
  cases l with
  | nil => exact absurd rfl hl
  | cons c cs =>
    rw [List.cons_append] at hcut ⊢
    simp only [scanFrom, hcut]
    rw [byteLength_cons, ← Nat.add_assoc, ← scanFrom_skip _ _ cs]
    simp

theorem result_eq_ok_iff {s : Scan} {tokens : List Token} :
    s.result = .ok tokens ↔ s = ⟨tokens, none⟩ := by
  obtain ⟨found, stopped⟩ := s
  cases stopped <;> simp [result]

theorem result_eq_error_iff {s : Scan} {e : LexError} :
    s.result = .error e ↔ ∃ tokens, s = ⟨tokens, some e⟩ := by
  obtain ⟨found, stopped⟩ := s
  cases stopped <;> simp [result]

end Scan

/-! ## The stream -/

namespace Tokenizer

open Lexer Scan

/-- What the stream is still to give. -/
def items (t : Tokenizer) : List (Except LexError Token) :=
  if t.failed then [] else (scanFrom [] 0 t.position t.rest).items

/-- **One call of `next`** gives the first one of what is to come and leaves the others. -/
theorem next_items (t : Tokenizer) :
    t.next.1 = t.items.head? ∧ t.next.2.items = t.items.tail := by
  fun_induction next t with
  | case1 t hfailed => simp [items, hfailed]
  | case2 t hfailed hrest => simp [items, hrest, scanFrom, Scan.items]
  | case3 t hfailed c cs hrest e hcut => simp [items, hfailed, hrest, scanFrom, hcut, Scan.items]
  | case4 t hfailed c cs hrest kind length hcut behind hkind ih =>
    have hitems : t.items = behind.items := by
      simp only [items, hfailed, hrest, scanFrom, hcut, hkind, if_true, behind]
      rw [scanFrom_drop]
    rw [hitems]
    exact ih
  | case5 t hfailed c cs hrest kind length hcut behind hkind =>
    have hitems : t.items =
        .ok ⟨kind, String.ofList ((c :: cs).take length), t.position⟩ :: behind.items := by
      simp only [items, hfailed, hrest, scanFrom, hcut, hkind, behind, Scan.items]
      rw [scanFrom_done, scanFrom_drop]
      rfl
    rw [hitems]
    exact ⟨rfl, rfl⟩

/-- **A stream of tokens gives what the scan finds**: its tokens, and then the fault that has
stopped it, if there is one. After that it gives nothing, however often it is asked. -/
theorem ask_ofText (source : String) (n : Nat) :
    (ofText source).ask n = (Scan.ofText source).items[n]? := by
  have hask (t : Tokenizer) : t.ask n = t.items[n]? := by
    induction n generalizing t with
    | zero =>
      rw [ask, (next_items t).1, List.head?_eq_getElem?]
    | succ n ih =>
      rw [ask, ih, (next_items t).2, List.getElem?_tail]
  exact hask (ofText source)

end Tokenizer

theorem tokenize_eq_ok_iff {source : String} {tokens : List Token} :
    tokenize source = .ok tokens ↔ Scan.scanFrom [] 0 0 source.toList = ⟨tokens, none⟩ :=
  Scan.result_eq_ok_iff

/-- A text has no more tokens than bytes. -/
theorem length_le_of_tokenize {source : String} {tokens : List Token}
    (h : tokenize source = .ok tokens) : tokens.length ≤ source.utf8ByteSize := by
  have hscan := Scan.length_tokens_le 0 0 source.toList
  rw [tokenize_eq_ok_iff.1 h] at hscan
  have hbytes := utf8ByteSize_ofList source.toList
  rw [String.ofList_toList] at hbytes
  rw [hbytes]
  exact hscan.trans (length_le_byteLength _)

end AllocScript
