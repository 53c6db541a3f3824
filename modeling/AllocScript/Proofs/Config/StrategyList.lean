import Mathlib
import AllocScript.Config.StrategyList
import AllocScript.Proofs.Text.Trim

/-!
# What a list of strategies is

`pieces` are the parts of a text between its commas. `Listable` says what they must be like,
`RefusedPiece` what is wrong with a piece that stands behind others. Pieces are listable, or there
is a first one that is refused (`listable_or_refused`), so these two say when a text is read and
with which error it is not (`readStrategyList_eq_ok_iff`, `readStrategyList_eq_error_iff`).

In the other direction, entries that are written with commas between them and blank space around
them are read back (`pieces_intercalate`).
-/

namespace AllocScript

/-- The parts of a text between its commas. -/
def pieces (text : String) : List String := (text.toList.splitOn ',').map String.ofList

/-- There is something in every piece, and no two are the same but for blank space around them. -/
structure Listable (ps : List String) : Prop where
  not_blank : ∀ p ∈ ps, isBlankText p = false
  distinct : (ps.map trim).Nodup

/-- What is wrong with a piece that stands behind these entries. -/
inductive RefusedPiece (earlier : List String) (piece : String) : StrategyListError → Prop
  | empty : isBlankText piece = true → RefusedPiece earlier piece .emptyEntry
  | duplicate : isBlankText piece = false → trim piece ∈ earlier →
    RefusedPiece earlier piece (.duplicate (trim piece))

/-! ## Pieces -/

theorem splitCommas_eq (cs : List Char) : splitCommas cs = cs.splitOn ',' := by
  induction cs with
  | nil => rfl
  | cons c cs ih =>
    have hsplit : (c :: cs).splitOn ',' =
        if c == ',' then [] :: cs.splitOn ',' else (cs.splitOn ',').modifyHead (c :: ·) :=
      List.splitOnP_cons_eq_if_modifyHead ..
    rw [splitCommas, hsplit, ih]
    by_cases hc : c = ','
    · rw [if_pos hc, if_pos (beq_iff_eq.2 hc)]
    · rw [if_neg hc, if_neg (mt beq_iff_eq.1 hc)]
      cases h : cs.splitOn ',' with
      | nil => exact absurd h (List.splitOnP_ne_nil _ cs)
      | cons piece rest => rfl

theorem pieces_ne_nil (text : String) : pieces text ≠ [] :=
  mt List.map_eq_nil_iff.1 (List.splitOnP_ne_nil _ _)

/-- The entries of pieces, where the entries in `seen` have come before. -/
def entriesBehind (seen ps : List String) : Except StrategyListError (List String) :=
  readEntries seen (ps.map String.toList)

theorem readStrategyList_eq (text : String) :
    readStrategyList text = entriesBehind [] (pieces text) := by
  rw [readStrategyList, entriesBehind, pieces, splitCommas_eq, List.map_map]
  exact congrArg _ (List.map_id'' (fun cs => String.toList_ofList) _).symm

/-! ## One piece -/

variable {seen : List String} {piece : String}

theorem entriesBehind_of_refused {error : StrategyListError} (h : RefusedPiece seen piece error)
    (rest : List String) : entriesBehind seen (piece :: rest) = .error error := by
  cases h with
  | empty hblank => exact if_pos (trim_eq_empty_iff.2 hblank)
  | duplicate hblank hmem =>
    exact (if_neg (trim_ne_empty hblank)).trans (if_pos (List.contains_iff_mem.2 hmem))

theorem entriesBehind_of_new (hblank : isBlankText piece = false) (hnew : trim piece ∉ seen)
    (rest : List String) :
    entriesBehind seen (piece :: rest) =
      (entriesBehind (trim piece :: seen) rest).map (trim piece :: ·) :=
  (if_neg (trim_ne_empty hblank)).trans (if_neg (mt List.contains_iff_mem.1 hnew))

/-! ## All pieces -/

/-- Listable pieces are read, and then the pieces behind them. -/
theorem entriesBehind_append {good : List String} (hblank : ∀ p ∈ good, isBlankText p = false)
    (hnew : ∀ p ∈ good, trim p ∉ seen) (hdistinct : (good.map trim).Nodup) (rest : List String) :
    entriesBehind seen (good ++ rest) =
      (entriesBehind ((good.map trim).reverse ++ seen) rest).map (good.map trim ++ ·) := by
  induction good generalizing seen with
  | nil => cases h : entriesBehind seen rest <;> simp [h, Except.map]
  | cons p good ih =>
    obtain ⟨hp, hblank⟩ := List.forall_mem_cons.1 hblank
    obtain ⟨hpnew, hnew⟩ := List.forall_mem_cons.1 hnew
    rw [List.map_cons, List.nodup_cons] at hdistinct
    have hgood : ∀ q ∈ good, trim q ∉ trim p :: seen := by
      intro q hq hmem
      rcases List.mem_cons.1 hmem with heq | hmem
      · exact hdistinct.1 (heq ▸ List.mem_map_of_mem hq)
      · exact hnew q hq hmem
    rw [List.cons_append, entriesBehind_of_new hp hpnew, ih hblank hgood hdistinct.2]
    simp only [List.map_cons, List.reverse_cons, List.append_assoc, List.singleton_append]
    cases entriesBehind ((good.map trim).reverse ++ trim p :: seen) rest <;> rfl

theorem Listable.entriesBehind_append {good : List String} (h : Listable good)
    (rest : List String) :
    entriesBehind [] (good ++ rest) =
      (entriesBehind (good.map trim).reverse rest).map (good.map trim ++ ·) := by
  rw [AllocScript.entriesBehind_append h.not_blank (fun _ _ => List.not_mem_nil) h.distinct,
    List.append_nil]

/-- Pieces can be listed, or there is a first one that is refused. -/
theorem listable_or_refused (ps : List String) :
    Listable ps ∨ ∃ good piece rest error, ps = good ++ piece :: rest ∧ Listable good ∧
      RefusedPiece (good.map trim) piece error := by
  induction ps using List.reverseRecOn with
  | nil => exact .inl ⟨fun _ hp => absurd hp List.not_mem_nil, List.nodup_nil⟩
  | append_singleton ps piece ih =>
    rcases ih with hgood | ⟨good, first, rest, error, rfl, hgood, hfirst⟩
    · cases hblank : isBlankText piece with
      | true => exact .inr ⟨ps, piece, [], _, rfl, hgood, .empty hblank⟩
      | false =>
        by_cases hmem : trim piece ∈ ps.map trim
        · exact .inr ⟨ps, piece, [], _, rfl, hgood, .duplicate hblank hmem⟩
        · refine .inl ⟨List.forall_mem_append.2 ⟨hgood.not_blank, ?_⟩, ?_⟩
          · exact List.forall_mem_singleton.2 hblank
          · rw [List.map_append, List.map_singleton, ← List.concat_eq_append]
            exact hgood.distinct.concat hmem
    · exact .inr ⟨good, first, rest ++ [piece], error, by simp, hgood, hfirst⟩

theorem entriesBehind_of_listable {ps : List String} (h : Listable ps) :
    entriesBehind [] ps = .ok (ps.map trim) := by
  have hread := h.entriesBehind_append []
  rw [List.append_nil] at hread
  rw [hread]
  exact congrArg Except.ok (List.append_nil _)

theorem RefusedPiece.reverse {earlier : List String} {error : StrategyListError}
    (h : RefusedPiece earlier piece error) : RefusedPiece earlier.reverse piece error := by
  cases h with
  | empty hblank => exact .empty hblank
  | duplicate hblank hmem => exact .duplicate hblank (List.mem_reverse.2 hmem)

theorem entriesBehind_of_first_refused {good rest : List String} {error : StrategyListError}
    (hgood : Listable good) (h : RefusedPiece (good.map trim) piece error) :
    entriesBehind [] (good ++ piece :: rest) = .error error := by
  rw [hgood.entriesBehind_append, entriesBehind_of_refused h.reverse]
  rfl

theorem readStrategyList_eq_ok_iff {text : String} {entries : List String} :
    readStrategyList text = .ok entries ↔
      Listable (pieces text) ∧ entries = (pieces text).map trim := by
  rw [readStrategyList_eq]
  constructor
  · intro h
    rcases listable_or_refused (pieces text) with hlist | ⟨_, _, _, _, heq, hgood, hrefused⟩
    · rw [entriesBehind_of_listable hlist] at h
      exact ⟨hlist, (Except.ok.inj h).symm⟩
    · rw [heq, entriesBehind_of_first_refused hgood hrefused] at h
      cases h
  · rintro ⟨hlist, rfl⟩
    exact entriesBehind_of_listable hlist

theorem readStrategyList_eq_error_iff {text : String} {error : StrategyListError} :
    readStrategyList text = .error error ↔
      ∃ good piece rest, pieces text = good ++ piece :: rest ∧ Listable good ∧
        RefusedPiece (good.map trim) piece error := by
  rw [readStrategyList_eq]
  constructor
  · intro h
    rcases listable_or_refused (pieces text) with
      hlist | ⟨good, first, rest, error', heq, hgood, hrefused⟩
    · rw [entriesBehind_of_listable hlist] at h
      cases h
    · rw [heq, entriesBehind_of_first_refused hgood hrefused] at h
      cases h
      exact ⟨good, first, rest, heq, hgood, hrefused⟩
  · rintro ⟨good, first, rest, heq, hgood, hrefused⟩
    rw [heq]
    exact entriesBehind_of_first_refused hgood hrefused

/-! ## Entries that are written as a list -/

/-- An entry with blank space around it. -/
def Padded (entry piece : String) : Prop :=
  ∃ front back, AllBlank front ∧ AllBlank back ∧ piece.toList = front ++ entry.toList ++ back

/-- A text that can stand for itself in a list. -/
structure PlainEntry (entry : String) : Prop where
  ne_empty : entry ≠ ""
  no_comma : ',' ∉ entry.toList
  trimmed : trim entry = entry

variable {entry : String}

theorem Padded.trim_eq (h : Padded entry piece) : trim piece = trim entry := by
  obtain ⟨front, back, hfront, hback, heq⟩ := h
  rw [trim, trim, heq, trimChars_padded hfront hback]

theorem Padded.no_comma (h : Padded entry piece) (hentry : ',' ∉ entry.toList) :
    ',' ∉ piece.toList := by
  obtain ⟨front, back, hfront, hback, heq⟩ := h
  have hcomma : isBlank ',' ≠ true := by decide
  rw [heq, List.mem_append, List.mem_append, not_or, not_or]
  exact ⟨⟨fun hc => hcomma (hfront _ hc), hentry⟩, fun hc => hcomma (hback _ hc)⟩

/-- Pieces without commas are the pieces of the text that they make up. -/
theorem pieces_intercalate {ps : List String} (hne : ps ≠ []) (hcomma : ∀ p ∈ ps, ',' ∉ p.toList) :
    pieces (",".intercalate ps) = ps := by
  have hsplit : ([','].intercalate (ps.map String.toList)).splitOn ',' = ps.map String.toList :=
    List.splitOn_intercalate _ (List.forall_mem_map.2 hcomma) (mt List.map_eq_nil_iff.1 hne)
  rw [pieces, String.toList_intercalate]
  show ((([','].intercalate (ps.map String.toList)).splitOn ',').map String.ofList) = ps
  rw [hsplit, List.map_map]
  exact List.map_id'' (fun _ => String.ofList_toList) ps

/-- Padded entries are trimmed to what they were, and bring in no comma. -/
theorem of_padded {entries ps : List String} (h : List.Forall₂ Padded entries ps)
    (hplain : ∀ e ∈ entries, PlainEntry e) :
    ps.map trim = entries ∧ ∀ p ∈ ps, ',' ∉ p.toList := by
  induction h with
  | nil => exact ⟨rfl, fun _ hp => absurd hp List.not_mem_nil⟩
  | cons hp _ ih =>
    obtain ⟨hentry, hrest⟩ := List.forall_mem_cons.1 hplain
    obtain ⟨hentries, hcomma⟩ := ih hrest
    refine ⟨?_, List.forall_mem_cons.2 ⟨hp.no_comma hentry.no_comma, hcomma⟩⟩
    rw [List.map_cons, hentries, hp.trim_eq, hentry.trimmed]

theorem readStrategyList_intercalate {entries ps : List String} (hne : entries ≠ [])
    (hdistinct : entries.Nodup) (hplain : ∀ e ∈ entries, PlainEntry e)
    (h : List.Forall₂ Padded entries ps) :
    readStrategyList (",".intercalate ps) = .ok entries := by
  obtain ⟨hentries, hcomma⟩ := of_padded h hplain
  have hpieces : pieces (",".intercalate ps) = ps :=
    pieces_intercalate (fun hnil => hne (by rw [← hentries, hnil, List.map_nil])) hcomma
  rw [readStrategyList_eq_ok_iff, hpieces, hentries]
  refine ⟨⟨fun p hp => ?_, hentries ▸ hdistinct⟩, rfl⟩
  have hne : trim p ≠ "" := (hplain _ (hentries ▸ List.mem_map_of_mem hp)).ne_empty
  exact Bool.eq_false_iff.2 fun hblank => hne (trim_eq_empty_iff.2 hblank)

/-- **Lists of strategies are read exactly.** A text is read if and only if every piece between its
commas has something in it and no two of them are the same when they are trimmed; then its entries
are the trimmed pieces in order. Otherwise the error is that of the first piece from the left that
is blank or, trimmed, is one of those before it. Entries without commas that are written with commas
between them, and with blank space around them or none, are read back. -/
theorem readStrategyList_exact :
    (∀ text : String,
      (∀ entries, readStrategyList text = .ok entries ↔
        Listable (pieces text) ∧ entries = (pieces text).map trim) ∧
      ∀ error, readStrategyList text = .error error ↔
        ∃ good piece rest, pieces text = good ++ piece :: rest ∧ Listable good ∧
          RefusedPiece (good.map trim) piece error) ∧
    ∀ entries ps : List String, entries ≠ [] → entries.Nodup → (∀ e ∈ entries, PlainEntry e) →
      List.Forall₂ Padded entries ps → readStrategyList (",".intercalate ps) = .ok entries :=
  ⟨fun _ => ⟨fun _ => readStrategyList_eq_ok_iff, fun _ => readStrategyList_eq_error_iff⟩,
    fun _ _ hne hdistinct hplain h => readStrategyList_intercalate hne hdistinct hplain h⟩

/-- Entries with a blank inside, a tab behind one and a no-break space in front of the other. -/
theorem readStrategyList_exact_blanks :
    readStrategyList "b c.sexp\t,\u00a0a.sexp" = .ok ["b c.sexp", "a.sexp"] := by
  have hplain : ∀ e ∈ ["b c.sexp", "a.sexp"], PlainEntry e := by
    simp only [List.forall_mem_cons, List.not_mem_nil, IsEmpty.forall_iff, implies_true, and_true]
    exact ⟨⟨by decide, by decide, by decide +kernel⟩, ⟨by decide, by decide, by decide +kernel⟩⟩
  have hpadded : List.Forall₂ Padded ["b c.sexp", "a.sexp"] ["b c.sexp\t", "\u00a0a.sexp"] :=
    .cons ⟨[], ['\t'], List.forall_mem_nil _, List.forall_mem_singleton.2 (by decide), rfl⟩ <|
      .cons ⟨['\u00a0'], [], List.forall_mem_singleton.2 (by decide), List.forall_mem_nil _, rfl⟩
        .nil
  exact readStrategyList_exact.2 _ _ (by decide) (by decide) hplain hpadded

end AllocScript
