import AllocScript.Proofs.Eval.Provenance
import AllocScript.Proofs.Snapshot.Layout
import AllocScript.Proofs.Snapshot.Loading

/-!
# Files that are written line by line

A file of lines, each with fields that need no quotes, is read back as these fields
(`Records.fields_ofBytes`): such lines are the pieces of a layout (`Records.layout_lines`).

So there is a file with a value for every metric that has a period its indicator allows, and a file
has values for no others (`Metric.proper_iff_stored`).
-/

namespace AllocScript

namespace Records

/-! ## Lines -/

/-- A byte that belongs to a field wherever it stands. -/
def Plain (b : UInt8) : Prop :=
  b ≠ comma ∧ b ≠ doubleQuote ∧ b ≠ lineFeed ∧ b ≠ carriageReturn

instance : DecidablePred Plain := fun b => by unfold Plain; infer_instance

/-- Fields with commas between them and a line feed behind. -/
def lineOf : List (List UInt8) → List UInt8
  | [] => [lineFeed]
  | [field] => field ++ [lineFeed]
  | field :: next :: fields => field ++ comma :: lineOf (next :: fields)

/-- The fields of a line that need no quotes, the first one with a byte that begins no comment. -/
structure PlainLine (fields : List (List UInt8)) : Prop where
  plain : ∀ f ∈ fields, ∀ b ∈ f, Plain b
  begins : ∃ b bs rest, fields = (b :: bs) :: rest ∧ b ≠ numberSign

theorem Plain.not_endsField {b : UInt8} (h : Plain b) : ¬EndsField b := by
  obtain ⟨hcomma, -, hfeed, hreturn⟩ := h
  rintro (heq | heq | heq)
  · exact hcomma heq
  · exact hfeed heq
  · exact hreturn heq

/-- A field of such bytes is written as it is. -/
theorem writesField_of_plain {field : List UInt8} (h : ∀ b ∈ field, Plain b) :
    WritesField field field := by
  refine .bare ⟨fun b hb => (h b hb).not_endsField, fun hhead => ?_⟩
  exact (h doubleQuote (List.mem_of_mem_head? hhead)).2.1 rfl

theorem lineOf_cons (field : List UInt8) (fields : List (List UInt8)) :
    lineOf (field :: fields) = [comma].intercalate (field :: fields) ++ [lineFeed] := by
  induction fields generalizing field with
  | nil => simp [lineOf]
  | cons next fields ih => simp [lineOf, ih, List.intercalate_cons_cons]

theorem writesFields_of_plain {field : List UInt8} {fields : List (List UInt8)}
    (h : ∀ f ∈ field :: fields, ∀ b ∈ f, Plain b) :
    WritesFields WritesField ([comma].intercalate (field :: fields)) (field :: fields) := by
  induction fields generalizing field with
  | nil =>
    rw [List.intercalate_singleton]
    exact .last (writesField_of_plain (h field (List.mem_cons_self ..)))
  | cons next fields ih =>
    obtain ⟨hfield, hfields⟩ := List.forall_mem_cons.1 h
    rw [List.intercalate_cons_cons, List.append_assoc]
    exact .cons (writesField_of_plain hfield) (ih hfields)

/-- A line is a piece of a layout, whatever gap is before it and whichever byte ends it. -/
theorem PlainLine.layout {fields : List (List UInt8)} {gap rest : List UInt8} {b : UInt8}
    {pieces : List Piece} (h : PlainLine fields) (hgap : Gap gap) (hb : IsLineEnd b)
    (hrest : Layout rest pieces) :
    Layout (gap ++ ([comma].intercalate fields ++ b :: rest))
      (⟨gap, [comma].intercalate fields ++ [b], fields⟩ :: pieces) := by
  obtain ⟨hplain, c, cs, others, rfl, hsign⟩ := h
  have hc : Plain c := hplain _ (List.mem_cons_self ..) c (List.mem_cons_self ..)
  have hfirst : [comma].intercalate ((c :: cs) :: others) =
      c :: [comma].intercalate (cs :: others) := by
    cases others <;> rfl
  exact .record hgap ⟨c, _, hfirst, fun hend => hc.not_endsField (.inr hend), hsign⟩
    (writesFields_of_plain hplain) hb hrest

/-- The lines of a file are its pieces. -/
theorem layout_lines {lines : List (List (List UInt8))} (h : ∀ l ∈ lines, PlainLine l) :
    Layout (lines.flatMap lineOf) (lines.map fun l => ⟨[], lineOf l, l⟩) := by
  induction lines with
  | nil => exact .done .nil
  | cons l lines ih =>
    obtain ⟨hl, hlines⟩ := List.forall_mem_cons.1 h
    have hline : lineOf l = [comma].intercalate l ++ [lineFeed] := by
      obtain ⟨-, b, bs, rest, rfl, -⟩ := hl
      exact lineOf_cons (b :: bs) rest
    rw [List.flatMap_cons, List.map_cons, hline, List.append_assoc]
    exact hl.layout .nil (.inl rfl) (ih hlines)

/-- **Lines of fields that need no quotes are read back.** -/
theorem fields_ofBytes {lines : List (List (List UInt8))} (hlines : ∀ l ∈ lines, PlainLine l)
    (hmark : byteOrderMark.isPrefixOf (lines.flatMap lineOf) = false) :
    (ofBytes (lines.flatMap lineOf)).map Record.fields = lines := by
  have hunmarked : unmarked (lines.flatMap lineOf) = lines.flatMap lineOf := by
    rw [unmarked, markOf, hmark]
    rfl
  have hlayout := layout_lines hlines
  rw [← hunmarked] at hlayout
  rw [ofBytes_of_layout hlayout, map_fields_placed, List.map_map]
  exact List.map_id lines

end Records

/-! ## Texts as fields -/

/-- The bytes of a text in UTF-8. -/
def utf8Bytes (s : String) : List UInt8 := s.toUTF8.data.toList

theorem decodeUtf8_utf8Bytes (s : String) : decodeUtf8 ⟨(utf8Bytes s).toArray⟩ = .ok s := by
  have hvalid : ByteArray.IsValidUTF8 ⟨(utf8Bytes s).toArray⟩ := s.isValidUTF8
  rw [decodeUtf8, String.fromUTF8?, dif_pos hvalid]
  rfl

theorem mem_utf8Bytes {s : String} {b : UInt8} (h : b ∈ utf8Bytes s) :
    ∃ c ∈ s.toList, b ∈ String.utf8EncodeChar c := by
  unfold utf8Bytes String.toUTF8 at h
  rw [← String.ofList_toList (s := s), String.toByteArray_ofList] at h
  simpa [List.utf8Encode] using h

theorem Csv.decodeFields_utf8Bytes (index : Nat) (texts : List String) :
    Csv.decodeFields index (texts.map utf8Bytes) = .ok (texts.map trim) := by
  induction texts generalizing index with
  | nil => rfl
  | cons s texts ih =>
    rw [List.map_cons, Csv.decodeFields, decodeUtf8_utf8Bytes]
    simp [ih, Except.map]

/-- A character that is one byte and neither blank nor a comma nor a quote. -/
def Graphic (c : Char) : Prop :=
  33 ≤ c.toNat ∧ c.toNat ≤ 126 ∧ c.toNat ≠ 34 ∧ c.toNat ≠ 44

instance : DecidablePred Graphic := fun c => by unfold Graphic; infer_instance

namespace Graphic

variable {c : Char}

theorem of_isDigit (h : c.isDigit = true) : Graphic c := by
  have hcode : 48 ≤ c.toNat ∧ c.toNat ≤ 57 := by
    simpa [Char.isDigit, UInt32.le_iff_toNat_le] using h
  unfold Graphic
  omega

theorem plain (h : Graphic c) : ∀ b ∈ String.utf8EncodeChar c, Records.Plain b := by
  obtain ⟨hlow, hhigh, hquote, hcomma⟩ := h
  have hbytes : String.utf8EncodeChar c = [UInt8.ofNat c.toNat] :=
    if_pos (show c.val.toNat ≤ 127 from Nat.le_trans hhigh (by decide))
  have hcode : (UInt8.ofNat c.toNat).toNat = c.toNat := by
    simp only [UInt8.toNat_ofNat']
    omega
  intro b hb
  rw [hbytes, List.mem_singleton] at hb
  subst hb
  refine ⟨?_, ?_, ?_, ?_⟩ <;> intro heq <;> rw [heq] at hcode <;>
    simp only [Records.comma, Records.doubleQuote, Records.lineFeed, Records.carriageReturn,
      UInt8.reduceToNat] at hcode <;> omega

theorem not_blank (h : Graphic c) : isBlank c = false := by
  unfold Graphic at h
  simp [isBlank, blankRanges, Ranges.contains, Ranges.containsCode]
  omega

end Graphic

theorem plain_of_graphic {s : String} (h : ∀ c ∈ s.toList, Graphic c) :
    ∀ b ∈ utf8Bytes s, Records.Plain b := by
  intro b hb
  obtain ⟨c, hc, hbc⟩ := mem_utf8Bytes hb
  exact (h c hc).plain b hbc

theorem trim_of_graphic {s : String} (h : ∀ c ∈ s.toList, Graphic c) : trim s = s := by
  have hdrop : ∀ {cs : List Char}, (∀ c ∈ cs, Graphic c) → cs.dropWhile isBlank = cs := by
    intro cs hcs
    cases cs with
    | nil => rfl
    | cons c cs => simp [(hcs c (by simp)).not_blank]
  have hreverse : ∀ c ∈ s.toList.reverse, Graphic c := fun c hc => h c (List.mem_reverse.1 hc)
  rw [trim, trimChars, hdrop h, hdrop hreverse, List.reverse_reverse, String.ofList_toList]

/-! ## Metrics that a file has values for -/

/-- The period of a metric as it is written. -/
def Metric.periodText (m : Metric) : String := String.ofList (Nat.toDigits 10 m.period)

/-- A file with the value one for a metric of the symbol A. -/
def Metric.file (m : Metric) : List (List String) :=
  [SnapshotProblem.columns, ["A", m.indicator.name, m.periodText, "1"]]

theorem graphic_of_mem_file {m : Metric} :
    ∀ texts ∈ m.file, ∀ text ∈ texts, ∀ c ∈ text.toList, Graphic c := by
  have hfixed : ∀ text ∈ ["symbol", "indicator", "period", "value", "A", "1"],
      text.toList.all (decide <| Graphic ·) = true := by decide +kernel
  have hname : m.indicator.name.toList.all (decide <| Graphic ·) = true := by
    cases m.indicator <;> decide +kernel
  have hperiod : ∀ c ∈ m.periodText.toList, Graphic c := by
    intro c hc
    rw [Metric.periodText, String.toList_ofList] at hc
    exact .of_isDigit (Nat.isDigit_of_mem_toDigits (by decide) (by decide) hc)
  simp only [List.all_eq_true, decide_eq_true_eq] at hfixed hname
  simp only [Metric.file, List.forall_mem_cons]
  refine ⟨fun text htext => hfixed text ?_, ⟨hfixed "A" (by simp), hname, hperiod,
    hfixed "1" (by simp), nofun⟩, nofun⟩
  exact List.mem_append_left ["A", "1"] htext

theorem plainLine_file (m : Metric) :
    ∀ l ∈ m.file.map (List.map utf8Bytes), Records.PlainLine l := by
  intro l hl
  obtain ⟨texts, htexts, rfl⟩ := List.mem_map.1 hl
  constructor
  · intro f hf
    obtain ⟨text, htext, rfl⟩ := List.mem_map.1 hf
    exact plain_of_graphic (graphic_of_mem_file texts htexts text htext)
  · have hcases : texts = SnapshotProblem.columns ∨
        texts = ["A", m.indicator.name, m.periodText, "1"] := by
      simpa [Metric.file] using htexts
    rcases hcases with rfl | rfl
    · exact ⟨_, _, _, rfl, by decide⟩
    · exact ⟨_, _, _, rfl, by decide⟩

theorem decodeFields_of_mem_file {m : Metric} {texts : List String} (h : texts ∈ m.file) :
    Csv.decodeFields 0 (texts.map utf8Bytes) = .ok texts := by
  have htrim : ∀ text ∈ texts, trim text = id text :=
    fun text htext => trim_of_graphic (graphic_of_mem_file texts h text htext)
  rw [Csv.decodeFields_utf8Bytes, List.map_congr_left htrim, List.map_id]

/-- The period is read back. -/
theorem Metric.Proper.periodText {m : Metric} (h : m.Proper) :
    Csv.PeriodText m.indicator m.periodText m.period := by
  unfold Metric.Proper at h
  unfold Csv.PeriodText
  split at h
  next htakes =>
    rw [if_pos htakes]
    refine ⟨⟨Nat.toDigits 10 m.period, .inl ?_, ?_, ?_, ?_⟩, h⟩
    · rw [Metric.periodText, String.toList_ofList]
    · exact Nat.toDigits_ne_nil
    · exact fun c hc => Nat.isDigit_of_mem_toDigits (by decide) (by decide) hc
    · exact Nat.ofDigitChars_ten_toDigits
  next htakes =>
    rw [if_neg htakes, Metric.periodText, h]
    exact ⟨.inr (by decide), rfl⟩

/-- The file is read as the value that it was written for. -/
theorem Metric.Proper.lists {m : Metric} (h : m.Proper) :
    Csv.Lists (Records.ofBytes ((m.file.map (List.map utf8Bytes)).flatMap Records.lineOf))
      [(⟨"A", m⟩, .one)] := by
  have hmark : Records.byteOrderMark.isPrefixOf
      ((m.file.map (List.map utf8Bytes)).flatMap Records.lineOf) = false := rfl
  have hfields := Records.fields_ofBytes (plainLine_file m) hmark
  obtain ⟨header, hheader, record, hrecord, hfile⟩ :
      ∃ header : Record, header.fields = SnapshotProblem.columns.map utf8Bytes ∧
        ∃ record : Record,
          record.fields = ["A", m.indicator.name, m.periodText, "1"].map utf8Bytes ∧
          Records.ofBytes ((m.file.map (List.map utf8Bytes)).flatMap Records.lineOf) =
            [header, record] := by
    obtain ⟨header, records, hfile, hheader, hrest⟩ := List.map_eq_cons_iff.1 hfields
    obtain ⟨record, records, rfl, hrecord, hrest⟩ := List.map_eq_cons_iff.1 hrest
    obtain rfl := List.map_eq_nil_iff.1 hrest
    exact ⟨header, hheader, record, hrecord, hfile⟩
  rw [hfile]
  refine ⟨header, [record], rfl, ⟨SnapshotProblem.columns, ?_, by decide +kernel⟩, ?_, by simp⟩
  · rw [hheader]
    exact decodeFields_of_mem_file (m := m) (by simp [Metric.file])
  · refine .cons ⟨by rw [hrecord]; rfl, ["A", m.indicator.name, m.periodText, "1"], ?_, ?_⟩ .nil
    · rw [hrecord]
      exact decodeFields_of_mem_file (m := m) (by simp [Metric.file])
    · exact .intro (by decide) h.periodText rfl

theorem Csv.Entry.proper {record : Record} {e : Request × Decimal} (h : Csv.Entry record e) :
    e.1.metric.Proper := by
  obtain ⟨-, texts, -, hstates⟩ := h
  obtain ⟨-, hperiod, -⟩ := hstates
  unfold Csv.PeriodText at hperiod
  unfold Metric.Proper
  split at hperiod
  next htakes => rw [if_pos htakes]; exact hperiod.2
  next htakes => rw [if_neg htakes]; exact hperiod.2

/-- **The metrics that a file can give a value for are those with a period that their indicator
allows.** -/
theorem Metric.proper_iff_stored (m : Metric) :
    m.Proper ↔ ∃ bytes snapshot symbol,
      Snapshot.ofCsv bytes = .ok snapshot ∧ (snapshot.get? ⟨symbol, m⟩).isSome := by
  constructor
  · intro h
    let snapshot : Snapshot := ⟨[(⟨"A", m⟩, .one)]⟩
    have hget : snapshot.get? ⟨"A", m⟩ = some .one :=
      Snapshot.get?_eq_some_of_mem (by simp [snapshot]) (List.mem_singleton_self _)
    exact ⟨_, snapshot, "A", Csv.load_eq_ok_iff.2 h.lists, by rw [hget]; rfl⟩
  · rintro ⟨bytes, snapshot, symbol, hsnapshot, hvalue⟩
    obtain ⟨header, records, -, -, hentries, -⟩ := Csv.load_eq_ok_iff.1 hsnapshot
    have hproper : ∀ e ∈ snapshot.values, e.1.metric.Proper :=
      ((List.forall₂_and_left _ _).1
        (hentries.flip.imp fun e record he => ⟨Csv.Entry.proper he, he⟩)).1
    have hmem : (⟨symbol, m⟩ : Request) ∈ snapshot.values.map Prod.fst := by
      by_contra hnot
      rw [Snapshot.get?_eq_none_iff.2 hnot] at hvalue
      cases hvalue
    obtain ⟨e, he, hrequest⟩ := List.mem_map.1 hmem
    have hmetric := hproper e he
    rwa [hrequest] at hmetric

end AllocScript
