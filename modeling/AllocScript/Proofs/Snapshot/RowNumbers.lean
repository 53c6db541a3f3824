import AllocScript.Proofs.Snapshot.Lines

/-!
# The row of a faulty record

A record that is refused for its contents is reported with a row. `Snapshot.ofCsv_eq_row_iff` says
which records these are and which row is reported, by the layout of the file: the line on which the
record before ends and the gap begins. So the row is the line on which the record begins unless a
line ends in the gap between them, as one does behind a comment, on an empty line, and between
records whose lines end in a carriage return and a line feed (`Snapshot.exists_misnumbered_row`).
-/

namespace AllocScript

open Records (Piece Layout lineFeed markOf unmarked placed)

namespace Csv

/-- Fields that are text and state a value for a request. -/
def FieldsState (fields : List (List UInt8)) (e : Request × Decimal) : Prop :=
  fields.length = SnapshotProblem.columns.length ∧
    ∃ texts, decodeFields 0 fields = .ok texts ∧ States texts e

/-- Fields are refused for their contents: they stand behind a header with the right columns and
behind fields that state values for different requests, and their texts have a fault. -/
structure Rejects (header : List (List UInt8)) (good : List (List (List UInt8)))
    (fields : List (List UInt8)) (problem : RowProblem) : Prop where
  titled : ∃ names, decodeFields 0 header = .ok names ∧
    names.map lowercase = SnapshotProblem.columns
  faulty : ∃ entries texts, List.Forall₂ FieldsState good entries ∧
    (entries.map Prod.fst).Nodup ∧ fields.length = SnapshotProblem.columns.length ∧
    decodeFields 0 fields = .ok texts ∧ Faulty (entries.map Prod.fst) texts problem

/-- A record is refused with a row if its fields are refused and the row is its own. -/
theorem rejects_iff (header : Record) {record : Record} {good : List Record} {line : Nat}
    {problem : RowProblem} :
    Rejects header.fields (good.map Record.fields) record.fields problem ∧ line = record.line ↔
      Titled header ∧ ∃ entries, List.Forall₂ Entry good entries ∧
        (entries.map Prod.fst).Nodup ∧
        Refused (entries.map Prod.fst) (good.length + 1) record (.row line problem) := by
  have hstate {entries : List (Request × Decimal)} :
      List.Forall₂ FieldsState (good.map Record.fields) entries ↔ List.Forall₂ Entry good entries :=
    List.forall₂_map_left_iff
  constructor
  · rintro ⟨⟨htitled, entries, texts, hgood, hnodup, hlength, htexts, hfaulty⟩, rfl⟩
    exact ⟨htitled, entries, hstate.1 hgood, hnodup, .row hlength htexts hfaulty⟩
  · rintro ⟨htitled, entries, hgood, hnodup, hrefused⟩
    cases hrefused with
    | row hlength htexts hfaulty =>
      exact ⟨⟨htitled, entries, _, hstate.2 hgood, hnodup, hlength, htexts, hfaulty⟩, rfl⟩

/-- Fields right behind the header that name an unknown indicator. -/
theorem Rejects.unknownIndicator {header fields : List (List UInt8)}
    {symbol name period value : String}
    (hheader : decodeFields 0 header = .ok SnapshotProblem.columns)
    (hlength : fields.length = SnapshotProblem.columns.length)
    (hfields : decodeFields 0 fields = .ok [symbol, name, period, value]) (hsymbol : symbol ≠ "")
    (hname : Indicator.ofName? name = none) : Rejects header [] fields (.unknownIndicator name) :=
  ⟨⟨_, hheader, by decide +kernel⟩, [], _, .nil, List.nodup_nil, hlength, hfields,
    .unknownIndicator hsymbol (Indicator.ofName?_eq_none_iff.1 hname)⟩

/-- The rows that are reported for the records of pieces. -/
theorem load_placed_eq_row_iff {start next line : Nat} {pieces : List Piece}
    {problem : RowProblem} :
    load (placed 1 start next pieces) = .error (.row line problem) ↔
      ∃ header good p rest, pieces = header :: (good ++ p :: rest) ∧
        Rejects header.fields (good.map Piece.fields) p.fields problem ∧
        line = 1 + ((header :: good).flatMap Piece.bytes).count lineFeed := by
  rw [load_eq_error_iff]
  constructor
  · intro h
    generalize hrecords : placed 1 start next pieces = all at h
    cases h with
    | @record titles record records rest entries _ htitled hstate hnodup hrefused =>
      change _ = (titles :: records) ++ record :: rest at hrecords
      obtain ⟨first, p, behind, rfl, hfirst, hfields, hline⟩ :=
        Records.placed_eq_append_cons hrecords
      cases first with
      | nil => cases hfirst
      | cons header good =>
        obtain ⟨rfl, rfl⟩ := List.cons.inj hfirst
        obtain ⟨hrejects, rfl⟩ := (rejects_iff _).2 ⟨htitled, entries, hstate, hnodup, hrefused⟩
        rw [Records.map_fields_placed, hfields] at hrejects
        exact ⟨header, good, p, behind, rfl, hrejects, hline⟩
  · rintro ⟨header, good, p, rest, rfl, hrejects, hline⟩
    obtain ⟨record, behind, hplaced, hfields, hrow⟩ :=
      Records.placed_append_cons 1 start next (header :: good) rest p
    rw [← List.cons_append, hplaced, placed, List.cons_append]
    rw [← hfields, ← Records.map_fields_placed] at hrejects
    obtain ⟨htitled, entries, hstate, hnodup, hrefused⟩ :=
      (rejects_iff ⟨header.fields, 1, start⟩).1 ⟨hrejects, hline.trans hrow.symm⟩
    exact .record htitled hstate hnodup hrefused

end Csv

/-! ## Where a record begins -/

namespace Records

/-- A record is written in a file behind these bytes: the byte order mark, the pieces before it and
its own gap. It begins there. -/
structure StandsBehind (bytes : List UInt8) (before : List Piece) (p : Piece)
    (front : List UInt8) : Prop where
  front_eq : front = markOf bytes ++ (before.flatMap Piece.bytes ++ p.gap)
  gap : Gap p.gap
  begins : Begins p.text
  written : ∃ behind, bytes = front ++ (p.text ++ behind)

/-- A file is its pieces and a gap behind them. -/
theorem Layout.bytes_eq {bytes : List UInt8} {pieces : List Piece} (h : Layout bytes pieces) :
    ∃ gap, bytes = pieces.flatMap Piece.bytes ++ gap := by
  induction h with
  | @done gap _ => exact ⟨gap, rfl⟩
  | comment | last => exact ⟨[], by simp [Piece.bytes]⟩
  | record _ _ _ _ _ ih =>
    obtain ⟨gap, rfl⟩ := ih
    exact ⟨gap, by simp [Piece.bytes]⟩

/-- A record of more than one field is no comment. -/
theorem Layout.begins {bytes : List UInt8} {pieces : List Piece} (h : Layout bytes pieces)
    {p : Piece} (hp : p ∈ pieces) (hfields : p.fields.length ≠ 1) :
    Gap p.gap ∧ Begins p.text := by
  induction h with
  | done => exact absurd hp List.not_mem_nil
  | comment =>
    obtain rfl := List.mem_singleton.1 hp
    exact absurd rfl hfields
  | last hgap hbegins _ =>
    obtain rfl := List.mem_singleton.1 hp
    exact ⟨hgap, hbegins⟩
  | record hgap hbegins _ _ _ ih =>
    rcases List.mem_cons.1 hp with rfl | hp
    · obtain ⟨b, rest, rfl, hb, hsign⟩ := hbegins
      exact ⟨hgap, b, _, rfl, hb, hsign⟩
    · exact ih hp

theorem Layout.standsBehind {bytes : List UInt8} {before rest : List Piece} {p : Piece}
    (h : Layout (unmarked bytes) (before ++ p :: rest)) (hfields : p.fields.length ≠ 1) :
    StandsBehind bytes before p (markOf bytes ++ (before.flatMap Piece.bytes ++ p.gap)) := by
  obtain ⟨gap, hgap⟩ := h.bytes_eq
  obtain ⟨hpgap, hbegins⟩ := h.begins (List.mem_append_right _ (List.mem_cons_self ..)) hfields
  refine ⟨rfl, hpgap, hbegins, rest.flatMap Piece.bytes ++ gap, ?_⟩
  calc bytes = markOf bytes ++ unmarked bytes := (markOf_append_unmarked bytes).symm
    _ = _ := by rw [hgap]; simp [Piece.bytes]

/-- No line ends in a byte order mark. -/
theorem count_markOf (bytes : List UInt8) : (markOf bytes).count lineFeed = 0 := by
  unfold markOf
  split <;> decide

end Records

theorem Csv.Rejects.length_ne {header fields : List (List UInt8)} {good : List (List (List UInt8))}
    {problem : RowProblem} (h : Csv.Rejects header good fields problem) : fields.length ≠ 1 := by
  obtain ⟨-, -, -, -, -, hlength, -⟩ := h
  rw [hlength]
  decide

/-- **The row of a faulty record is the line on which its gap begins.** In every file, which has a
layout, a row is reported if and only if a record is refused for its contents, behind a header and
records that state values. Where that record begins, behind the bytes `front`, the number of the
line is greater than the row by the number of lines that end in the gap. -/
theorem Snapshot.ofCsv_eq_row_iff (bytes : List UInt8) :
    (∃ pieces, Layout (unmarked bytes) pieces) ∧
    ∀ pieces, Layout (unmarked bytes) pieces → ∀ line problem,
      (Snapshot.ofCsv bytes = .error (.row line problem) ↔
        ∃ header good p rest front, pieces = header :: (good ++ p :: rest) ∧
          Csv.Rejects header.fields (good.map Piece.fields) p.fields problem ∧
          Records.StandsBehind bytes (header :: good) p front ∧
          line + p.gap.count lineFeed = 1 + front.count lineFeed) := by
  refine ⟨Records.exists_layout _, fun pieces hlayout line problem => ?_⟩
  rw [Snapshot.ofCsv, Records.ofBytes_of_layout hlayout, Csv.load_placed_eq_row_iff]
  constructor
  · rintro ⟨header, good, p, rest, rfl, hrejects, rfl⟩
    refine ⟨header, good, p, rest, _, rfl, hrejects, hlayout.standsBehind hrejects.length_ne, ?_⟩
    rw [List.count_append, List.count_append, Records.count_markOf]
    omega
  · rintro ⟨header, good, p, rest, front, rfl, hrejects, ⟨rfl, -, -, -⟩, hline⟩
    refine ⟨header, good, p, rest, rfl, hrejects, ?_⟩
    rw [List.count_append, List.count_append, Records.count_markOf] at hline
    omega

/-- A header and one more line are the pieces of a file, with a gap between them and behind. -/
theorem Records.layout_headed {bytes gap rest : List UInt8} {fields : List (List UInt8)} {b : UInt8}
    (hline : PlainLine fields) (hgap : Gap gap) (hb : IsLineEnd b) (hrest : Gap rest)
    (hbytes : bytes = [comma].intercalate (SnapshotProblem.columns.map utf8Bytes) ++
      b :: (gap ++ ([comma].intercalate fields ++ b :: rest))) :
    Layout bytes
      [⟨[], [comma].intercalate (SnapshotProblem.columns.map utf8Bytes) ++ [b],
          SnapshotProblem.columns.map utf8Bytes⟩,
        ⟨gap, [comma].intercalate fields ++ [b], fields⟩] := by
  have hcolumns : PlainLine (SnapshotProblem.columns.map utf8Bytes) :=
    ⟨by decide +kernel, _, _, _, rfl, by decide⟩
  rw [hbytes]
  exact hcolumns.layout .nil hb (hline.layout hgap hb (.done hrest))

/-- Between two lines that end in a carriage return and a line feed, the line feed is a gap of the
second one. -/
theorem Snapshot.ofCsv_eq_row_iff_carriageReturn : ∃ header p,
    Layout (unmarked (utf8Bytes "symbol,indicator,period,value\r\nA,macd,1,1\r\n")) [header, p] ∧
      p.gap = [lineFeed] ∧
      Snapshot.ofCsv (utf8Bytes "symbol,indicator,period,value\r\nA,macd,1,1\r\n") =
        .error (.row 1 (.unknownIndicator "macd")) := by
  have hline : Records.PlainLine (["A", "macd", "1", "1"].map utf8Bytes) :=
    ⟨by decide +kernel, _, _, _, rfl, by decide⟩
  have htexts : Csv.decodeFields 0 (["A", "macd", "1", "1"].map utf8Bytes) =
      .ok ["A", "macd", "1", "1"] := by decide +kernel
  have hlayout := Records.layout_headed hline (.lineEnd (.inl rfl) .nil) (.inr rfl)
    (.lineEnd (.inl rfl) .nil)
    (show unmarked (utf8Bytes "symbol,indicator,period,value\r\nA,macd,1,1\r\n") = _ by
      decide +kernel)
  refine ⟨_, _, hlayout, rfl, ((Snapshot.ofCsv_eq_row_iff _).2 _ hlayout 1 _).2
    ⟨_, [], _, [], _, rfl, ?_, hlayout.standsBehind (by decide), by decide +kernel⟩⟩
  exact .unknownIndicator (by decide +kernel) rfl htexts (by decide) (by decide)

/-- **A row need not be the line on which the record begins.** The faulty record stands on the third
line, behind a header and a comment, and the second row is reported. -/
theorem Snapshot.exists_misnumbered_row : ∃ bytes header p front problem,
    Layout (unmarked bytes) [header, p] ∧ Csv.Rejects header.fields [] p.fields problem ∧
      Records.StandsBehind bytes [header] p front ∧ 1 + front.count lineFeed = 3 ∧
      Snapshot.ofCsv bytes = .error (.row 2 problem) := by
  have hline : Records.PlainLine (["SPY", "macd", "12", "1"].map utf8Bytes) :=
    ⟨by decide +kernel, _, _, _, rfl, by decide⟩
  have htexts : Csv.decodeFields 0 (["SPY", "macd", "12", "1"].map utf8Bytes) =
      .ok ["SPY", "macd", "12", "1"] := by decide +kernel
  have hgap : Records.Gap (Records.numberSign :: (utf8Bytes " c" ++ [lineFeed])) :=
    .comment (by decide +kernel) .nil
  have hlayout := Records.layout_headed hline hgap (.inl rfl) .nil
    (show unmarked (utf8Bytes "symbol,indicator,period,value\n# c\nSPY,macd,12,1\n") = _ by
      decide +kernel)
  have hrejects : Csv.Rejects (SnapshotProblem.columns.map utf8Bytes) []
      (["SPY", "macd", "12", "1"].map utf8Bytes) (.unknownIndicator "macd") :=
    .unknownIndicator (by decide +kernel) rfl htexts (by decide) (by decide)
  refine ⟨_, _, _, _, _, hlayout, hrejects, hlayout.standsBehind (by decide), by decide +kernel, ?_⟩
  rw [Snapshot.ofCsv, Records.ofBytes_of_layout hlayout, Csv.load_placed_eq_row_iff]
  exact ⟨_, [], _, [], rfl, hrejects, by decide +kernel⟩

end AllocScript
