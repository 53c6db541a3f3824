import Mathlib
import AllocScript.Snapshot.Csv

/-!
# What loading a snapshot accepts, gives and refuses

What a file has to be like is said here by relations of its records, apart from how it is read.

* `Csv.Entry`: a record states a value for a request. `Csv.Lists`: a file has the right header, each
  of its records states a value, and no two of them state one for the same request.
* `Csv.Refused`: a record has a fault, among them that its request is one of those before. The
  constructors of `Csv.Faulty` are the faults of its texts in the order of the checks, each with
  what must be in order for the check to be reached. `Csv.Fails`: a file has a faulty header, or a
  first record with a fault, behind records without any.

One record is added to a snapshot, or refused, as these say (`addRecord_eq_ok_iff`,
`addRecord_eq_error_iff`); by induction over the records so is a file (`Snapshot.ofCsv_exact`).
-/

namespace AllocScript

/-! ## Names of indicators -/

theorem Indicator.ofName?_eq_some_iff {name : String} {i : Indicator} :
    Indicator.ofName? name = some i ↔ i.name = name := by
  constructor
  · intro h
    exact beq_iff_eq.1 (List.find?_some (p := fun i : Indicator => i.name == name) h)
  · rintro rfl
    cases i <;> decide

theorem Indicator.ofName?_eq_none_iff {name : String} :
    Indicator.ofName? name = none ↔ ∀ i : Indicator, i.name ≠ name := by
  simp only [Option.eq_none_iff_forall_ne_some, ne_eq, Indicator.ofName?_eq_some_iff]

/-! ## Values under requests -/

namespace Snapshot

theorem insertValue_of_notMem {request : Request} (value : Decimal) {l : List (Request × Decimal)}
    (h : request ∉ l.map Prod.fst) : insertValue request value l = l ++ [(request, value)] := by
  induction l with
  | nil => rfl
  | cons e rest ih =>
    obtain ⟨hne, hrest⟩ := not_or.1 (mt List.mem_cons.2 h)
    rw [insertValue, if_neg (Ne.symm hne), ih hrest, List.cons_append]

theorem get?_eq_none_iff {s : Snapshot} {request : Request} :
    s.get? request = none ↔ request ∉ s.values.map Prod.fst := by
  rw [get?, List.lookup_eq_none_iff, List.mem_map]
  constructor
  · rintro h ⟨e, he, rfl⟩
    simpa using h e he
  · intro h e he
    exact bne_iff_ne.2 fun heq => h ⟨e, he, heq.symm⟩

theorem get?_eq_some_of_mem {s : Snapshot} (h : (s.values.map Prod.fst).Nodup) {request : Request}
    {value : Decimal} (hmem : (request, value) ∈ s.values) : s.get? request = some value := by
  obtain ⟨before, rest, hvalues⟩ := List.append_of_mem hmem
  rw [hvalues, List.map_append, List.map_cons] at h
  refine List.lookup_eq_some_iff.2 ⟨before, rest, hvalues, fun e he => bne_iff_ne.2 fun heq => ?_⟩
  exact (List.nodup_append.1 h).2.2 _ (List.mem_map_of_mem he) _ (List.mem_cons_self ..) heq.symm

theorem feed_eq_ok_of_mem {s : Snapshot} (h : (s.values.map Prod.fst).Nodup)
    {e : Request × Decimal} (he : e ∈ s.values) : s.feed e.1 = .ok e.2 := by
  rw [feed, get?_eq_some_of_mem h he]

theorem feed_eq_error_of_notMem {s : Snapshot} {request : Request}
    (h : request ∉ s.values.map Prod.fst) : s.feed request = .error (missing request) := by
  rw [feed, get?_eq_none_iff.2 h]

end Snapshot

namespace Csv

/-! ## What a record states -/

/-- A text of digits with the number `n`, with a plus sign in front or without. -/
def Numeral (text : String) (n : Nat) : Prop :=
  ∃ ds : List Char, (text.toList = ds ∨ text.toList = '+' :: ds) ∧ ds ≠ [] ∧
    (∀ c ∈ ds, c.isDigit = true) ∧ Nat.ofDigitChars 10 ds 0 = n

/-- A text for the period of an indicator. -/
def PeriodText (i : Indicator) (text : String) (n : Nat) : Prop :=
  if i.takesPeriod then Numeral text n ∧ 1 ≤ n ∧ n ≤ maxPeriod
  else (text = "" ∨ text = "0") ∧ n = 0

/-- The texts of a record state a value for a request. -/
inductive States : List String → Request × Decimal → Prop
  | intro {symbol period value : String} {i : Indicator} {n : Nat} {d : Decimal} :
    symbol ≠ "" → PeriodText i period n → Decimal.read value = .ok d →
    States [symbol, i.name, period, value] (⟨symbol, ⟨i, n⟩⟩, d)

/-- What is wrong with the texts of a record that stands behind records for these requests. -/
inductive Faulty (earlier : List Request) : List String → RowProblem → Prop
  | missingSymbol {name period value : String} :
    Faulty earlier ["", name, period, value] .missingSymbol
  | unknownIndicator {symbol name period value : String} :
    symbol ≠ "" → (∀ i : Indicator, i.name ≠ name) →
    Faulty earlier [symbol, name, period, value] (.unknownIndicator name)
  | invalidPeriod {symbol period value : String} {i : Indicator} :
    symbol ≠ "" → i.takesPeriod = true → (∀ n, ¬PeriodText i period n) →
    Faulty earlier [symbol, i.name, period, value] (.invalidPeriod i period)
  | unusedPeriod {symbol period value : String} {i : Indicator} :
    symbol ≠ "" → i.takesPeriod = false → (∀ n, ¬PeriodText i period n) →
    Faulty earlier [symbol, i.name, period, value] (.unusedPeriod i period)
  | invalidValue {symbol period value : String} {i : Indicator} {n : Nat}
    {error : Decimal.ReadError} :
    symbol ≠ "" → PeriodText i period n → Decimal.read value = .error error →
    Faulty earlier [symbol, i.name, period, value] (.invalidValue value error)
  | duplicate {texts : List String} {request : Request} {d : Decimal} :
    States texts (request, d) → request ∈ earlier → Faulty earlier texts (.duplicate request)

/-- A record has four fields that are text, and they state a value for a request. -/
def Entry (record : Record) (e : Request × Decimal) : Prop :=
  record.fields.length = SnapshotProblem.columns.length ∧
    ∃ texts, decodeFields 0 record.fields = .ok texts ∧ States texts e

/-- What is wrong with a record that stands behind records for these requests and has this
number. -/
inductive Refused (earlier : List Request) (number : Nat) (record : Record) :
    SnapshotProblem → Prop
  | fieldCount : record.fields.length ≠ SnapshotProblem.columns.length →
    Refused earlier number record (.fieldCount number record)
  | encoding {field offset : Nat} : record.fields.length = SnapshotProblem.columns.length →
    decodeFields 0 record.fields = .error (field, offset) →
    Refused earlier number record (.encoding number record field offset)
  | row {texts : List String} {problem : RowProblem} :
    record.fields.length = SnapshotProblem.columns.length →
    decodeFields 0 record.fields = .ok texts → Faulty earlier texts problem →
    Refused earlier number record (.row record.line problem)

/-! ## The texts of one record -/

/-- The characters of a text behind a plus sign, if there is one. -/
def unsigned : List Char → List Char
  | '+' :: cs => cs
  | cs => cs

theorem numeral_iff {text : String} {n : Nat} :
    Numeral text n ↔ unsigned text.toList ≠ [] ∧ (∀ c ∈ unsigned text.toList, c.isDigit = true) ∧
      Nat.ofDigitChars 10 (unsigned text.toList) 0 = n := by
  unfold Numeral
  generalize text.toList = cs
  constructor
  · rintro ⟨ds, rfl | rfl, hne, hdigits, hn⟩
    · have hds : unsigned cs = cs := by
        unfold unsigned
        split
        -- A sign is no digit.
        next => exact absurd (hdigits '+' (List.mem_cons_self ..)) (by decide)
        next => rfl
      rw [hds]
      exact ⟨hne, hdigits, hn⟩
    · exact ⟨hne, hdigits, hn⟩
  · rintro ⟨hne, hdigits, hn⟩
    have hcs : cs = unsigned cs ∨ cs = '+' :: unsigned cs := by
      unfold unsigned
      split
      · exact .inr rfl
      · exact .inl rfl
    exact ⟨unsigned cs, hcs, hne, hdigits, hn⟩

theorem readPeriod?_eq_some_iff {text : String} {n : Nat} :
    readPeriod? text = some n ↔ Numeral text n ∧ 1 ≤ n ∧ n ≤ maxPeriod := by
  have hread : readPeriod? text =
      if (unsigned text.toList).isEmpty || !(unsigned text.toList).all Char.isDigit then none
      else
        if 0 < Nat.ofDigitChars 10 (unsigned text.toList) 0 ∧
          Nat.ofDigitChars 10 (unsigned text.toList) 0 ≤ maxPeriod then
          some (Nat.ofDigitChars 10 (unsigned text.toList) 0)
        else none := rfl
  rw [hread, numeral_iff]
  generalize unsigned text.toList = ds
  constructor
  · intro h
    split at h
    · cases h
    next hdigits =>
      split at h
      next hbounds =>
        cases h
        simp only [Bool.or_eq_true, List.isEmpty_iff, Bool.not_eq_true', not_or,
          Bool.not_eq_false, List.all_eq_true] at hdigits
        exact ⟨⟨hdigits.1, hdigits.2, rfl⟩, hbounds⟩
      · cases h
  · rintro ⟨⟨hne, hdigits, rfl⟩, hbounds⟩
    have hall : ds.all Char.isDigit = true := List.all_eq_true.2 hdigits
    rw [hall, List.isEmpty_eq_false_iff.2 hne, if_neg (by decide)]
    exact if_pos hbounds

theorem readPeriod_eq_ok_iff {i : Indicator} {text : String} {n : Nat} :
    readPeriod i text = .ok n ↔ PeriodText i text n := by
  unfold readPeriod PeriodText
  split
  · rw [← readPeriod?_eq_some_iff]
    cases readPeriod? text <;> simp
  · split
    next htext => simpa [htext] using eq_comm
    next htext => simp [htext]

theorem readPeriod_eq_error_iff {i : Indicator} {text : String} {problem : RowProblem} :
    readPeriod i text = .error problem ↔ (∀ n, ¬PeriodText i text n) ∧
      (if i.takesPeriod then .invalidPeriod i text else .unusedPeriod i text) = problem := by
  have hnone : (∀ n, ¬PeriodText i text n) ↔ ∃ problem, readPeriod i text = .error problem := by
    simp only [← readPeriod_eq_ok_iff]
    cases readPeriod i text <;> simp
  rw [hnone]
  unfold readPeriod
  split
  · cases readPeriod? text <;> simp
  · split <;> simp

section

variable {symbol name period value : String} {i : Indicator}

theorem readRow_of_unknown (hsymbol : symbol ≠ "") (hname : ∀ i : Indicator, i.name ≠ name) :
    readRow symbol name period value = .error (.unknownIndicator name) := by
  rw [readRow, if_neg hsymbol, Indicator.ofName?_eq_none_iff.2 hname]

theorem readRow_of_no_period (hsymbol : symbol ≠ "") (hnone : ∀ n, ¬PeriodText i period n) :
    readRow symbol i.name period value =
      .error (if i.takesPeriod then .invalidPeriod i period else .unusedPeriod i period) := by
  rw [readRow, if_neg hsymbol, Indicator.ofName?_eq_some_iff.2 rfl]
  simp only [readPeriod_eq_error_iff.2 ⟨hnone, rfl⟩]
  rfl

theorem readRow_of_period {n : Nat} (hsymbol : symbol ≠ "") (hperiod : PeriodText i period n) :
    readRow symbol i.name period value =
      match Decimal.read value with
      | .error e => .error (.invalidValue value e)
      | .ok d => .ok (⟨symbol, i, n⟩, d) := by
  rw [readRow, if_neg hsymbol, Indicator.ofName?_eq_some_iff.2 rfl]
  simp only [readPeriod_eq_ok_iff.2 hperiod]
  rfl

/-- The texts of a record state a value, or they have a fault whatever stands before. -/
theorem readRow_cases (symbol name period value : String) :
    (∃ e, readRow symbol name period value = .ok e ∧ States [symbol, name, period, value] e) ∨
    ∃ problem, readRow symbol name period value = .error problem ∧
      ∀ earlier, Faulty earlier [symbol, name, period, value] problem := by
  by_cases hsymbol : symbol = ""
  · subst hsymbol
    exact .inr ⟨_, rfl, fun _ => .missingSymbol⟩
  by_cases hname : ∀ i : Indicator, i.name ≠ name
  · exact .inr ⟨_, readRow_of_unknown hsymbol hname, fun _ => .unknownIndicator hsymbol hname⟩
  obtain ⟨i, rfl⟩ : ∃ i : Indicator, i.name = name := by simpa using hname
  by_cases hnone : ∀ n, ¬PeriodText i period n
  · refine .inr ⟨_, readRow_of_no_period hsymbol hnone, fun _ => ?_⟩
    split
    next htakes => exact .invalidPeriod hsymbol htakes hnone
    next htakes => exact .unusedPeriod hsymbol (by simpa using htakes) hnone
  obtain ⟨n, hperiod⟩ : ∃ n, PeriodText i period n := by simpa using hnone
  have hread : readRow symbol i.name period value = _ := readRow_of_period hsymbol hperiod
  cases hvalue : Decimal.read value with
  | ok d => exact .inl ⟨_, by rw [hread, hvalue], .intro hsymbol hperiod hvalue⟩
  | error error =>
    exact .inr ⟨_, by rw [hread, hvalue], fun _ => .invalidValue hsymbol hperiod hvalue⟩

/-- The texts of a record state a value. -/
theorem readRow_eq_ok_iff {e : Request × Decimal} :
    readRow symbol name period value = .ok e ↔ States [symbol, name, period, value] e := by
  constructor
  · intro h
    obtain ⟨e', he', hstates⟩ | ⟨problem, hproblem, -⟩ := readRow_cases symbol name period value
    · rw [h] at he'
      cases he'
      exact hstates
    · rw [h] at hproblem
      cases hproblem
  · rintro ⟨hsymbol, hperiod, hvalue⟩
    rw [readRow_of_period hsymbol hperiod, hvalue]

/-- The texts of a record have a fault, whatever records stand before it. -/
theorem faulty_of_readRow {problem : RowProblem}
    (h : readRow symbol name period value = .error problem) (earlier : List Request) :
    Faulty earlier [symbol, name, period, value] problem := by
  obtain ⟨e, he, -⟩ | ⟨problem', hproblem, hfaulty⟩ := readRow_cases symbol name period value
  · rw [h] at he
    cases he
  · rw [h] at hproblem
    cases hproblem
    exact hfaulty earlier

end

/-! ## One record -/

variable {snapshot snapshot' : Snapshot} {number : Nat} {record : Record}

/-- The requests that a snapshot has values for. -/
abbrev keys (snapshot : Snapshot) : List Request := snapshot.values.map Prod.fst

theorem addRow_of_error {symbol name period value : String} {problem : RowProblem}
    (h : readRow symbol name period value = .error problem) :
    addRow snapshot [symbol, name, period, value] = .error problem := by
  show (readRow symbol name period value >>= _) = _
  rw [h]
  rfl

theorem addRow_of_ok {symbol name period value : String} {e : Request × Decimal}
    (h : readRow symbol name period value = .ok e) :
    addRow snapshot [symbol, name, period, value] =
      if e.1 ∈ keys snapshot then .error (.duplicate e.1) else .ok ⟨snapshot.values ++ [e]⟩ := by
  show (readRow symbol name period value >>= _) = _
  rw [h]
  show (if (snapshot.get? e.1).isSome then _ else Except.ok (snapshot.insert e.1 e.2)) = _
  by_cases hmem : e.1 ∈ keys snapshot
  · have hsome : (snapshot.get? e.1).isSome = true :=
      Option.isSome_iff_ne_none.2 fun hnone => Snapshot.get?_eq_none_iff.1 hnone hmem
    rw [if_pos hsome, if_pos hmem]
  · rw [Snapshot.get?_eq_none_iff.2 hmem, if_neg (by decide), if_neg hmem, Snapshot.insert,
      Snapshot.insertValue_of_notMem e.2 hmem]

theorem addRow_eq_ok_iff {symbol name period value : String} :
    addRow snapshot [symbol, name, period, value] = .ok snapshot' ↔
      ∃ e, States [symbol, name, period, value] e ∧ e.1 ∉ keys snapshot ∧
        snapshot' = ⟨snapshot.values ++ [e]⟩ := by
  simp only [← readRow_eq_ok_iff]
  cases hrow : readRow symbol name period value with
  | error problem => simp [addRow_of_error hrow]
  | ok e =>
    rw [addRow_of_ok hrow]
    constructor
    · intro h
      split at h
      next => cases h
      next hmem =>
        cases h
        exact ⟨e, rfl, hmem, rfl⟩
    · rintro ⟨e', he, hmem, rfl⟩
      cases he
      rw [if_neg hmem]

theorem addRow_eq_error_iff {symbol name period value : String} {problem : RowProblem} :
    addRow snapshot [symbol, name, period, value] = .error problem ↔
      Faulty (keys snapshot) [symbol, name, period, value] problem := by
  constructor
  · intro h
    cases hrow : readRow symbol name period value with
    | error problem' =>
      rw [addRow_of_error hrow] at h
      cases h
      exact faulty_of_readRow hrow _
    | ok e =>
      rw [addRow_of_ok hrow] at h
      split at h
      next hmem =>
        cases h
        exact .duplicate (readRow_eq_ok_iff.1 hrow) hmem
      next => cases h
  · intro h
    cases h with
    | missingSymbol => exact addRow_of_error rfl
    | unknownIndicator hsymbol hname => exact addRow_of_error (readRow_of_unknown hsymbol hname)
    | invalidPeriod hsymbol htakes hnone =>
      refine addRow_of_error ?_
      rw [readRow_of_no_period hsymbol hnone, if_pos htakes]
    | unusedPeriod hsymbol htakes hnone =>
      refine addRow_of_error ?_
      rw [readRow_of_no_period hsymbol hnone, htakes, if_neg Bool.false_ne_true]
    | invalidValue hsymbol hperiod hvalue =>
      refine addRow_of_error ?_
      rw [readRow_of_period hsymbol hperiod, hvalue]
    | duplicate hstates hmem => rw [addRow_of_ok (readRow_eq_ok_iff.2 hstates), if_pos hmem]

theorem length_of_decodeFields {index : Nat} {fields : List (List UInt8)} {texts : List String}
    (h : decodeFields index fields = .ok texts) : texts.length = fields.length := by
  induction fields generalizing index texts with
  | nil => cases h; rfl
  | cons field fields ih =>
    unfold decodeFields at h
    split at h
    · cases h
    · cases hrest : decodeFields (index + 1) fields with
      | error _ => rw [hrest] at h; cases h
      | ok rest =>
        rw [hrest] at h
        cases h
        rw [List.length_cons, ih hrest, List.length_cons]

/-- The texts of a record with as many fields as there are columns. -/
theorem texts_of_decodeFields (hcount : record.fields.length = SnapshotProblem.columns.length)
    {texts : List String} (h : decodeFields 0 record.fields = .ok texts) :
    ∃ symbol name period value, texts = [symbol, name, period, value] := by
  have hlength : texts.length = 4 := (length_of_decodeFields h).trans hcount
  match texts, hlength with
  | [symbol, name, period, value], _ => exact ⟨symbol, name, period, value, rfl⟩

theorem addRecord_of_count (hcount : record.fields.length ≠ SnapshotProblem.columns.length) :
    addRecord snapshot number record = .error (.fieldCount number record) := by
  rw [addRecord, if_pos hcount]

theorem addRecord_of_encoding (hcount : record.fields.length = SnapshotProblem.columns.length)
    {field offset : Nat} (h : decodeFields 0 record.fields = .error (field, offset)) :
    addRecord snapshot number record = .error (.encoding number record field offset) := by
  rw [addRecord, if_neg (not_not.2 hcount), decodeRecord, h]
  rfl

theorem addRecord_of_texts (hcount : record.fields.length = SnapshotProblem.columns.length)
    {texts : List String} (h : decodeFields 0 record.fields = .ok texts) :
    addRecord snapshot number record =
      (addRow snapshot texts).mapError (SnapshotProblem.row record.line) := by
  rw [addRecord, if_neg (not_not.2 hcount), decodeRecord, h]
  dsimp only [bind, Except.bind]
  cases addRow snapshot texts <;> rfl

/-- **A record adds the value that it states**, if there is none for its request yet. -/
theorem addRecord_eq_ok_iff :
    addRecord snapshot number record = .ok snapshot' ↔
      ∃ e, Entry record e ∧ e.1 ∉ keys snapshot ∧ snapshot' = ⟨snapshot.values ++ [e]⟩ := by
  constructor
  · intro h
    by_cases hcount : record.fields.length = SnapshotProblem.columns.length
    · cases htexts : decodeFields 0 record.fields with
      | error place => rw [addRecord_of_encoding hcount htexts] at h; cases h
      | ok texts =>
        obtain ⟨symbol, name, period, value, rfl⟩ := texts_of_decodeFields hcount htexts
        rw [addRecord_of_texts hcount htexts] at h
        cases hrow : addRow snapshot [symbol, name, period, value] with
        | error problem => rw [hrow] at h; cases h
        | ok result =>
          rw [hrow] at h
          cases h
          obtain ⟨e, hstates, hnew, hresult⟩ := addRow_eq_ok_iff.1 hrow
          exact ⟨e, ⟨hcount, _, htexts, hstates⟩, hnew, hresult⟩
    · rw [addRecord_of_count hcount] at h
      cases h
  · rintro ⟨e, ⟨hcount, texts, htexts, hstates⟩, hnew, rfl⟩
    rw [addRecord_of_texts hcount htexts]
    cases hstates with
    | intro hsymbol hperiod hvalue =>
      rw [addRow_eq_ok_iff.2 ⟨_, .intro hsymbol hperiod hvalue, hnew, rfl⟩]
      rfl

/-- **A record is refused for the first fault that it has.** -/
theorem addRecord_eq_error_iff {problem : SnapshotProblem} :
    addRecord snapshot number record = .error problem ↔
      Refused (keys snapshot) number record problem := by
  constructor
  · intro h
    by_cases hcount : record.fields.length = SnapshotProblem.columns.length
    · cases htexts : decodeFields 0 record.fields with
      | error place =>
        rw [addRecord_of_encoding hcount htexts] at h
        cases h
        exact .encoding hcount htexts
      | ok texts =>
        obtain ⟨symbol, name, period, value, rfl⟩ := texts_of_decodeFields hcount htexts
        rw [addRecord_of_texts hcount htexts] at h
        cases hrow : addRow snapshot [symbol, name, period, value] with
        | ok result => rw [hrow] at h; cases h
        | error fault =>
          rw [hrow] at h
          cases h
          exact .row hcount htexts (addRow_eq_error_iff.1 hrow)
    · rw [addRecord_of_count hcount] at h
      cases h
      exact .fieldCount hcount
  · intro h
    cases h with
    | fieldCount hcount => exact addRecord_of_count hcount
    | encoding hcount htexts => exact addRecord_of_encoding hcount htexts
    | row hcount htexts hfaulty =>
      obtain ⟨symbol, name, period, value, rfl⟩ := texts_of_decodeFields hcount htexts
      rw [addRecord_of_texts hcount htexts, addRow_eq_error_iff.2 hfaulty]
      rfl

/-! ## All records -/

variable {records : List Record}

theorem addRecords_cons (snapshot : Snapshot) (number : Nat) (record : Record)
    (records : List Record) :
    addRecords snapshot number (record :: records) =
      addRecord snapshot number record >>= (addRecords · (number + 1) records) := rfl

theorem addRecords_append (snapshot : Snapshot) (number : Nat) (good rest : List Record) :
    addRecords snapshot number (good ++ rest) =
      addRecords snapshot number good >>= (addRecords · (number + good.length) rest) := by
  induction good generalizing snapshot number with
  | nil => rfl
  | cons record good ih =>
    rw [List.cons_append, addRecords_cons, addRecords_cons]
    cases addRecord snapshot number record with
    | error problem => rfl
    | ok result =>
      show addRecords result (number + 1) (good ++ rest) = addRecords result (number + 1) good >>= _
      rw [ih, List.length_cons, Nat.add_right_comm, Nat.add_assoc number]

/-- Records state values, and there is one value for a request in all, those before included. -/
def Extends (values : List (Request × Decimal)) (records : List Record)
    (entries : List (Request × Decimal)) : Prop :=
  List.Forall₂ Entry records entries ∧ ((values ++ entries).map Prod.fst).Nodup

theorem extends_cons_iff {values : List (Request × Decimal)}
    {all : List (Request × Decimal)} :
    Extends values (record :: records) all ↔
      ∃ e entries, all = e :: entries ∧ Entry record e ∧ e.1 ∉ values.map Prod.fst ∧
        Extends (values ++ [e]) records entries := by
  constructor
  · rintro ⟨hall, hnodup⟩
    cases hall with
    | cons he hrest =>
      rename_i e entries
      rw [List.append_cons] at hnodup
      have hnew : ((values ++ [e]).map Prod.fst).Nodup := by
        rw [List.map_append] at hnodup
        exact (List.nodup_append.1 hnodup).1
      refine ⟨e, entries, rfl, he, fun hmem => ?_, hrest, hnodup⟩
      rw [List.map_append] at hnew
      exact (List.nodup_append.1 hnew).2.2 _ hmem _ (List.mem_cons_self ..) rfl
  · rintro ⟨e, entries, rfl, he, -, hrest, hnodup⟩
    refine ⟨.cons he hrest, ?_⟩
    rwa [List.append_cons]

theorem nodup_keys_concat (hs : (keys snapshot).Nodup) {e : Request × Decimal}
    (he : e.1 ∉ keys snapshot) : (keys ⟨snapshot.values ++ [e]⟩).Nodup := by
  have hkeys : keys ⟨snapshot.values ++ [e]⟩ = (keys snapshot).concat e.1 := by
    rw [List.concat_eq_append]
    exact List.map_append
  rw [hkeys]
  exact hs.concat he

/-- The values of the records are added in their order. -/
theorem addRecords_eq_ok_iff (hs : (keys snapshot).Nodup) :
    addRecords snapshot number records = .ok snapshot' ↔
      ∃ entries, Extends snapshot.values records entries ∧
        snapshot' = ⟨snapshot.values ++ entries⟩ := by
  induction records generalizing snapshot number with
  | nil =>
    have hnil : ∀ {entries}, Extends snapshot.values [] entries ↔ entries = [] :=
      ⟨fun h => List.forall₂_nil_left_iff.1 h.1, fun h => by
        subst h
        exact ⟨.nil, by simpa using hs⟩⟩
    simp only [hnil, exists_eq_left, List.append_nil]
    exact ⟨fun h => (Except.ok.inj h).symm, fun h => h ▸ rfl⟩
  | cons record records ih =>
    rw [addRecords_cons]
    constructor
    · intro h
      cases hrecord : addRecord snapshot number record with
      | error problem => rw [hrecord] at h; cases h
      | ok middle =>
        rw [hrecord] at h
        obtain ⟨e, he, hnew, rfl⟩ := addRecord_eq_ok_iff.1 hrecord
        obtain ⟨entries, hrest, hresult⟩ := (ih (nodup_keys_concat hs hnew)).1 h
        rw [List.append_assoc, List.singleton_append] at hresult
        exact ⟨e :: entries, extends_cons_iff.2 ⟨e, entries, rfl, he, hnew, hrest⟩, hresult⟩
    · rintro ⟨all, hall, rfl⟩
      obtain ⟨e, entries, rfl, he, hnew, hrest⟩ := extends_cons_iff.1 hall
      rw [addRecord_eq_ok_iff.2 ⟨e, he, hnew, rfl⟩]
      refine (ih (nodup_keys_concat hs hnew)).2 ⟨entries, hrest, ?_⟩
      rw [List.append_cons]

/-- The first record with a fault decides the error. -/
theorem addRecords_eq_error_iff (hs : (keys snapshot).Nodup) {problem : SnapshotProblem} :
    addRecords snapshot number records = .error problem ↔
      ∃ good record rest entries, records = good ++ record :: rest ∧
        Extends snapshot.values good entries ∧
        Refused ((snapshot.values ++ entries).map Prod.fst) (number + good.length) record
          problem := by
  constructor
  · intro h
    induction records generalizing snapshot number with
    | nil => cases h
    | cons record records ih =>
      rw [addRecords_cons] at h
      cases hrecord : addRecord snapshot number record with
      | error problem' =>
        rw [hrecord] at h
        cases h
        refine ⟨[], record, records, [], rfl, ⟨.nil, by simpa using hs⟩, ?_⟩
        rw [List.append_nil]
        exact addRecord_eq_error_iff.1 hrecord
      | ok middle =>
        rw [hrecord] at h
        obtain ⟨e, he, hnew, rfl⟩ := addRecord_eq_ok_iff.1 hrecord
        obtain ⟨good, bad, rest, entries, rfl, hgood, hbad⟩ := ih (nodup_keys_concat hs hnew) h
        refine ⟨record :: good, bad, rest, e :: entries, rfl,
          extends_cons_iff.2 ⟨e, entries, rfl, he, hnew, hgood⟩, ?_⟩
        rw [List.append_cons, List.length_cons, ← Nat.add_assoc, Nat.add_right_comm]
        exact hbad
  · rintro ⟨good, record, rest, entries, rfl, hgood, hbad⟩
    rw [addRecords_append, (addRecords_eq_ok_iff hs).2 ⟨entries, hgood, rfl⟩]
    show addRecords _ _ (record :: rest) = _
    rw [addRecords_cons, addRecord_eq_error_iff.2 hbad]
    rfl

/-! ## Files -/

/-- A record names the columns of a snapshot, in small letters or in capitals. -/
def Titled (record : Record) : Prop :=
  ∃ names, decodeFields 0 record.fields = .ok names ∧
    names.map lowercase = SnapshotProblem.columns

/-- A file has the right header, each of its records states a value, and no two of them state one
for the same request. -/
def Lists (file : List Record) (entries : List (Request × Decimal)) : Prop :=
  ∃ header records, file = header :: records ∧ Titled header ∧
    List.Forall₂ Entry records entries ∧ (entries.map Prod.fst).Nodup

/-- What is wrong with a file: its header, or else the first record with a fault. -/
inductive Fails : List Record → SnapshotProblem → Prop
  | noHeader : Fails [] (.header [])
  | headerEncoding {header : Record} {records : List Record} {field offset : Nat} :
    decodeFields 0 header.fields = .error (field, offset) →
    Fails (header :: records) (.encoding 0 header field offset)
  | header {header : Record} {records : List Record} {names : List String} :
    decodeFields 0 header.fields = .ok names → names.map lowercase ≠ SnapshotProblem.columns →
    Fails (header :: records) (.header (names.map lowercase))
  | record {header record : Record} {good rest : List Record} {entries : List (Request × Decimal)}
    {problem : SnapshotProblem} :
    Titled header → List.Forall₂ Entry good entries → (entries.map Prod.fst).Nodup →
    Refused (entries.map Prod.fst) (good.length + 1) record problem →
    Fails (header :: (good ++ record :: rest)) problem

theorem nodup_keys_empty : (keys .empty).Nodup := List.nodup_nil

theorem load_of_titled {header : Record} (h : Titled header) :
    load (header :: records) = addRecords .empty 1 records := by
  obtain ⟨names, hnames, htitles⟩ := h
  show (decodeRecord 0 header >>= _) = _
  rw [decodeRecord, hnames]
  exact if_pos htitles

theorem load_of_encoding {header : Record} {field offset : Nat}
    (h : decodeFields 0 header.fields = .error (field, offset)) :
    load (header :: records) = .error (.encoding 0 header field offset) := by
  show (decodeRecord 0 header >>= _) = _
  rw [decodeRecord, h]
  rfl

theorem load_of_names {header : Record} {names : List String}
    (h : decodeFields 0 header.fields = .ok names)
    (hnames : names.map lowercase ≠ SnapshotProblem.columns) :
    load (header :: records) = .error (.header (names.map lowercase)) := by
  show (decodeRecord 0 header >>= _) = _
  rw [decodeRecord, h]
  exact if_neg hnames

/-- What a header is: the columns of a snapshot, no text, or other texts. -/
theorem titled_or (header : Record) : Titled header ∨
    (∃ field offset, decodeFields 0 header.fields = .error (field, offset)) ∨
    ∃ names, decodeFields 0 header.fields = .ok names ∧
      names.map lowercase ≠ SnapshotProblem.columns := by
  cases h : decodeFields 0 header.fields with
  | error place => exact .inr (.inl ⟨place.1, place.2, rfl⟩)
  | ok names =>
    by_cases hnames : names.map lowercase = SnapshotProblem.columns
    · exact .inl ⟨names, h, hnames⟩
    · exact .inr (.inr ⟨names, rfl, hnames⟩)

theorem load_eq_ok_iff {file : List Record} :
    load file = .ok snapshot ↔ Lists file snapshot.values := by
  constructor
  · intro h
    match file with
    | [] => cases h
    | header :: records =>
      rcases titled_or header with htitled | ⟨field, offset, hheader⟩ | ⟨names, hheader, hnames⟩
      · rw [load_of_titled htitled] at h
        obtain ⟨entries, hentries, rfl⟩ := (addRecords_eq_ok_iff nodup_keys_empty).1 h
        exact ⟨header, records, rfl, htitled, hentries⟩
      · rw [load_of_encoding hheader] at h
        cases h
      · rw [load_of_names hheader hnames] at h
        cases h
  · rintro ⟨header, records, rfl, htitled, hentries⟩
    rw [load_of_titled htitled]
    exact (addRecords_eq_ok_iff nodup_keys_empty).2 ⟨snapshot.values, hentries, rfl⟩

theorem load_eq_error_iff {file : List Record} {problem : SnapshotProblem} :
    load file = .error problem ↔ Fails file problem := by
  constructor
  · intro h
    match file with
    | [] =>
      cases h
      exact .noHeader
    | header :: records =>
      rcases titled_or header with htitled | ⟨field, offset, hheader⟩ | ⟨names, hheader, hnames⟩
      · rw [load_of_titled htitled] at h
        obtain ⟨good, record, rest, entries, rfl, ⟨hgood, hnodup⟩, hbad⟩ :=
          (addRecords_eq_error_iff nodup_keys_empty).1 h
        rw [Nat.add_comm] at hbad
        exact .record htitled hgood hnodup hbad
      · rw [load_of_encoding hheader] at h
        cases h
        exact .headerEncoding hheader
      · rw [load_of_names hheader hnames] at h
        cases h
        exact .header hheader hnames
  · intro h
    cases h with
    | noHeader => rfl
    | headerEncoding hheader => exact load_of_encoding hheader
    | header hheader hnames => exact load_of_names hheader hnames
    | record htitled hgood hnodup hbad =>
      rw [load_of_titled htitled, addRecords_eq_error_iff nodup_keys_empty]
      refine ⟨_, _, _, _, rfl, ⟨hgood, hnodup⟩, ?_⟩
      rw [Nat.add_comm]
      exact hbad

end Csv

/-- **Loading a snapshot is exact, and takes all records or none.** It succeeds if and only if the
file has the right header, each record states a value and no two of them one for the same request.
Then the snapshot has as many values as the file has records, and gives every request of a record
the value of that record and no other request any. If it fails, then with the fault of the header
or of the first record that has one, the first such fault in the order of the checks. -/
theorem Snapshot.ofCsv_exact (bytes : List UInt8) :
    ((∃ snapshot, Snapshot.ofCsv bytes = .ok snapshot) ↔
      ∃ entries, Csv.Lists (Records.ofBytes bytes) entries) ∧
    (∀ snapshot entries, Snapshot.ofCsv bytes = .ok snapshot →
      Csv.Lists (Records.ofBytes bytes) entries →
      snapshot.size + 1 = (Records.ofBytes bytes).length ∧
      (∀ e ∈ entries, snapshot.feed e.1 = .ok e.2) ∧
      ∀ request ∉ entries.map Prod.fst, snapshot.feed request = .error (missing request)) ∧
    ∀ problem, Snapshot.ofCsv bytes = .error problem ↔
      Csv.Fails (Records.ofBytes bytes) problem := by
  refine ⟨⟨?_, ?_⟩, ?_, fun problem => Csv.load_eq_error_iff⟩
  · rintro ⟨snapshot, h⟩
    exact ⟨snapshot.values, Csv.load_eq_ok_iff.1 h⟩
  · rintro ⟨entries, h⟩
    exact ⟨⟨entries⟩, Csv.load_eq_ok_iff.2 h⟩
  · intro snapshot entries h hlists
    have hsnapshot : snapshot = ⟨entries⟩ :=
      Except.ok.inj (h.symm.trans (Csv.load_eq_ok_iff.2 hlists))
    subst hsnapshot
    obtain ⟨header, records, hfile, -, hentries, hnodup⟩ := hlists
    refine ⟨?_, fun e he => Snapshot.feed_eq_ok_of_mem hnodup he,
      fun request hnot => Snapshot.feed_eq_error_of_notMem hnot⟩
    rw [hfile, List.length_cons, hentries.length_eq]
    rfl

/-- A file with one record, whose period is written with a sign and a zero in front. -/
theorem Snapshot.ofCsv_exact_signed :
    ∃ snapshot, Snapshot.ofCsv
        "symbol,Indicator,period,value\n# weekly\nSPY, rsi ,+014,72.5\n".toUTF8.data.toList =
          .ok snapshot ∧
      snapshot.size = 1 ∧ snapshot.feed ⟨"SPY", .rsi, 14⟩ = .ok ⟨725, 1, by decide, by decide⟩ ∧
      snapshot.feed ⟨"SPY", .rsi, 15⟩ = .error (missing ⟨"SPY", .rsi, 15⟩) := by
  let bytes := "symbol,Indicator,period,value\n# weekly\nSPY, rsi ,+014,72.5\n".toUTF8.data.toList
  let entries : List (Request × Decimal) := [(⟨"SPY", .rsi, 14⟩, ⟨725, 1, by decide, by decide⟩)]
  have hvalues : (Snapshot.ofCsv bytes).toOption.map Snapshot.values = some entries := by
    decide +kernel
  have hrecords : (Records.ofBytes bytes).length = 2 := by decide +kernel
  have hok : Snapshot.ofCsv bytes = .ok ⟨entries⟩ := by
    cases h : Snapshot.ofCsv bytes with
    | error problem => rw [h] at hvalues; cases hvalues
    | ok snapshot =>
      rw [h] at hvalues
      rw [← show snapshot.values = entries from Option.some.inj hvalues]
  obtain ⟨hsize, hread, hmissing⟩ := (Snapshot.ofCsv_exact bytes).2.1 ⟨entries⟩ entries hok
    (Csv.load_eq_ok_iff.1 hok)
  exact ⟨⟨entries⟩, hok, by omega, hread _ (List.mem_cons_self ..), hmissing _ (by decide)⟩

end AllocScript
