import Mathlib
import AllocScript.Snapshot.Records

/-!
# How records lie in a file

A file is made of pieces, one for each record: a `Gap` of line ends and comments, then the record
as it is written, with the byte that ends it (`Layout`). A record is fields with commas between
them (`WritesFields`); a field is written as it is, or in quotes with every quote doubled and maybe
some bytes behind them (`WritesField`). Only at the end of the file a quote may stay open and a
comment without a line end.

* `exists_layout`: every file has a layout.
* `Reader.records_of_layout`: the reader finds the records of the layout, and it places each of them
  where its gap begins (`placed`). It is followed by the places it goes through (`Reads`), and
  `ofBytes_of_layout` says the same of a whole file.
-/

namespace AllocScript

namespace Records

/-! ## Layouts -/

def IsLineEnd (b : UInt8) : Prop := b = lineFeed ∨ b = carriageReturn

instance : DecidablePred IsLineEnd := fun _ => inferInstanceAs (Decidable (_ ∨ _))

/-- Line ends and comments, which may stand between records. -/
inductive Gap : List UInt8 → Prop
  | nil : Gap []
  | lineEnd {b : UInt8} {rest : List UInt8} : IsLineEnd b → Gap rest → Gap (b :: rest)
  | comment {text rest : List UInt8} : lineFeed ∉ text → Gap rest →
    Gap (numberSign :: (text ++ lineFeed :: rest))

/-- A byte that ends a field outside quotes. -/
def EndsField (b : UInt8) : Prop := b = comma ∨ IsLineEnd b

instance : DecidablePred EndsField := fun _ => inferInstanceAs (Decidable (_ ∨ _))

/-- Bytes outside quotes: a quote is ordinary among them, but not the first of them. -/
structure Bare (bs : List UInt8) : Prop where
  inside : ∀ b ∈ bs, ¬ EndsField b
  begins : bs.head? ≠ some doubleQuote

/-- Bytes with every quote doubled. -/
def doubled (bs : List UInt8) : List UInt8 :=
  bs.flatMap fun b => if b = doubleQuote then [doubleQuote, doubleQuote] else [b]

/-- The ways to write a field. -/
inductive WritesField : List UInt8 → List UInt8 → Prop
  | bare {text : List UInt8} : Bare text → WritesField text text
  | quoted {inner tail : List UInt8} : Bare tail →
    WritesField (doubleQuote :: (doubled inner ++ doubleQuote :: tail)) (inner ++ tail)

/-- The ways to write the last field of a file. -/
inductive WritesLast : List UInt8 → List UInt8 → Prop
  | closed {text field : List UInt8} : WritesField text field → WritesLast text field
  | unclosed {inner : List UInt8} : WritesLast (doubleQuote :: doubled inner) inner

/-- Fields with commas between them, the last one written in a way of its own. -/
inductive WritesFields (way : List UInt8 → List UInt8 → Prop) :
    List UInt8 → List (List UInt8) → Prop
  | last {text field : List UInt8} : way text field → WritesFields way text [field]
  | cons {text field rest : List UInt8} {fields : List (List UInt8)} : WritesField text field →
    WritesFields way rest fields → WritesFields way (text ++ comma :: rest) (field :: fields)

/-- A record cannot be taken for a line end or a comment. -/
def Begins (text : List UInt8) : Prop :=
  ∃ b rest, text = b :: rest ∧ ¬ IsLineEnd b ∧ b ≠ numberSign

/-- A record in a file: what lies in front of it, how it is written, and its fields. -/
structure Piece where
  gap : List UInt8
  text : List UInt8
  fields : List (List UInt8)
deriving DecidableEq

def Piece.bytes (p : Piece) : List UInt8 := p.gap ++ p.text

/-- The pieces of a file. A comment that is cut off by the end of the file counts as a record. -/
inductive Layout : List UInt8 → List Piece → Prop
  | done {gap : List UInt8} : Gap gap → Layout gap []
  | comment {gap text : List UInt8} : Gap gap → lineFeed ∉ text →
    Layout (gap ++ numberSign :: text) [⟨gap, numberSign :: text, [[]]⟩]
  | last {gap text : List UInt8} {fields : List (List UInt8)} : Gap gap → Begins text →
    WritesFields WritesLast text fields → Layout (gap ++ text) [⟨gap, text, fields⟩]
  | record {gap text rest : List UInt8} {fields : List (List UInt8)} {b : UInt8}
    {pieces : List Piece} : Gap gap → Begins text → WritesFields WritesField text fields →
    IsLineEnd b → Layout rest pieces →
    Layout (gap ++ (text ++ b :: rest)) (⟨gap, text ++ [b], fields⟩ :: pieces)

/-! ## Every file has a layout -/

theorem Gap.append {g g' : List UInt8} (h : Gap g) (h' : Gap g') : Gap (g ++ g') := by
  induction h with
  | nil => exact h'
  | lineEnd hb _ ih => exact .lineEnd hb ih
  | comment htext _ ih =>
    rw [List.cons_append, List.append_assoc, List.cons_append]
    exact .comment htext ih

theorem Layout.behind_gap {g bytes : List UInt8} {pieces : List Piece} (hg : Gap g)
    (h : Layout bytes pieces) : ∃ pieces', Layout (g ++ bytes) pieces' := by
  cases h with
  | done hgap => exact ⟨_, .done (hg.append hgap)⟩
  | comment hgap htext =>
    rw [← List.append_assoc]
    exact ⟨_, .comment (hg.append hgap) htext⟩
  | last hgap hbegins hfields =>
    rw [← List.append_assoc]
    exact ⟨_, .last (hg.append hgap) hbegins hfields⟩
  | record hgap hbegins hfields hb hrest =>
    rw [← List.append_assoc]
    exact ⟨_, .record (hg.append hgap) hbegins hfields hb hrest⟩

/-- Bytes up to the first one that ends a field. -/
theorem exists_end_of_field (bs : List UInt8) :
    ∃ text rest, bs = text ++ rest ∧ (∀ b ∈ text, ¬ EndsField b) ∧
      ∀ b ∈ rest.head?, EndsField b := by
  induction bs with
  | nil => exact ⟨[], [], rfl, fun _ hb => absurd hb List.not_mem_nil, nofun⟩
  | cons b bs ih =>
    by_cases hb : EndsField b
    · refine ⟨[], b :: bs, rfl, fun _ hb => absurd hb List.not_mem_nil, ?_⟩
      rintro _ ⟨⟩
      exact hb
    · obtain ⟨text, rest, rfl, htext, hrest⟩ := ih
      exact ⟨b :: text, rest, rfl, List.forall_mem_cons.2 ⟨hb, htext⟩, hrest⟩

theorem doubled_cons_quote (bs : List UInt8) :
    doubled (doubleQuote :: bs) = doubleQuote :: doubleQuote :: doubled bs := rfl

theorem doubled_cons {b : UInt8} (h : b ≠ doubleQuote) (bs : List UInt8) :
    doubled (b :: bs) = b :: doubled bs := by
  rw [doubled, List.flatMap_cons, if_neg h]
  rfl

/-- Inside quotes, the first quote that is not doubled closes them, if there is one. -/
theorem exists_closing_quote : ∀ bs : List UInt8, (∃ inner, bs = doubled inner) ∨
    ∃ inner rest, bs = doubled inner ++ doubleQuote :: rest ∧ rest.head? ≠ some doubleQuote
  | [] => .inl ⟨[], rfl⟩
  | [b] => by
    by_cases hb : b = doubleQuote
    · exact .inr ⟨[], [], by rw [hb]; rfl, nofun⟩
    · exact .inl ⟨[b], (doubled_cons hb []).symm⟩
  | b :: c :: bs => by
    by_cases hb : b = doubleQuote
    · by_cases hc : c = doubleQuote
      · rw [hb, hc]
        rcases exists_closing_quote bs with ⟨inner, rfl⟩ | ⟨inner, rest, rfl, hrest⟩
        · exact .inl ⟨doubleQuote :: inner, rfl⟩
        · exact .inr ⟨doubleQuote :: inner, rest, rfl, hrest⟩
      · exact .inr ⟨[], c :: bs, by rw [hb]; rfl, fun h => hc (Option.some.inj h)⟩
    · rcases exists_closing_quote (c :: bs) with ⟨inner, hinner⟩ | ⟨inner, rest, hinner, hrest⟩
      · exact .inl ⟨b :: inner, by rw [doubled_cons hb, hinner]⟩
      · exact .inr ⟨b :: inner, rest, by rw [doubled_cons hb, hinner, List.cons_append], hrest⟩

/-- Whatever follows, a field comes first. -/
theorem exists_field (bs : List UInt8) : ∃ text rest, bs = text ++ rest ∧
    (rest = [] ∧ (∃ field, WritesLast text field) ∨
      ∃ b rest', rest = b :: rest' ∧ EndsField b ∧ ∃ field, WritesField text field) := by
  -- A field that is closed goes up to a byte that ends it, or to the end of the file.
  have hclosed : ∀ {text rest field : List UInt8}, WritesField text field →
      (∀ b ∈ rest.head?, EndsField b) →
      rest = [] ∧ (∃ field, WritesLast text field) ∨
        ∃ b rest', rest = b :: rest' ∧ EndsField b ∧ ∃ field, WritesField text field := by
    intro text rest field hfield hrest
    cases rest with
    | nil => exact .inl ⟨rfl, field, .closed hfield⟩
    | cons b rest => exact .inr ⟨b, rest, rfl, hrest b rfl, field, hfield⟩
  by_cases hquote : bs.head? = some doubleQuote
  · obtain ⟨bs, rfl⟩ : ∃ rest, bs = doubleQuote :: rest := List.head?_eq_some_iff.1 hquote
    rcases exists_closing_quote bs with ⟨inner, rfl⟩ | ⟨inner, rest, rfl, hrest⟩
    · exact ⟨_, [], (List.append_nil _).symm, .inl ⟨rfl, inner, .unclosed⟩⟩
    · obtain ⟨tail, rest, rfl, htail, hend⟩ := exists_end_of_field rest
      have hbare : Bare tail := by
        refine ⟨htail, fun h => hrest ?_⟩
        rw [List.head?_append, h]
        rfl
      exact ⟨doubleQuote :: (doubled inner ++ doubleQuote :: tail), rest, by simp,
        hclosed (.quoted hbare) hend⟩
  · obtain ⟨text, rest, rfl, htext, hend⟩ := exists_end_of_field bs
    have hbare : Bare text := by
      refine ⟨htext, fun h => hquote ?_⟩
      rw [List.head?_append, h]
      rfl
    exact ⟨text, rest, rfl, hclosed (.bare hbare) hend⟩

/-- What follows begins with the fields of a record. -/
def FieldsFollow (bytes : List UInt8) : Prop :=
  (∃ fields, WritesFields WritesLast bytes fields) ∨
    ∃ text b rest pieces, bytes = text ++ b :: rest ∧
      (∃ fields, WritesFields WritesField text fields) ∧ IsLineEnd b ∧ Layout rest pieces

theorem FieldsFollow.cons {text field rest : List UInt8} (h : FieldsFollow rest)
    (hfield : WritesField text field) : FieldsFollow (text ++ comma :: rest) := by
  rcases h with ⟨fields, hfields⟩ | ⟨text', b, rest, pieces, rfl, ⟨fields, hfields⟩, hb, hrest⟩
  · exact .inl ⟨_, .cons hfield hfields⟩
  · exact .inr ⟨text ++ comma :: text', b, rest, pieces, by simp, ⟨_, .cons hfield hfields⟩, hb,
      hrest⟩

theorem fieldsFollow {bytes : List UInt8}
    (h : ∀ rest : List UInt8, rest.length < bytes.length → ∃ pieces, Layout rest pieces) :
    FieldsFollow bytes := by
  induction hlength : bytes.length using Nat.strong_induction_on generalizing bytes with
  | _ n ih =>
    subst hlength
    obtain ⟨text, rest, rfl, ⟨rfl, field, hfield⟩ | ⟨b, rest, rfl, hb, field, hfield⟩⟩ :=
      exists_field bytes
    · rw [List.append_nil]
      exact .inl ⟨[field], .last hfield⟩
    · have hshorter : rest.length < (text ++ b :: rest).length := by
        rw [List.length_append, List.length_cons]
        omega
      rcases hb with rfl | hb
      · exact .cons (ih _ hshorter (fun rest' hrest' => h rest' (hrest'.trans hshorter)) rfl) hfield
      · obtain ⟨pieces, hpieces⟩ := h rest hshorter
        exact .inr ⟨text, b, rest, pieces, rfl, ⟨[field], .last hfield⟩, hb, hpieces⟩

/-- **Every file has a layout.** -/
theorem exists_layout (bytes : List UInt8) : ∃ pieces, Layout bytes pieces := by
  induction hlength : bytes.length using Nat.strong_induction_on generalizing bytes with
  | _ n ih =>
    subst hlength
    cases bytes with
    | nil => exact ⟨[], .done .nil⟩
    | cons b bs =>
      by_cases hb : IsLineEnd b
      · obtain ⟨pieces, hpieces⟩ := ih bs.length (Nat.lt_succ_self _) bs rfl
        exact hpieces.behind_gap (.lineEnd hb .nil)
      by_cases hsign : b = numberSign
      · subst hsign
        by_cases hfeed : lineFeed ∈ bs
        · obtain ⟨text, rest, rfl, htext⟩ := List.eq_append_cons_of_mem hfeed
          obtain ⟨pieces, hpieces⟩ := ih rest.length (by simp; omega) rest rfl
          have hall := hpieces.behind_gap (.comment htext .nil)
          simpa using hall
        · exact ⟨_, .comment .nil hfeed⟩
      · rcases fieldsFollow fun rest hrest => ih rest.length hrest rest rfl with
          ⟨fields, hfields⟩ | ⟨text, e, rest, pieces, heq, ⟨fields, hfields⟩, he, hrest⟩
        · exact ⟨_, .last .nil ⟨b, bs, rfl, hb, hsign⟩ hfields⟩
        · rw [heq]
          cases text with
          | nil =>
            obtain ⟨rfl, -⟩ := List.cons.inj heq
            exact absurd he hb
          | cons b' text =>
            obtain ⟨rfl, -⟩ := List.cons.inj heq
            exact ⟨_, .record .nil ⟨b, text, rfl, hb, hsign⟩ hfields he hrest⟩

/-! ## The reader goes through a layout -/

/-- The reader behind some more bytes, with nothing found among them. -/
def Reader.moved (r : Reader) (bs : List UInt8) (place : Place) : Reader :=
  { r with place, line := r.line + bs.count lineFeed, byte := r.byte + bs.length }

theorem Reader.moved_nil (r : Reader) : r.moved [] r.place = r := rfl

theorem Reader.moved_moved (r : Reader) (bs cs : List UInt8) (p q : Place) :
    (r.moved bs p).moved cs q = r.moved (bs ++ cs) q := by
  simp only [moved, List.count_append, List.length_append, Nat.add_assoc]

theorem Reader.moved_singleton (r : Reader) (b : UInt8) (p : Place) :
    r.moved [b] p =
      { r with place := p, line := if b = lineFeed then r.line + 1 else r.line,
               byte := r.byte + 1 } := by
  by_cases hb : b = lineFeed <;> simp [moved, hb]

/-- Bytes take the reader from a place to another one, and it finds nothing among them. -/
def Reads (bs : List UInt8) (p q : Place) : Prop :=
  ∀ r : Reader, r.place = p → bs.foldl Reader.step r = r.moved bs q

namespace Reads

variable {bs cs : List UInt8} {b : UInt8} {p q s : Place} {fields : List (List UInt8)}
  {field text : List UInt8} {state : FieldState}

theorem nil : Reads [] p p := by
  rintro r rfl
  exact r.moved_nil.symm

theorem append (h : Reads bs p q) (h' : Reads cs q s) : Reads (bs ++ cs) p s := by
  intro r hr
  rw [List.foldl_append, h r hr, h' _ rfl, r.moved_moved]

theorem single (h : ∀ r : Reader, r.place = p → r.step b =
    { r with place := q, line := if b = lineFeed then r.line + 1 else r.line,
             byte := r.byte + 1 }) : Reads [b] p q :=
  fun r hr => (h r hr).trans (r.moved_singleton b q).symm

theorem cons (h : Reads [b] p q) (h' : Reads bs q s) : Reads (b :: bs) p s :=
  h.append h'

/-! ### Between records -/

theorem lineEnd (h : IsLineEnd b) : Reads [b] .between .between := by
  refine .single fun r hr => ?_
  simp [Reader.step, hr, show b = lineFeed ∨ b = carriageReturn from h]

theorem sign : Reads [numberSign] .between .comment := by
  refine .single fun r hr => ?_
  have hend : ¬(numberSign = lineFeed ∨ numberSign = carriageReturn) := by decide
  simp [Reader.step, hr, hend]

theorem commentText (h : lineFeed ∉ text) : Reads text .comment .comment := by
  induction text with
  | nil => exact .nil
  | cons b text ih =>
    obtain ⟨hb, htext⟩ := not_or.1 (mt List.mem_cons.2 h)
    refine .cons (.single fun r hr => ?_) (ih htext)
    simp [Reader.step, hr, Ne.symm hb]

theorem commentEnd : Reads [lineFeed] .comment .between := by
  refine .single fun r hr => ?_
  simp [Reader.step, hr]

theorem gap (h : Gap bs) : Reads bs .between .between := by
  induction h with
  | nil => exact .nil
  | lineEnd hb _ ih => exact .cons (.lineEnd hb) ih
  | comment htext _ ih => exact .cons .sign (.append (.commentText htext) (.cons .commentEnd ih))

/-! ### In a field -/

/-- Outside quotes a byte that does not end the field belongs to it, if it is no quote or if
neither the field begins nor its quotes are closed there. -/
theorem plainByte (h : ¬EndsField b) (hquoted : state ≠ .quoted)
    (hquote : b = doubleQuote → state = .plain) :
    Reads [b] (.record fields field state) (.record fields (b :: field) .plain) := by
  refine .single fun r hr => ?_
  obtain ⟨hcomma, hend⟩ := not_or.1 h
  have hend : ¬(b = lineFeed ∨ b = carriageReturn) := hend
  by_cases hb : b = doubleQuote
  · obtain rfl := hquote hb
    simp [Reader.step, Reader.takeField, hr, hcomma, hend]
  · cases state with
    | quoted => exact absurd rfl hquoted
    | start | plain | closing => simp [Reader.step, Reader.takeField, hr, hcomma, hend, hb]

theorem plain (h : ∀ b ∈ text, ¬EndsField b) :
    Reads text (.record fields field .plain) (.record fields (text.reverse ++ field) .plain) := by
  induction text generalizing field with
  | nil => exact .nil
  | cons b text ih =>
    obtain ⟨hb, htext⟩ := List.forall_mem_cons.1 h
    rw [List.reverse_cons, List.append_assoc]
    exact .cons (.plainByte hb (by decide) fun _ => rfl) (ih htext)

/-- Bytes outside quotes, at the beginning of a field or behind its quotes. -/
theorem bare (fields : List (List UInt8)) (field : List UInt8) (h : Bare text)
    (hquoted : state ≠ .quoted) : ∃ state', state' ≠ .quoted ∧
    Reads text (.record fields field state) (.record fields (text.reverse ++ field) state') := by
  obtain ⟨hinside, hbegins⟩ := h
  cases text with
  | nil => exact ⟨state, hquoted, .nil⟩
  | cons b text =>
    obtain ⟨hb, htext⟩ := List.forall_mem_cons.1 hinside
    have hquote : b ≠ doubleQuote := fun heq => hbegins (congrArg some heq)
    rw [List.reverse_cons, List.append_assoc]
    exact ⟨.plain, by decide, .cons (.plainByte hb hquoted fun heq => absurd heq hquote)
      (.plain htext)⟩

theorem opening :
    Reads [doubleQuote] (.record fields field .start) (.record fields field .quoted) := by
  refine .single fun r hr => ?_
  have hcomma : doubleQuote ≠ comma := by decide
  have hend : ¬(doubleQuote = lineFeed ∨ doubleQuote = carriageReturn) := by decide
  simp [Reader.step, Reader.takeField, hr, hcomma, hend]

theorem closing :
    Reads [doubleQuote] (.record fields field .quoted) (.record fields field .closing) := by
  refine .single fun r hr => ?_
  simp [Reader.step, Reader.takeField, hr]

/-- A quote behind one that might close a field takes it back. -/
theorem second : Reads [doubleQuote] (.record fields field .closing)
    (.record fields (doubleQuote :: field) .quoted) := by
  refine .single fun r hr => ?_
  have hcomma : doubleQuote ≠ comma := by decide
  have hend : ¬(doubleQuote = lineFeed ∨ doubleQuote = carriageReturn) := by decide
  simp [Reader.step, Reader.takeField, hr, hcomma, hend]

theorem quotedByte (h : b ≠ doubleQuote) :
    Reads [b] (.record fields field .quoted) (.record fields (b :: field) .quoted) := by
  refine .single fun r hr => ?_
  simp [Reader.step, Reader.takeField, hr, h]

theorem quoted (inner : List UInt8) : Reads (doubled inner) (.record fields field .quoted)
    (.record fields (inner.reverse ++ field) .quoted) := by
  induction inner generalizing field with
  | nil => exact .nil
  | cons b inner ih =>
    rw [List.reverse_cons, List.append_assoc]
    by_cases hb : b = doubleQuote
    · rw [hb, doubled_cons_quote]
      exact .cons .closing (.cons .second ih)
    · rw [doubled_cons hb]
      exact .cons (.quotedByte hb) ih

/-- A quote opens a field. -/
theorem opened (inner : List UInt8) : Reads (doubleQuote :: doubled inner)
    (.record fields [] .start) (.record fields inner.reverse .quoted) := by
  rw [← List.append_nil inner.reverse]
  exact .cons .opening (.quoted inner)

theorem writesField (fields : List (List UInt8)) (h : WritesField text field) :
    ∃ state, state ≠ .quoted ∧
      Reads text (.record fields [] .start) (.record fields field.reverse state) := by
  cases h with
  | bare htext =>
    rw [← List.append_nil field.reverse]
    exact bare fields [] htext (show FieldState.start ≠ .quoted by decide)
  | @quoted inner tail htail =>
    obtain ⟨state, hstate, hreads⟩ :=
      bare fields inner.reverse htail (show FieldState.closing ≠ .quoted by decide)
    rw [List.reverse_append]
    exact ⟨state, hstate, .append (.opened inner) (.cons .closing hreads)⟩

theorem writesLast (fields : List (List UInt8)) (h : WritesLast text field) :
    ∃ state, Reads text (.record fields [] .start) (.record fields field.reverse state) := by
  cases h with
  | closed hfield =>
    obtain ⟨state, -, hreads⟩ := writesField fields hfield
    exact ⟨state, hreads⟩
  | unclosed => exact ⟨.quoted, .opened field⟩

/-! ### In a record -/

theorem comma (hquoted : state ≠ .quoted) : Reads [comma] (.record fields field state)
    (.record (field.reverse :: fields) [] .start) := by
  refine .single fun r hr => ?_
  cases state with
  | quoted => exact absurd rfl hquoted
  | start | plain | closing =>
    simp [Reader.step, Reader.takeField, hr, show Records.comma ≠ lineFeed by decide]

/-- Behind the fields of a record, the reader holds them; the last one is in a state that its way
of being written leaves. -/
theorem writesFields {way : List UInt8 → List UInt8 → Prop} (leaves : FieldState → Prop)
    (hway : ∀ {text field} fields, way text field → ∃ state, leaves state ∧
      Reads text (.record fields [] .start) (.record fields field.reverse state))
    {all : List (List UInt8)} (h : WritesFields way text all) (before : List (List UInt8)) :
    ∃ fields field state, leaves state ∧
      Reads text (.record before [] .start) (.record fields field state) ∧
      (field.reverse :: fields).reverse = before.reverse ++ all := by
  induction h generalizing before with
  | @last text field hfield =>
    obtain ⟨state, hstate, hreads⟩ := hway before hfield
    exact ⟨before, field.reverse, state, hstate, hreads, by simp⟩
  | @cons text field rest all hfield _ ih =>
    obtain ⟨state, hstate, hreads⟩ := writesField before hfield
    obtain ⟨fields, last, state', hstate', hrest, hall⟩ := ih (field :: before)
    refine ⟨fields, last, state', hstate', .append hreads (.cons (.comma hstate) ?_), ?_⟩
    · rwa [List.reverse_reverse]
    · rw [hall, List.reverse_cons, List.append_assoc, List.singleton_append]

/-- Between records, the first byte of a record begins its first field. -/
theorem begins (h : Begins text) (hreads : Reads text (.record [] [] .start) q) :
    Reads text .between q := by
  obtain ⟨b, rest, rfl, hb, hsign⟩ := h
  intro r hr
  have hfirst : r.step b = Reader.step { r with place := .record [] [] .start } b := by
    have hb : ¬(b = lineFeed ∨ b = carriageReturn) := hb
    simp only [Reader.step, hr, if_neg hb, if_neg hsign]
    rfl
  have hrest := hreads { r with place := .record [] [] .start } rfl
  rw [List.foldl_cons, ← hfirst, ← List.foldl_cons] at hrest
  exact hrest

end Reads

/-! ## The records of a layout -/

/-- The records of pieces, when the reader searches for the first one from this line and byte on.
The bytes of the pieces begin at byte `next`, which is another one only behind a byte order
mark. -/
def placed (line byte next : Nat) : List Piece → List Record
  | [] => []
  | p :: pieces =>
    ⟨p.fields, line, byte⟩ ::
      placed (line + p.bytes.count lineFeed) (next + p.bytes.length) (next + p.bytes.length) pieces

theorem map_fields_placed (line byte next : Nat) (pieces : List Piece) :
    (placed line byte next pieces).map Record.fields = pieces.map Piece.fields := by
  induction pieces generalizing line byte next with
  | nil => rfl
  | cons p pieces ih => rw [placed, List.map_cons, List.map_cons, ih]

/-- A record among those of the pieces is that of a piece, and it is placed behind the line feeds
of the pieces before. -/
theorem placed_eq_append_cons {line byte next : Nat} {pieces : List Piece}
    {before behind : List Record} {record : Record}
    (h : placed line byte next pieces = before ++ record :: behind) :
    ∃ first p rest, pieces = first ++ p :: rest ∧ before = placed line byte next first ∧
      record.fields = p.fields ∧
      record.line = line + (first.flatMap Piece.bytes).count lineFeed := by
  induction before generalizing line byte next pieces with
  | nil =>
    cases pieces with
    | nil => cases h
    | cons p pieces =>
      obtain ⟨rfl, -⟩ := List.cons.inj h
      exact ⟨[], p, pieces, rfl, rfl, rfl, rfl⟩
  | cons r before ih =>
    cases pieces with
    | nil => cases h
    | cons q pieces =>
      obtain ⟨rfl, hrest⟩ := List.cons.inj h
      obtain ⟨first, p, rest, rfl, rfl, hfields, hline⟩ := ih hrest
      refine ⟨q :: first, p, rest, rfl, rfl, hfields, ?_⟩
      rw [hline, List.flatMap_cons, List.count_append, Nat.add_assoc]

theorem placed_append_cons (line byte next : Nat) (first rest : List Piece) (p : Piece) :
    ∃ record behind, placed line byte next (first ++ p :: rest) =
        placed line byte next first ++ record :: behind ∧
      record.fields = p.fields ∧
      record.line = line + (first.flatMap Piece.bytes).count lineFeed := by
  induction first generalizing line byte next with
  | nil => exact ⟨_, _, rfl, rfl, rfl⟩
  | cons q first ih =>
    obtain ⟨record, behind, hrest, hfields, hline⟩ :=
      ih (line + q.bytes.count lineFeed) (next + q.bytes.length) (next + q.bytes.length)
    refine ⟨record, behind, congrArg (_ :: ·) hrest, hfields, ?_⟩
    rw [hline, List.flatMap_cons, List.count_append, Nat.add_assoc]

/-- A line end behind the fields of a record ends it. -/
theorem Reader.step_lineEnd {r : Reader} {b : UInt8} {fields : List (List UInt8)}
    {field : List UInt8} {state : FieldState} (hr : r.place = .record fields field state)
    (hquoted : state ≠ .quoted) (hb : IsLineEnd b) :
    r.step b = (r.moved [b] r.place).finish (field.reverse :: fields) := by
  have hcomma : b ≠ comma := by
    rintro rfl
    exact absurd hb (by decide)
  rw [Reader.moved_singleton]
  cases state with
  | quoted => exact absurd rfl hquoted
  | start | plain | closing =>
    simp [Reader.step, Reader.takeField, hr, hcomma, show b = lineFeed ∨ b = carriageReturn from hb]

/-- **The reader finds the records of a layout**, each one where its gap begins. -/
theorem Reader.records_of_layout {bytes : List UInt8} {pieces : List Piece}
    (h : Layout bytes pieces) {r : Reader} (hr : r.place = .between)
    (hline : r.searchLine = r.line) :
    (bytes.foldl Reader.step r).records =
      r.found.reverse ++ placed r.line r.searchByte r.byte pieces := by
  induction h generalizing r with
  | done hgap =>
    rw [Reads.gap hgap r hr, placed, List.append_nil]
    rfl
  | comment hgap htext =>
    rw [((Reads.gap hgap).append (.cons .sign (.commentText htext))) r hr]
    simp [records, moved, finish, placed, hline]
  | last hgap hbegins hfields =>
    obtain ⟨fields, field, state, -, hreads, hall⟩ :=
      Reads.writesFields (fun _ => True)
        (fun fields h => (Reads.writesLast fields h).imp fun _ h => ⟨trivial, h⟩) hfields []
    rw [((Reads.gap hgap).append (.begins hbegins hreads)) r hr]
    simp [records, moved, finish, placed, hline, hall]
  | @record gap text rest fields b pieces hgap hbegins hfields hb _ ih =>
    obtain ⟨done, field, state, hstate, hreads, hall⟩ :=
      Reads.writesFields (· ≠ .quoted) Reads.writesField hfields []
    have hread := ((Reads.gap hgap).append (.begins hbegins hreads)) r hr
    rw [← List.append_assoc, List.foldl_append, hread, List.foldl_cons,
      step_lineEnd rfl hstate hb, moved_moved, ih rfl rfl]
    simp [finish, moved, placed, hline, hall, Piece.bytes, List.append_assoc]

/-- The byte order mark of a file, if it has one. -/
def markOf (bytes : List UInt8) : List UInt8 :=
  if byteOrderMark.isPrefixOf bytes then byteOrderMark else []

/-- What a file has behind its byte order mark. -/
def unmarked (bytes : List UInt8) : List UInt8 := bytes.drop (markOf bytes).length

theorem markOf_append_unmarked (bytes : List UInt8) : markOf bytes ++ unmarked bytes = bytes := by
  unfold unmarked markOf
  split
  next hmark => exact (List.prefix_append_drop (List.isPrefixOf_iff_prefix.1 hmark)).symm
  next => rfl

theorem ofBytes_of_layout {bytes : List UInt8} {pieces : List Piece}
    (h : Layout (unmarked bytes) pieces) :
    ofBytes bytes = placed 1 0 (markOf bytes).length pieces := by
  have hlength : (markOf bytes).length =
      if byteOrderMark.isPrefixOf bytes then byteOrderMark.length else 0 := by
    unfold markOf
    split <;> rfl
  rw [ofBytes, ← hlength]
  exact Reader.records_of_layout h rfl rfl

end Records

end AllocScript
