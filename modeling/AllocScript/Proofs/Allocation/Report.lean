import Mathlib
import AllocScript.Proofs.Decimal.Rounding
import AllocScript.Proofs.Decimal.Text
import AllocScript.Proofs.Eval.Provenance
import AllocScript.Proofs.Text.Position
import AllocScript.Proofs.Token.Lexer
import AllocScript.Strategy

/-!
# Reading a report back

`Allocation.report` writes a line for each symbol. The weight has neither a blank nor a line feed in
it, so the last blank of a line parts it from the symbol, and `readReport?` gives back what has been
written (`Allocation.report_read_back`). A line feed in a symbol starts a line of the report that
belongs to no symbol, and then two reports may be the same (`exists_same_report`).
-/

namespace AllocScript

/-! ## Readers -/

/-- The characters in front of the last blank and those behind it. -/
def cutAtLastBlank? : List Char → Option (List Char × List Char)
  | [] => none
  | c :: cs =>
    match cutAtLastBlank? cs with
    | some (front, back) => some (c :: front, back)
    | none => if c = ' ' then some ([], cs) else none

/-- The symbol and the weight of a line. -/
def readLine? (line : List Char) : Option (String × Decimal) :=
  match cutAtLastBlank? line with
  | none => none
  | some (symbol, weight) => (Decimal.readChars weight).toOption.map (String.ofList symbol, ·)

/-- The symbols and weights of all lines. -/
def readReport? (text : String) : Option (List (String × Decimal)) :=
  (lines text.toList).mapM readLine?

theorem cutAtLastBlank?_eq_none {cs : List Char} (h : ' ' ∉ cs) : cutAtLastBlank? cs = none := by
  induction cs with
  | nil => rfl
  | cons c cs ih =>
    obtain ⟨hc, hcs⟩ := not_or.1 (mt List.mem_cons.2 h)
    rw [cutAtLastBlank?, ih hcs]
    exact if_neg (Ne.symm hc)

theorem cutAtLastBlank?_append {back : List Char} (h : ' ' ∉ back) (front : List Char) :
    cutAtLastBlank? (front ++ ' ' :: back) = some (front, back) := by
  induction front with
  | nil =>
    rw [List.nil_append, cutAtLastBlank?, cutAtLastBlank?_eq_none h]
    rfl
  | cons c front ih => rw [List.cons_append, cutAtLastBlank?, ih]

/-! ## Lines of a report -/

/-- No character of a decimal is blank. -/
theorem Decimal.not_isBlank_of_mem_renderChars {d : Decimal} {c : Char} (h : c ∈ d.renderChars) :
    isBlank c = false := by
  have hdigit {c : Char} (hc : c.isDigit = true) : isBlank c = false :=
    Lexer.isBlank_of_isSymbolChar (Lexer.isSymbolChar_of_isDigit hc)
  rw [renderChars_eq, digitChars] at h
  rcases List.mem_append.1 h with h | h
  · split at h
    · obtain rfl := List.mem_singleton.1 h
      decide
    · cases h
  · rcases List.mem_append.1 h with h | h
    · exact hdigit (Nat.isDigit_of_mem_toDigits (by decide) (by decide) h)
    · split at h
      · cases h
      · rcases List.mem_cons.1 h with rfl | h
        · decide
        · exact hdigit (isDigit_of_mem_lastDigits h)

/-- A line for a symbol and its weight. -/
def reportLine (e : String × Decimal) : List Char := e.1.toList ++ ' ' :: e.2.normalize.renderChars

theorem cutAtLastBlank?_reportLine (e : String × Decimal) :
    cutAtLastBlank? (reportLine e) = some (e.1.toList, e.2.renderShort.toList) := by
  have hweight : ' ' ∉ e.2.normalize.renderChars := fun h =>
    absurd (Decimal.not_isBlank_of_mem_renderChars h) (by decide)
  rw [reportLine, cutAtLastBlank?_append hweight, Decimal.renderShort, Decimal.render,
    String.toList_ofList]

theorem readLine?_reportLine (e : String × Decimal) :
    readLine? (reportLine e) = some (e.1, e.2.normalize) := by
  rw [readLine?, cutAtLastBlank?_reportLine, Decimal.renderShort, Decimal.render,
    String.toList_ofList]
  simp only [Decimal.readChars_renderChars, String.ofList_toList]
  rfl

theorem count_reportLine (e : String × Decimal) :
    (reportLine e).count '\n' = e.1.toList.count '\n' := by
  have hweight : '\n' ∉ e.2.normalize.renderChars := fun h =>
    absurd (Decimal.not_isBlank_of_mem_renderChars h) (by decide)
  rw [reportLine, List.count_append, List.count_cons_of_ne (by decide),
    List.count_eq_zero.2 hweight, Nat.add_zero]

/-- A line ends in a character that is not blank. -/
theorem getLast?_reportLine (e : String × Decimal) :
    ∃ c, (reportLine e).getLast? = some c ∧ isBlank c = false := by
  have hne : e.2.normalize.renderChars ≠ [] := by
    obtain ⟨c, cs, hcs, -⟩ := Decimal.exists_digitChars_eq e.2.normalize
    rw [Decimal.renderChars_eq, hcs]
    simp
  refine ⟨e.2.normalize.renderChars.getLast hne, ?_,
    Decimal.not_isBlank_of_mem_renderChars (List.getLast_mem hne)⟩
  rw [reportLine, List.getLast?_append, List.getLast?_cons, List.getLast?_eq_some_getLast hne]
  rfl

theorem Allocation.toList_report (a : Allocation) :
    a.report.toList = ['\n'].intercalate (a.weights.entries.map reportLine) := by
  rw [report, String.toList_intercalate, List.map_map]
  congr 1
  refine List.map_congr_left fun e _ => ?_
  simp [reportLine, Decimal.renderShort, Decimal.render]

theorem count_intercalate {ls : List (List Char)} (hne : ls ≠ []) :
    (['\n'].intercalate ls).count '\n' + 1 = (ls.map fun l => l.count '\n').sum + ls.length := by
  induction ls with
  | nil => exact absurd rfl hne
  | cons l ls ih =>
    cases ls with
    | nil => simp
    | cons l' ls =>
      have hrest := ih (List.cons_ne_nil l' ls)
      rw [List.intercalate_cons_cons, List.append_assoc, List.singleton_append, List.count_append,
        List.count_cons_self, List.map_cons, List.sum_cons, List.length_cons]
      omega

theorem getLast?_intercalate {ls : List (List Char)} (hne : ls ≠ [])
    (hlast : ∀ l ∈ ls, ∃ c, l.getLast? = some c ∧ isBlank c = false) :
    ∃ c, (['\n'].intercalate ls).getLast? = some c ∧ isBlank c = false := by
  induction ls with
  | nil => exact absurd rfl hne
  | cons l ls ih =>
    obtain ⟨hl, hls⟩ := List.forall_mem_cons.1 hlast
    cases ls with
    | nil => simpa using hl
    | cons l' ls =>
      obtain ⟨c, hc, hblank⟩ := ih (List.cons_ne_nil l' ls) hls
      refine ⟨c, ?_, hblank⟩
      rw [List.intercalate_cons_cons, List.getLast?_append, hc]
      rfl

namespace Allocation

variable {a b : Allocation}

theorem exists_getLast?_of_mem_lines {l : List Char} (h : l ∈ a.weights.entries.map reportLine) :
    ∃ c, l.getLast? = some c ∧ isBlank c = false := by
  obtain ⟨e, -, rfl⟩ := List.mem_map.1 h
  exact getLast?_reportLine e

/-- A report has a line for each symbol and one more for each line feed in a symbol. -/
theorem length_lines_report (a : Allocation) :
    (lines a.report.toList).length =
      a.size + (a.symbols.map fun s => s.toList.count '\n').sum := by
  rw [toList_report, size, symbols, TextMap.keys, TextMap.size, List.map_map]
  by_cases hne : a.weights.entries = []
  · rw [hne]
    rfl
  · have hlines : a.weights.entries.map reportLine ≠ [] := by simpa using hne
    obtain ⟨c, hlast, hblank⟩ := getLast?_intercalate hlines fun l hl =>
      exists_getLast?_of_mem_lines hl
    have hc : c ≠ '\n' := by
      rintro rfl
      exact absurd hblank (by decide)
    rw [length_lines hlast hc, count_intercalate hlines, List.map_map, List.length_map,
      Nat.add_comm]
    congr 2
    exact List.map_congr_left fun e _ => count_reportLine e

/-- Where no symbol has a line feed in it, the lines are those of the symbols. -/
theorem lines_report (h : ∀ s ∈ a.symbols, '\n' ∉ s.toList) :
    lines a.report.toList = a.weights.entries.map reportLine := by
  have hlast (l) (hl : l ∈ a.weights.entries.map reportLine) :=
    exists_getLast?_of_mem_lines hl
  rw [toList_report]
  refine lines_intercalate (fun l hl => ?_) (fun l hl => ?_) fun l hl => ?_
  · rintro rfl
    obtain ⟨c, hc, -⟩ := hlast _ hl
    cases hc
  · obtain ⟨e, he, rfl⟩ := List.mem_map.1 hl
    rw [← List.count_eq_zero, count_reportLine, List.count_eq_zero]
    exact h e.1 (List.mem_map_of_mem he)
  · obtain ⟨c, hc, hblank⟩ := hlast l hl
    rw [hc]
    rintro ⟨⟩
    exact absurd hblank (by decide)

/-- Such a report is read back. -/
theorem readReport?_report (h : ∀ s ∈ a.symbols, '\n' ∉ s.toList) :
    readReport? a.report = some (a.weights.entries.map fun e => (e.1, e.2.normalize)) := by
  rw [readReport?, lines_report h, List.mapM_map]
  exact (congrArg (List.mapM · a.weights.entries) (funext readLine?_reportLine)).trans
    List.mapM_pure

/-- **A report can be read back as long as no symbol has a line feed in it.**

* It has one line for each symbol and one more for each line feed in a symbol, so a line for each
  symbol and no other exactly if there is none.
* Then the lines are those of the symbols in their order. The last blank of each parts the symbol
  from the weight, which is read as the same number.
* Allocations with the same report have the same symbols with weights of the same value.
* What a strategy evaluates to can be read back if no string node that the evaluation comes to has a
  line feed in its text, for the symbols are such texts. -/
theorem report_read_back (a : Allocation) :
    ((lines a.report.toList).length =
        a.size + (a.symbols.map fun s => s.toList.count '\n').sum ∧
      ((lines a.report.toList).length = a.size ↔ ∀ s ∈ a.symbols, '\n' ∉ s.toList)) ∧
    ((∀ s ∈ a.symbols, '\n' ∉ s.toList) →
      List.Forall₂ (fun line (e : String × Decimal) =>
          cutAtLastBlank? line = some (e.1.toList, e.2.renderShort.toList) ∧
          ∃ d, readLine? line = some (e.1, d) ∧ d.sameValue e.2 = true)
        (lines a.report.toList) a.weights.entries ∧
      readReport? a.report = some (a.weights.entries.map fun e => (e.1, e.2.normalize)) ∧
      ∀ b : Allocation, (∀ s ∈ b.symbols, '\n' ∉ s.toList) → a.report = b.report →
        a.weights.entries.map (fun e => (e.1, e.2.toRat)) =
          b.weights.entries.map fun e => (e.1, e.2.toRat)) ∧
    ∀ (n : Node) (setting : Setting) (context : Context),
      (evaluate n setting context).result = .ok a →
      (∀ s, (n.history setting context).Text s → '\n' ∉ s.toList) →
      (lines a.report.toList).length = a.size ∧
        readReport? a.report = some (a.weights.entries.map fun e => (e.1, e.2.normalize)) := by
  have hcount : (lines a.report.toList).length = a.size ↔ ∀ s ∈ a.symbols, '\n' ∉ s.toList := by
    rw [length_lines_report, Nat.add_eq_left, List.sum_eq_zero_iff, List.forall_mem_map]
    exact forall₂_congr fun s _ => List.count_eq_zero
  refine ⟨⟨length_lines_report a, hcount⟩,
    fun ha => ⟨?_, readReport?_report ha, fun b hb hreport => ?_⟩,
    fun n setting context ha hplain => ?_⟩
  · rw [lines_report ha, List.forall₂_map_left_iff]
    exact List.forall₂_same.2 fun e _ => ⟨cutAtLastBlank?_reportLine e, _, readLine?_reportLine e,
      by simp [Decimal.sameValue]⟩
  · have hread := (readReport?_report ha).symm.trans (hreport ▸ readReport?_report hb)
    have hvalues := congrArg (List.map fun e : String × Decimal => (e.1, e.2.toRat))
      (Option.some.inj hread)
    simpa [List.map_map, Function.comp_def] using hvalues
  · have hsymbols : ∀ s ∈ a.symbols, '\n' ∉ s.toList := fun s hs =>
      hplain s (symbol_of_evaluate ha hs).1
    exact ⟨hcount.2 hsymbols, readReport?_report hsymbols⟩

/-- A symbol with a blank in it, and a weight with and without a zero at the end of its fraction. -/
theorem report_read_back_blank :
    ∃ a b : Allocation, a.weights ≠ b.weights ∧ a.report = "A B 0.25\nC 0.75" ∧
      (lines a.report.toList).length = a.size ∧
      (∃ d e, readReport? a.report = some [("A B", d), ("C", e)]) ∧
      a.weights.entries.map (fun e => (e.1, e.2.toRat)) =
        b.weights.entries.map (fun e => (e.1, e.2.toRat)) ∧
      let n := Node.list .plain [.atom (.symbol "asset") 0, .atom (.string "A B") 0] 0
      ∃ c d, (evaluate n { feed := fun r => .error ⟨r.symbol, r.metric, "closed"⟩ } .fresh).result =
        .ok c ∧ readReport? c.report = some [("A B", d)] := by
  let a : Allocation :=
    ⟨⟨[("A B", ⟨25, 2, by decide, by decide⟩), ("C", ⟨75, 2, by decide, by decide⟩)],
      by decide⟩, .empty⟩
  let b : Allocation :=
    ⟨⟨[("A B", ⟨250, 3, by decide, by decide⟩), ("C", ⟨75, 2, by decide, by decide⟩)],
      by decide⟩, .empty⟩
  have ha : ∀ s ∈ a.symbols, '\n' ∉ s.toList := by decide
  have hb : ∀ s ∈ b.symbols, '\n' ∉ s.toList := by decide
  obtain ⟨⟨-, hcount⟩, hread, -⟩ := report_read_back a
  obtain ⟨-, hread, hsame⟩ := hread ha
  refine ⟨a, b, by decide, by decide +kernel, hcount.2 ha, ⟨_, _, hread⟩,
    hsame b hb (by decide +kernel), ?_⟩
  intro n
  let setting : Setting := { feed := fun r => .error ⟨r.symbol, r.metric, "closed"⟩ }
  have hevents : (n.evalStrategy setting (.initial .fresh)).events =
      [.begun [], .begun [1], .found [1] (.string "A B"),
        .found [] (.allocation (.single "A B"))] := rfl
  have htexts : ∀ s, (n.history setting .fresh).Text s → '\n' ∉ s.toList := by
    rintro s ⟨p, path, hbegun, hpath⟩
    change Event.begun path ∈ (n.evalStrategy setting (.initial .fresh)).events at hbegun
    have hcases : path = [] ∨ path = [1] := by simpa [hevents] using hbegun
    obtain rfl | rfl := hcases
    · cases hpath
    · cases hpath
      decide
  have hresult : (evaluate n setting .fresh).result = .ok (.single "A B") := rfl
  obtain ⟨-, -, hevaluated⟩ := report_read_back (.single "A B")
  exact ⟨_, _, hresult, (hevaluated n setting .fresh hresult htexts).2⟩

/-- **A symbol with a line feed in it starts a line of its own**, and another strategy has the same
report with other symbols. -/
theorem exists_same_report :
    ∃ n n' a b, Node.ofSource "(weight-specified 0.5 \"A\" 0.5 (asset \"B 0.5\\nC\"))" = .ok n ∧
      Node.ofSource "(weight-specified 0.5 (asset \"A 0.5\\nB\") 0.5 \"C\")" = .ok n' ∧
      let closed : Feed := fun r => .error ⟨r.symbol, r.metric, "closed"⟩
      (evaluate n { feed := closed } .fresh).result = .ok a ∧
        (evaluate n' { feed := closed } .fresh).result = .ok b ∧
        a.report = b.report ∧ a.symbols ≠ b.symbols ∧
        a.size = 2 ∧ (lines a.report.toList).length = 3 := by
  have hrun : (match Node.ofSource "(weight-specified 0.5 \"A\" 0.5 (asset \"B 0.5\\nC\"))",
      Node.ofSource "(weight-specified 0.5 (asset \"A 0.5\\nB\") 0.5 \"C\")" with
      | .ok n, .ok n' =>
        match (evaluate n { feed := fun r => .error ⟨r.symbol, r.metric, "closed"⟩ } .fresh).result,
          (evaluate n' { feed := fun r => .error ⟨r.symbol, r.metric, "closed"⟩ } .fresh).result
        with
        | .ok a, .ok b => decide (a.report = b.report ∧ a.symbols ≠ b.symbols ∧
            a.size = 2 ∧ (lines a.report.toList).length = 3)
        | _, _ => false
      | _, _ => false) = true := by decide +kernel
  split at hrun
  · rename_i n n' hn hn'
    split at hrun
    · rename_i a b ha hb
      exact ⟨n, n', a, b, hn, hn', ha, hb, of_decide_eq_true hrun⟩
    · cases hrun
  · cases hrun

end Allocation

end AllocScript
