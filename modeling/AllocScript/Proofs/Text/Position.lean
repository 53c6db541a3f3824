import Mathlib
import AllocScript.Proofs.Token.Scan

/-!
# Lines and columns

A byte offset at which a character begins, or the text ends, has a place. The place says how many
line feeds there are before it and how many characters behind the last of them (`placeOf_eq`), so
later offsets have later places (`placeOf_lt`).

`Line lead line ending rest` cuts one line out of a text, with what ends it: a line feed, a carriage
return and a line feed, or the end of the text. `sourceLine` gives that line, without its ending
(`sourceLine_eq`). A place that does not part a carriage return from its line feed lies within its
line or directly behind it (`exists_line_of_not_parted`).
-/

namespace AllocScript

/-- A character of the text begins at byte `p`, or the text ends there. -/
def IsBoundary (source : List Char) (p : Nat) : Prop :=
  ∃ before, before <+: source ∧ byteLength before = p

/-- The characters are whole lines with their line feeds. -/
def WholeLines (lead : List Char) : Prop := lead = [] ∨ lead.getLast? = some '\n'

/-! ## Places -/

theorem takeBytesFrom?_append (taken before after : List Char) :
    takeBytesFrom? taken (byteLength before) (before ++ after) = some (taken.reverse ++ before) := by
  induction before generalizing taken with
  | nil => cases after <;> simp [takeBytesFrom?]
  | cons c before ih =>
    have hpos := c.utf8Size_pos
    rw [List.cons_append, takeBytesFrom?, byteLength_cons, if_neg (by omega), if_neg (by omega),
      Nat.add_sub_cancel_left, ih]
    simp

/-- The place of an offset is that behind the characters before it. -/
theorem placeOf_append (before after : List Char) :
    placeOf (before ++ after) (byteLength before) = advance 1 1 before := by
  rw [placeOf, takeBytes?, takeBytesFrom?_append]
  rfl

theorem advance_append (line column : Nat) (cs ds : List Char) :
    advance line column (cs ++ ds) =
      advance (advance line column cs).1 (advance line column cs).2 ds := by
  induction cs generalizing line column with
  | nil => rfl
  | cons c cs ih =>
    simp only [List.cons_append, advance]
    split
    · exact ih _ _
    · exact ih _ _

theorem advance_of_notMem {cs : List Char} (h : '\n' ∉ cs) (line column : Nat) :
    advance line column cs = (line, column + cs.length) := by
  induction cs generalizing column with
  | nil => rfl
  | cons c cs ih =>
    obtain ⟨hc, hcs⟩ := not_or.1 (mt List.mem_cons.2 h)
    rw [advance, if_neg (Ne.symm hc), ih hcs, List.length_cons]
    congr 1
    omega

theorem advance_of_wholeLines {lead : List Char} (h : WholeLines lead) (line : Nat) :
    advance line 1 lead = (line + lead.count '\n', 1) := by
  rcases h with rfl | h
  · rfl
  · obtain ⟨front, rfl⟩ := List.getLast?_eq_some_iff.1 h
    clear h
    have hline : ∀ line column, (advance line column front).1 = line + front.count '\n' := by
      intro line column
      induction front generalizing line column with
      | nil => rfl
      | cons c front ih =>
        rw [advance, List.count_cons]
        by_cases hc : c = '\n'
        · rw [if_pos hc, ih, if_pos (beq_iff_eq.2 hc)]
          omega
        · rw [if_neg hc, ih, if_neg (by simpa using hc)]
          rfl
    rw [advance_append, advance, if_pos rfl, advance, hline, List.count_append,
      List.count_singleton_self, Nat.add_assoc]

/-- Whatever is read is whole lines and the beginning of one more. -/
theorem exists_wholeLines (before : List Char) :
    ∃ lead line, before = lead ++ line ∧ WholeLines lead ∧ '\n' ∉ line := by
  induction before using List.reverseRecOn with
  | nil => exact ⟨[], [], rfl, .inl rfl, List.not_mem_nil⟩
  | append_singleton cs c ih =>
    by_cases hc : c = '\n'
    · exact ⟨cs ++ [c], [], (List.append_nil _).symm, .inr (by simp [hc]), List.not_mem_nil⟩
    · obtain ⟨lead, line, rfl, hlead, hline⟩ := ih
      exact ⟨lead, line ++ [c], List.append_assoc .., hlead, by simp [hline, Ne.symm hc]⟩

/-- **A place counts the lines and the characters before it.** -/
theorem placeOf_eq {lead line : List Char} (hlead : WholeLines lead) (hline : '\n' ∉ line)
    (after : List Char) :
    placeOf (lead ++ line ++ after) (byteLength (lead ++ line)) =
      (lead.count '\n' + 1, line.length + 1) := by
  rw [placeOf_append, advance_append, advance_of_wholeLines hlead, advance_of_notMem hline]
  congr 1 <;> omega

theorem advance_lt {cs : List Char} (hne : cs ≠ []) (line column : Nat) :
    toLex (line, column) < toLex (advance line column cs) := by
  induction cs generalizing line column with
  | nil => exact absurd rfl hne
  | cons c cs ih =>
    have hstep : toLex (line, column) <
        toLex (if c = '\n' then (line + 1, 1) else (line, column + 1)) := by
      split
      · exact Prod.Lex.toLex_lt_toLex.2 (.inl (Nat.lt_succ_self line))
      · exact Prod.Lex.toLex_lt_toLex.2 (.inr ⟨rfl, Nat.lt_succ_self column⟩)
    rw [advance]
    by_cases hcs : cs = []
    · subst hcs
      exact hstep
    · split at hstep
      · rename_i hc
        rw [if_pos hc]
        exact hstep.trans (ih hcs _ _)
      · rename_i hc
        rw [if_neg hc]
        exact hstep.trans (ih hcs _ _)

/-- **Later offsets have later places**, by the line first and then by the column. -/
theorem placeOf_lt {source : List Char} {p q : Nat} (hp : IsBoundary source p)
    (hq : IsBoundary source q) (hlt : p < q) :
    toLex (placeOf source p) < toLex (placeOf source q) := by
  obtain ⟨before, hbefore, rfl⟩ := hp
  obtain ⟨more, hmore, rfl⟩ := hq
  obtain ⟨after, rfl⟩ := hbefore
  obtain ⟨rest, hrest⟩ := hmore
  rw [placeOf_append, ← hrest, placeOf_append]
  rcases List.prefix_or_prefix_of_prefix ⟨after, rfl⟩ ⟨rest, hrest⟩ with ⟨cs, rfl⟩ | ⟨cs, rfl⟩
  · have hne : cs ≠ [] := by
      rintro rfl
      simp at hlt
    rw [advance_append]
    exact advance_lt hne _ _
  · rw [byteLength_append] at hlt
    omega

theorem placeOf_injective {source : List Char} {p q : Nat} (hp : IsBoundary source p)
    (hq : IsBoundary source q) (h : placeOf source p = placeOf source q) : p = q := by
  rcases Nat.lt_trichotomy p q with hlt | heq | hlt
  · exact absurd (placeOf_lt hp hq hlt) (by rw [h]; exact lt_irrefl _)
  · exact heq
  · exact absurd (placeOf_lt hq hp hlt) (by rw [h]; exact lt_irrefl _)

/-! ## Lines -/

/-- How a line ends: with a line feed, with a carriage return and a line feed, or with the text. -/
inductive LineEnding (line : List Char) : List Char → List Char → Prop where
  | lineFeed (rest : List Char) : line.getLast? ≠ some '\r' → LineEnding line ['\n'] rest
  | both (rest : List Char) : LineEnding line ['\r', '\n'] rest
  | none : LineEnding line [] []

/-- Behind whole lines there is a line of the text, and behind its ending the rest. -/
structure Line (source lead line ending rest : List Char) : Prop where
  text : source = lead ++ (line ++ (ending ++ rest))
  lead : WholeLines lead
  plain : '\n' ∉ line
  ending : LineEnding line ending rest

theorem linesFrom_done (done : List (List Char)) (line cs : List Char) :
    linesFrom done line cs = done.reverse ++ linesFrom [] line cs := by
  induction cs generalizing done line with
  | nil =>
    simp only [linesFrom]
    split <;> simp
  | cons c cs ih =>
    simp only [linesFrom]
    split
    · rw [ih, ih [_]]
      simp
    · exact ih done _

/-- A line feed ends the line that has begun. -/
theorem linesFrom_lineFeed {cs : List Char} (h : '\n' ∉ cs) (line rest : List Char) :
    linesFrom [] line (cs ++ '\n' :: rest) =
      (dropReturn (cs.reverse ++ line)).reverse :: lines rest := by
  induction cs generalizing line with
  | nil =>
    rw [List.nil_append, linesFrom, if_pos rfl, linesFrom_done]
    rfl
  | cons c cs ih =>
    obtain ⟨hc, hcs⟩ := not_or.1 (mt List.mem_cons.2 h)
    rw [List.cons_append, linesFrom, if_neg (Ne.symm hc), ih hcs, List.reverse_cons,
      List.append_assoc]
    rfl

theorem linesFrom_of_notMem {cs : List Char} (h : '\n' ∉ cs) (line : List Char) :
    linesFrom [] line cs =
      if (cs.reverse ++ line).isEmpty then [] else [(cs.reverse ++ line).reverse] := by
  induction cs generalizing line with
  | nil =>
    rw [linesFrom]
    cases line <;> rfl
  | cons c cs ih =>
    obtain ⟨hc, hcs⟩ := not_or.1 (mt List.mem_cons.2 h)
    rw [linesFrom, if_neg (Ne.symm hc), ih hcs, List.reverse_cons, List.append_assoc]
    rfl

theorem lines_lineFeed {line : List Char} (h : '\n' ∉ line) (rest : List Char) :
    lines (line ++ '\n' :: rest) = (dropReturn line.reverse).reverse :: lines rest := by
  rw [lines, linesFrom_lineFeed h, List.append_nil]

/-- A text without line feeds is one line. -/
theorem lines_of_notMem {line : List Char} (h : '\n' ∉ line) (hne : line ≠ []) :
    lines line = [line] := by
  rw [lines, linesFrom_of_notMem h, List.append_nil, List.reverse_reverse,
    if_neg (by simpa using hne)]

theorem dropReturn_reverse {line : List Char} (h : line.getLast? ≠ some '\r') :
    (dropReturn line.reverse).reverse = line := by
  have hdrop : dropReturn line.reverse = line.reverse := by
    unfold dropReturn
    split
    · rename_i front hreverse
      refine absurd ?_ h
      rw [← List.head?_reverse, hreverse]
      rfl
    · rfl
  rw [hdrop, List.reverse_reverse]

theorem exists_linesFrom_append {lead : List Char} (h : lead.getLast? = some '\n')
    (line : List Char) : ∃ ls, ls.length = lead.count '\n' ∧
      ∀ rest, linesFrom [] line (lead ++ rest) = ls ++ lines rest := by
  induction lead generalizing line with
  | nil => cases h
  | cons c lead ih =>
    by_cases hc : c = '\n'
    · have hfirst : ∀ rest, linesFrom [] line (c :: lead ++ rest) =
          (dropReturn line).reverse :: lines (lead ++ rest) := by
        intro rest
        rw [List.cons_append, linesFrom, if_pos hc, linesFrom_done]
        rfl
      rw [hc, List.count_cons_self]
      by_cases hlead : lead = []
      · refine ⟨[(dropReturn line).reverse], by simp [hlead], fun rest => ?_⟩
        rw [← hc, hfirst, hlead]
        rfl
      · rw [List.getLast?_cons, List.getLast?_eq_some_getLast hlead] at h
        obtain ⟨ls, hlength, hls⟩ := ih (by rwa [List.getLast?_eq_some_getLast hlead]) []
        refine ⟨(dropReturn line).reverse :: ls, by simp [hlength], fun rest => ?_⟩
        rw [← hc, hfirst, lines, hls]
        rfl
    · have hlead : lead ≠ [] := by
        rintro rfl
        exact hc (by simpa using h)
      rw [List.getLast?_cons, List.getLast?_eq_some_getLast hlead] at h
      obtain ⟨ls, hlength, hls⟩ := ih (by rwa [List.getLast?_eq_some_getLast hlead]) (c :: line)
      refine ⟨ls, by rw [hlength, List.count_cons_of_ne (by simpa using hc)], fun rest => ?_⟩
      rw [List.cons_append, linesFrom, if_neg hc, hls]

/-- Whole lines stand before all others, as many as there are line feeds. -/
theorem exists_lines_append {lead : List Char} (h : WholeLines lead) :
    ∃ ls, ls.length = lead.count '\n' ∧ ∀ rest, lines (lead ++ rest) = ls ++ lines rest := by
  rcases h with rfl | h
  · exact ⟨[], rfl, fun rest => rfl⟩
  · exact exists_linesFrom_append h []

/-- A text that does not end in a line feed has one line more than line feeds. -/
theorem length_lines {cs : List Char} {c : Char} (hlast : cs.getLast? = some c) (hc : c ≠ '\n') :
    (lines cs).length = cs.count '\n' + 1 := by
  obtain ⟨lead, line, rfl, hlead, hline⟩ := exists_wholeLines cs
  have hne : line ≠ [] := by
    rintro rfl
    rcases hlead with rfl | hlead
    · cases hlast
    · rw [List.append_nil, hlead] at hlast
      exact hc (Option.some.inj hlast).symm
  obtain ⟨ls, hlength, hls⟩ := exists_lines_append hlead
  rw [hls, lines_of_notMem hline hne, List.length_append, List.count_append,
    List.count_eq_zero.2 hline, hlength]
  rfl

/-- Lines with line feeds between them are cut at these again. -/
theorem lines_intercalate {ls : List (List Char)} (hne : ∀ l ∈ ls, l ≠ [])
    (hplain : ∀ l ∈ ls, '\n' ∉ l) (hreturn : ∀ l ∈ ls, l.getLast? ≠ some '\r') :
    lines (['\n'].intercalate ls) = ls := by
  induction ls with
  | nil => rfl
  | cons l ls ih =>
    obtain ⟨hl, hls⟩ := List.forall_mem_cons.1 hplain
    obtain ⟨hend, hends⟩ := List.forall_mem_cons.1 hreturn
    obtain ⟨hfirst, hrest⟩ := List.forall_mem_cons.1 hne
    cases ls with
    | nil => rw [List.intercalate_singleton, lines_of_notMem hl hfirst]
    | cons l' ls =>
      rw [List.intercalate_cons_cons, List.append_assoc, List.singleton_append, lines_lineFeed hl,
        dropReturn_reverse hend, ih hrest hls hends]

/-- The carriage return in front of a line feed is no part of the line. -/
theorem head?_lines {line ending rest : List Char} (hplain : '\n' ∉ line)
    (hending : LineEnding line ending rest) :
    (lines (line ++ (ending ++ rest)))[0]?.getD [] = line := by
  cases hending with
  | lineFeed _ hreturn =>
    rw [List.singleton_append, lines_lineFeed hplain, dropReturn_reverse hreturn]
    rfl
  | both =>
    have hmore : '\n' ∉ line ++ ['\r'] := by simp [hplain]
    rw [show line ++ (['\r', '\n'] ++ rest) = (line ++ ['\r']) ++ '\n' :: rest by simp,
      lines_lineFeed hmore, List.reverse_append]
    show line.reverse.reverse = line
    exact List.reverse_reverse line
  | none =>
    rw [List.append_nil, List.append_nil]
    cases line with
    | nil => rfl
    | cons c line =>
      rw [lines_of_notMem hplain (List.cons_ne_nil c line)]
      rfl

/-- **The line of a place** is the one that its number counts up to. -/
theorem sourceLine_eq {source lead line ending rest : List Char}
    (h : Line source lead line ending rest) :
    sourceLine source (lead.count '\n' + 1) = line := by
  obtain ⟨ls, hlength, hls⟩ := exists_lines_append h.lead
  rw [h.text, sourceLine, hls, Nat.add_sub_cancel, ← hlength,
    List.getElem?_append_right (Nat.le_refl _), Nat.sub_self]
  exact head?_lines h.plain h.ending

/-- Every text begins with a line. -/
theorem exists_lineEnding (cs : List Char) :
    ∃ line ending rest, cs = line ++ (ending ++ rest) ∧ '\n' ∉ line ∧
      LineEnding line ending rest := by
  induction cs with
  | nil => exact ⟨[], [], [], rfl, List.not_mem_nil, .none⟩
  | cons c cs ih =>
    by_cases hc : c = '\n'
    · exact ⟨[], ['\n'], cs, by rw [hc]; rfl, List.not_mem_nil, .lineFeed cs nofun⟩
    · obtain ⟨line, ending, rest, rfl, hline, hending⟩ := ih
      have hplain : '\n' ∉ c :: line := by simp [hline, Ne.symm hc]
      cases hending with
      | none => exact ⟨c :: line, [], [], rfl, hplain, .none⟩
      | both => exact ⟨c :: line, ['\r', '\n'], rest, rfl, hplain, .both rest⟩
      | lineFeed _ hreturn =>
        by_cases hlast : (c :: line).getLast? = some '\r'
        · -- The line was empty behind a carriage return, which belongs to the ending now.
          have hnil : line = [] := by
            by_contra hne
            rw [List.getLast?_cons, List.getLast?_eq_some_getLast hne] at hlast
            rw [List.getLast?_eq_some_getLast hne] at hreturn
            exact hreturn hlast
          subst hnil
          obtain rfl : c = '\r' := by simpa using hlast
          exact ⟨[], ['\r', '\n'], rest, rfl, List.not_mem_nil, .both rest⟩
        · exact ⟨c :: line, ['\n'], rest, rfl, hplain, .lineFeed rest hlast⟩

/-- What has been read of a line is the beginning of it, unless its ending is parted. -/
theorem LineEnding.append_of_not_parted {line ending rest front after : List Char}
    (h : LineEnding line ending rest) (htext : front ++ after = line ++ (ending ++ rest))
    (hfront : '\n' ∉ front)
    (hparted : ¬ (front.getLast? = some '\r' ∧ after.head? = some '\n')) :
    ∃ more, line = front ++ more := by
  rcases List.append_eq_append_iff.1 htext with ⟨more, hline, -⟩ | ⟨more, hmore, htail⟩
  · exact ⟨more, hline⟩
  · -- Otherwise it goes on behind the line, where only a carriage return is no line feed.
    have hplain : '\n' ∉ more := fun hmem => hfront (by rw [hmore]; simp [hmem])
    cases more with
    | nil => exact ⟨[], by simpa using hmore.symm⟩
    | cons d more =>
      cases h with
      | none => simp at htail
      | lineFeed =>
        obtain ⟨rfl, -⟩ : '\n' = d ∧ rest = more ++ after := by simpa using htail
        simp at hplain
      | both =>
        obtain ⟨rfl, hrest⟩ : '\r' = d ∧ '\n' :: rest = more ++ after := by simpa using htail
        cases more with
        | nil =>
          rw [List.nil_append] at hrest
          exact absurd ⟨by simp [hmore], by simp [← hrest]⟩ hparted
        | cons d more =>
          obtain ⟨rfl, -⟩ : '\n' = d ∧ rest = more ++ after := by simpa using hrest
          simp at hplain

/-- **A place lies within its line or directly behind it**, unless it parts the ending. -/
theorem exists_line_of_not_parted {before after : List Char}
    (h : ¬ (before.getLast? = some '\r' ∧ after.head? = some '\n')) :
    ∃ lead line ending rest column, Line (before ++ after) lead line ending rest ∧
      column ≤ line.length ∧ before = lead ++ line.take column ∧
      placeOf (before ++ after) (byteLength before) = (lead.count '\n' + 1, column + 1) := by
  obtain ⟨lead, front, rfl, hlead, hfront⟩ := exists_wholeLines before
  obtain ⟨line, ending, rest, htext, hline, hending⟩ := exists_lineEnding (front ++ after)
  have hparted : ¬ (front.getLast? = some '\r' ∧ after.head? = some '\n') := by
    rintro ⟨hlast, hhead⟩
    refine h ⟨?_, hhead⟩
    rw [List.getLast?_append, hlast]
    rfl
  obtain ⟨more, rfl⟩ := hending.append_of_not_parted htext hfront hparted
  refine ⟨lead, front ++ more, ending, rest, front.length,
    ⟨by rw [List.append_assoc, htext], hlead, hline, hending⟩, by simp, by simp, ?_⟩
  exact placeOf_eq hlead hfront after

end AllocScript
