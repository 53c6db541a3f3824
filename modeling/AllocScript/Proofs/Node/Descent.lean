import Mathlib
import AllocScript.Proofs.Node.Completion

/-!
# Recursive descent

`Descent.parse` reads an expression by recursive descent: `Descent.expr` takes the next token and,
for an opening bracket, lets `Descent.items` read expressions up to the closing bracket. Only `expr`
can come to the end of the tokens without a reason to name, and it then says `Halt.endOfInput`.

`Descent.parse` is the parser (`Descent.parse_eq`): the calls that are under way are the open lists.
So `expr` never comes to the end: `items` and `parse` look at the next token before they call it.
-/

namespace AllocScript

namespace Descent

open AllocScript.Parser

/-- Why the reading ends before the expression does. -/
inductive Halt where
  /-- An expression was asked for behind the last token. -/
  | endOfInput
  | refusal (e : GrammarError)

def Halt.detail : Halt → String
  | endOfInput => "unexpected end of input"
  | refusal e => e.problem.detail

/-- The tokens behind a part that has been read are fewer. -/
abbrev Rest (ts : List Token) := { rest : List Token // rest.length < ts.length }

def Rest.within {ts us : List Token} (rest : Rest us) (h : us.length ≤ ts.length) : Rest ts :=
  ⟨rest.1, Nat.lt_of_lt_of_le rest.2 h⟩

/-- The next token with a meaning. -/
def advance : (ts : List Token) → Option (Token × Rest ts)
  | [] => none
  | t :: ts =>
    if t.kind.isDiscarded then (advance ts).map fun (t, rest) => (t, rest.within (by simp))
    else some (t, ⟨ts, by simp⟩)

mutual

/-- Reads an expression inside `depth` lists. The last token ends at byte `stop`. -/
def expr (stop depth : Nat) (ts : List Token) : Except Halt (Node × Rest ts) :=
  match advance ts with
  | none => .error .endOfInput
  | some (t, rest) =>
    match t.kind with
    | .opening bracket =>
      if maxDepth < depth + 1 then .error (.refusal ⟨.nestedTooDeep, t.position⟩)
      else
        (items stop (depth + 1) ⟨bracket, t, []⟩ rest.1).map fun (node, behind) =>
          (node, behind.within (Nat.le_of_lt rest.2))
    | .closing _ | .blank | .comment | .comma =>
      .error (.refusal ⟨.unexpectedCloser t.lexeme, t.position⟩)
    | .string => .ok (.atom (.string (Token.unescape t.lexeme)) t.position, rest)
    | .float | .integer => ((readNumber t).mapError .refusal).map fun node => (node, rest)
    | .keyword | .symbol => .ok (.atom (.symbol t.lexeme) t.position, rest)
termination_by (ts.length, 0)
decreasing_by exact Prod.Lex.left _ _ rest.2

/-- Reads the other children of a list and its closing bracket. -/
def items (stop depth : Nat) (frame : Frame) (ts : List Token) : Except Halt (Node × Rest ts) :=
  match advance ts with
  | none => .error (.refusal ⟨.unclosed frame.bracket frame.opener, stop⟩)
  | some (t, rest) =>
    if t.kind = .closing frame.bracket then
      ((closeFrame frame).mapError .refusal).map fun node => (node, rest)
    else if t.kind.isCloser then
      .error (.refusal ⟨.wrongCloser frame.bracket frame.opener t.lexeme, t.position⟩)
    else
      expr stop depth ts >>= fun (child, behind) =>
        (items stop depth { frame with children := child :: frame.children } behind.1).map
          fun (node, rest) => (node, rest.within (Nat.le_of_lt behind.2))
termination_by (ts.length, 1)
decreasing_by
  · exact Prod.Lex.right _ (by decide)
  · exact Prod.Lex.left _ _ behind.2

end

/-- Reads exactly one expression. -/
def parse (ts : List Token) : Except Halt Node :=
  if (advance ts).isNone then .error (.refusal ⟨.emptyInput, 0⟩)
  else
    expr ((ts.getLast?.map Token.stop).getD 0) 0 ts >>= fun (node, rest) =>
      match advance rest.1 with
      | none => .ok node
      | some (t, _) => .error (.refusal ⟨.trailingInput t.lexeme, t.position⟩)

/-! ## The calls under way are the open lists -/

/-- Tokens without a meaning make no difference. -/
theorem run_of_advance_none {ts : List Token} (h : advance ts = none) (state : State) :
    run state ts = .ok state := by
  induction ts with
  | nil => rfl
  | cons t ts ih =>
    rw [advance] at h
    split at h
    · rename_i ht
      rw [run, step.eq_def, if_pos ht]
      exact ih (by simpa using h)
    · cases h

theorem run_of_advance_some {ts : List Token} {t : Token} {rest : Rest ts}
    (h : advance ts = some (t, rest)) (state : State) :
    t.kind.isDiscarded = false ∧
      run state ts = step state t >>= fun state => run state rest.1 := by
  induction ts with
  | nil => cases h
  | cons u ts ih =>
    rw [advance] at h
    split at h
    · rename_i hu
      cases hadvance : advance ts with
      | none => simp [hadvance] at h
      | some next =>
        simp only [hadvance, Option.map_some, Option.some.injEq, Prod.mk.injEq] at h
        obtain ⟨rfl, rfl⟩ := h
        rw [run, step.eq_def, if_pos hu]
        exact ih hadvance
    · rename_i hu
      cases h
      exact ⟨by simpa using hu, rfl⟩

/-- What the parser makes of the other tokens. -/
def outcome (stop : Nat) (state : State) (ts : List Token) : Except Halt Node :=
  (run state ts >>= finish stop).mapError .refusal

variable {stop : Nat} {ts : List Token}

theorem outcome_of_advance_none (h : advance ts = none) (state : State) :
    outcome stop state ts = (finish stop state).mapError .refusal := by
  rw [outcome, run_of_advance_none h]
  rfl

/-- The token is taken, or the reading ends there. -/
theorem outcome_of_advance_some {t : Token} {rest : Rest ts} (h : advance ts = some (t, rest))
    (frames : List Frame) :
    outcome stop (.reading frames) ts =
      (take frames t).mapError .refusal >>= fun state => outcome stop state rest.1 := by
  obtain ⟨hmeaning, hrun⟩ := run_of_advance_some h (.reading frames)
  have hstep : step (.reading frames) t = take frames t := by simp [step, hmeaning]
  rw [outcome, hrun, hstep]
  cases take frames t <;> rfl

/-- The next token is none that closes an open list. -/
def Begins (frames : List Frame) (ts : List Token) : Prop :=
  ∃ t rest, advance ts = some (t, rest) ∧ (frames ≠ [] → t.kind.isCloser = false)

mutual

/-- An expression that is read by descent becomes a child of the innermost open list. -/
theorem outcome_expr (frames : List Frame) (ts : List Token) (h : Begins frames ts) :
    outcome stop (.reading frames) ts =
      expr stop frames.length ts >>= fun (node, rest) =>
        outcome stop (attach node frames) rest.1 := by
  obtain ⟨t, rest, hadvance, hopen⟩ := h
  rw [outcome_of_advance_some hadvance, expr, hadvance]
  have hmeaning := (run_of_advance_some hadvance (.reading [])).1
  unfold take
  cases hkind : t.kind with
  | opening bracket =>
    simp only [hkind]
    by_cases hroom : maxDepth ≤ frames.length
    · rw [if_pos hroom, if_pos (by omega)]
      rfl
    · rw [if_neg hroom, if_neg (by omega)]
      have hrest := outcome_items ⟨bracket, t, []⟩ frames rest.1
      change outcome stop _ rest.1 = _
      rw [hrest]
      cases items stop (frames.length + 1) ⟨bracket, t, []⟩ rest.1 <;> rfl
  | closing bracket =>
    cases frames with
    | nil => simp only [hkind]; rfl
    | cons frame frames => simp [hkind, TokenKind.isCloser] at hopen
  | string | keyword | symbol => simp only [hkind]; rfl
  | float | integer =>
    simp only [hkind]
    cases readNumber t <;> rfl
  | blank | comment | comma => simp [hkind, TokenKind.isDiscarded] at hmeaning
termination_by (ts.length, 0)
decreasing_by exact Prod.Lex.left _ _ rest.2

/-- So does a list, whose closing bracket is the next one that closes no list inside it. -/
theorem outcome_items (frame : Frame) (frames : List Frame) (ts : List Token) :
    outcome stop (.reading (frame :: frames)) ts =
      items stop (frames.length + 1) frame ts >>= fun (node, rest) =>
        outcome stop (attach node frames) rest.1 := by
  rw [items]
  cases hadvance : advance ts with
  | none => rw [outcome_of_advance_none hadvance]; rfl
  | some next =>
    obtain ⟨t, rest⟩ := next
    dsimp only
    by_cases hcloses : t.kind = .closing frame.bracket
    · rw [if_pos hcloses, outcome_of_advance_some hadvance]
      simp only [take, hcloses, if_true]
      cases closeFrame frame <;> rfl
    rw [if_neg hcloses]
    by_cases hcloser : t.kind.isCloser
    · rw [if_pos hcloser, outcome_of_advance_some hadvance]
      cases hkind : t.kind <;> simp only [hkind, TokenKind.isCloser, Bool.false_eq_true] at hcloser
      have hother : frame.bracket ≠ ‹Bracket› := by rintro rfl; exact hcloses hkind
      simp only [take, hkind, if_neg hother]
      rfl
    · have hbegins : Begins (frame :: frames) ts := ⟨t, rest, hadvance, by simpa using hcloser⟩
      rw [if_neg hcloser, outcome_expr (frame :: frames) ts hbegins, List.length_cons]
      cases expr stop (frames.length + 1) ts with
      | error => rfl
      | ok read =>
        obtain ⟨child, behind⟩ := read
        have hbehind := outcome_items { frame with children := child :: frame.children } frames
          behind.1
        change outcome stop (.reading _) behind.1 = _
        rw [hbehind]
        change _ = Except.map _ _ >>= _
        cases items stop (frames.length + 1) { frame with children := child :: frame.children }
          behind.1 <;> rfl
termination_by (ts.length, 1)
decreasing_by
  · exact Prod.Lex.right _ (by decide)
  · exact Prod.Lex.left _ _ behind.2

end

/-- **The parser is a recursive descent.** -/
theorem parse_eq (ts : List Token) : parse ts = (Node.ofTokens ts).mapError .refusal := by
  change _ = outcome _ (.reading []) ts
  rw [parse]
  cases hadvance : advance ts with
  | none =>
    rw [outcome_of_advance_none hadvance]
    rfl
  | some next =>
    rw [outcome_expr [] ts ⟨next.1, next.2, hadvance, by simp⟩]
    change expr _ _ ts >>= _ = expr _ _ ts >>= _
    congr 1
    funext ⟨node, rest⟩
    dsimp only
    cases hrest : advance rest.1 with
    | none => rw [outcome_of_advance_none hrest]; rfl
    | some next =>
      obtain ⟨hmeaning, hrun⟩ := run_of_advance_some hrest (.complete node)
      rw [attach, outcome, hrun, step, hmeaning]
      rfl

theorem parse_ne_endOfInput (ts : List Token) : parse ts ≠ .error .endOfInput := by
  rw [parse_eq]
  cases Node.ofTokens ts <;> simp [Except.mapError]

end Descent

/-! ## Messages -/

/-- A text begins as its first part does. -/
theorem begins_append {front text : String} (h : front.toList <+: text.toList) (more : String) :
    front.toList <+: (text ++ more).toList := by
  rw [String.toList_append]
  exact h.trans (List.prefix_append _ _)

theorem closerExpected_begins (bracket : Bracket) (opener : Token) :
    "expected '".toList <+: (closerExpected bracket opener).toList := by
  refine begins_append (begins_append (begins_append (begins_append (begins_append ?_ _) _) _) _) _
  exact List.prefix_rfl

/-- How the message of a grammatical problem may begin. -/
def GrammarProblem.fronts : List String :=
  ["empty", "unexpected '", "number", "maximum", "expected '", "map", "unexpected t"]

theorem GrammarProblem.exists_front (problem : GrammarProblem) :
    ∃ front ∈ fronts, front.toList <+: problem.detail.toList := by
  cases problem with
  | emptyInput => exact ⟨"empty", by simp [fronts], by decide⟩
  | unexpectedCloser lexeme =>
    exact ⟨"unexpected '", by simp [fronts], begins_append (begins_append List.prefix_rfl _) _⟩
  | numberOutOfRange lexeme => exact ⟨"number", by simp [fronts], begins_append (by decide) _⟩
  | nestedTooDeep =>
    exact ⟨"maximum", by simp [fronts], begins_append (begins_append (by decide) _) _⟩
  | unclosed bracket opener =>
    exact ⟨"expected '", by simp [fronts],
      begins_append (closerExpected_begins bracket opener) _⟩
  | wrongCloser bracket opener lexeme =>
    have hfront := closerExpected_begins bracket opener
    exact ⟨"expected '", by simp [fronts],
      begins_append (begins_append (begins_append hfront _) _) _⟩
  | oddMap count => exact ⟨"map", by simp [fronts], begins_append (begins_append (by decide) _) _⟩
  | trailingInput lexeme =>
    exact ⟨"unexpected t", by simp [fronts], begins_append (begins_append (by decide) _) _⟩

/-- No message says that an expression was asked for behind the last token. -/
theorem GrammarProblem.detail_ne_endOfInput (problem : GrammarProblem) :
    problem.detail ≠ Descent.Halt.endOfInput.detail := by
  intro h
  obtain ⟨front, hmem, hfront⟩ := problem.exists_front
  rw [h] at hfront
  revert front
  decide

/-! ## The first hopeless token -/

/-- **Tokens are refused where they become hopeless.** Either they lack an end and can be completed,
or there is a token before which they can be completed, and whatever follows it, the tokens are
refused with the same error. A recursive descent comes to the same results, and it never asks for an
expression behind the last token. -/
theorem Node.rejected_at_first_hopeless (tokens : List Token) :
    (∀ e, ofTokens tokens = .error e →
      ((e.problem = .emptyInput ∨ ∃ bracket opener, e.problem = .unclosed bracket opener) ∧
        Completable tokens) ∨
      ∃ k < tokens.length, Completable (tokens.take k) ∧ Hopeless (tokens.take (k + 1)) e) ∧
    Descent.parse tokens = (ofTokens tokens).mapError .refusal ∧
    Descent.parse tokens ≠ .error .endOfInput ∧
    ∀ e, ofTokens tokens = .error e → e.problem.detail ≠ Descent.Halt.endOfInput.detail :=
  ⟨fun _ h => cut_of_ofTokens h, Descent.parse_eq tokens, Descent.parse_ne_endOfInput tokens,
    fun e _ => e.problem.detail_ne_endOfInput⟩

/-- A map with one child, closed by a round bracket: what stands before the bracket can still become
a map, and nothing behind it makes a difference. -/
theorem Node.rejected_at_first_hopeless_closer :
    let tokens : List Token := [⟨.opening .curly, "\x7b", 0⟩, ⟨.symbol, "a", 1⟩,
      ⟨.closing .round, ")", 2⟩, ⟨.closing .curly, "\x7d", 3⟩]
    let e : GrammarError := ⟨.wrongCloser .curly ⟨.opening .curly, "\x7b", 0⟩ ")", 2⟩
    ofTokens tokens = .error e ∧
      ∃ k < tokens.length, Completable (tokens.take k) ∧ Hopeless (tokens.take (k + 1)) e := by
  intro tokens e
  have h : ofTokens tokens = .error e := rfl
  refine ⟨h, ((rejected_at_first_hopeless tokens).1 e h).resolve_left ?_⟩
  rintro ⟨hend, -⟩
  simp [e] at hend

end AllocScript
