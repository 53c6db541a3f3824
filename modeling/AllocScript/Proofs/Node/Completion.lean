import Mathlib
import AllocScript.Proofs.Node.Grammar

/-!
# The first hopeless token

Whatever the parser has taken can still become an expression (`Parser.exists_completion`): one more
symbol and the closing brackets of the open lists are enough, with a second symbol where a map has
an odd number of children. So the parser has the correct-prefix property: where it refuses a token,
what stands before the token can be completed, and nothing behind the token is looked at
(`Node.cut_of_ofTokens`).
-/

namespace AllocScript

namespace Parser

theorem run_append (state : State) (ts us : List Token) :
    run state (ts ++ us) = run state ts >>= fun state => run state us := by
  induction ts generalizing state with
  | nil => rfl
  | cons t ts ih => simp only [List.cons_append, run, ih, bind_assoc]

theorem run_append_of_ok {state state' : State} {ts : List Token} (h : run state ts = .ok state')
    (us : List Token) : run state (ts ++ us) = run state' us := by
  rw [run_append, h]; rfl

theorem run_append_of_error {state : State} {ts : List Token} {e : GrammarError}
    (h : run state ts = .error e) (us : List Token) : run state (ts ++ us) = .error e := by
  rw [run_append, h]; rfl

theorem run_singleton (state : State) (t : Token) : run state [t] = step state t :=
  bind_pure (step state t)

/-! ## Completions -/

/-- A token that may stand wherever an expression may. -/
def filler : Token := ⟨.symbol, "x", 0⟩

def fillerNode : Node := .atom (.symbol "x") 0

def closer (bracket : Bracket) : Token :=
  ⟨.closing bracket, String.singleton bracket.closeChar, 0⟩

theorem step_filler (frames : List Frame) :
    step (.reading frames) filler = .ok (attach fillerNode frames) := rfl

/-- The innermost open list can be closed. Depth is no hindrance: it is looked at where a list is
opened. -/
theorem exists_closing (frame : Frame) (frames : List Frame) :
    ∃ more node, run (.reading (frame :: frames)) more = .ok (attach node frames) := by
  by_cases heven : frame.bracket = .curly → frame.children.length % 2 = 0
  · have hclose := step_closing (t := closer frame.bracket) rfl heven frames
    exact ⟨[closer frame.bracket], _, (run_singleton _ _).trans hclose⟩
  · -- one more child makes the number of children even
    let fuller : Frame := { frame with children := fillerNode :: frame.children }
    have hfuller : fuller.bracket = .curly → fuller.children.length % 2 = 0 := by
      intro _
      simp only [fuller, List.length_cons]
      grind
    have hkind : (closer frame.bracket).kind = .closing fuller.bracket := rfl
    have hclose := step_closing hkind hfuller frames
    exact ⟨[filler, closer frame.bracket], _, (run_singleton _ _).trans hclose⟩

/-- With a child more, all open lists can be closed. -/
theorem exists_completion_attach (frames : List Frame) (node : Node) :
    ∃ more n, run (attach node frames) more = .ok (.complete n) := by
  induction frames generalizing node with
  | nil => exact ⟨[], node, rfl⟩
  | cons frame frames ih =>
    obtain ⟨ts, node', hts⟩ := exists_closing { frame with children := node :: frame.children }
      frames
    obtain ⟨us, n, hus⟩ := ih node'
    exact ⟨ts ++ us, n, by rw [attach, run_append_of_ok hts, hus]⟩

/-- **Every state of the parser is on the way to an expression.** -/
theorem exists_completion (state : State) : ∃ more n, run state more = .ok (.complete n) := by
  cases state with
  | complete n => exact ⟨[], n, rfl⟩
  | reading frames =>
    obtain ⟨more, n, hmore⟩ := exists_completion_attach frames fillerNode
    exact ⟨filler :: more, n, by rw [run, step_filler]; exact hmore⟩

/-! ## Refused tokens -/

/-- A run ends at the token that is refused. -/
theorem exists_step_of_run_eq_error {state : State} {ts : List Token} {e : GrammarError}
    (h : run state ts = .error e) :
    ∃ front t back state', ts = front ++ t :: back ∧ run state front = .ok state' ∧
      step state' t = .error e := by
  induction ts generalizing state with
  | nil => cases h
  | cons t ts ih =>
    cases hstep : step state t with
    | error e' =>
      rw [run, hstep] at h
      exact ⟨[], t, ts, state, rfl, rfl, hstep.trans h⟩
    | ok middle =>
      rw [run, hstep] at h
      obtain ⟨front, u, back, state', rfl, hfront, hu⟩ := ih h
      exact ⟨t :: front, u, back, state', rfl, by rw [run, hstep]; exact hfront, hu⟩

/-- The end of the tokens is refused for one of two reasons. -/
theorem finish_eq_error {stop : Nat} {state : State} {e : GrammarError}
    (h : finish stop state = .error e) :
    e.problem = .emptyInput ∨ ∃ bracket opener, e.problem = .unclosed bracket opener := by
  cases state with
  | complete => cases h
  | reading frames =>
    cases frames with
    | nil => cases h; exact .inl rfl
    | cons frame frames => cases h; exact .inr ⟨_, _, rfl⟩

end Parser

namespace Node

/-- Some expression begins with the tokens. -/
def Completable (tokens : List Token) : Prop := ∃ more n, ofTokens (tokens ++ more) = .ok n

/-- The error is certain once the tokens are there. -/
def Hopeless (tokens : List Token) (e : GrammarError) : Prop :=
  ∀ more, ofTokens (tokens ++ more) = .error e

theorem completable_of_run {tokens : List Token} {state : Parser.State}
    (h : Parser.run (.reading []) tokens = .ok state) : Completable tokens := by
  obtain ⟨more, n, hmore⟩ := Parser.exists_completion state
  refine ⟨more, n, ?_⟩
  unfold ofTokens
  rw [Parser.run_append_of_ok h, hmore]
  rfl

theorem hopeless_of_run {tokens : List Token} {e : GrammarError}
    (h : Parser.run (.reading []) tokens = .error e) : Hopeless tokens e := by
  intro more
  unfold ofTokens
  rw [Parser.run_append_of_error h]
  rfl

/-- Refused tokens lack an end, or one of them is the first that makes them hopeless. -/
theorem cut_of_ofTokens {tokens : List Token} {e : GrammarError}
    (h : ofTokens tokens = .error e) :
    ((e.problem = .emptyInput ∨ ∃ bracket opener, e.problem = .unclosed bracket opener) ∧
      Completable tokens) ∨
    ∃ k < tokens.length, Completable (tokens.take k) ∧ Hopeless (tokens.take (k + 1)) e := by
  cases hrun : Parser.run (.reading []) tokens with
  | ok state =>
    unfold ofTokens at h
    rw [hrun] at h
    exact .inl ⟨Parser.finish_eq_error h, completable_of_run hrun⟩
  | error e' =>
    have he : e' = e := by
      have h' := hopeless_of_run hrun []
      rw [List.append_nil, h] at h'
      cases h'
      rfl
    subst he
    obtain ⟨front, t, back, state, rfl, hfront, ht⟩ := Parser.exists_step_of_run_eq_error hrun
    refine .inr ⟨front.length, by simp, ?_, ?_⟩
    · rw [List.take_left]
      exact completable_of_run hfront
    · have htake : (front ++ t :: back).take (front.length + 1) = front ++ [t] := by
        simp [List.take_append]
      rw [htake]
      apply hopeless_of_run
      rw [Parser.run_append_of_ok hfront, Parser.run_singleton, ht]

end Node

end AllocScript
