import AllocScript.Proofs.Eval.Cache

/-!
# Requests that the feed refuses

A refused request ends the evaluation, and nothing else is blamed on the feed.

* `Account`: either all requests have been answered and the end has no failed look-up behind it, or
  the last one, and no other, has been refused, and the computation ends with that refusal.
* `Accountable`: the account holds of every run that keeps answers. It also says which requests are
  made (none that is known, none twice) and which answers are kept (those of the feed).

No request is made twice in a run, so that a `Feed` has one answer to a request is no restriction:
a source whose answers change in time gives each of them once in a run.
-/

namespace AllocScript

/-! ## Accounts of requests -/

/-- Whether requests have been answered, and what that means for the end of the computation that
made them. -/
def Account {α : Type} (feed : Feed) (requests : List Request) (result : Except Stop α) : Prop :=
  ((∀ r ∈ requests, feed.Answered r) ∧
    ∀ e, result = .error (.error e) → e.problem.cause? = none) ∨
  ∃ before r node cause, requests = before ++ [r] ∧ (∀ r' ∈ before, feed.Answered r') ∧
    feed r = .error cause ∧ result = .error (.error (.atNode node (.unavailable r cause)))

namespace Account

variable {α β : Type} {feed : Feed} {requests : List Request}

theorem nil {result : Except Stop α}
    (h : ∀ e, result = .error (.error e) → e.problem.cause? = none) : Account feed [] result :=
  .inl ⟨fun _ hr => absurd hr List.not_mem_nil, h⟩

/-- A refusal leaves no value. -/
theorem answered {a : α} (h : Account feed requests (.ok a : Except Stop α)) :
    ∀ r ∈ requests, feed.Answered r := by
  rcases h with ⟨hall, -⟩ | ⟨_, _, _, _, -, -, -, hstop⟩
  · exact hall
  · cases hstop

/-- The account of a computation that stops is that of every sequence that begins with it. -/
theorem stop {e : Stop} (h : Account feed requests (.error e : Except Stop α)) :
    Account feed requests (.error e : Except Stop β) := by
  rcases h with ⟨hall, hcause⟩ | ⟨before, r, node, cause, heq, hall, hr, hstop⟩
  · exact .inl ⟨hall, fun e' he => hcause e' (by cases he; rfl)⟩
  · exact .inr ⟨before, r, node, cause, heq, hall, hr, by cases hstop; rfl⟩

/-- Answered requests may come before. -/
theorem append {earlier : List Request} {result : Except Stop α}
    (hearlier : ∀ r ∈ earlier, feed.Answered r) (h : Account feed requests result) :
    Account feed (earlier ++ requests) result := by
  rcases h with ⟨hall, hcause⟩ | ⟨before, r, node, cause, rfl, hall, hr, hstop⟩
  · exact .inl ⟨fun r hr => (List.mem_append.1 hr).elim (hearlier r) (hall r), hcause⟩
  · refine .inr ⟨earlier ++ before, r, node, cause, by rw [List.append_assoc], ?_, hr, hstop⟩
    exact fun r' hr' => (List.mem_append.1 hr').elim (hearlier r') (hall r')

/-- A request that has been refused is the last one, and its refusal is the end. -/
theorem last_of_refused {result : Except Stop α} {r : Request} {cause : LookupError}
    (h : Account feed requests result) (hmem : r ∈ requests) (hr : feed r = .error cause) :
    requests.getLast? = some r ∧
      ∃ node, result = .error (.error (.atNode node (.unavailable r cause))) := by
  have hnot : ¬ feed.Answered r := fun ⟨v, hv⟩ => by
    rw [hr] at hv
    cases hv
  rcases h with ⟨hall, -⟩ | ⟨before, r', node, cause', rfl, hall, hr', hstop⟩
  · exact absurd (hall r hmem) hnot
  · rcases List.mem_append.1 hmem with hbefore | hlast
    · exact absurd (hall r hbefore) hnot
    · rw [List.mem_singleton] at hlast
      rw [hlast, hr'] at hr
      cases hr
      exact ⟨by rw [hlast, List.getLast?_concat], node, by rw [hstop, hlast]⟩

/-- A failed look-up behind the end is the refusal of the last request. -/
theorem last_of_cause {e : EvalError} {cause : LookupError}
    (h : Account feed requests (.error (.error e) : Except Stop α))
    (hcause : e.problem.cause? = some cause) :
    ∃ r, requests.getLast? = some r ∧ feed r = .error cause := by
  rcases h with ⟨-, hnone⟩ | ⟨before, r, node, cause', rfl, -, hr, hstop⟩
  · rw [hnone e rfl] at hcause
    cases hcause
  · cases hstop
    have heq : cause' = cause := Option.some.inj hcause
    exact ⟨r, List.getLast?_concat, by rw [hr, heq]⟩

end Account

/-! ## Runs that keep answers -/

/-- What an outcome says about its requests, for a run from the answers known. -/
structure Accounted {α : Type} (feed : Feed) (known : Answers) (o : Outcome α) : Prop where
  account : Account feed (Event.requests o.events) o.result
  unknown : ∀ r ∈ Event.requests o.events, r ∉ known.requests
  nodup : (Event.requests o.events).Nodup
  /-- The answers behind it are those known before and all that have been given. -/
  answers : ∀ r, r ∈ Answers.requests o.state.answers ↔
    r ∈ known.requests ∨ r ∈ Event.requests o.events ∧ feed.Answered r

/-- Every run that keeps answers accounts for its requests. -/
def Accountable {α : Type} (x : Eval α) : Prop :=
  ∀ feed limit (st : EvalState), Accounted feed st.answers (x ⟨feed, limit, true⟩ st)

namespace Accountable

open Eval

variable {α β : Type}

/-- A computation that asks nothing and stops for reasons of its own. -/
theorem of_no_requests {x : Eval α}
    (h : ∀ s st, Event.requests (x s st).events = [] ∧ (x s st).state.answers = st.answers ∧
      ∀ e, (x s st).result = .error (.error e) → e.problem.cause? = none) : Accountable x := by
  intro feed limit st
  obtain ⟨hnone, hanswers, hcause⟩ := h ⟨feed, limit, true⟩ st
  constructor
  · rw [hnone]
    exact .nil hcause
  · rw [hnone]
    exact fun r hr => absurd hr List.not_mem_nil
  · rw [hnone]
    exact List.nodup_nil
  · intro r
    rw [hnone, hanswers]
    simp

theorem bind {x : Eval α} {f : α → Eval β} (hx : Accountable x) (hf : ∀ a, Accountable (f a)) :
    Accountable (x >>= f) := by
  intro feed limit st
  have h := hx feed limit st
  cases hr : (x ⟨feed, limit, true⟩ st).result with
  | error e =>
    rw [run_bind_of_error hr]
    exact ⟨(hr ▸ h.account).stop, h.unknown, h.nodup, h.answers⟩
  | ok a =>
    have hall : ∀ r ∈ Event.requests (x ⟨feed, limit, true⟩ st).events, feed.Answered r :=
      (hr ▸ h.account).answered
    have h' := hf a feed limit (x ⟨feed, limit, true⟩ st).state
    rw [run_bind_of_ok hr]
    -- Behind a value, what has been asked is known, so it is not asked again.
    have hknown : ∀ r, r ∈ (x ⟨feed, limit, true⟩ st).state.answers.requests ↔
        r ∈ st.answers.requests ∨ r ∈ Event.requests (x ⟨feed, limit, true⟩ st).events := by
      intro r
      rw [h.answers]
      exact or_congr_right (and_iff_left_of_imp (hall r))
    constructor
    · rw [Event.requests_append]
      exact h'.account.append hall
    · intro r hmem
      rw [Event.requests_append] at hmem
      rcases List.mem_append.1 hmem with hmem | hmem
      · exact h.unknown r hmem
      · exact fun hr' => h'.unknown r hmem ((hknown r).2 (.inl hr'))
    · rw [Event.requests_append, List.nodup_append']
      exact ⟨h.nodup, h'.nodup, fun r hmem hmem' => h'.unknown r hmem' ((hknown r).2 (.inr hmem))⟩
    · intro r
      rw [h'.answers, h.answers, Event.requests_append, List.mem_append, or_and_right, or_assoc]

section

variable {feed : Feed} {st : EvalState} {r : Request} {v : Decimal} {cause : LookupError}

theorem unknown_asked (hnew : st.answers.lookup r = none) :
    ∀ r' ∈ Event.requests [.asked r], r' ∉ st.answers.requests := by
  intro r' hr'
  rw [Transparent.mem_requests_asked.1 hr']
  exact Answers.not_mem_requests_of_lookup hnew

theorem accounted_answered (hnew : st.answers.lookup r = none) (hr : feed r = .ok v) :
    Accounted feed st.answers ⟨.ok v, [.asked r], st.keep r v⟩ where
  account := .inl ⟨fun r' hr' => Transparent.mem_requests_asked.1 hr' ▸ ⟨v, hr⟩, nofun⟩
  unknown := unknown_asked hnew
  nodup := List.nodup_singleton r
  answers r' := by
    show r' ∈ r :: st.answers.requests ↔ _
    rw [List.mem_cons, Transparent.mem_requests_asked, or_comm]
    exact or_congr_right (and_iff_left_of_imp fun h => h ▸ ⟨v, hr⟩).symm

theorem accounted_refused (n : Node) (hnew : st.answers.lookup r = none)
    (hr : feed r = .error cause) :
    Accounted feed st.answers (⟨.error (.error (.atNode n (.unavailable r cause))), [.asked r],
      st⟩ : Outcome Decimal) where
  account := .inr ⟨[], r, n, cause, rfl, fun _ h => absurd h List.not_mem_nil, hr, rfl⟩
  unknown := unknown_asked hnew
  nodup := List.nodup_singleton r
  answers r' := by
    rw [Transparent.mem_requests_asked]
    refine (or_iff_left ?_).symm
    rintro ⟨rfl, v, hv⟩
    rw [hr] at hv
    cases hv

end

theorem fetch (n : Node) (r : Request) : Accountable (Eval.fetch n r) := by
  intro feed limit st
  cases hlookup : st.answers.lookup r with
  | some v =>
    rw [Transparent.fetch_of_known hlookup]
    exact ⟨.nil fun _ he => (by cases he), fun _ hr => absurd hr List.not_mem_nil,
      List.nodup_nil, fun _ => by simp [Event.requests]⟩
  | none =>
    rw [Transparent.fetch_of_unknown hlookup]
    cases hr : feed r with
    | ok v =>
      rw [Transparent.ask_of_answered hr]
      exact accounted_answered hlookup hr
    | error cause =>
      rw [Transparent.ask_of_refused hr]
      exact accounted_refused n hlookup hr

theorem emit (event : Event) (h : event.request? = none) : Accountable (Eval.emit event) :=
  of_no_requests fun _ st => ⟨List.filterMap_cons_none h, st.write_answers event, nofun⟩

theorem fail (n : Node) {problem : EvalProblem} (h : problem.cause? = none) :
    Accountable (Eval.fail (α := α) n problem) :=
  of_no_requests fun _ _ => ⟨rfl, rfl, fun e he => by
    cases he
    exact h⟩

theorem nested (n : Node) {x : Eval α} (hx : Accountable x) : Accountable (Eval.nested n x) := by
  intro feed limit st
  unfold Eval.nested
  split
  · exact fail n rfl feed limit st
  · obtain ⟨haccount, hunknown, hnodup, hanswers⟩ :=
      hx feed limit { st with depth := st.depth + 1 }
    exact ⟨haccount, hunknown, hnodup, hanswers⟩

end Accountable

/-- **Accounts of requests** for all that evaluations are made of. -/
def accountSimulation : TreeSimulation where
  node := Eq
  rel x _ := Accountable x
  pure _ := Accountable.of_no_requests fun _ _ => ⟨rfl, rfl, nofun⟩
  bind := Accountable.bind
  fail h _ := Accountable.fail _ (EvalProblem.cause?_of_isOwn h)
  fault _ := Accountable.of_no_requests fun _ _ => ⟨rfl, rfl, nofun⟩
  record step := Accountable.emit (.decided step) rfl
  quote _ _ := Accountable.emit (.decided _) rfl
  setMetadata key text := Accountable.emit (.noted key text) rfl
  fetch request _ := Accountable.fetch _ request
  atom := TreeSimulation.atom_of_eq
  list := TreeSimulation.list_of_eq
  begun path := Accountable.emit (.begun path) rfl
  found path v := Accountable.emit (.found path v) rfl
  nested _ hx := Accountable.nested _ hx

theorem evalStrategy_accountable (n : Node) : Accountable n.evalStrategy :=
  accountSimulation.evalStrategy rfl

/-- **A refusal is the end, and the only failed look-up there is.** A request that the feed refuses
is the last one of the evaluation, which ends with that refusal as the cause and keeps no answer to
the request. An evaluation that ends with a failed look-up as the cause made a last request, and
that is how the feed refused it. If there is an allocation, all requests have been answered. And no
request is made twice. -/
theorem evaluate_refusal_ends (n : Node) (feed : Feed) (limit : Option Nat) (context : Context) :
    let run := evaluate n ⟨feed, limit, true⟩ context
    (∀ r cause, r ∈ run.requests → feed r = .error cause →
      run.requests.getLast? = some r ∧
      (∃ e, run.result = .error (.error e) ∧ e.problem.cause? = some cause) ∧
      r ∉ run.context.answers.requests) ∧
    (∀ e cause, run.result = .error (.error e) → e.problem.cause? = some cause →
      ∃ r, run.requests.getLast? = some r ∧ feed r = .error cause) ∧
    (∀ a, run.result = .ok a → ∀ r ∈ run.requests, feed.Answered r) ∧
    run.requests.Nodup := by
  have h := evalStrategy_accountable n feed limit (.initial context)
  intro run
  refine ⟨fun r cause hmem hr => ?_, fun e cause he hcause => ?_, fun a ha => ?_, h.nodup⟩
  · obtain ⟨hlast, node, hstop⟩ := h.account.last_of_refused hmem hr
    refine ⟨hlast, ⟨_, evaluate_eq_error_iff.2 hstop, rfl⟩, fun hkept => ?_⟩
    rcases (h.answers r).1 hkept with hknown | ⟨-, v, hv⟩
    · exact h.unknown r hmem hknown
    · rw [hr] at hv
      cases hv
  · exact (evaluate_eq_error_iff.1 he ▸ h.account).last_of_cause hcause
  · obtain ⟨b, hb, -⟩ := evaluate_eq_ok ha
    exact (hb ▸ h.account).answered

/-- Of three requests the second is refused, so the third is not made. -/
theorem evaluate_refusal_ends_second :
    ∃ n e, Node.ofSource
        "(if (> (+ (rsi \"A\" 3) (rsi \"B\" 3) (rsi \"C\" 3)) 1) (asset \"A\"))" = .ok n ∧
      let run := evaluate n ⟨fun r => if r.symbol = "B" then .error ⟨r.symbol, r.metric, "closed"⟩
        else .ok .one, some maxDepth, true⟩ .fresh
      run.requests = [⟨"A", .rsi, 3⟩, ⟨"B", .rsi, 3⟩] ∧ run.result = .error (.error e) ∧
        e.problem.cause? = some ⟨"B", ⟨.rsi, 3⟩, "closed"⟩ ∧
        ⟨"B", .rsi, 3⟩ ∉ run.context.answers.requests := by
  have hrun : (match Node.ofSource
        "(if (> (+ (rsi \"A\" 3) (rsi \"B\" 3) (rsi \"C\" 3)) 1) (asset \"A\"))" with
      | .ok n => decide ((evaluate n ⟨fun r => if r.symbol = "B" then
            .error ⟨r.symbol, r.metric, "closed"⟩ else .ok .one, some maxDepth, true⟩
          .fresh).requests = [⟨"A", .rsi, 3⟩, ⟨"B", .rsi, 3⟩])
      | .error _ => false) = true := by decide +kernel
  split at hrun
  · rename_i n hn
    have hrequests := of_decide_eq_true hrun
    obtain ⟨-, ⟨e, he, hcause⟩, hkept⟩ := (evaluate_refusal_ends n _ (some maxDepth) .fresh).1
      ⟨"B", .rsi, 3⟩ ⟨"B", ⟨.rsi, 3⟩, "closed"⟩ (by rw [hrequests]; decide) rfl
    exact ⟨n, e, hn, hrequests, he, hcause, hkept⟩
  · cases hrun

end AllocScript
