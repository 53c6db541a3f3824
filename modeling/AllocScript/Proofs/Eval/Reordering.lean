import AllocScript.Proofs.Eval.Cache

/-!
# The same work in another order

Two computations may do the same work in different orders: they end alike, and what they record and
ask is the same up to order (`Outcome.Rearranged`). It is enough to see this of the runs that keep
no answers (`Eval.Kept.rearranged`):

* Answers that are known before a run hide the feed. So the run goes as against the feed that gives
  the known answers itself (`Feed.behind`, `shieldSimulation`), and with that feed they agree.
* Such a run is told by the one that keeps nothing (`cacheSimulation`), and the requests that are
  left of permuted ones are permuted, too.
-/

namespace AllocScript

open Eval

/-! ## Requests and answers up to order -/

theorem mem_newRequests_iff {seen rs : List Request} {r : Request} :
    r ∈ newRequests seen rs ↔ r ∈ rs ∧ r ∉ seen := by
  induction rs generalizing seen with
  | nil => simp [newRequests]
  | cons r' rs ih =>
    by_cases hr : r = r'
    · subst hr
      by_cases hseen : r ∈ seen <;> simp [newRequests, hseen, ih]
    · by_cases hseen : r' ∈ seen <;> simp [newRequests, hseen, ih, hr]

theorem newRequests_perm {rs rs' : List Request} (h : rs.Perm rs') (seen : List Request) :
    (newRequests seen rs).Perm (newRequests seen rs') := by
  refine (List.perm_ext_iff_of_nodup (newRequests_nodup _ _) (newRequests_nodup _ _)).2 fun r => ?_
  rw [mem_newRequests_iff, mem_newRequests_iff, h.mem_iff]

namespace Answers

/-- Answers of one feed to the same requests give the same look-ups. -/
theorem Agree.lookup_eq {known known' : Answers} {feed : Feed} (h : known.Agree feed)
    (h' : known'.Agree feed) (hrequests : ∀ r, r ∈ known.requests ↔ r ∈ known'.requests)
    (r : Request) : known.lookup r = known'.lookup r := by
  cases hlookup : known.lookup r with
  | none =>
    cases hlookup' : known'.lookup r with
    | none => rfl
    | some v =>
      have hmem := (hrequests r).2 (mem_requests_of_lookup hlookup')
      exact absurd hmem (not_mem_requests_of_lookup hlookup)
  | some v =>
    cases hlookup' : known'.lookup r with
    | none =>
      have hmem := (hrequests r).1 (mem_requests_of_lookup hlookup)
      exact absurd hmem (not_mem_requests_of_lookup hlookup')
    | some v' =>
      have hv := (h r v hlookup).symm.trans (h' r v' hlookup')
      rw [Except.ok.inj hv]

end Answers

/-! ## A feed behind known answers -/

/-- A feed behind known answers, which go before its own. -/
def Feed.behind (known : Answers) (feed : Feed) : Feed := fun r =>
  match known.lookup r with
  | some v => .ok v
  | none => feed r

theorem Feed.behind_of_unknown {known : Answers} {r : Request} (h : known.lookup r = none)
    (feed : Feed) : feed.behind known r = feed r := by
  simp only [behind, h]

theorem Answers.agree_behind (known : Answers) (feed : Feed) :
    known.Agree (feed.behind known) := by
  intro r v h
  simp only [Feed.behind, h]

/-- Against feeds that differ in known requests only, the computations do the same, and they forget
no answer. -/
def Shielded {α : Type} (x y : Eval α) : Prop :=
  ∀ (feed feed' : Feed) limit (st : EvalState),
    (∀ r, st.answers.lookup r = none → feed r = feed' r) →
    x ⟨feed, limit, true⟩ st = y ⟨feed', limit, true⟩ st ∧
      ∀ r, (x ⟨feed, limit, true⟩ st).state.answers.lookup r = none →
        st.answers.lookup r = none

namespace Shielded

open Eval

variable {α β : Type}

/-- A computation that does not ask. -/
theorem of_answers {x : Eval α} (hfeed : ∀ feed feed' limit reuse st,
      x ⟨feed, limit, reuse⟩ st = x ⟨feed', limit, reuse⟩ st)
    (hanswers : ∀ s st, (x s st).state.answers = st.answers) : Shielded x x :=
  fun feed feed' limit st _ => ⟨hfeed feed feed' limit true st, fun r h => by rwa [hanswers] at h⟩

theorem bind {x y : Eval α} {f g : α → Eval β} (hxy : Shielded x y)
    (hfg : ∀ a, Shielded (f a) (g a)) : Shielded (x >>= f) (y >>= g) := by
  intro feed feed' limit st h
  obtain ⟨hsame, hkeep⟩ := hxy feed feed' limit st h
  cases hr : (x ⟨feed, limit, true⟩ st).result with
  | error e =>
    rw [run_bind_of_error hr, run_bind_of_error (hsame ▸ hr), hsame]
    exact ⟨rfl, fun r hnone => hkeep r (by rwa [hsame])⟩
  | ok a =>
    obtain ⟨hsame', hkeep'⟩ := hfg a feed feed' limit (x ⟨feed, limit, true⟩ st).state
      fun r hnone => h r (hkeep r hnone)
    rw [run_bind_of_ok hr, run_bind_of_ok (hsame ▸ hr)]
    refine ⟨?_, fun r hnone => hkeep r (hkeep' r hnone)⟩
    rw [← hsame, hsame']

theorem fail (n : Node) (problem : EvalProblem) :
    Shielded (Eval.fail (α := α) n problem) (Eval.fail n problem) :=
  of_answers (fun _ _ _ _ _ => rfl) fun _ _ => rfl

theorem emit (event : Event) : Shielded (Eval.emit event) (Eval.emit event) :=
  of_answers (fun _ _ _ _ _ => rfl) fun _ st => st.write_answers event

theorem nested (n : Node) {x y : Eval α} (hxy : Shielded x y) :
    Shielded (Eval.nested n x) (Eval.nested n y) := by
  intro feed feed' limit st h
  unfold Eval.nested
  dsimp only
  split
  · exact fail n .nestedTooDeep feed feed' limit st h
  · obtain ⟨hsame, hkeep⟩ := hxy feed feed' limit { st with depth := st.depth + 1 } h
    rw [hsame] at hkeep ⊢
    exact ⟨rfl, hkeep⟩

theorem fetch (n : Node) (request : Request) :
    Shielded (Eval.fetch n request) (Eval.fetch n request) := by
  intro feed feed' limit st h
  cases hlookup : st.answers.lookup request with
  | some v =>
    rw [Transparent.fetch_of_known hlookup, Transparent.fetch_of_known hlookup]
    exact ⟨rfl, fun _ => id⟩
  | none =>
    rw [Transparent.fetch_of_unknown hlookup, Transparent.fetch_of_unknown hlookup]
    cases hr : feed request with
    | ok v =>
      rw [Transparent.ask_of_answered hr, Transparent.ask_of_answered (h request hlookup ▸ hr)]
      refine ⟨rfl, fun r hnone => ?_⟩
      by_cases heq : r = request
      · rw [heq]
        exact hlookup
      · have hne : (r == request) = false := beq_false_of_ne heq
        rwa [if_pos rfl, EvalState.keep, List.lookup, hne] at hnone
    | error e =>
      rw [Transparent.ask_of_refused hr, Transparent.ask_of_refused (h request hlookup ▸ hr)]
      exact ⟨rfl, fun _ => id⟩

end Shielded

/-- **Known answers hide the feed** from all that evaluations are made of. -/
def shieldSimulation : TreeSimulation where
  node := Eq
  rel := Shielded
  pure _ := Shielded.of_answers (fun _ _ _ _ _ => rfl) fun _ _ => rfl
  bind := Shielded.bind
  fail _ h := by
    rw [h]
    exact Shielded.fail _ _
  fault _ := Shielded.of_answers (fun _ _ _ _ _ => rfl) fun _ _ => rfl
  record _ := Shielded.emit _
  quote _ h := by
    rw [h]
    exact Shielded.emit _
  setMetadata _ _ := Shielded.emit _
  atom := TreeSimulation.atom_of_eq
  list := TreeSimulation.list_of_eq
  begun _ := Shielded.emit _
  found _ _ := Shielded.emit _
  nested h hxy := by
    rw [h]
    exact Shielded.nested _ hxy
  fetch request h := by
    rw [h]
    exact Shielded.fetch _ request

/-! ## Runs told by those that keep no answers -/

/-- The setting in which nothing is kept and the known answers come from the feed. -/
def Setting.plain (s : Setting) (known : Answers) : Setting where
  feed := if s.reuse then s.feed.behind known else s.feed
  depthLimit := s.depthLimit
  reuse := false

/-- The run without keeping answers tells all others. -/
structure Eval.Kept {α : Type} (x : Eval α) : Prop where
  transparent : Transparent x x
  shielded : Shielded x x

theorem Node.eval_kept (n : Node) (path : NodePath) : (n.eval path).Kept :=
  ⟨cacheSimulation.eval rfl path, shieldSimulation.eval rfl path⟩

namespace Eval.Kept

variable {α : Type} {x : Eval α}

/-- Without keeping answers, those known stay as they are. -/
theorem plain_answers (h : x.Kept) (s : Setting) (known : Answers) (st : EvalState) :
    (x (s.plain known) st).state.answers = st.answers := by
  obtain ⟨plain, log, hplain, -⟩ :=
    h.transparent (s.plain known).feed (s.plain known).depthLimit st.depth
  exact (hplain st rfl).state.answers

/-- What a run does that keeps answers. -/
theorem cached (h : x.Kept) (feed : Feed) (limit : Option Nat) (st : EvalState) :
    let plain := x (Setting.plain ⟨feed, limit, true⟩ st.answers) st
    Cached (feed.behind st.answers) st.depth st.answers (x ⟨feed, limit, true⟩ st) plain.result
      plain.events := by
  have hsame := (h.shielded feed (feed.behind st.answers) limit st fun r hr =>
    (Feed.behind_of_unknown hr feed).symm).1
  obtain ⟨plain, log, hplain, hcached⟩ := h.transparent (feed.behind st.answers) limit st.depth
  obtain ⟨hresult, hevents, -⟩ : Plain st
    (x (Setting.plain ⟨feed, limit, true⟩ st.answers) st) plain log := hplain st rfl
  dsimp only
  rw [hsame, hresult, hevents]
  exact hcached st rfl (st.answers.agree_behind feed)

theorem plain_result (h : x.Kept) (s : Setting) (st : EvalState) :
    (x s st).result = (x (s.plain st.answers) st).result := by
  obtain ⟨feed, limit, reuse⟩ := s
  cases reuse with
  | false => rfl
  | true => exact (h.cached feed limit st).result

end Eval.Kept

/-! ## Outcomes up to order -/

/-- Errors with the same problem, at whatever nodes, or the same fault. -/
inductive Stop.SameProblem : Stop → Stop → Prop
  | error {e e' : EvalError} : e.problem = e'.problem → SameProblem (.error e) (.error e')
  | fault (f : Fault) : SameProblem (.fault f) (.fault f)

/-- Related values, or stops for the same reason. -/
inductive SameEnd {α : Type} (R : α → α → Prop) : Except Stop α → Except Stop α → Prop
  | ok {a a' : α} : R a a' → SameEnd R (.ok a) (.ok a')
  | error {e e' : Stop} : e.SameProblem e' → SameEnd R (.error e) (.error e')

namespace SameEnd

variable {α β : Type} {R : α → α → Prop} {S : β → β → Prop} {r r' : Except Stop α}

theorem exists_ok {a : α} (h : SameEnd R (.ok a) r') : ∃ a', r' = .ok a' ∧ R a a' := by
  cases h with
  | ok h => exact ⟨_, rfl, h⟩

theorem exists_error {e : Stop} (h : SameEnd R (.error e) r') :
    ∃ e', r' = .error e' ∧ e.SameProblem e' := by
  cases h with
  | error h => exact ⟨_, rfl, h⟩

theorem map {f g : α → β} (h : SameEnd R r r') (hf : ∀ a a', R a a' → S (f a) (g a')) :
    SameEnd S (r.map f) (r'.map g) := by
  cases h with
  | ok h => exact .ok (hf _ _ h)
  | error h => exact .error h

end SameEnd

/-- The same value with the same steps and requests up to order and the same answers known behind
it, or stops for the same reason. -/
structure Outcome.Rearranged {α : Type} (o o' : Outcome α) : Prop where
  result : SameEnd Eq o.result o'.result
  steps : ∀ a, o.result = .ok a → (Event.steps o.events).Perm (Event.steps o'.events)
  requests : ∀ a, o.result = .ok a → (Event.requests o.events).Perm (Event.requests o'.events)
  answers : ∀ a, o.result = .ok a → ∀ r,
    o.state.answers.lookup r = o'.state.answers.lookup r

/-- The same of evaluations of strategies. The texts that come with an allocation may be others. -/
structure Run.Rearranged (run run' : Run) : Prop where
  result : SameEnd (fun a b => a.weights = b.weights) run.result run'.result
  trace : ∀ a, run.result = .ok a → run.context.trace.Perm run'.context.trace
  requests : ∀ a, run.result = .ok a → run.requests.Perm run'.requests
  answers : ∀ a, run.result = .ok a →
    ∀ r, run.context.answers.lookup r = run'.context.answers.lookup r

/-- **What is rearranged when no answers are kept is rearranged when they are.** -/
theorem Eval.Kept.rearranged {α : Type} {x y : Eval α} (hx : x.Kept) (hy : y.Kept) {s : Setting}
    {st : EvalState} (h : (x (s.plain st.answers) st).Rearranged (y (s.plain st.answers) st)) :
    (x s st).Rearranged (y s st) := by
  obtain ⟨feed, limit, reuse⟩ := s
  cases reuse with
  | false => exact h
  | true =>
    have hcx := hx.cached feed limit st
    have hcy := hy.cached feed limit st
    refine ⟨by rw [hcx.result, hcy.result]; exact h.result, fun a ha => ?_, fun a ha => ?_,
      fun a ha => hcx.agree.lookup_eq hcy.agree fun r => ?_⟩
    all_goals rw [hcx.result] at ha
    · rw [hcx.events, hcy.events, Event.steps_dropKnown, Event.steps_dropKnown]
      exact h.steps a ha
    · rw [hcx.events, hcy.events, Event.requests_dropKnown, Event.requests_dropKnown]
      exact newRequests_perm (h.requests a ha) _
    · rw [hcx.requests, hcy.requests, (h.requests a ha).mem_iff]

theorem Node.evalStrategy_rearranged {n n' : Node} {s : Setting} {st : EvalState}
    (h : (n.eval [] s st).Rearranged (n'.eval [] s st)) :
    (n.evalStrategy s st).Rearranged (n'.evalStrategy s st) := by
  obtain ⟨hresult, hsteps, hrequests, hanswers⟩ := h
  unfold evalStrategy
  cases hv : (n.eval [] s st).result with
  | error e =>
    rw [hv] at hresult
    obtain ⟨e', hv', he⟩ := hresult.exists_error
    rw [run_bind_of_error hv, run_bind_of_error hv']
    exact ⟨.error he, nofun, nofun, nofun⟩
  | ok v =>
    rw [hv] at hresult
    obtain ⟨_, hv', rfl⟩ := hresult.exists_ok
    rw [run_bind_of_ok hv, run_bind_of_ok hv']
    cases v with
    | allocation a =>
      refine ⟨.ok rfl, fun _ _ => ?_, fun _ _ => ?_, fun _ _ => hanswers _ hv⟩
      · simpa [pure, Eval.pure] using hsteps _ hv
      · simpa [pure, Eval.pure] using hrequests _ hv
    | _ => exact ⟨.error (.error rfl), nofun, nofun, nofun⟩

theorem evaluate_rearranged {n n' : Node} {s : Setting} {context : Context}
    (h : (n.eval [] s (.initial context)).Rearranged (n'.eval [] s (.initial context))) :
    (evaluate n s context).Rearranged (evaluate n' s context) := by
  obtain ⟨hresult, hsteps, hrequests, hanswers⟩ := Node.evalStrategy_rearranged h
  have hok {a : Allocation} (ha : (evaluate n s context).result = .ok a) :
      ∃ b, (n.evalStrategy s (.initial context)).result = .ok b := by
    obtain ⟨b, hb, -⟩ := evaluate_eq_ok ha
    exact ⟨b, hb⟩
  refine ⟨?_, fun a ha => ?_, fun a ha => ?_, fun a ha => ?_⟩
  · exact hresult.map fun _ _ h => by rw [h]; rfl
  all_goals obtain ⟨b, hb⟩ := hok ha
  · rw [evaluate_context, evaluate_context]
    exact (hsteps b hb).append_left _
  · exact hrequests b hb
  · exact hanswers b hb

end AllocScript
