import AllocScript.Proofs.Eval.Context
import AllocScript.Source

/-!
# The answers kept by a context

Keeping the answers of a feed and using them again makes no difference but to the requests.

* **Transparency** (`cacheSimulation`): with the answers kept, an evaluation has the result and the
  events that it has without them, except for requests that were answered before.
* **Requests** (`newRequests`): those of the evaluation that keeps nothing, without the ones that
  were known and without repetitions.
* **Sequences** (`evaluateAll`): a request that the feed has answered is not made again by any
  evaluation that follows in the same context.
-/

namespace AllocScript

/-- The feed answers a request. -/
def Feed.Answered (feed : Feed) (r : Request) : Prop := ∃ v, feed r = .ok v

namespace Answers

/-- Every answer is the one that the feed would give. -/
def Agree (known : Answers) (feed : Feed) : Prop := ∀ r v, known.lookup r = some v → feed r = .ok v

/-- The requests that have been answered. -/
def requests (known : Answers) : List Request := known.map Prod.fst

theorem agree_nil (feed : Feed) : Agree [] feed := by
  intro r v h
  cases h

theorem mem_requests_of_lookup {known : Answers} {r : Request} {v : Decimal}
    (h : known.lookup r = some v) : r ∈ requests known := by
  induction known with
  | nil => cases h
  | cons e rest ih =>
    obtain ⟨r', v'⟩ := e
    by_cases hr : r = r'
    · rw [hr]
      exact List.mem_cons_self
    · have hne : (r == r') = false := beq_false_of_ne hr
      rw [List.lookup, hne] at h
      exact List.mem_cons_of_mem _ (ih h)

theorem not_mem_requests_of_lookup {known : Answers} {r : Request} (h : known.lookup r = none) :
    r ∉ requests known := by
  induction known with
  | nil => exact List.not_mem_nil
  | cons e rest ih =>
    obtain ⟨r', v'⟩ := e
    by_cases hr : r = r'
    · rw [hr, List.lookup, beq_self_eq_true] at h
      cases h
    · have hne : (r == r') = false := beq_false_of_ne hr
      rw [List.lookup, hne] at h
      intro hmem
      rcases List.mem_cons.1 hmem with heq | hmem
      · exact hr heq
      · exact ih h hmem

theorem Agree.cons {known : Answers} {feed : Feed} (h : Agree known feed) {r : Request}
    {v : Decimal} (hr : feed r = .ok v) : Agree ((r, v) :: known) feed := by
  intro r' v' hlookup
  by_cases heq : r' = r
  · rw [heq, List.lookup, beq_self_eq_true] at hlookup
    injection hlookup with hv
    rw [heq, hr, hv]
  · have hne : (r' == r) = false := beq_false_of_ne heq
    rw [List.lookup, hne] at hlookup
    exact h r' v' hlookup

end Answers

/-! ## Requests not made before -/

/-- The requests that are not among those seen, each one once. -/
def newRequests (seen : List Request) : List Request → List Request
  | [] => []
  | r :: rs => if r ∈ seen then newRequests seen rs else r :: newRequests (r :: seen) rs

theorem mem_newRequests {seen rs : List Request} {r : Request} (h : r ∈ newRequests seen rs) :
    r ∈ rs ∧ r ∉ seen := by
  induction rs generalizing seen with
  | nil => cases h
  | cons r' rs ih =>
    unfold newRequests at h
    by_cases hseen : r' ∈ seen
    · rw [if_pos hseen] at h
      exact ⟨List.mem_cons_of_mem _ (ih h).1, (ih h).2⟩
    · rw [if_neg hseen] at h
      rcases List.mem_cons.1 h with rfl | h
      · exact ⟨List.mem_cons_self, hseen⟩
      · exact ⟨List.mem_cons_of_mem _ (ih h).1, fun hr => (ih h).2 (List.mem_cons_of_mem _ hr)⟩

theorem newRequests_nodup (seen rs : List Request) : (newRequests seen rs).Nodup := by
  induction rs generalizing seen with
  | nil => exact List.nodup_nil
  | cons r rs ih =>
    unfold newRequests
    split
    · exact ih seen
    · exact List.nodup_cons.2 ⟨fun h => (mem_newRequests h).2 List.mem_cons_self, ih _⟩

theorem newRequests_eq_nil {seen rs : List Request} (h : ∀ r ∈ rs, r ∈ seen) :
    newRequests seen rs = [] := by
  rw [List.eq_nil_iff_forall_not_mem]
  intro r hr
  exact (mem_newRequests hr).2 (h r (mem_newRequests hr).1)

namespace Event

/-- Events without the requests seen before. -/
def dropKnown (seen : List Request) : List Event → List Event
  | [] => []
  | asked r :: events =>
    if r ∈ seen then dropKnown seen events else asked r :: dropKnown (r :: seen) events
  | e :: events => e :: dropKnown seen events

theorem dropKnown_cons_of_none {e : Event} (h : e.request? = none) (seen : List Request)
    (events : List Event) : dropKnown seen (e :: events) = e :: dropKnown seen events := by
  cases e <;> first | rfl | cases h

theorem dropKnown_congr {seen seen' : List Request} (h : ∀ r, r ∈ seen ↔ r ∈ seen')
    (events : List Event) : dropKnown seen events = dropKnown seen' events := by
  induction events generalizing seen seen' with
  | nil => rfl
  | cons e events ih =>
    cases e with
    | asked r =>
      simp only [dropKnown, h r]
      split
      · exact ih h
      · have hcons : ∀ r', r' ∈ r :: seen ↔ r' ∈ r :: seen' := by
          intro r'
          rw [List.mem_cons, List.mem_cons, h r']
        rw [ih hcons]
    | _ =>
      simp only [dropKnown]
      rw [ih h]

theorem dropKnown_append (seen : List Request) (before after : List Event) :
    dropKnown seen (before ++ after) =
      dropKnown seen before ++ dropKnown (requests before ++ seen) after := by
  induction before generalizing seen with
  | nil => rfl
  | cons e before ih =>
    cases e with
    | asked r =>
      have hrequests : requests (asked r :: before) = r :: requests before := rfl
      rw [List.cons_append, hrequests]
      simp only [dropKnown]
      by_cases hr : r ∈ seen
      · rw [if_pos hr, if_pos hr, ih]
        congr 1
        apply dropKnown_congr
        intro r'
        simp only [List.cons_append, List.mem_cons, List.mem_append]
        constructor
        · exact .inr
        · rintro (rfl | h)
          · exact .inr hr
          · exact h
      · rw [if_neg hr, if_neg hr, ih, List.cons_append]
        congr 2
        apply dropKnown_congr
        intro r'
        simp only [List.cons_append, List.mem_cons, List.mem_append]
        exact or_left_comm
    | _ =>
      rw [List.cons_append, dropKnown_cons_of_none rfl, dropKnown_cons_of_none rfl, ih]
      rfl

theorem requests_append (before after : List Event) :
    requests (before ++ after) = requests before ++ requests after :=
  List.filterMap_append

theorem dropKnown_of_no_requests {events : List Event} (h : requests events = [])
    (seen : List Request) : dropKnown seen events = events := by
  induction events with
  | nil => rfl
  | cons e events ih =>
    cases he : e.request? with
    | some r =>
      have hcons : requests (e :: events) = r :: requests events := List.filterMap_cons_some he
      rw [hcons] at h
      cases h
    | none =>
      have hrest : requests (e :: events) = requests events := List.filterMap_cons_none he
      rw [dropKnown_cons_of_none he, ih (hrest.symm.trans h)]

/-- What is not a request stays. -/
theorem filterMap_dropKnown {β : Type} {f : Event → Option β} (hf : ∀ r, f (asked r) = none)
    (seen : List Request) (events : List Event) :
    (dropKnown seen events).filterMap f = events.filterMap f := by
  induction events generalizing seen with
  | nil => rfl
  | cons e events ih =>
    cases e with
    | asked r =>
      simp only [dropKnown, List.filterMap_cons, hf]
      split
      · exact ih seen
      · rw [List.filterMap_cons, hf]
        exact ih _
    | _ => rw [dropKnown_cons_of_none rfl, List.filterMap_cons, List.filterMap_cons, ih]

theorem steps_dropKnown (seen : List Request) (events : List Event) :
    steps (dropKnown seen events) = steps events :=
  filterMap_dropKnown (fun _ => rfl) seen events

theorem notes_dropKnown (seen : List Request) (events : List Event) :
    notes (dropKnown seen events) = notes events :=
  filterMap_dropKnown (fun _ => rfl) seen events

theorem requests_dropKnown (seen : List Request) (events : List Event) :
    requests (dropKnown seen events) = newRequests seen (requests events) := by
  induction events generalizing seen with
  | nil => rfl
  | cons e events ih =>
    cases e with
    | asked r =>
      have hrequests : ∀ es, requests (asked r :: es) = r :: requests es := fun _ => rfl
      rw [hrequests]
      simp only [dropKnown, newRequests]
      split
      · exact ih seen
      · rw [hrequests, ih]
    | _ =>
      rw [dropKnown_cons_of_none rfl]
      exact ih seen

end Event

/-! ## Transparency -/

/-- The outcome `o` of a computation that keeps no answers, so those known stay. -/
structure Plain {α : Type} (st : EvalState) (o : Outcome α) (plain : Except Stop α)
    (log : List Event) : Prop where
  result : o.result = plain
  events : o.events = log
  state : o.state.Agree st

/-- The outcome `o` of a computation that keeps answers, from those known, where the one that keeps
none ends in `plain` with the events `log`. -/
structure Cached {α : Type} (feed : Feed) (depth : Nat) (known : Answers) (o : Outcome α)
    (plain : Except Stop α) (log : List Event) : Prop where
  result : o.result = plain
  events : o.events = Event.dropKnown known.requests log
  depth : o.state.depth = depth
  agree : Answers.Agree o.state.answers feed
  /-- The answers behind it are those known before and all that have been given. -/
  requests : ∀ r, r ∈ Answers.requests o.state.answers ↔
    r ∈ known.requests ∨ r ∈ Event.requests log ∧ feed.Answered r
  /-- A request without an answer ends the computation. -/
  answered : ∀ a, plain = .ok a → ∀ r ∈ Event.requests log, feed.Answered r

/-- Inside of so many lists, what `y` does without keeping answers depends on the feed alone, and
`x` does the same keeping them. -/
def Transparent {α : Type} (x y : Eval α) : Prop :=
  ∀ feed limit depth, ∃ plain log,
    (∀ st : EvalState, st.depth = depth → Plain st (y ⟨feed, limit, false⟩ st) plain log) ∧
    ∀ st : EvalState, st.depth = depth → st.answers.Agree feed →
      Cached feed depth st.answers (x ⟨feed, limit, true⟩ st) plain log

namespace Transparent

open Eval

variable {α β : Type}

/-- A computation that asks nothing and does the same from all states. -/
theorem of_no_requests {x : Eval α} {plain : Except Stop α} {log : List Event}
    (hnone : Event.requests log = [])
    (hx : ∀ s st, (x s st).result = plain ∧ (x s st).events = log ∧ (x s st).state.Agree st) :
    Transparent x x := by
  intro feed limit depth
  refine ⟨plain, log, fun st hst => ?_, fun st hst hknown => ?_⟩
  · obtain ⟨hresult, hevents, hstate⟩ := hx ⟨feed, limit, false⟩ st
    exact ⟨hresult, hevents, hstate⟩
  · obtain ⟨hresult, hevents, hstate⟩ := hx ⟨feed, limit, true⟩ st
    refine ⟨hresult, ?_, hstate.depth.trans hst, ?_, fun r => ?_, fun a _ r hr => ?_⟩
    · rw [hevents, Event.dropKnown_of_no_requests hnone]
    · rwa [hstate.answers]
    · rw [hstate.answers, hnone]
      simp
    · rw [hnone] at hr
      cases hr

theorem bind {x y : Eval α} {f g : α → Eval β} (hxy : Transparent x y)
    (hfg : ∀ a, Transparent (f a) (g a)) : Transparent (x >>= f) (y >>= g) := by
  intro feed limit depth
  obtain ⟨plain, log, hy, hx⟩ := hxy feed limit depth
  cases plain with
  | error e =>
    refine ⟨.error e, log, fun st hst => ?_, fun st hst hknown => ?_⟩
    · have h := hy st hst
      rw [run_bind_of_error h.result]
      exact ⟨rfl, h.events, h.state⟩
    · have h := hx st hst hknown
      rw [run_bind_of_error h.result]
      exact ⟨rfl, h.events, h.depth, h.agree, h.requests, fun b hb => by cases hb⟩
  | ok a =>
    obtain ⟨plain', log', hg, hf⟩ := hfg a feed limit depth
    refine ⟨plain', log ++ log', fun st hst => ?_, fun st hst hknown => ?_⟩
    · have h := hy st hst
      have h' := hg _ (h.state.depth.trans hst)
      rw [run_bind_of_ok h.result]
      exact ⟨h'.result, congrArg₂ (· ++ ·) h.events h'.events, h'.state.trans h.state⟩
    · have h := hx st hst hknown
      have h' := hf _ h.depth h.agree
      -- `x` has a value, so all it asked for is known to `f a`.
      have hall : ∀ r ∈ Event.requests log, feed.Answered r := h.answered a rfl
      rw [run_bind_of_ok h.result]
      refine ⟨h'.result, ?_, h'.depth, h'.agree, fun r => ?_, fun b hb r hr => ?_⟩
      · show _ ++ _ = _
        rw [h.events, h'.events, Event.dropKnown_append]
        congr 1
        apply Event.dropKnown_congr
        intro r
        rw [h.requests, List.mem_append]
        constructor
        · rintro (hr | ⟨hr, -⟩)
          · exact .inr hr
          · exact .inl hr
        · rintro (hr | hr)
          · exact .inr ⟨hr, hall r hr⟩
          · exact .inl hr
      · rw [h'.requests, h.requests, Event.requests_append, List.mem_append, or_and_right, or_assoc]
      · rw [Event.requests_append] at hr
        rcases List.mem_append.1 hr with hr | hr
        · exact hall r hr
        · exact h'.answered b hb r hr

section Fetch

variable {feed : Feed} {limit : Option Nat} {st : EvalState} {r : Request} {v : Decimal}
  {e : LookupError}

theorem fetch_of_known (h : st.answers.lookup r = some v) (n : Node) :
    Eval.fetch n r ⟨feed, limit, true⟩ st = ⟨.ok v, [], st⟩ := by
  simp only [Eval.fetch, h, if_true]

/-- Without a known answer it makes no difference to the request whether the answers are kept. -/
theorem fetch_of_unknown (h : st.answers.lookup r = none) (n : Node) (reuse : Bool) :
    Eval.fetch n r ⟨feed, limit, reuse⟩ st = Eval.ask n r ⟨feed, limit, reuse⟩ st := by
  cases reuse with
  | true => simp only [Eval.fetch, h, if_true]
  | false => rfl

theorem ask_of_answered (h : feed r = .ok v) (n : Node) (reuse : Bool) :
    Eval.ask n r ⟨feed, limit, reuse⟩ st =
      ⟨.ok v, [.asked r], if reuse then st.keep r v else st⟩ := by
  simp only [Eval.ask, h]

theorem ask_of_refused (h : feed r = .error e) (n : Node) (reuse : Bool) :
    Eval.ask n r ⟨feed, limit, reuse⟩ st =
      ⟨.error (.error (.atNode n (.unavailable r e))), [.asked r], st⟩ := by
  simp only [Eval.ask, h]

theorem mem_requests_asked {r' : Request} : r' ∈ Event.requests [.asked r] ↔ r' = r :=
  List.mem_singleton

/-- A request that is not known stays. -/
theorem dropKnown_asked {known : Answers} (h : known.lookup r = none) :
    Event.dropKnown known.requests [.asked r] = [.asked r] :=
  if_neg (Answers.not_mem_requests_of_lookup h)

theorem cached_known (hknown : st.answers.Agree feed) (h : st.answers.lookup r = some v) :
    Cached feed st.depth st.answers ⟨.ok v, [], st⟩ (.ok v) [.asked r] where
  result := rfl
  events := (if_pos (Answers.mem_requests_of_lookup h)).symm
  depth := rfl
  agree := hknown
  requests r' := by
    rw [mem_requests_asked]
    constructor
    · exact .inl
    · rintro (h' | ⟨rfl, -⟩)
      · exact h'
      · exact Answers.mem_requests_of_lookup h
  answered _ _ r' hr' := by
    rw [mem_requests_asked.1 hr']
    exact ⟨v, hknown r v h⟩

theorem cached_answered (hknown : st.answers.Agree feed) (h : st.answers.lookup r = none)
    (hr : feed r = .ok v) :
    Cached feed st.depth st.answers ⟨.ok v, [.asked r], st.keep r v⟩ (.ok v) [.asked r] where
  result := rfl
  events := (dropKnown_asked h).symm
  depth := rfl
  agree := hknown.cons hr
  requests r' := by
    show r' ∈ r :: st.answers.requests ↔ _
    rw [List.mem_cons, mem_requests_asked]
    constructor
    · rintro (rfl | h')
      · exact .inr ⟨rfl, v, hr⟩
      · exact .inl h'
    · rintro (h' | ⟨rfl, -⟩)
      · exact .inr h'
      · exact .inl rfl
  answered _ _ r' hr' := by
    rw [mem_requests_asked.1 hr']
    exact ⟨v, hr⟩

/-- A refusal is not kept. -/
theorem cached_refused {stop : Stop} (hknown : st.answers.Agree feed)
    (h : st.answers.lookup r = none) (hr : feed r = .error e) :
    Cached feed st.depth st.answers (⟨.error stop, [.asked r], st⟩ : Outcome α) (.error stop)
      [.asked r] where
  result := rfl
  events := (dropKnown_asked h).symm
  depth := rfl
  agree := hknown
  requests r' := by
    rw [mem_requests_asked]
    constructor
    · exact .inl
    · rintro (h' | ⟨rfl, v, hv⟩)
      · exact h'
      · rw [hr] at hv
        cases hv
  answered _ ha := by cases ha

end Fetch

theorem fetch (n : Node) (r : Request) : Transparent (Eval.fetch n r) (Eval.fetch n r) := by
  intro feed limit depth
  cases hr : feed r with
  | ok v =>
    refine ⟨.ok v, [.asked r], fun st hst => ?_, fun st hst hknown => ?_⟩
    · rw [show Eval.fetch n r ⟨feed, limit, false⟩ st = _ from ask_of_answered hr n false]
      exact ⟨rfl, rfl, .refl st⟩
    · subst hst
      cases hlookup : st.answers.lookup r with
      | some w =>
        have hw : w = v := Except.ok.inj ((hknown r w hlookup).symm.trans hr)
        rw [fetch_of_known hlookup, ← hw]
        exact cached_known hknown hlookup
      | none =>
        rw [fetch_of_unknown hlookup, ask_of_answered hr]
        exact cached_answered hknown hlookup hr
  | error e =>
    refine ⟨.error (.error (.atNode n (.unavailable r e))), [.asked r], fun st hst => ?_,
      fun st hst hknown => ?_⟩
    · rw [show Eval.fetch n r ⟨feed, limit, false⟩ st = _ from ask_of_refused hr n false]
      exact ⟨rfl, rfl, .refl st⟩
    · subst hst
      cases hlookup : st.answers.lookup r with
      | some w =>
        have hw := hknown r w hlookup
        rw [hr] at hw
        cases hw
      | none =>
        rw [fetch_of_unknown hlookup, ask_of_refused hr]
        exact cached_refused hknown hlookup hr

theorem fail (n : Node) (problem : EvalProblem) :
    Transparent (Eval.fail (α := α) n problem) (Eval.fail n problem) :=
  of_no_requests rfl fun _ st => ⟨rfl, rfl, .refl st⟩

theorem emit {event : Event} (h : event.request? = none) :
    Transparent (Eval.emit event) (Eval.emit event) :=
  have hnone : Event.requests [event] = [] := List.filterMap_cons_none h
  of_no_requests hnone fun _ st => ⟨rfl, rfl, st.write_answers event, st.write_depth event⟩

/-- Inside of a list there is one list more around both computations. -/
theorem nested {x y : Eval α} (n : Node) (hxy : Transparent x y) :
    Transparent (Eval.nested n x) (Eval.nested n y) := by
  intro feed limit depth
  by_cases hdeep : limit.any (· ≤ depth) = true
  · obtain ⟨plain, log, hy, hx⟩ := fail (α := α) n .nestedTooDeep feed limit depth
    refine ⟨plain, log, fun st hst => ?_, fun st hst => ?_⟩ <;> unfold Eval.nested <;>
      dsimp only <;> rw [hst, if_pos hdeep]
    · exact hy st hst
    · exact hx st hst
  · obtain ⟨plain, log, hy, hx⟩ := hxy feed limit (depth + 1)
    refine ⟨plain, log, fun st hst => ?_, fun st hst hknown => ?_⟩ <;> subst hst <;>
      unfold Eval.nested <;> rw [if_neg hdeep]
    · have h := hy { st with depth := st.depth + 1 } rfl
      exact ⟨h.result, h.events, h.state.setDepth (· - 1)⟩
    · have h := hx { st with depth := st.depth + 1 } rfl hknown
      exact ⟨h.result, h.events, congrArg (· - 1) h.depth, h.agree, h.requests, h.answered⟩

end Transparent

/-- **Transparency of kept answers** for all that evaluations are made of. -/
def cacheSimulation : TreeSimulation where
  node := Eq
  rel := Transparent
  pure _ := Transparent.of_no_requests rfl fun _ st => ⟨rfl, rfl, .refl st⟩
  bind := Transparent.bind
  fail _ h := by
    rw [h]
    exact Transparent.fail _ _
  fault _ := Transparent.of_no_requests rfl fun _ st => ⟨rfl, rfl, .refl st⟩
  record _ := Transparent.emit rfl
  quote _ h := by
    rw [h]
    exact Transparent.emit rfl
  setMetadata _ _ := Transparent.emit rfl
  atom := TreeSimulation.atom_of_eq
  list := TreeSimulation.list_of_eq
  begun _ := Transparent.emit rfl
  found _ _ := Transparent.emit rfl
  nested h hxy := by
    rw [h]
    exact Transparent.nested _ hxy
  fetch request h := by
    rw [h]
    exact Transparent.fetch _ request

/-! ## Evaluations in one context -/

theorem evalStrategy_transparent (n : Node) : Transparent n.evalStrategy n.evalStrategy :=
  cacheSimulation.evalStrategy rfl

theorem evalStrategy_cached {feed : Feed} {context : Context} (h : context.answers.Agree feed)
    (limit : Option Nat) (n : Node) :
    Cached feed 0 context.answers (n.evalStrategy ⟨feed, limit, true⟩ (.initial context))
      (n.evalStrategy ⟨feed, limit, false⟩ (.initial context)).result
      (n.evalStrategy ⟨feed, limit, false⟩ (.initial context)).events := by
  obtain ⟨plain, log, hy, hx⟩ := evalStrategy_transparent n feed limit 0
  have hplain := hy (.initial context) rfl
  rw [hplain.result, hplain.events]
  exact hx (.initial context) rfl h

/-- Without keeping answers the requests do not depend on the context. -/
theorem evaluate_plain_requests (feed : Feed) (limit : Option Nat) (n : Node)
    (context context' : Context) :
    (evaluate n ⟨feed, limit, false⟩ context).requests =
      (evaluate n ⟨feed, limit, false⟩ context').requests := by
  obtain ⟨plain, log, hy, -⟩ := evalStrategy_transparent n feed limit 0
  exact congrArg Event.requests
    ((hy (.initial context) rfl).events.trans (hy (.initial context') rfl).events.symm)

/-- Evaluations one after the other, each in the context that the one before leaves. -/
def evaluateAll (setting : Setting) : List Node → Context → List Run
  | [], _ => []
  | n :: ns, context =>
    let run := evaluate n setting context
    run :: evaluateAll setting ns run.context

section Runs

variable {feed : Feed} {context : Context} (h : context.answers.Agree feed)
  (limit : Option Nat)

include h

theorem evaluate_agree (n : Node) :
    (evaluate n ⟨feed, limit, true⟩ context).context.answers.Agree feed :=
  (evalStrategy_cached h limit n).agree

theorem evaluate_requests (n : Node) :
    (evaluate n ⟨feed, limit, true⟩ context).requests =
      newRequests context.answers.requests
        (evaluate n ⟨feed, limit, false⟩ context).requests := by
  show Event.requests _ = _
  rw [(evalStrategy_cached h limit n).events, Event.requests_dropKnown]
  rfl

theorem evaluate_requests_nodup (n : Node) :
    (evaluate n ⟨feed, limit, true⟩ context).requests.Nodup := by
  rw [evaluate_requests h]
  exact newRequests_nodup _ _

/-- What is known behind an evaluation: what was known before and what it has been given. -/
theorem mem_requests_evaluate (n : Node) (r : Request) :
    r ∈ (evaluate n ⟨feed, limit, true⟩ context).context.answers.requests ↔
      r ∈ context.answers.requests ∨
        r ∈ (evaluate n ⟨feed, limit, false⟩ context).requests ∧ feed.Answered r :=
  (evalStrategy_cached h limit n).requests r

/-- The requests of evaluations that follow: none is known before, and none is made again behind
an answer. -/
theorem evaluateAll_requests (ns : List Node) :
    (∀ r ∈ (evaluateAll ⟨feed, limit, true⟩ ns context).flatMap Run.requests,
      r ∉ context.answers.requests) ∧
    ((evaluateAll ⟨feed, limit, true⟩ ns context).flatMap Run.requests).Pairwise
      fun r r' => feed.Answered r → r' ≠ r := by
  induction ns generalizing context with
  | nil => exact ⟨fun r hr => absurd hr List.not_mem_nil, .nil⟩
  | cons n ns ih =>
    obtain ⟨hnew, hpairwise⟩ := ih (evaluate_agree h limit n)
    have hknown := mem_requests_evaluate h limit n
    have hfirst : ∀ r ∈ (evaluate n ⟨feed, limit, true⟩ context).requests,
        r ∈ (evaluate n ⟨feed, limit, false⟩ context).requests ∧ r ∉ context.answers.requests := by
      intro r hr
      rw [evaluate_requests h] at hr
      exact mem_newRequests hr
    unfold evaluateAll
    dsimp only
    rw [List.flatMap_cons]
    refine ⟨fun r hr => ?_, List.pairwise_append.2 ⟨?_, hpairwise, ?_⟩⟩
    · rcases List.mem_append.1 hr with hr | hr
      · exact (hfirst r hr).2
      · intro hmem
        exact hnew r hr ((hknown r).2 (.inl hmem))
    · exact (evaluate_requests_nodup h limit n).imp fun hne _ heq => hne heq.symm
    · intro r hr r' hr' hanswered heq
      rw [heq] at hr'
      exact hnew r hr' ((hknown r).2 (.inr ⟨(hfirst r hr).1, hanswered⟩))

/-- An evaluation that has succeeded asks nothing when it is made again. -/
theorem evaluate_again (n : Node) {a : Allocation}
    (ha : (evaluate n ⟨feed, limit, true⟩ context).result = .ok a) :
    (evaluate n ⟨feed, limit, true⟩
      (evaluate n ⟨feed, limit, true⟩ context).context).requests = [] := by
  have hcached := evalStrategy_cached h limit n
  obtain ⟨b, hb, -⟩ := evaluate_eq_ok ha
  rw [hcached.result] at hb
  rw [evaluate_requests (evaluate_agree h limit n),
    evaluate_plain_requests feed limit n _ context]
  apply newRequests_eq_nil
  intro r hr
  exact (mem_requests_evaluate h limit n r).2 (.inr ⟨hr, hcached.answered b hb r hr⟩)

end Runs

/-- **Transparency of the cache.** Against answers that agree with the feed, an evaluation that
keeps answers has the result, the trace and the metadata of the one that asks the feed each time,
and makes those of its requests that are neither known nor made before. So it repeats no request,
no evaluation in the same context makes a request again that has been answered, and one that
succeeded makes none when it is made again. -/
theorem evaluate_cache_transparent (feed : Feed) (limit : Option Nat) (context : Context)
    (h : context.answers.Agree feed) :
    (∀ n, let cached := evaluate n ⟨feed, limit, true⟩ context
      let plain := evaluate n ⟨feed, limit, false⟩ context
      cached.result = plain.result ∧ cached.context.trace = plain.context.trace ∧
        cached.context.metadata = plain.context.metadata ∧
        cached.requests = newRequests context.answers.requests plain.requests) ∧
    (∀ n, (evaluate n ⟨feed, limit, true⟩ .fresh).requests.Nodup) ∧
    (∀ ns, ((evaluateAll ⟨feed, limit, true⟩ ns context).flatMap Run.requests).Pairwise
      fun r r' => feed.Answered r → r' ≠ r) ∧
    ∀ n a, (evaluate n ⟨feed, limit, true⟩ context).result = .ok a →
      (evaluate n ⟨feed, limit, true⟩
        (evaluate n ⟨feed, limit, true⟩ context).context).requests = [] := by
  refine ⟨fun n => ?_, evaluate_requests_nodup (Answers.agree_nil feed) limit,
    fun ns => (evaluateAll_requests h limit ns).2, fun n a ha => evaluate_again h limit n ha⟩
  have hcached := evalStrategy_cached h limit n
  have hsteps := congrArg Event.steps hcached.events
  have hnotes := congrArg Event.notes hcached.events
  rw [Event.steps_dropKnown] at hsteps
  rw [Event.notes_dropKnown] at hnotes
  refine ⟨?_, ?_, ?_, evaluate_requests h limit n⟩ <;> rw [evaluate_eq, evaluate_eq] <;>
    dsimp only [Context.after]
  · rw [hcached.result, hnotes]
  · rw [hsteps]
  · rw [hnotes]

/-- Of three requests one is made once more, and one is known before. -/
theorem evaluate_cache_leaves_one :
    ∃ n, Node.ofSource
        "(if (> (+ (rsi \"A\" 3) (rsi \"A\" 3)) (rsi \"B\" 3)) (asset \"A\"))" = .ok n ∧
      (evaluate n ⟨fun _ => .ok .one, some maxDepth, false⟩
        ⟨[], .empty, [(⟨"B", .rsi, 3⟩, .one)]⟩).requests =
          [⟨"A", .rsi, 3⟩, ⟨"A", .rsi, 3⟩, ⟨"B", .rsi, 3⟩] ∧
      (evaluate n ⟨fun _ => .ok .one, some maxDepth, true⟩
        ⟨[], .empty, [(⟨"B", .rsi, 3⟩, .one)]⟩).requests = [⟨"A", .rsi, 3⟩] := by
  have hrun : (match Node.ofSource
        "(if (> (+ (rsi \"A\" 3) (rsi \"A\" 3)) (rsi \"B\" 3)) (asset \"A\"))" with
      | .ok n => decide ((evaluate n ⟨fun _ => .ok .one, some maxDepth, false⟩
          ⟨[], .empty, [(⟨"B", .rsi, 3⟩, .one)]⟩).requests =
            [⟨"A", .rsi, 3⟩, ⟨"A", .rsi, 3⟩, ⟨"B", .rsi, 3⟩])
      | .error _ => false) = true := by decide +kernel
  split at hrun
  · rename_i n hn
    have hplain := of_decide_eq_true hrun
    have hagree : Answers.Agree [(⟨"B", .rsi, 3⟩, .one)] fun _ => .ok .one :=
      (Answers.agree_nil _).cons rfl
    refine ⟨n, hn, hplain, ?_⟩
    rw [((evaluate_cache_transparent _ _ ⟨[], .empty, _⟩ hagree).1 n).2.2.2, hplain]
    decide
  · cases hrun

end AllocScript
