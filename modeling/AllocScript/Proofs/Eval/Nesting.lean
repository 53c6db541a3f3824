import AllocScript.Proofs.Eval.DepthLimit

/-!
# Where a node stands

An evaluation tells for every node at which path it begins and which value it has. Apart from that,
and from the limit on nested lists, it makes no difference where a node stands (`Node.eval_alike`):
with the same answers known before there is the same value or the same stop, and the same `effects`.
With a limit, a node that has a value has it also where fewer lists are around it
(`Node.eval_shallower`).

Effects are the events that views are made of: the trace, the texts and the requests.
-/

namespace AllocScript

namespace Event

/-- Whether an event tells of more than a node. -/
def isEffect : Event → Bool
  | begun _ | found .. => false
  | _ => true

/-- The events that tell of more than a node, in order. -/
def effects (events : List Event) : List Event := events.filter isEffect

variable {events events' : List Event}

@[simp] theorem effects_append (events events' : List Event) :
    effects (events ++ events') = effects events ++ effects events' := List.filter_append ..

theorem filterMap_effects {α : Type} {view : Event → Option α}
    (h : ∀ e, e.isEffect = false → view e = none) (events : List Event) :
    (effects events).filterMap view = events.filterMap view := by
  rw [effects, List.filterMap_filter]
  refine List.filterMap_congr fun e _ => ?_
  cases he : e.isEffect with
  | true => simp
  | false => simp [h e he]

theorem steps_effects (events : List Event) : steps (effects events) = steps events :=
  filterMap_effects (fun e he => by cases e <;> first | rfl | cases he) events

theorem notes_effects (events : List Event) : notes (effects events) = notes events :=
  filterMap_effects (fun e he => by cases e <;> first | rfl | cases he) events

theorem requests_effects (events : List Event) : requests (effects events) = requests events :=
  filterMap_effects (fun e he => by cases e <;> first | rfl | cases he) events

theorem steps_eq_of_effects (h : effects events = effects events') :
    steps events = steps events' := by
  rw [← steps_effects, h, steps_effects]

theorem notes_eq_of_effects (h : effects events = effects events') :
    notes events = notes events' := by
  rw [← notes_effects, h, notes_effects]

theorem requests_eq_of_effects (h : effects events = effects events') :
    requests events = requests events' := by
  rw [← requests_effects, h, requests_effects]

end Event

/-- The outcomes differ at most in the events that tell of nodes. -/
structure Outcome.SameEffects {α : Type} (o o' : Outcome α) : Prop where
  result : o.result = o'.result
  effects : Event.effects o.events = Event.effects o'.events
  answers : o.state.answers = o'.state.answers

namespace Outcome.SameEffects

variable {α : Type} {o o' o'' : Outcome α}

theorem symm (h : o.SameEffects o') : o'.SameEffects o :=
  ⟨h.result.symm, h.effects.symm, h.answers.symm⟩

theorem trans (h : o.SameEffects o') (h' : o'.SameEffects o'') : o.SameEffects o'' :=
  ⟨h.result.trans h'.result, h.effects.trans h'.effects, h.answers.trans h'.answers⟩

/-- What tells of nodes may tell of others. -/
theorem emit {e e' : Event} (h : e.isEffect = false) (h' : e'.isEffect = false) (s : Setting)
    {st st' : EvalState} (hst : st.answers = st'.answers) :
    (Eval.emit e s st).SameEffects (Eval.emit e' s st') where
  result := rfl
  effects := by
    show [e].filter Event.isEffect = [e'].filter Event.isEffect
    simp [h, h']
  answers := by simpa [Eval.emit] using hst

theorem write (e : Event) (s : Setting) {st st' : EvalState} (hst : st.answers = st'.answers) :
    (Eval.emit e s st).SameEffects (Eval.emit e s st') :=
  ⟨rfl, rfl, by simpa [Eval.emit] using hst⟩

theorem fetch (n : Node) (r : Request) (s : Setting) {st st' : EvalState}
    (hst : st.answers = st'.answers) :
    (Eval.fetch n r s st).SameEffects (Eval.fetch n r s st') := by
  unfold Eval.fetch
  rw [hst]
  split
  · exact ⟨rfl, rfl, hst⟩
  · unfold Eval.ask
    cases s.feed r with
    | error e => exact ⟨rfl, rfl, hst⟩
    | ok v =>
      refine ⟨rfl, rfl, ?_⟩
      cases s.reuse with
      | true => exact congrArg ((r, v) :: ·) hst
      | false => exact hst

theorem bind {β : Type} {x y : Eval α} {f g : α → Eval β} {s : Setting} {st st' : EvalState}
    (h : (x s st).SameEffects (y s st'))
    (hrest : ∀ a, (y s st').result = .ok a →
      (f a s (x s st).state).SameEffects (g a s (y s st').state)) :
    ((x >>= f) s st).SameEffects ((y >>= g) s st') := by
  obtain ⟨hresult, heffects, hanswers⟩ := h
  cases hr : (y s st').result with
  | error e =>
    rw [Eval.run_bind_of_error hr, Eval.run_bind_of_error (hresult.trans hr)]
    exact ⟨rfl, heffects, hanswers⟩
  | ok a =>
    obtain ⟨hresult', heffects', hanswers'⟩ := hrest a hr
    rw [Eval.run_bind_of_ok hr, Eval.run_bind_of_ok (hresult.trans hr)]
    refine ⟨hresult', ?_, hanswers'⟩
    rw [Event.effects_append, Event.effects_append, heffects, heffects']

/-- They leave the same context. -/
theorem after_eq (h : o.SameEffects o') (c : Context) : c.after o = c.after o' := by
  rw [Context.after, Context.after, Event.steps_eq_of_effects h.effects,
    Event.notes_eq_of_effects h.effects, h.answers]

end Outcome.SameEffects

namespace Node

open Eval

/-- Telling of the value at last makes no difference. -/
theorem found_sameEffects (x : Eval Value) (path : NodePath) (s : Setting) (st : EvalState) :
    ((x >>= fun v => emit (.found path v) >>= fun _ => pure v) s st).SameEffects (x s st) := by
  cases hr : (x s st).result with
  | ok v =>
    rw [run_bind_of_ok hr]
    exact ⟨hr.symm, by rw [Event.effects_append]; exact List.append_nil _, rfl⟩
  | error e =>
    rw [run_bind_of_error hr]
    exact ⟨hr.symm, rfl, rfl⟩

/-- Where there is room for a list, it has the value of its operands one list further in, apart from
what it tells of itself. -/
theorem eval_list_sameEffects {s : Setting} {st : EvalState}
    (hroom : ∀ limit, s.depthLimit = some limit → st.depth < limit) (kind : ListKind)
    (children : List Node) (p : Nat) (path : NodePath) :
    ((Node.list kind children p).eval path s st).SameEffects
      (evalList (.list kind children p) kind (operandsOf children path 0) s
        { st with depth := st.depth + 1 }) := by
  have hopen : s.depthLimit.any (· ≤ st.depth) = false := by
    cases hlimit : s.depthLimit with
    | none => rfl
    | some limit => simpa using hroom limit hlimit
  have hnested : (nested (.list kind children p)
      (evalList (.list kind children p) kind (operandsOf children path 0)) s st).SameEffects
        (evalList (.list kind children p) kind (operandsOf children path 0) s
          { st with depth := st.depth + 1 }) := by
    unfold nested
    rw [hopen]
    exact ⟨rfl, rfl, rfl⟩
  refine .trans ?_ hnested
  refine .trans ?_ (found_sameEffects
    (nested (.list kind children p)
      (evalList (.list kind children p) kind (operandsOf children path 0))) path s st)
  rw [Node.eval, run_begun_bind]
  exact ⟨rfl, rfl, rfl⟩

end Node

/-- Evaluations with the same effects are the same runs. -/
theorem evaluate_eq_of_sameEffects {n n' : Node} {s : Setting} {context : Context}
    (h : (n.evalStrategy s (.initial context)).SameEffects
      (n'.evalStrategy s (.initial context))) :
    evaluate n s context = evaluate n' s context := by
  rw [evaluate_eq, evaluate_eq, h.after_eq context, h.result,
    Event.requests_eq_of_effects h.effects]

/-- Without a limit on nested lists, and with the same answers known, the computations differ at
most in the events that tell of nodes. -/
def Alike {α : Type} (x y : Eval α) : Prop :=
  ∀ feed reuse {st st' : EvalState}, st.answers = st'.answers →
    (x ⟨feed, none, reuse⟩ st).SameEffects (y ⟨feed, none, reuse⟩ st')

namespace Alike

open Eval

variable {α β : Type}

theorem bind {x y : Eval α} {f g : α → Eval β} (hx : Alike x y) (hf : ∀ a, Alike (f a) (g a)) :
    Alike (x >>= f) (y >>= g) := fun feed reuse _ _ hst =>
  (hx feed reuse hst).bind fun a _ => hf a feed reuse (hx feed reuse hst).answers

theorem emit {e e' : Event} (h : e.isEffect = false) (h' : e'.isEffect = false) :
    Alike (Eval.emit e) (Eval.emit e') := fun _ _ _ _ hst => .emit h h' _ hst

theorem trans {x y z : Eval α} (h : Alike x y) (h' : Alike y z) : Alike x z :=
  fun feed reuse _ _ hst => (h feed reuse hst).trans (h' feed reuse rfl)

/-- Without a limit, it makes no difference how many lists are around a list. -/
theorem nested (n : Node) {x y : Eval α} (h : Alike x y) :
    Alike (Eval.nested n x) (Eval.nested n y) := by
  intro feed reuse st st' hst
  obtain ⟨hresult, heffects, hanswers⟩ := @h feed reuse
    { st with depth := st.depth + 1 } { st' with depth := st'.depth + 1 } hst
  exact ⟨hresult, heffects, hanswers⟩

end Alike

/-- **Computations alike** in all that operators do. -/
def nestingSimulation : Simulation where
  node := Eq
  rel := Alike
  pure _ _ _ _ _ hst := ⟨rfl, rfl, hst⟩
  bind := Alike.bind
  fail _ h _ _ _ _ hst := by
    rw [h]
    exact ⟨rfl, rfl, hst⟩
  fault _ _ _ _ _ hst := ⟨rfl, rfl, hst⟩
  record _ _ _ _ _ hst := .write _ _ hst
  quote _ h _ _ _ _ hst := by
    rw [h]
    exact .write _ _ hst
  setMetadata _ _ _ _ _ _ hst := .write _ _ hst
  fetch r h _ _ _ _ hst := by
    rw [h]
    exact .fetch _ r _ hst

namespace Node

open Eval

/-- What begins with telling of a node and ends so is like what is between. -/
theorem alike_told {path path' : NodePath} {x y : Eval Value} (h : Alike x y) :
    Alike (do emit (.begun path); let v ← x; emit (.found path v); pure v)
      (do emit (.begun path'); let v ← y; emit (.found path' v); pure v) :=
  .bind (.emit rfl rfl) fun _ => h.bind fun v => .bind (.emit rfl rfl) fun _ =>
    nestingSimulation.pure v

mutual

/-- **A node means the same wherever it stands**, as far as no limit stops it. -/
theorem eval_alike (n : Node) (path path' : NodePath) : Alike (n.eval path) (n.eval path') := by
  cases n with
  | atom a p =>
    exact alike_told
      (StepSimulation.atomEval (S := nestingSimulation.toStepSimulation) rfl a)
  | list kind children p =>
    have hoperands := operandsOf_alike children path path' 0 0
    exact alike_told
      (.nested _ (Simulation.evalList (S := nestingSimulation) rfl rfl kind hoperands))

theorem operandsOf_alike (ns : List Node) (path path' : NodePath) (index index' : Nat) :
    List.Forall₂ nestingSimulation.Operands (operandsOf ns path index)
      (operandsOf ns path' index') := by
  cases ns with
  | nil => exact .nil
  | cons n ns =>
    exact .cons ⟨rfl, eval_alike n (index :: path) (index' :: path')⟩
      (operandsOf_alike ns path path' (index + 1) (index' + 1))

end

end Node

/-! ## Fewer lists around a node -/

/-- Where `y` has a value inside of no fewer lists, the limit does not stop `x` either, and they
differ at most in the events that tell of nodes. -/
def Shallower {α : Type} (x y : Eval α) : Prop :=
  ∀ s {st st' : EvalState}, st.answers = st'.answers → st.depth ≤ st'.depth →
    ∀ a, (y s st').result = .ok a →
      (x s st).SameEffects (y s st') ∧ (x s st).state.depth ≤ (y s st').state.depth

namespace Shallower

open Eval

variable {α β : Type}

/-- Computations that do the same inside of any lists. -/
theorem of_sameEffects {x y : Eval α} (hx : Framed x) (hy : Framed y)
    (h : ∀ s {st st' : EvalState}, st.answers = st'.answers → (x s st).SameEffects (y s st')) :
    Shallower x y := fun s st st' hst hdepth _ _ =>
  ⟨h s hst, by rwa [hx.depth s st, hy.depth s st']⟩

theorem bind {x y : Eval α} {f g : α → Eval β} (hx : Shallower x y)
    (hf : ∀ a, Shallower (f a) (g a)) : Shallower (x >>= f) (y >>= g) := by
  intro s st st' hst hdepth b hb
  cases ha : (y s st').result with
  | error e =>
    rw [run_bind_of_error ha] at hb
    cases hb
  | ok a =>
    obtain ⟨hsame, hdepth'⟩ := hx s hst hdepth a ha
    have hrun := run_bind_of_ok (f := f) (hsame.result.trans ha)
    have hrun' := run_bind_of_ok (f := g) ha
    rw [hrun'] at hb
    obtain ⟨hrest, hdepth''⟩ := hf a s hsame.answers hdepth' b hb
    refine ⟨hsame.bind fun a' ha' => ?_, by rwa [hrun, hrun']⟩
    rw [ha] at ha'
    cases ha'
    exact hrest

theorem emit {e e' : Event} (h : e.isEffect = false) (h' : e'.isEffect = false) :
    Shallower (Eval.emit e) (Eval.emit e') :=
  of_sameEffects (.emit e) (.emit e') fun s _ _ hst => .emit h h' s hst

theorem nested (n : Node) {x y : Eval α} (h : Shallower x y) :
    Shallower (Eval.nested n x) (Eval.nested n y) := by
  intro s st st' hst hdepth a ha
  unfold Eval.nested at ha ⊢
  by_cases hdeep : s.depthLimit.any (· ≤ st'.depth) = true
  · rw [if_pos hdeep] at ha
    cases ha
  · have hroom : ¬ s.depthLimit.any (· ≤ st.depth) = true := by
      cases hlimit : s.depthLimit with
      | none => exact Bool.false_ne_true
      | some limit =>
        simp only [hlimit, Option.any_some, decide_eq_true_eq] at hdeep ⊢
        omega
    rw [if_neg hdeep] at ha
    rw [if_neg hdeep, if_neg hroom]
    obtain ⟨⟨hresult, heffects, hanswers⟩, hdepth'⟩ :=
      @h s { st with depth := st.depth + 1 } { st' with depth := st'.depth + 1 } hst
        (Nat.succ_le_succ hdepth) a ha
    exact ⟨⟨hresult, heffects, hanswers⟩, Nat.sub_le_sub_right hdepth' 1⟩

end Shallower

/-- **Computations inside of no more lists** in all that operators do. -/
def shallowerSimulation : Simulation where
  node := Eq
  rel := Shallower
  pure a := .of_sameEffects (.pure a) (.pure a) fun _ _ _ hst => ⟨rfl, rfl, hst⟩
  bind := Shallower.bind
  fail {_ n _ problem} _ h := by
    rw [h]
    exact .of_sameEffects (.fail _ _) (.fail _ _) fun _ _ _ hst => ⟨rfl, rfl, hst⟩
  fault f := .of_sameEffects (.fault f) (.fault f) fun _ _ _ hst => ⟨rfl, rfl, hst⟩
  record _ := .of_sameEffects (.emit _) (.emit _) fun _ _ _ hst => .write _ _ hst
  quote _ h := by
    rw [h]
    exact .of_sameEffects (.emit _) (.emit _) fun _ _ _ hst => .write _ _ hst
  setMetadata _ _ := .of_sameEffects (.emit _) (.emit _) fun _ _ _ hst => .write _ _ hst
  fetch r h := by
    rw [h]
    exact .of_sameEffects (.fetch _ r) (.fetch _ r) fun _ _ _ hst => .fetch _ r _ hst

namespace Node

mutual

/-- A node that has a value has it also where fewer lists are around it. -/
theorem eval_shallower (n : Node) (path path' : NodePath) :
    Shallower (n.eval path) (n.eval path') := by
  cases n with
  | atom a p =>
    exact .bind (.emit rfl rfl) fun _ =>
      .bind (StepSimulation.atomEval (S := shallowerSimulation.toStepSimulation) rfl a) fun v =>
        .bind (.emit rfl rfl) fun _ => shallowerSimulation.pure v
  | list kind children p =>
    have hoperands := operandsOf_shallower children path path' 0 0
    have hlist := Simulation.evalList (S := shallowerSimulation) (n := .list kind children p) rfl
      rfl kind hoperands
    exact .bind (.emit rfl rfl) fun _ => .bind (.nested _ hlist) fun v =>
      .bind (.emit rfl rfl) fun _ => shallowerSimulation.pure v

theorem operandsOf_shallower (ns : List Node) (path path' : NodePath) (index index' : Nat) :
    List.Forall₂ shallowerSimulation.Operands (operandsOf ns path index)
      (operandsOf ns path' index') := by
  cases ns with
  | nil => exact .nil
  | cons n ns =>
    exact .cons ⟨rfl, eval_shallower n (index :: path) (index' :: path')⟩
      (operandsOf_shallower ns path path' (index + 1) (index' + 1))

end

/-! ## Evaluations without a limit -/

/-- An evaluation that does not stop at the limit on nested lists is the one without a limit. -/
theorem evalStrategy_unlimited {n : Node} {feed : Feed} {limit : Option Nat} {reuse : Bool}
    {context : Context}
    (h : ¬ StopsTooDeep (n.evalStrategy ⟨feed, limit, reuse⟩ (.initial context)).result) :
    n.evalStrategy ⟨feed, limit, reuse⟩ (.initial context) =
      n.evalStrategy ⟨feed, none, reuse⟩ (.initial context) := by
  cases limit with
  | none => rfl
  | some limit =>
    have hcut := (n.evalStrategy_limited limit).cut feed reuse (.initial context) rfl
    generalize n.evalStrategy ⟨feed, some limit, reuse⟩ (.initial context) = o at h hcut
    cases hcut with
    | whole => rfl
    | short => exact absurd ⟨_, rfl, rfl⟩ h

end Node

theorem evaluate_unlimited {n : Node} {feed : Feed} {limit : Option Nat} {reuse : Bool}
    {context : Context} (h : ¬ StopsTooDeep (evaluate n ⟨feed, limit, reuse⟩ context).result) :
    evaluate n ⟨feed, limit, reuse⟩ context = evaluate n ⟨feed, none, reuse⟩ context := by
  have hstrategy := Node.evalStrategy_unlimited (n := n) (mt (stopsTooDeep_map _ _).2 h)
  unfold evaluate
  dsimp only
  rw [hstrategy]

end AllocScript
