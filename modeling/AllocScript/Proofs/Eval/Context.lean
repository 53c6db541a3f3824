import AllocScript.Proofs.Eval.Metadata
import AllocScript.Proofs.Eval.Simulation

/-!
# What a context is to an evaluation

An evaluation goes from state to state, and each computation in it has the whole state at hand. Two
things are shown of all computations that an evaluation is made of (`frameSimulation`):

* From states that agree in the answers and in the number of lists around them, whatever their
  traces and metadata are, a computation does the same and leaves states that agree again.
* It leaves behind what its events tell (`Context.after`): its decisions stand behind the trace as
  it was, and its texts lie over the metadata. Every list that it begins to evaluate it also leaves,
  so the number of lists around it is what it was, also where it stops.

So an evaluation can be told by its events (`evaluate_eq`), and trace and metadata are written and
never read (`evaluate_frame`).
-/

namespace AllocScript

namespace Context

variable {α β : Type}

/-- Writes texts one after the other. -/
def writeNotes (metadata : TextMap String) (notes : List (String × String)) : TextMap String :=
  notes.foldl (fun m note => m.insert note.1 note.2) metadata

/-- Texts that are written lie over those before them, the last one under a key on top. -/
theorem get?_writeNotes (metadata : TextMap String) (notes : List (String × String))
    (key : String) :
    (writeNotes metadata notes).get? key = (notes.reverse.lookup key).or (metadata.get? key) :=
  TextMap.get?_foldl_insert notes metadata key

/-- A context with what the events of an outcome tell, and the answers that it leaves. -/
def after (c : Context) (o : Outcome α) : Context :=
  ⟨c.trace ++ Event.steps o.events, writeNotes c.metadata (Event.notes o.events),
    o.state.answers⟩

theorem after_append (c : Context) (o : Outcome α) (o' : Outcome β) :
    (c.after o).after o' = c.after ⟨o'.result, o.events ++ o'.events, o'.state⟩ := by
  simp only [after, Event.steps, Event.notes, writeNotes, List.filterMap_append,
    List.foldl_append, List.append_assoc]

end Context

/-! ## States that agree -/

/-- The states differ at most in what is written and not read. -/
structure EvalState.Agree (st st' : EvalState) : Prop where
  answers : st.answers = st'.answers
  depth : st.depth = st'.depth

namespace EvalState

variable {st st' : EvalState}

@[simp] theorem write_answers (st : EvalState) (e : Event) :
    (st.write e).answers = st.answers := by
  cases e <;> rfl

@[simp] theorem write_depth (st : EvalState) (e : Event) : (st.write e).depth = st.depth := by
  cases e <;> rfl

namespace Agree

theorem refl (st : EvalState) : st.Agree st := ⟨rfl, rfl⟩

theorem trans {st'' : EvalState} (h : st.Agree st') (h' : st'.Agree st'') : st.Agree st'' :=
  ⟨h.answers.trans h'.answers, h.depth.trans h'.depth⟩

theorem write (h : st.Agree st') (e e' : Event) : (st.write e).Agree (st'.write e') :=
  ⟨by simpa using h.answers, by simpa using h.depth⟩

theorem keep (h : st.Agree st') (r : Request) (v : Decimal) : (st.keep r v).Agree (st'.keep r v) :=
  ⟨congrArg ((r, v) :: ·) h.answers, h.depth⟩

/-- One more list around them, and one less, is the same for both. -/
theorem setDepth (h : st.Agree st') (f : Nat → Nat) :
    ({ st with depth := f st.depth } : EvalState).Agree { st' with depth := f st'.depth } :=
  ⟨h.answers, congrArg f h.depth⟩

end Agree

end EvalState

/-- The outcomes differ at most in what is written and not read. -/
structure Outcome.Agree {α : Type} (o o' : Outcome α) : Prop where
  result : o.result = o'.result
  events : o.events = o'.events
  state : o.state.Agree o'.state

/-! ## Framed computations -/

/-- From states that agree the computation does the same, and it leaves behind what its events
tell. -/
structure Framed {α : Type} (x : Eval α) : Prop where
  agree : ∀ s {st st'}, st.Agree st' → (x s st).Agree (x s st')
  state : ∀ s st, (x s st).state = ⟨st.toContext.after (x s st), st.depth⟩

namespace Framed

open Eval

variable {α β : Type} {x : Eval α}

/-- As many lists are around a state behind a computation as before it. -/
theorem depth (h : Framed x) (s : Setting) (st : EvalState) : (x s st).state.depth = st.depth :=
  (congrArg EvalState.depth (h.state s st) :)

theorem context (h : Framed x) (s : Setting) (st : EvalState) :
    (x s st).state.toContext = st.toContext.after (x s st) :=
  (congrArg EvalState.toContext (h.state s st) :)

/-- Where no decision is taken the trace stays. -/
theorem state_eq_after {o : Outcome α} {st : EvalState} (hsteps : Event.steps o.events = [])
    (htrace : o.state.trace = st.trace)
    (hmetadata : o.state.metadata = Context.writeNotes st.metadata (Event.notes o.events))
    (hdepth : o.state.depth = st.depth) : o.state = ⟨st.toContext.after o, st.depth⟩ := by
  rw [Context.after, hsteps, List.append_nil, ← htrace, ← hmetadata, ← hdepth]

/-- A computation that ends at once and leaves the state as it is. -/
theorem of_still {result : Except Stop α} (h : ∀ s st, x s st = ⟨result, [], st⟩) : Framed x where
  agree s st st' hst := by
    rw [h, h]
    exact ⟨rfl, rfl, hst⟩
  state s st := by
    rw [h]
    exact state_eq_after rfl rfl rfl rfl

theorem pure (a : α) : Framed (Pure.pure a) := of_still fun _ _ => rfl

theorem fail (n : Node) (problem : EvalProblem) : Framed (Eval.fail (α := α) n problem) :=
  of_still fun _ _ => rfl

theorem fault (f : Fault) : Framed (Eval.fault (α := α) f) := of_still fun _ _ => rfl

/-- A sequence hands the state on. -/
theorem bind {f : α → Eval β} (hx : Framed x) (hf : ∀ a, Framed (f a)) : Framed (x >>= f) where
  agree s st st' hst := by
    obtain ⟨hresult, hevents, hstate⟩ := hx.agree s hst
    cases hr : (x s st').result with
    | error e =>
      rw [run_bind_of_error hr, run_bind_of_error (hresult.trans hr)]
      exact ⟨rfl, hevents, hstate⟩
    | ok a =>
      obtain ⟨hresult', hevents', hstate'⟩ := (hf a).agree s hstate
      rw [run_bind_of_ok hr, run_bind_of_ok (hresult.trans hr)]
      exact ⟨hresult', congrArg₂ (· ++ ·) hevents hevents', hstate'⟩
  state s st := by
    have hfirst := hx.state s st
    cases hr : (x s st).result with
    | error e =>
      rw [run_bind_of_error hr]
      exact hfirst
    | ok a =>
      rw [run_bind_of_ok hr]
      have hrest := (hf a).state s (x s st).state
      generalize f a s (x s st).state = o at hrest ⊢
      rw [hfirst, Context.after_append] at hrest
      exact hrest

/-- A decision is put behind the trace, a text takes the place of the one before it under its key,
and other events change nothing. -/
theorem emit (e : Event) : Framed (Eval.emit e) where
  agree _ _ _ hst := ⟨rfl, rfl, hst.write e e⟩
  state s st := by
    cases e with
    | decided step => rfl
    | _ => exact state_eq_after rfl rfl rfl rfl

/-- The list that is begun is left again, and stands in as many lists in both runs. -/
theorem nested (n : Node) (hx : Framed x) : Framed (Eval.nested n x) where
  agree s st st' hst := by
    unfold Eval.nested
    by_cases hdeep : s.depthLimit.any (· ≤ st'.depth) = true
    · rw [if_pos (hst.depth ▸ hdeep), if_pos hdeep]
      exact ⟨rfl, rfl, hst⟩
    · rw [if_neg (hst.depth ▸ hdeep), if_neg hdeep]
      obtain ⟨hresult, hevents, hstate⟩ := hx.agree s (hst.setDepth (· + 1))
      exact ⟨hresult, hevents, hstate.setDepth (· - 1)⟩
  state s st := by
    unfold Eval.nested
    split
    · exact (fail n .nestedTooDeep).state s st
    · exact congrArg (fun st : EvalState => { st with depth := st.depth - 1 }) (hx.state s _)

/-- An answer is kept in both states or in neither. -/
theorem ask (n : Node) (r : Request) : Framed (Eval.ask n r) where
  agree s st st' hst := by
    unfold Eval.ask
    cases s.feed r with
    | error e => exact ⟨rfl, rfl, hst⟩
    | ok v =>
      refine ⟨rfl, rfl, ?_⟩
      cases s.reuse with
      | true => exact hst.keep r v
      | false => exact hst
  state s st := by
    unfold Eval.ask
    cases s.feed r with
    | error e => exact state_eq_after rfl rfl rfl rfl
    | ok v => cases s.reuse <;> exact state_eq_after rfl rfl rfl rfl

theorem fetch (n : Node) (r : Request) : Framed (Eval.fetch n r) where
  agree s st st' hst := by
    unfold Eval.fetch
    rw [hst.answers]
    split
    · exact ⟨rfl, rfl, hst⟩
    · exact (ask n r).agree s hst
  state s st := by
    unfold Eval.fetch
    split
    · exact (of_still (x := fun _ st => ⟨.ok _, [], st⟩) fun _ _ => rfl).state s st
    · exact (ask n r).state s st

end Framed

/-- **All that evaluations are made of is framed.** -/
def frameSimulation : TreeSimulation where
  node := Eq
  rel x _ := Framed x
  pure := Framed.pure
  bind := Framed.bind
  fail _ _ := .fail _ _
  fault := Framed.fault
  record _ := .emit _
  quote _ _ := .emit _
  fetch r _ := .fetch _ r
  setMetadata _ _ := .emit _
  atom := TreeSimulation.atom_of_eq
  list := TreeSimulation.list_of_eq
  begun _ := .emit _
  found _ _ := .emit _
  nested _ hx := .nested _ hx

namespace Node

theorem eval_framed (n : Node) (path : NodePath) : Framed (n.eval path) :=
  frameSimulation.eval rfl path

theorem operandsOf_framed (ns : List Node) (path : NodePath) (index : Nat) :
    List.Forall₂ frameSimulation.Operands (operandsOf ns path index) (operandsOf ns path index) :=
  frameSimulation.operandsOf ns ns (List.forall₂_same.2 fun _ _ => rfl) path index

theorem framed_of_mem_operandsOf (ns : List Node) (path : NodePath) (index : Nat) :
    ∀ o ∈ operandsOf ns path index, Framed o.value := fun o ho =>
  (List.forall₂_same.1 (operandsOf_framed ns path index) o ho).value

theorem evalList_framed (kind : ListKind) (children : List Node) (p : Nat) (path : NodePath) :
    Framed (evalList (.list kind children p) kind (operandsOf children path 0)) :=
  Simulation.evalList (S := frameSimulation.toSimulation) (n := .list kind children p) rfl rfl kind
    (operandsOf_framed children path 0)

theorem evalStrategy_framed (n : Node) : Framed n.evalStrategy := frameSimulation.evalStrategy rfl

end Node

/-! ## Evaluations in a context -/

/-- The context behind an evaluation is what the one before becomes by its events. -/
theorem evaluate_context (n : Node) (setting : Setting) (context : Context) :
    (evaluate n setting context).context =
      context.after (n.evalStrategy setting (.initial context)) :=
  n.evalStrategy_framed.context setting (.initial context)

/-- Evaluations that write the same texts leave the same metadata. -/
theorem metadata_eq_of_notes {n n' : Node} {setting : Setting} {context : Context}
    (h : Event.notes (n.evalStrategy setting (.initial context)).events =
      Event.notes (n'.evalStrategy setting (.initial context)).events) :
    (evaluate n setting context).context.metadata =
      (evaluate n' setting context).context.metadata := by
  rw [evaluate_context, evaluate_context]
  exact congrArg (Context.writeNotes context.metadata) h

/-- **An evaluation is told by its events.** -/
theorem evaluate_eq (n : Node) (setting : Setting) (context : Context) :
    let o := n.evalStrategy setting (.initial context)
    evaluate n setting context =
      ⟨o.result.map (·.withMetadata (context.after o).metadata), context.after o,
        Event.requests o.events⟩ := by
  unfold evaluate
  dsimp only
  rw [n.evalStrategy_framed.context]
  rfl

/-- **Trace and metadata are written and never read.** From the same answers, whatever the trace and
the metadata are, an evaluation gives the same weights or the same error, makes the same requests
and leaves the same answers. It puts the same steps behind the trace, and over the metadata it lays
the same texts, the last one under a key on top, whether it succeeds or fails. If there is an
allocation, its metadata are those of the context that is left. -/
theorem evaluate_frame (n : Node) (setting : Setting) (known : Answers) :
    ∃ (result : Except Stop (TextMap Decimal)) (requests : List Request) (answers : Answers)
      (steps : List String) (notes : List (String × String)),
      ∀ (trace : List String) (metadata : TextMap String),
        let run := evaluate n setting ⟨trace, metadata, known⟩
        run.result = result.map (fun weights => ⟨weights, run.context.metadata⟩) ∧
        run.requests = requests ∧ run.context.answers = answers ∧
        run.context.trace = trace ++ steps ∧
        ∀ key, run.context.metadata.get? key =
          (notes.reverse.lookup key).or (metadata.get? key) := by
  -- The run from an empty trace and no metadata stands for all of them.
  generalize ho : n.evalStrategy setting (.initial ⟨[], .empty, known⟩) = o
  refine ⟨o.result.map (·.weights), Event.requests o.events, o.state.answers,
    Event.steps o.events, Event.notes o.events, fun trace metadata => ?_⟩
  have hagree : (EvalState.initial ⟨trace, metadata, known⟩).Agree
      (.initial ⟨[], .empty, known⟩) := ⟨rfl, rfl⟩
  obtain ⟨hresult, hevents, hstate⟩ := n.evalStrategy_framed.agree setting hagree
  rw [ho] at hresult hevents hstate
  dsimp only
  rw [evaluate_eq]
  dsimp only
  refine ⟨?_, congrArg Event.requests hevents, hstate.answers, ?_, fun key => ?_⟩
  · rw [hresult]
    cases hr : o.result with
    | error e => rfl
    | ok a =>
      have hbare : a.Bare := n.evalStrategy_bare _ _ a (by rw [ho, hr])
      exact congrArg Except.ok (Allocation.withMetadata_of_bare hbare _)
  · exact congrArg (trace ++ Event.steps ·) hevents
  · rw [← hevents]
    exact Context.get?_writeNotes metadata _ key

end AllocScript
