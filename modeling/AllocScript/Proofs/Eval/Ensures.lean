import AllocScript.Eval

/-!
# What a computation ensures

`Ensures E S Q x` says of a computation `x`, whatever it runs against and whatever the state is
before it: every event that comes about satisfies `E`, a value that it ends with satisfies `Q`, and
it stops only as `S` allows. The events count also when the computation stops.

The rules have the shape of the computations: `bind` for a sequence, one rule for each primitive.
`Returns Q x` is the part of it that is about the value. `Within H E S Q x` says the same of the
runs whose events all satisfy `H`. There what follows in a sequence may rely on what has come about
before it.

`run_bind_of_ok` and `run_bind_of_error` say what a sequence does step by step; sequences obey the
laws of monads.
-/

namespace AllocScript

namespace Eval

variable {α β : Type}

/-! ## Runs of a sequence -/

theorem run_bind_of_ok {x : Eval α} {f : α → Eval β} {s : Setting} {st : EvalState} {a : α}
    (h : (x s st).result = .ok a) :
    (x >>= f) s st =
      ⟨(f a s (x s st).state).result, (x s st).events ++ (f a s (x s st).state).events,
        (f a s (x s st).state).state⟩ := by
  show Eval.bind x f s st = _
  unfold Eval.bind
  revert h
  cases x s st with
  | mk result events st' =>
    rintro rfl
    rfl

theorem run_bind_of_error {x : Eval α} {f : α → Eval β} {s : Setting} {st : EvalState} {e : Stop}
    (h : (x s st).result = .error e) :
    (x >>= f) s st = ⟨.error e, (x s st).events, (x s st).state⟩ := by
  show Eval.bind x f s st = _
  unfold Eval.bind
  revert h
  cases x s st with
  | mk result events st' =>
    rintro rfl
    rfl

/-- A sequence that ends with a value has run both of its parts. -/
theorem exists_runs_of_bind {x : Eval α} {f : α → Eval β} {s : Setting} {st : EvalState} {b : β}
    (h : ((x >>= f) s st).result = .ok b) :
    ∃ a, (x s st).result = .ok a ∧ (f a s (x s st).state).result = .ok b ∧
      ((x >>= f) s st).events =
        (x s st).events ++ (f a s (x s st).state).events := by
  cases hr : (x s st).result with
  | error e =>
    rw [run_bind_of_error hr] at h
    cases h
  | ok a =>
    rw [run_bind_of_ok hr] at h ⊢
    exact ⟨a, rfl, h, rfl⟩

/-- That a node begins leaves the state as it is. -/
theorem run_begun_bind (path : NodePath) (x : Eval α) (s : Setting) (st : EvalState) :
    (emit (.begun path) >>= fun _ => x) s st =
      ⟨(x s st).result, .begun path :: (x s st).events, (x s st).state⟩ := rfl

/-- A list that has a value has the one of its computation inside of one list more. -/
theorem run_nested_of_ok {node : Node} {x : Eval α} {s : Setting} {st : EvalState} {a : α}
    (h : (nested node x s st).result = .ok a) :
    (x s { st with depth := st.depth + 1 }).result = .ok a ∧
      (nested node x s st).events = (x s { st with depth := st.depth + 1 }).events := by
  unfold nested at h ⊢
  split at h
  · cases h
  · rename_i hroom
    rw [if_neg hroom]
    exact ⟨h, rfl⟩

/-- Sequences of computations obey the laws of monads. -/
instance : LawfulMonad Eval := by
  refine LawfulMonad.mk' Eval ?_ ?_ ?_
  · intro α x
    funext s st
    show Eval.bind x (fun a => Eval.pure a) s st = x s st
    unfold Eval.bind
    cases x s st with
    | mk result events st' =>
      cases result with
      | error e => rfl
      | ok a => simp [Eval.pure]
  · intro α β a f
    rfl
  · intro α β γ x f g
    funext s st
    show Eval.bind (Eval.bind x f) g s st = Eval.bind x (fun a => Eval.bind (f a) g) s st
    unfold Eval.bind
    cases x s st with
    | mk result events st' =>
      cases result with
      | error e => rfl
      | ok a =>
        dsimp only
        cases f a s st' with
        | mk result' events' st'' =>
          cases result' with
          | error e => rfl
          | ok b => simp [List.append_assoc]

/-! ## Guarantees -/

/-- Every event satisfies `E`, the computation stops only as `S` allows, and its value satisfies
`Q`. -/
structure Ensures (E : Event → Prop) (S : Stop → Prop) (Q : α → Prop) (x : Eval α) : Prop where
  events : ∀ s st, ∀ e ∈ (x s st).events, E e
  value : ∀ s st a, (x s st).result = .ok a → Q a
  stop : ∀ s st e, (x s st).result = .error e → S e

namespace Ensures

variable {E : Event → Prop} {S : Stop → Prop} {P P' : α → Prop} {Q : β → Prop}

theorem mono {x : Eval α} (hx : Ensures E S P x) (h : ∀ a, P a → P' a) : Ensures E S P' x :=
  ⟨hx.events, fun s st a ha => h a (hx.value s st a ha), hx.stop⟩

theorem pure {a : α} (h : P a) : Ensures E S P (Pure.pure a) where
  events _ _ e he := by cases he
  value _ _ b hb := by cases hb; exact h
  stop _ _ e he := by cases he

theorem bind {x : Eval α} {f : α → Eval β} (hx : Ensures E S P x)
    (hf : ∀ a, P a → Ensures E S Q (f a)) : Ensures E S Q (x >>= f) where
  events s st e he := by
    cases hr : (x s st).result with
    | ok a =>
      rw [run_bind_of_ok hr] at he
      rcases List.mem_append.1 he with he | he
      · exact hx.events s st e he
      · exact (hf a (hx.value s st a hr)).events _ _ e he
    | error stop =>
      rw [run_bind_of_error hr] at he
      exact hx.events s st e he
  value s st b hb := by
    cases hr : (x s st).result with
    | ok a =>
      rw [run_bind_of_ok hr] at hb
      exact (hf a (hx.value s st a hr)).value _ _ b hb
    | error stop =>
      rw [run_bind_of_error hr] at hb
      cases hb
  stop s st e he := by
    cases hr : (x s st).result with
    | ok a =>
      rw [run_bind_of_ok hr] at he
      exact (hf a (hx.value s st a hr)).stop _ _ e he
    | error stop =>
      rw [run_bind_of_error hr] at he
      cases he
      exact hx.stop s st _ hr

theorem halt {e : Stop} (h : S e) : Ensures E S P (Eval.stop e) where
  events _ _ e he := by cases he
  value _ _ a ha := by cases ha
  stop _ _ e he := by cases he; exact h

theorem fail {node : Node} {p : EvalProblem} (h : S (.error (.atNode node p))) :
    Ensures E S P (Eval.fail node p) := halt h

theorem emit {e : Event} (h : E e) : Ensures E S (fun _ => True) (Eval.emit e) where
  events _ _ e' he := by rw [List.mem_singleton.1 he]; exact h
  value _ _ _ _ := trivial
  stop _ _ e he := by cases he

theorem nested {node : Node} {x : Eval α} (h : S (.error (.atNode node .nestedTooDeep)))
    (hx : Ensures E S P x) : Ensures E S P (Eval.nested node x) where
  events s st e he := by
    unfold Eval.nested at he
    split at he
    · cases he
    · exact hx.events s _ e he
  value s st a ha := hx.value s _ a (run_nested_of_ok ha).1
  stop s st e he := by
    unfold Eval.nested at he
    split at he
    · cases he
      exact h
    · exact hx.stop s _ e he

theorem ask {node : Node} {r : Request} (hE : E (.asked r))
    (hS : ∀ e, S (.error (.atNode node (.unavailable r e)))) :
    Ensures E S (fun _ => True) (Eval.ask node r) where
  events s st e he := by
    unfold Eval.ask at he
    split at he <;> rw [List.mem_singleton.1 he] <;> exact hE
  value _ _ _ _ := trivial
  stop s st e he := by
    unfold Eval.ask at he
    split at he <;> cases he
    exact hS _

theorem fetch {node : Node} {r : Request} (hE : E (.asked r))
    (hS : ∀ e, S (.error (.atNode node (.unavailable r e)))) :
    Ensures E S (fun _ => True) (Eval.fetch node r) := by
  have hask := ask hE hS
  refine ⟨fun s st e he => ?_, fun _ _ _ _ => trivial, fun s st e he => ?_⟩
  · unfold Eval.fetch at he
    split at he
    · cases he
    · exact hask.events s st e he
  · unfold Eval.fetch at he
    split at he
    · cases he
    · exact hask.stop s st e he

end Ensures

/-! ## Guarantees of the value -/

/-- Whatever the computation does on the way, a value that it ends with satisfies `Q`. -/
def Returns (Q : α → Prop) (x : Eval α) : Prop := ∀ s st a, (x s st).result = .ok a → Q a

namespace Returns

variable {P : α → Prop} {Q : β → Prop}

theorem pure {a : α} (h : P a) : Returns P (Pure.pure a) := by
  intro _ _ b hb
  cases hb
  exact h

theorem bind {x : Eval α} {f : α → Eval β} (hx : Returns P x) (hf : ∀ a, P a → Returns Q (f a)) :
    Returns Q (x >>= f) := by
  intro s st b hb
  cases hr : (x s st).result with
  | ok a =>
    rw [run_bind_of_ok hr] at hb
    exact hf a (hx s st a hr) _ _ b hb
  | error e =>
    rw [run_bind_of_error hr] at hb
    cases hb

/-- Only what comes last has the value. -/
theorem after {x : Eval α} {f : α → Eval β} (hf : ∀ a, Returns Q (f a)) : Returns Q (x >>= f) :=
  bind (P := fun _ => True) (fun _ _ _ _ => trivial) fun a _ => hf a

theorem fail {node : Node} {problem : EvalProblem} : Returns P (Eval.fail node problem) :=
  fun _ _ _ ha => by cases ha

theorem fault {f : Fault} : Returns P (Eval.fault f) := fun _ _ _ ha => by cases ha

theorem nested {node : Node} {x : Eval α} (hx : Returns P x) : Returns P (Eval.nested node x) := by
  intro s st a ha
  exact hx s _ a (run_nested_of_ok ha).1

theorem ofWeights (r : Except Overflow α) : Returns (fun a => r = .ok a) (Eval.ofWeights r) := by
  cases r with
  | ok a => exact pure rfl
  | error kind => exact fault

end Returns

/-! ## Guarantees within a run -/

/-- In a run whose events satisfy `H`, they satisfy `E`, the computation stops only as `S` allows,
and its value satisfies `Q`. -/
structure Within (H E : Event → Prop) (S : Stop → Prop) (Q : α → Prop) (x : Eval α) : Prop where
  events : ∀ s st, (∀ e ∈ (x s st).events, H e) → ∀ e ∈ (x s st).events, E e
  value : ∀ s st a, (∀ e ∈ (x s st).events, H e) → (x s st).result = .ok a → Q a
  stop : ∀ s st e, (∀ e ∈ (x s st).events, H e) → (x s st).result = .error e → S e

namespace Within

variable {H E : Event → Prop} {S : Stop → Prop} {P P' : α → Prop} {Q : β → Prop}

theorem of_ensures {x : Eval α} (h : Ensures E S P x) : Within H E S P x :=
  ⟨fun s st _ => h.events s st, fun s st a _ => h.value s st a,
    fun s st e _ => h.stop s st e⟩

theorem mono {x : Eval α} (hx : Within H E S P x) (h : ∀ a, P a → P' a) : Within H E S P' x :=
  ⟨hx.events, fun s st a hall ha => h a (hx.value s st a hall ha), hx.stop⟩

theorem pure {a : α} (h : P a) : Within H E S P (Pure.pure a) := of_ensures (.pure h)

theorem bind {x : Eval α} {f : α → Eval β} (hx : Within H E S P x)
    (hf : ∀ a, P a → Within H E S Q (f a)) : Within H E S Q (x >>= f) where
  events s st hall := by
    cases hr : (x s st).result with
    | ok a =>
      rw [run_bind_of_ok hr] at hall ⊢
      obtain ⟨hfirst, hrest⟩ := List.forall_mem_append.1 hall
      exact List.forall_mem_append.2 ⟨hx.events s st hfirst,
        (hf a (hx.value s st a hfirst hr)).events _ _ hrest⟩
    | error e =>
      rw [run_bind_of_error hr] at hall ⊢
      exact hx.events s st hall
  value s st b hall hb := by
    cases hr : (x s st).result with
    | ok a =>
      rw [run_bind_of_ok hr] at hall hb
      obtain ⟨hfirst, hrest⟩ := List.forall_mem_append.1 hall
      exact (hf a (hx.value s st a hfirst hr)).value _ _ b hrest hb
    | error e =>
      rw [run_bind_of_error hr] at hb
      cases hb
  stop s st e hall he := by
    cases hr : (x s st).result with
    | ok a =>
      rw [run_bind_of_ok hr] at hall he
      obtain ⟨hfirst, hrest⟩ := List.forall_mem_append.1 hall
      exact (hf a (hx.value s st a hfirst hr)).stop _ _ e hrest he
    | error e' =>
      rw [run_bind_of_error hr] at hall he
      cases he
      exact hx.stop s st _ hall hr

/-- Behind an event it is known to have come about. -/
theorem emit {e : Event} (h : E e) : Within H E S (fun _ => H e) (Eval.emit e) where
  events _ _ _ e' he := by rw [List.mem_singleton.1 he]; exact h
  value _ _ _ hall _ := hall e List.mem_cons_self
  stop _ _ _ _ he := by cases he

theorem nested {node : Node} {x : Eval α} (hx : Within H E S P x)
    (h : S (.error (.atNode node .nestedTooDeep))) : Within H E S P (Eval.nested node x) where
  events s st := by
    unfold Eval.nested
    split
    · exact fun _ e he => by cases he
    · exact hx.events s _
  value s st a := by
    unfold Eval.nested
    split
    · exact fun _ ha => by cases ha
    · exact hx.value s _ a
  stop s st e := by
    unfold Eval.nested
    split
    · intro _ he
      cases he
      exact h
    · exact hx.stop s _ e

end Within

end Eval

/-! ## Evaluations in a context -/

/-- A context adds nothing but texts to what a strategy evaluates to. -/
theorem evaluate_eq_ok {n : Node} {s : Setting} {context : Context} {a : Allocation}
    (h : (evaluate n s context).result = .ok a) :
    ∃ b, (n.evalStrategy s (.initial context)).result = .ok b ∧
      a = b.withMetadata (evaluate n s context).context.metadata := by
  change (n.evalStrategy s (.initial context)).result.map _ = _ at h
  cases hr : (n.evalStrategy s (.initial context)).result with
  | error e =>
    rw [hr] at h
    cases h
  | ok b =>
    rw [hr] at h
    exact ⟨b, rfl, (Except.ok.inj h).symm⟩

theorem evaluate_eq_error_iff {n : Node} {s : Setting} {context : Context} {e : Stop} :
    (evaluate n s context).result = .error e ↔
      (n.evalStrategy s (.initial context)).result = .error e := by
  show (n.evalStrategy s (.initial context)).result.map _ = _ ↔ _
  cases (n.evalStrategy s (.initial context)).result with
  | error e' => exact Iff.rfl
  | ok b => exact iff_of_false nofun nofun

end AllocScript
