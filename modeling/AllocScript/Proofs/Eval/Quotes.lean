import AllocScript.Proofs.Eval.Context

/-!
# Evaluations with another tree in the place of a node

Two texts of an evaluation quote nodes: the context of an error, and the step of an `if`, which
shows its condition. So evaluations of a tree and of the tree with another one in the place of a
node may differ in texts, even where they do the same otherwise. They differ no more than that one
quotes a node and the other quotes what has become of it (`Replaced`).

* `EndsAlike`: the same value, or errors with the same problem at the same position.
* `StepAlike`: the same step of the trace, or the same branch of an `if`.
-/

namespace AllocScript

/-! ## A tree in the place of a node -/

/-- The second tree is the first one with `new` in the place of a node `old`. -/
inductive Replaced (old new : Node) : Node → Node → Prop
  | here : Replaced old new old new
  | child {kind : ListKind} {children : List Node} {i p : Nat} {c c' : Node} :
      children[i]? = some c → Replaced old new c c' →
      Replaced old new (.list kind children p) (.list kind (children.set i c') p)

namespace Replaced

variable {old new c c' : Node}

theorem position (h : Replaced old new c c') (hroot : old.position = new.position) :
    c.position = c'.position := by
  cases h with
  | here => exact hroot
  | child => rfl

theorem depth_le (h : Replaced old new c c') (hle : old.depth ≤ new.depth) :
    c.depth ≤ c'.depth := by
  induction h with
  | here => exact hle
  | child hchild _ ih =>
    rw [Node.depth, Node.depth]
    exact Nat.add_le_add_left (Node.depthOfAll_le_set hchild ih) 1

/-- What holds at the place of a node, and of a list if it holds of a child, holds of the trees. -/
theorem replaceAt {n : Node} {P : NodePath → Node → Node → Prop}
    (step : ∀ {i path kind children p c c'}, n.subtree? path = some (.list kind children p) →
      children[i]? = some c → P (i :: path) c c' →
      P path (.list kind children p) (.list kind (children.set i c') p))
    {path : NodePath} (hplace : n.subtree? path = some c) (h : P path c c') :
    P [] n (n.replaceAt path c') := by
  induction path generalizing c c' with
  | nil =>
    cases hplace
    exact h
  | cons i path ih =>
    obtain ⟨parent, hparent, hchild⟩ := Option.bind_eq_some_iff.1 hplace
    rw [Node.replaceAt, hparent]
    cases parent with
    | atom a p => cases hchild
    | list kind children p => exact ih hparent (step hparent hchild h)

end Replaced

/-! ## Results alike -/

/-- The same text, or a node is quoted and what has become of it. -/
inductive SameQuote (old new : Node) : String → String → Prop
  | refl (text : String) : SameQuote old new text text
  | excerpt {c c' : Node} : Replaced old new c c' → SameQuote old new c.excerpt c'.excerpt

/-- Errors with the same problem at the same position, or the same fault. -/
inductive Stop.Alike (old new : Node) : Stop → Stop → Prop
  | error {e e' : EvalError} : e.problem = e'.problem → e.position = e'.position →
      SameQuote old new e.context e'.context → Stop.Alike old new (.error e) (.error e')
  | fault (f : Fault) : Stop.Alike old new (.fault f) (.fault f)

/-- The same value, or stops that are alike. -/
inductive EndsAlike (old new : Node) {α : Type} : Except Stop α → Except Stop α → Prop
  | ok (a : α) : EndsAlike old new (.ok a) (.ok a)
  | error {e e' : Stop} : e.Alike old new e' → EndsAlike old new (.error e) (.error e')

namespace EndsAlike

variable {α β : Type} {old new c c' : Node} {r r' : Except Stop α}

theorem refl (r : Except Stop α) : EndsAlike old new r r :=
  match r with
  | .ok a => .ok a
  | .error (.error _) => .error (.error rfl rfl (.refl _))
  | .error (.fault f) => .error (.fault f)

/-- The same problem at a node and at what has become of it. -/
theorem atNode (hroot : old.position = new.position) (h : c = c' ∨ Replaced old new c c')
    (problem : EvalProblem) :
    EndsAlike (α := α) old new (.error (.error (.atNode c problem)))
      (.error (.error (.atNode c' problem))) := by
  rcases h with rfl | h
  · exact .refl _
  · exact .error (.error rfl (h.position hroot) (.excerpt h))

theorem eq_ok {a : α} (h : EndsAlike old new (.ok a) r') : r' = .ok a := by
  cases h
  rfl

theorem eq_error {e : Stop} (h : EndsAlike old new (.error e) r') :
    ∃ e', r' = .error e' ∧ e.Alike old new e' := by
  cases h with
  | error he => exact ⟨_, rfl, he⟩

theorem map (h : EndsAlike old new r r') (f : α → β) :
    EndsAlike old new (r.map f) (r'.map f) := by
  cases h with
  | ok a => exact .ok (f a)
  | error he => exact .error he

end EndsAlike

/-- What two strategies come to is alike, texts about them included, if the same texts are
written. -/
theorem EndsAlike.evaluate {old new n n' : Node} {setting : Setting} {context : Context}
    (h : EndsAlike old new (n.evalStrategy setting (.initial context)).result
      (n'.evalStrategy setting (.initial context)).result)
    (hnotes : Event.notes (n.evalStrategy setting (.initial context)).events =
      Event.notes (n'.evalStrategy setting (.initial context)).events) :
    EndsAlike old new (AllocScript.evaluate n setting context).result
      (AllocScript.evaluate n' setting context).result := by
  have hresult (m : Node) : (AllocScript.evaluate m setting context).result =
      (m.evalStrategy setting (.initial context)).result.map
        (·.withMetadata (AllocScript.evaluate m setting context).context.metadata) := rfl
  rw [hresult, hresult, metadata_eq_of_notes hnotes]
  exact h.map _

/-! ## Steps alike -/

/-- The same step, or the same branch of an `if` whose condition is a node and what has become of
it. -/
inductive StepAlike (old new : Node) : String → String → Prop
  | refl (step : String) : StepAlike old new step step
  | branch {c c' : Node} (branch : String) : Replaced old new c c' →
      StepAlike old new ("if " ++ c.excerpt ++ branch) ("if " ++ c'.excerpt ++ branch)

theorem StepAlike.quote {old new c c' : Node} (h : c = c' ∨ Replaced old new c c')
    (branch : String) :
    StepAlike old new ("if " ++ c.excerpt ++ branch) ("if " ++ c'.excerpt ++ branch) := by
  rcases h with rfl | h
  · exact .refl _
  · exact .branch branch h

end AllocScript
