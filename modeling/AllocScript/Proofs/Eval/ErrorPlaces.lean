import AllocScript.Proofs.Eval.Provenance
import AllocScript.Proofs.Node.Excerpt
import AllocScript.Proofs.Node.RoundTrip

/-!
# Where errors of an evaluation point

Every error is raised at a node whose evaluation has begun (`Node.evalStrategy_sound`): it tells the
position of that node and the beginning of its canonical text, and its problem is one that can arise
there (`EvalProblem.ArisesAt`). Operators have problems for operands that their arity excludes,
which therefore never arise, and only a map with an odd number of children lacks a value for a key,
which no text has (`evaluate_error_place`).
-/

namespace AllocScript

namespace Node

theorem AllEvenMaps.of_mem {n : Node} {ns : List Node} (h : AllEvenMaps ns) (hn : n ∈ ns) :
    n.EvenMaps := by
  induction ns with
  | nil => cases hn
  | cons m ns ih =>
    rcases List.mem_cons.1 hn with rfl | hn
    · exact h.1
    · exact ih h.2 hn

theorem EvenMaps.of_subtree {n m : Node} {path : NodePath} (hn : n.EvenMaps)
    (h : n.subtree? path = some m) : m.EvenMaps := by
  induction path generalizing m with
  | nil =>
    cases h
    exact hn
  | cons i path ih =>
    obtain ⟨parent, hparent, hchild⟩ := Option.bind_eq_some_iff.1 h
    cases parent with
    | atom a p => cases hchild
    | list kind children p => exact (ih hparent).2.of_mem (List.mem_of_getElem? hchild)

end Node

/-- A map of a tree whose maps have a value for each key lacks none. -/
theorem Node.EvenMaps.not_arisesAt {m : Node} (h : m.EvenMaps) :
    ¬ EvalProblem.keyWithoutValue.ArisesAt m := by
  rintro ⟨children, p, rfl, hodd⟩
  have heven := h.1 rfl
  omega

/-- **An error points at a node that was being evaluated.** If an evaluation ends with an error,
there is a node of the tree whose evaluation has begun in that run, and the error tells the position
of this node and the first 80 characters of its canonical text. Whatever the tree, the strategy is
not malformed in a way that the arity of `defsymphony` lets through, and neither arithmetic nor an
indicator has a number of operands that it cannot deal with; and in a tree that was read from a text
no key lacks a value. -/
theorem evaluate_error_place {n : Node} {setting : Setting} {context : Context} {e : EvalError}
    (h : (evaluate n setting context).result = .error (.error e)) :
    (∃ path m, .begun path ∈ (n.evalStrategy setting (.initial context)).events ∧
      n.subtree? path = some m ∧ e.position = m.position ∧
      e.context = String.ofList (Node.abridged 80 m.render.toList)) ∧
    e.problem ≠ .malformedDefsymphony ∧ e.problem ≠ .noOperand ∧
    (∀ i count, e.problem ≠ .indicatorArguments i count) ∧
    ∀ source, Node.ofSource source = .ok n → e.problem ≠ .keyWithoutValue := by
  have hsound := Node.evalStrategy_sound (n.history setting context)
  obtain ⟨m, problem, ⟨path, hbegun, hpath⟩, harises, rfl⟩ :=
    hsound.stop setting (.initial context) _ (fun _ he => he) (evaluate_eq_error_iff.1 h)
  have hnot : ∀ {problem'}, ¬ EvalProblem.ArisesAt m problem' → problem ≠ problem' := by
    rintro _ hnot rfl
    exact hnot harises
  refine ⟨⟨path, m, hbegun, hpath, rfl, Node.excerpt_eq m⟩, hnot id, hnot id,
    fun i count => hnot id, fun source hsource => hnot ?_⟩
  exact ((Node.wellFormed_of_ofSource hsource).evenMaps.of_subtree hpath).not_arisesAt

/-- The second operand is no truth value. -/
theorem evaluate_error_place_operand :
    ∃ n e, Node.ofSource "(and true (+ 1 2))" = .ok n ∧
      let setting : Setting := { feed := fun r => .error ⟨r.symbol, r.metric, "closed"⟩ }
      (evaluate n setting .fresh).result = .error (.error e) ∧
      e.position = 10 ∧ e.context = "(+ 1 2)" ∧
      (∃ path m, .begun path ∈ (n.evalStrategy setting (.initial .fresh)).events ∧
        n.subtree? path = some m ∧ m.position = 10) ∧
      e.problem ≠ .keyWithoutValue := by
  let setting : Setting := { feed := fun r => .error ⟨r.symbol, r.metric, "closed"⟩ }
  have hrun : (match Node.ofSource "(and true (+ 1 2))" with
      | .ok n =>
        match (evaluate n setting .fresh).result with
        | .error (.error e) => decide (e.position = 10 ∧ e.context = "(+ 1 2)")
        | _ => false
      | .error _ => false) = true := by decide +kernel
  split at hrun
  · rename_i n hn
    split at hrun
    · rename_i e he
      obtain ⟨hposition, hcontext⟩ := of_decide_eq_true hrun
      obtain ⟨⟨path, m, hbegun, hpath, hplace, -⟩, -, -, -, hkey⟩ := evaluate_error_place he
      exact ⟨n, e, hn, he, hposition, hcontext, ⟨path, m, hbegun, hpath, hplace ▸ hposition⟩,
        hkey _ hn⟩
    · cases hrun
  · cases hrun

end AllocScript
