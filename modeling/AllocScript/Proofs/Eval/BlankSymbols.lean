import AllocScript.Proofs.Eval.Provenance
import AllocScript.Source

/-!
# Blank symbols

A symbol should not be blank, and `asset` refuses a blank text. A text that stands for a child of
`weight-specified` is not looked at, so a blank symbol can come from there (`exists_blank_symbol`),
and from nowhere else (`evaluate_blank_symbols`).
-/

namespace AllocScript

open Eval

/-- One child with the weight one has the whole weight. -/
theorem shareOut_single (call : Node) (s : String) :
    Operator.shareOut call [(.one, .single s)] = pure (.allocation (.single s)) := by
  rw [Operator.shareOut, Allocation.specifiedWeight_single]

namespace Node

/-- The call of `weight-specified` with these arguments. -/
def weightSpecified (arguments : List Node) : Node :=
  .list .plain (.atom (.symbol "weight-specified") 0 :: arguments) 0

variable {arguments : List Node} {feed : Feed} {reuse : Bool} {context : Context}

theorem evalList_weightSpecified (o : Operand) {operands : List Operand} (hne : operands ≠ []) :
    (weightSpecified arguments).evalList .plain (o :: operands) =
      Operator.weightSpecified (weightSpecified arguments) operands := by
  cases operands with
  | nil => exact absurd rfl hne
  | cons => rfl

/-- The value of a call of `weight-specified` is what the operator makes of its operands. -/
theorem result_evalStrategy_weightSpecified {a : Allocation} (hne : arguments ≠ [])
    (h : (Operator.weightSpecified (weightSpecified arguments) (operandsOf arguments [] 1)
      { feed, reuse } ⟨context, 1⟩).result = .ok (.allocation a)) :
    ((weightSpecified arguments).evalStrategy { feed, reuse } (.initial context)).result =
      .ok a := by
  have hoperands : operandsOf arguments [] 1 ≠ [] := by
    cases arguments with
    | nil => exact absurd rfl hne
    | cons => exact List.cons_ne_nil _ _
  have hlist : (nested (weightSpecified arguments) ((weightSpecified arguments).evalList .plain
      (operandsOf (.atom (.symbol "weight-specified") 0 :: arguments) [] 0)) { feed, reuse }
      (.initial context)).result = .ok (.allocation a) := by
    rw [operandsOf, evalList_weightSpecified _ hoperands]
    exact h
  have heval : ((weightSpecified arguments).eval [] { feed, reuse } (.initial context)).result =
      .ok (.allocation a) := by
    rw [weightSpecified, eval, ← weightSpecified, run_begun_bind, run_bind_of_ok hlist]
    rfl
  rw [evalStrategy, run_bind_of_ok heval]
  rfl

/-- A text in the place of a child becomes the symbol of the allocation, whatever it is. -/
theorem result_weightSpecified_pair (call : Node) (s : String) :
    (Operator.weightSpecified call
      (operandsOf [.atom (.number .one) 0, .atom (.string s) 0] [] 1)
      { feed, reuse } ⟨context, 1⟩).result = .ok (.allocation (.single s)) := by
  rw [operandsOf, operandsOf, operandsOf, Operator.weightSpecified]
  · dsimp only [List.length_cons, List.length_nil]
    rw [if_pos rfl, run_bind_of_ok (a := [(.one, .single s)]) rfl, shareOut_single]
    rfl
  · intro weights hone
    cases hone

/-- So does a text that is a key of the map of weights. -/
theorem result_weightSpecified_map (call : Node) (s : String) :
    (Operator.weightSpecified call
      (operandsOf [.list .map [.atom (.string s) 0, .atom (.number .one) 0] 0] [] 1)
      { feed, reuse } ⟨context, 1⟩).result = .ok (.allocation (.single s)) := by
  have hvalue : ((list .map [atom (.string s) 0, atom (.number .one) 0] 0).eval [1]
      { feed, reuse } ⟨context, 1⟩).result = .ok (.map [(.string s, .number .one)]) := rfl
  rw [operandsOf, operandsOf, Operator.weightSpecified, run_bind_of_ok hvalue]
  dsimp only
  rw [run_bind_of_ok (a := [(.one, .single s)]) rfl, shareOut_single]
  rfl

end Node

/-- **A blank text can become a symbol.** -/
theorem exists_blank_symbol : ∃ n a, Node.ofSource "(weight-specified 1 \" \")" = .ok n ∧
    (evaluate n { feed := fun r => .error ⟨r.symbol, r.metric, "closed"⟩ } .fresh).result = .ok a ∧
    " " ∈ a.symbols ∧ isBlankText " " = true := by
  have hrun : (match Node.ofSource "(weight-specified 1 \" \")" with
      | .ok n => match (evaluate n
          { feed := fun r => .error ⟨r.symbol, r.metric, "closed"⟩ } .fresh).result with
        | .ok a => decide (" " ∈ a.symbols)
        | .error _ => false
      | .error _ => false) = true := by decide +kernel
  split at hrun
  · rename_i n hn
    split at hrun
    · rename_i a ha
      exact ⟨n, a, hn, ha, of_decide_eq_true hrun, by decide⟩
    · cases hrun
  · cases hrun

/-- **Blank symbols come from `weight-specified` alone.** If a symbol of the allocation that a tree
evaluates to is blank, a call of `weight-specified` in the tree was given it for a child, behind a
weight or as a key of its map. In both places any text becomes a symbol. -/
theorem evaluate_blank_symbols (n : Node) (setting : Setting) (context : Context) :
    (∀ a, (evaluate n setting context).result = .ok a → ∀ s ∈ a.symbols, isBlankText s = true →
      (n.history setting context).Child s) ∧
    ∀ s : String,
      let weight : Node := .atom (.number .one) 0
      let text : Node := .atom (.string s) 0
      ∀ arguments ∈ [[weight, text], [.list .map [text, weight] 0]], ∃ metadata,
        (evaluate (.weightSpecified arguments) { setting with depthLimit := some maxDepth }
          context).result = .ok ((Allocation.single s).withMetadata metadata) := by
  constructor
  · intro a ha s hs hblank
    exact (symbol_of_evaluate ha hs).2 hblank
  · intro s weight text arguments hmem
    have hne : arguments ≠ [] := by
      rintro rfl
      simp at hmem
    have hcall : (Operator.weightSpecified (.weightSpecified arguments)
        (Node.operandsOf arguments [] 1) { setting with depthLimit := some maxDepth }
        ⟨context, 1⟩).result = .ok (.allocation (.single s)) := by
      have hcases : arguments = [weight, text] ∨ arguments = [.list .map [text, weight] 0] := by
        simpa using hmem
      obtain rfl | rfl := hcases
      · exact Node.result_weightSpecified_pair ..
      · exact Node.result_weightSpecified_map ..
    have hstrategy := Node.result_evalStrategy_weightSpecified hne hcall
    exact ⟨_, congrArg (Except.map _) hstrategy⟩

/-- A blank text behind the weight one, and where it comes from. -/
theorem evaluate_blank_symbols_space :
    let n := Node.weightSpecified [.atom (.number .one) 0, .atom (.string " ") 0]
    let feed : Feed := fun r => .error ⟨r.symbol, r.metric, "closed"⟩
    (n.history { feed } .fresh).Child " " := by
  intro n feed
  obtain ⟨found, becomes⟩ := evaluate_blank_symbols n { feed } .fresh
  obtain ⟨metadata, ha⟩ := becomes " " _ List.mem_cons_self
  exact found _ ha " " List.mem_cons_self (by decide)

end AllocScript
