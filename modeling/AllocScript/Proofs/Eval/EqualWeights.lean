import AllocScript.Proofs.Allocation.Shares
import AllocScript.Proofs.Eval.Nesting

/-!
# Equal weights and the same weight for all

`(weight-specified w c₁ w c₂ …)` evaluates to what `(weight-equal [c₁ c₂ …])` evaluates to. The
children stand at other places in the two trees, so their evaluations tell of other nodes; but they
have the same values and effects there (`Node.eval_alike`). Both operators collect the values of the
children in order, as `evalStrategies` does (`Follows`), and then share out the weight in two ways
that agree (`Allocation.specifiedWeight_const`).
-/

namespace AllocScript

namespace Node

/-- The allocations that several strategies evaluate to, one after the other. -/
def evalStrategies : List Node → Eval (List Allocation)
  | [] => pure []
  | n :: ns => do
    let a ← n.evalStrategy
    let as ← evalStrategies ns
    pure (a :: as)

end Node

/-! ## Computations that follow another -/

/-- Where `x` has a value, and there is no limit on nested lists, `y` has the value that `φ` makes
of it, with the same answers known before and the same effects. -/
def Follows {α β : Type} (φ : α → β) (x : Eval α) (y : Eval β) : Prop :=
  ∀ feed reuse {st st' : EvalState} a, st.answers = st'.answers →
    (x ⟨feed, none, reuse⟩ st).result = .ok a →
    (y ⟨feed, none, reuse⟩ st').result = .ok (φ a) ∧
    Event.effects (x ⟨feed, none, reuse⟩ st).events =
      Event.effects (y ⟨feed, none, reuse⟩ st').events ∧
    (x ⟨feed, none, reuse⟩ st).state.answers = (y ⟨feed, none, reuse⟩ st').state.answers

namespace Follows

open Eval

variable {α β γ δ : Type} {φ : α → β} {x : Eval α} {y : Eval β}

theorem pure (φ : α → β) (a : α) : Follows φ (Pure.pure a) (Pure.pure (φ a)) := by
  intro _ _ _ _ b hst hb
  cases hb
  exact ⟨rfl, rfl, hst⟩

/-- What comes after a computation that follows another follows what comes after that. -/
theorem sameEffects {f : α → Eval γ} {g : β → Eval γ} {feed : Feed} {reuse : Bool}
    {st st' : EvalState} {a : α} (h : Follows φ x y) (hst : st.answers = st'.answers)
    (ha : (x ⟨feed, none, reuse⟩ st).result = .ok a) (hrest : Alike (f a) (g (φ a))) :
    ((x >>= f) ⟨feed, none, reuse⟩ st).SameEffects ((y >>= g) ⟨feed, none, reuse⟩ st') := by
  obtain ⟨hb, heffects, hanswers⟩ := h feed reuse a hst ha
  rw [run_bind_of_ok ha, run_bind_of_ok hb]
  obtain ⟨hresult, heffects', hanswers'⟩ := hrest feed reuse hanswers
  refine ⟨hresult, ?_, hanswers'⟩
  rw [Event.effects_append, Event.effects_append, heffects, heffects']

theorem bind {ψ : γ → δ} {f : α → Eval γ} {g : β → Eval δ} (h : Follows φ x y)
    (hrest : ∀ a, Follows ψ (f a) (g (φ a))) : Follows ψ (x >>= f) (y >>= g) := by
  intro feed reuse st st' c hst hc
  cases ha : (x ⟨feed, none, reuse⟩ st).result with
  | error e =>
    rw [run_bind_of_error ha] at hc
    cases hc
  | ok a =>
    obtain ⟨hb, heffects, hanswers⟩ := h feed reuse a hst ha
    rw [run_bind_of_ok ha] at hc ⊢
    rw [run_bind_of_ok hb]
    obtain ⟨hresult, heffects', hanswers'⟩ := hrest a feed reuse c hanswers hc
    refine ⟨hresult, ?_, hanswers'⟩
    rw [Event.effects_append, Event.effects_append, heffects, heffects']

theorem alike {y' : Eval β} (h : Follows φ x y) (hy : Alike y y') : Follows φ x y' := by
  intro feed reuse st st' a hst ha
  obtain ⟨hb, heffects, hanswers⟩ := h feed reuse a hst ha
  obtain ⟨hresult, heffects', hanswers'⟩ := @hy feed reuse st' st' rfl
  exact ⟨hresult.symm.trans hb, heffects.trans heffects', hanswers.trans hanswers'⟩

/-- What gives a value and has no effects may come before the computation that follows. -/
theorem after {z : Eval γ} {c : γ} {f : γ → Eval β} (hz : Alike z (Pure.pure c))
    (h : Follows φ x (f c)) : Follows φ x (z >>= f) := by
  intro feed reuse st st' a hst ha
  obtain ⟨hresult, heffects, hanswers⟩ := @hz feed reuse st' st' rfl
  obtain ⟨hb, heffects', hanswers'⟩ := h feed reuse a (hst.trans hanswers.symm) ha
  rw [run_bind_of_ok hresult]
  refine ⟨hb, ?_, hanswers'⟩
  rw [Event.effects_append, heffects]
  exact heffects'

end Follows

namespace Node

open Eval

/-! ## Children one after the other -/

/-- A node evaluates to the allocation that it evaluates to as a strategy, wherever it stands. -/
theorem eval_follows (n : Node) (path : NodePath) :
    Follows Value.allocation n.evalStrategy (n.eval path) := by
  refine Follows.alike (y := n.eval []) ?_ (n.eval_alike [] path)
  intro feed reuse st st' a hst ha
  obtain ⟨hresult, heffects, hanswers⟩ := n.eval_alike [] [] feed reuse hst
  unfold evalStrategy at ha ⊢
  cases hv : (n.eval [] ⟨feed, none, reuse⟩ st).result with
  | error e =>
    rw [run_bind_of_error hv] at ha
    cases ha
  | ok v =>
    rw [run_bind_of_ok hv] at ha ⊢
    cases v with
    | allocation b =>
      cases ha
      refine ⟨hresult.symm.trans hv, ?_, hanswers⟩
      rw [Event.effects_append, ← heffects]
      exact List.append_nil _
    | _ => cases ha

theorem valuesOf_follows (ns : List Node) (path : NodePath) (index : Nat) :
    Follows (List.map Value.allocation) (evalStrategies ns)
      (valuesOf (operandsOf ns path index)) := by
  induction ns generalizing index with
  | nil => exact .pure _ []
  | cons n ns ih =>
    exact (eval_follows n _).bind fun a => (ih (index + 1)).bind fun as => .pure _ (a :: as)

theorem child_follows (n : Node) (path : NodePath) :
    Follows id n.evalStrategy (Operand.child ⟨n, n.eval path⟩) := by
  have h := (eval_follows n path).bind (f := Pure.pure) (g := expectChild n)
    (ψ := id) fun a => .pure id a
  rwa [bind_pure] at h

/-- The weight `w` before each of several children, at any positions. -/
def pairs (w : Decimal) : List (Nat × Node) → List Node
  | [] => []
  | (p, c) :: rest => .atom (.number w) p :: c :: pairs w rest

theorem weight_alike {w : Decimal} (hw : w.isNegative = false) (p : Nat) (path : NodePath) :
    Alike (Operand.weight ⟨.atom (.number w) p, (Node.atom (.number w) p).eval path⟩)
      (pure w) := by
  have hvalue : Alike ((Node.atom (.number w) p).eval path) (pure (Value.number w)) :=
    fun _ _ _ _ hst => ⟨rfl, rfl, hst⟩
  have hexpect : expectWeight (.atom (.number w) p) (.number w) = pure w := by
    show (if w.isNegative = true then _ else (pure w : Eval Decimal)) = pure w
    rw [hw]
    rfl
  have hweight := hvalue.bind fun v =>
    StepSimulation.expectWeight (S := nestingSimulation.toStepSimulation)
      (n := .atom (.number w) p) rfl v
  rwa [pure_bind, hexpect] at hweight

theorem weightsOfPairs_follows {w : Decimal} (hw : w.isNegative = false)
    (children : List (Nat × Node)) (path : NodePath) (index : Nat) :
    Follows (List.map fun a => (w, a)) (evalStrategies (children.map Prod.snd))
      (Operator.weightsOfPairs (operandsOf (pairs w children) path index)) := by
  induction children generalizing index with
  | nil => exact .pure _ []
  | cons c rest ih =>
    exact .after (weight_alike hw c.1 (index :: path)) <|
      (child_follows c.2 ((index + 1) :: path)).bind fun a =>
        (ih (index + 2)).bind fun as => .pure (List.map fun a => (w, a)) (a :: as)

/-! ## The two calls -/

/-- A list has the value of its operands, apart from what it tells of itself. -/
theorem eval_list_alike (kind : ListKind) (children : List Node) (p : Nat) (path : NodePath) :
    Alike ((Node.list kind children p).eval path)
      (evalList (.list kind children p) kind (operandsOf children path 0)) := by
  intro feed reuse st st' hst
  have hroom : ∀ limit, (⟨feed, none, reuse⟩ : Setting).depthLimit = some limit →
      st.depth < limit := nofun
  have hlist := eval_list_sameEffects hroom kind children p path
  exact hlist.trans (Simulation.evalList (S := nestingSimulation) (n := .list kind children p) rfl
    rfl kind (operandsOf_alike children path path 0 0) feed reuse hst)

/-- `(weight-specified w c₁ w c₂ …)` -/
def specifiedCall (w : Decimal) (children : List (Nat × Node)) (p q : Nat) : Node :=
  .list .plain (.atom (.symbol "weight-specified") p :: pairs w children) q

/-- `(weight-equal [c₁ c₂ …])` -/
def equalCall (children : List Node) (p q r : Nat) : Node :=
  .list .plain [.atom (.symbol "weight-equal") p, .list .plain children q] r

/-- The result of a strategy from the value of its tree. -/
def strategyResult (n : Node) : Value → Eval Allocation
  | .allocation a => pure a
  | v => fail n (.notAllocation v.typeName)

theorem strategyResult_alike (n : Node) (v : Value) :
    Alike (strategyResult n v) (strategyResult n v) := by
  cases v with
  | allocation a => exact nestingSimulation.pure a
  | _ => exact nestingSimulation.fail rfl rfl

theorem length_pairs (w : Decimal) (children : List (Nat × Node)) :
    (pairs w children).length = 2 * children.length := by
  induction children with
  | nil => rfl
  | cons c rest ih => simp only [pairs, List.length_cons, ih]; omega

theorem lookup?_weightSpecified : Form.lookup? "weight-specified" =
    some ⟨"weight-specified", .weightSpecified, .atLeast 1⟩ := by decide

/-- What a call of `weight-specified` does with weights and children by turns. -/
theorem evalList_weightPairs {n : Node} (hhead : n.head? = some "weight-specified")
    {children : List Node} (hpositive : 0 < children.length) (heven : children.length % 2 = 0)
    (path : NodePath) (p : Nat) :
    evalList n .plain (operandsOf (.atom (.symbol "weight-specified") p :: children) path 0) =
      Operator.weightsOfPairs (operandsOf children path 1) >>= Operator.shareOut n := by
  have hlength : (operandsOf children path 1).length = children.length :=
    length_operandsOf children path 1
  have harity : (Arity.atLeast 1).accepts (operandsOf children path 1).length = true :=
    decide_eq_true (by omega)
  rw [operandsOf, evalList_call hhead lookup?_weightSpecified]
  refine (if_pos harity).trans ?_
  -- The operator tells a single map from pairs by its pattern, so the list is opened twice.
  rcases children with _ | ⟨c, _ | ⟨d, rest⟩⟩
  · cases hpositive
  · cases heven
  · exact if_pos (hlength ▸ heven)

/-- What a call of `weight-equal` does with a list. -/
theorem evalList_equalCall (children : List Node) (p q r : Nat) (path : NodePath) :
    evalList (equalCall children p q r) .plain
      (operandsOf [.atom (.symbol "weight-equal") p, .list .plain children q] path 0) =
      (Node.list .plain children q).eval (1 :: path) >>= fun v =>
        expectAllocations (.list .plain children q) v >>= fun as =>
          ofWeights (Allocation.equalWeight as) >>= fun a => pure (.allocation a) := by
  have hentry : Form.lookup? "weight-equal" = some ⟨"weight-equal", .weightEqual, .exactly 1⟩ := by
    decide
  rw [operandsOf, evalList_call rfl hentry]
  exact (if_pos rfl).trans (bind_assoc ..)

theorem specifiedCall_alike (w : Decimal) {children : List (Nat × Node)} (hne : children ≠ [])
    (p q : Nat) :
    Alike (specifiedCall w children p q).evalStrategy
      (Operator.weightsOfPairs (operandsOf (pairs w children) [] 1) >>= fun weighted =>
        Operator.shareOut (specifiedCall w children p q) weighted >>=
          strategyResult (specifiedCall w children p q)) := by
  have hlength := length_pairs w children
  have hpositive := List.length_pos_iff.2 hne
  have hlist :=
    eval_list_alike .plain (.atom (.symbol "weight-specified") p :: pairs w children) q []
  rw [← specifiedCall, evalList_weightPairs rfl (by omega) (by omega)] at hlist
  have hcall := hlist.bind (strategyResult_alike (specifiedCall w children p q))
  rwa [bind_assoc] at hcall

theorem equalCall_alike {children : List Node} {q : Nat}
    (hhead : (Node.list .plain children q).head? = none) (p r : Nat) :
    Alike (equalCall children p q r).evalStrategy
      (valuesOf (operandsOf children [1] 0) >>= fun vs =>
        expectItems (.list .plain children q) vs >>= fun as =>
          ofWeights (Allocation.equalWeight as)) := by
  have hinner := eval_list_alike .plain children q [1]
  simp only [evalList, hhead] at hinner
  have houter := eval_list_alike .plain
    [.atom (.symbol "weight-equal") p, .list .plain children q] r []
  rw [← equalCall, evalList_equalCall] at houter
  have hcall := houter.bind (strategyResult_alike (equalCall children p q r))
  rw [bind_assoc] at hcall
  refine hcall.trans ?_
  have hrest (v : Value) : nestingSimulation.rel
      ((expectAllocations (.list .plain children q) v >>= fun as =>
        ofWeights (Allocation.equalWeight as) >>= fun a => pure (.allocation a)) >>=
          strategyResult (equalCall children p q r))
      (expectAllocations (.list .plain children q) v >>= fun as =>
        ofWeights (Allocation.equalWeight as)) := by
    simp only [bind_assoc, pure_bind, strategyResult, bind_pure]
    exact nestingSimulation.bind
      (StepSimulation.expectAllocations (S := nestingSimulation.toStepSimulation) rfl v)
      fun as => StepSimulation.ofWeights (S := nestingSimulation.toStepSimulation) _
  have hvalues := hinner.bind hrest
  rwa [bind_assoc] at hvalues

/-! ## The same allocation -/

theorem expectItems_allocations (n : Node) (as : List Allocation) :
    expectItems n (as.map Value.allocation) = pure as := by
  induction as with
  | nil => rfl
  | cons a as ih => simp only [List.map_cons, expectItems, ih, pure_bind]

/-- Sharing out by one weight for all is sharing out equally, faults included. -/
theorem shareOut_const (n : Node) {w : Decimal} {as : List Allocation} (hw : 0 < w.toRat)
    (hmultiples : ∀ k ≤ (as.filter fun a => !a.isEmpty).length,
      Decimal.IsDecimal ((k : Rat) * w.toRat)) :
    (Operator.shareOut n (as.map fun a => (w, a)) >>= strategyResult n) =
      ofWeights (Allocation.equalWeight as) := by
  rw [Operator.shareOut, Allocation.specifiedWeight_const hw hmultiples]
  cases Allocation.equalWeight as <;> rfl

/-- No leaf is an allocation. -/
theorem atom_not_allocation (a : Atom) (p : Nat) :
    Returns (fun _ => False) (Node.atom a p).evalStrategy := by
  have hatom : Returns (fun v => ∀ b, v ≠ .allocation b) (a.eval (.atom a p)) := by
    cases a with
    | number d => exact .pure fun _ => nofun
    | string s => exact .pure fun _ => nofun
    | symbol name =>
      unfold Atom.eval
      dsimp only
      repeat' split
      all_goals first | exact .pure fun _ => nofun | exact .fail
  have heval : Returns (fun v => ∀ b, v ≠ .allocation b) ((Node.atom a p).eval []) :=
    .after fun _ => hatom.bind fun _ hv => .after fun _ => .pure hv
  refine heval.bind fun v hv => ?_
  cases v with
  | allocation b => exact absurd rfl (hv b)
  | _ => exact .fail

/-- Children that evaluate to allocations do not begin with a symbol. -/
theorem head?_of_evalStrategies {children : List Node} {s : Setting} {st : EvalState}
    {as : List Allocation} (h : (evalStrategies children s st).result = .ok as) (q : Nat) :
    (Node.list .plain children q).head? = none := by
  cases children with
  | nil => rfl
  | cons c rest =>
    cases c with
    | list => rfl
    | atom a p =>
      have hnone : Returns (fun _ => False) (evalStrategies (.atom a p :: rest)) :=
        (atom_not_allocation a p).bind fun _ => False.elim
      exact (hnone s st as h).elim

end Node

/-- Where the computation has a value outside of all lists, the limit on nested lists does
nothing. -/
structure Unstopped {α : Type} (x : Eval α) : Prop where
  framed : Framed x
  same : ∀ feed limit reuse {st : EvalState} a, st.depth = 0 →
    (x ⟨feed, limit, reuse⟩ st).result = .ok a →
    x ⟨feed, limit, reuse⟩ st = x ⟨feed, none, reuse⟩ st

theorem Unstopped.bind {α β : Type} {x : Eval α} {f : α → Eval β} (hx : Unstopped x)
    (hf : ∀ a, Unstopped (f a)) : Unstopped (x >>= f) where
  framed := hx.framed.bind fun a => (hf a).framed
  same feed limit reuse st b hst hb := by
    cases ha : (x ⟨feed, limit, reuse⟩ st).result with
    | error e =>
      rw [Eval.run_bind_of_error ha] at hb
      cases hb
    | ok a =>
      have hsame := hx.same feed limit reuse a hst ha
      have hdepth := (hx.framed.depth ⟨feed, none, reuse⟩ st).trans hst
      rw [Eval.run_bind_of_ok ha] at hb ⊢
      rw [hsame] at ha hb ⊢
      rw [Eval.run_bind_of_ok ha, (hf a).same feed limit reuse b hdepth hb]

namespace Node

open Eval

theorem evalStrategy_unstopped (n : Node) : Unstopped n.evalStrategy where
  framed := n.evalStrategy_framed
  same feed limit reuse st a hst ha := by
    have hinitial : st = .initial st.toContext := by rw [EvalState.initial, ← hst]
    rw [hinitial] at ha ⊢
    exact evalStrategy_unlimited (by rw [ha]; exact Limited.not_stopsTooDeep_ok a)

theorem evalStrategies_unstopped (ns : List Node) : Unstopped (evalStrategies ns) := by
  have hpure (as : List Allocation) : Unstopped (pure as) :=
    ⟨.pure as, fun _ _ _ _ _ _ _ => rfl⟩
  induction ns with
  | nil => exact hpure []
  | cons n ns ih => exact n.evalStrategy_unstopped.bind fun a => ih.bind fun as => hpure (a :: as)

/-! ### Both calls share out equally -/

section

variable {as : List Allocation} {feed : Feed} {reuse : Bool} {st : EvalState}

/-- Weight is shared out equally among what the children evaluate to. -/
def shareEqually (children : List Node) : Eval Allocation :=
  evalStrategies children >>= fun as => ofWeights (Allocation.equalWeight as)

theorem ofWeights_alike (shares : Except Overflow Allocation) :
    Alike (ofWeights shares) (ofWeights shares) :=
  StepSimulation.ofWeights (S := nestingSimulation.toStepSimulation) shares

theorem shareEqually_specifiedCall {w : Decimal} {children : List (Nat × Node)}
    (hne : children ≠ []) (hw : 0 < w.toRat)
    (has : (evalStrategies (children.map Prod.snd) ⟨feed, none, reuse⟩ st).result = .ok as)
    (hmultiples : ∀ k ≤ (as.filter fun a => !a.isEmpty).length,
      Decimal.IsDecimal ((k : Rat) * w.toRat)) (p q : Nat) :
    (shareEqually (children.map Prod.snd) ⟨feed, none, reuse⟩ st).SameEffects
      ((specifiedCall w children p q).evalStrategy ⟨feed, none, reuse⟩ st) := by
  have hnonneg : w.isNegative = false := by
    have hpos := Decimal.toRat_pos_iff.1 hw
    exact decide_eq_false (by omega)
  have hsame : st.answers = st.answers := rfl
  have hcall := specifiedCall_alike w hne p q feed reuse hsame
  refine Outcome.SameEffects.trans ?_ hcall.symm
  refine (weightsOfPairs_follows hnonneg children [] 1).sameEffects hsame has ?_
  rw [shareOut_const _ hw hmultiples]
  exact ofWeights_alike _

theorem shareEqually_equalCall {children : List Node}
    (has : (evalStrategies children ⟨feed, none, reuse⟩ st).result = .ok as) (p q r : Nat) :
    (shareEqually children ⟨feed, none, reuse⟩ st).SameEffects
      ((equalCall children p q r).evalStrategy ⟨feed, none, reuse⟩ st) := by
  have hsame : st.answers = st.answers := rfl
  have hcall := equalCall_alike (head?_of_evalStrategies has q) p r feed reuse hsame
  refine Outcome.SameEffects.trans ?_ hcall.symm
  refine (valuesOf_follows children [1] 0).sameEffects hsame has ?_
  rw [expectItems_allocations, pure_bind]
  exact ofWeights_alike _

end

end Node

open Allocation Decimal

/-- **The same weight for all is equal weights.** Let all multiples of a positive weight, up to the
number of the children that are not empty, be decimals. Then sharing out children, whatever they
are, by that weight for each does what equal shares do: it gives the same allocation, or it leaves
the range of decimals as they do, and it never refuses the weights. Equal shares of whole children
give an allocation. Empty children alone give the empty allocation either way. So
`(weight-specified w c₁ w c₂ …)` is evaluated as `(weight-equal [c₁ c₂ …])` in every setting and
context, if the children evaluate to allocations one after the other and neither evaluation stops at
the limit on nested lists: the same result, with the same context left behind and the same requests
made. -/
theorem equal_weights_agree :
    (∀ (w : Decimal) (children : List Allocation), 0 < w.toRat →
      (∀ k ≤ (children.filter fun c => !c.isEmpty).length, IsDecimal ((k : Rat) * w.toRat)) →
      specifiedWeight (children.map fun c => (w, c)) = (equalWeight children).mapError .overflow) ∧
    (∀ children : List Allocation, (∀ c ∈ children, c.Whole) →
      ∃ a, equalWeight children = .ok a) ∧
    (∀ (w : Decimal) (children : List Allocation), (∀ c ∈ children, c.isEmpty = true) →
      specifiedWeight (children.map fun c => (w, c)) = .ok .empty ∧
        equalWeight children = .ok .empty) ∧
    ∀ (w : Decimal) (children : List (Nat × Node)) (setting : Setting) (context : Context)
      (as : List Allocation) (p q p' q' r' : Nat), children ≠ [] → 0 < w.toRat →
      (Node.evalStrategies (children.map Prod.snd) setting (.initial context)).result = .ok as →
      (∀ k ≤ (as.filter fun a => !a.isEmpty).length, IsDecimal ((k : Rat) * w.toRat)) →
      let specified := evaluate (Node.specifiedCall w children p q) setting context
      let equal := evaluate (Node.equalCall (children.map Prod.snd) p' q' r') setting context
      ¬ StopsTooDeep specified.result → ¬ StopsTooDeep equal.result → specified = equal := by
  refine ⟨fun w children hw hmultiples => specifiedWeight_const hw hmultiples,
    fun children h => ?_, fun w children h => ?_, ?_⟩
  · have hsharable : ∀ c ∈ children.filter fun c => !c.isEmpty, c.Sharable := fun c hc => by
      obtain ⟨hmem, hne⟩ := List.mem_filter.1 hc
      exact (h c hmem).sharable (by simpa using hne)
    obtain ⟨a, ha, -⟩ := addAll_sharesEqually hsharable
    exact ⟨a, by rw [equalWeight_eq, ha]⟩
  · have hnil : children.filter (fun c => !c.isEmpty) = [] :=
      List.filter_eq_nil_iff.2 fun c hc => by simp [h c hc]
    have hpresent : present (children.map fun c => (w, c)) = [] := by
      rw [present, List.filter_map]
      exact congrArg _ hnil
    exact ⟨specifiedWeight_of_nil hpresent, by rw [equalWeight_eq, hnil]; rfl⟩
  · rintro w children ⟨feed, limit, reuse⟩ context as p q p' q' r' hne hw has hmultiples specified
      equal hspecified hequal
    have houtside : (EvalState.initial context).depth = 0 := rfl
    rw [(Node.evalStrategies_unstopped _).same feed limit reuse as houtside has] at has
    show specified = equal
    simp only [specified, equal] at hspecified hequal ⊢
    rw [evaluate_unlimited hspecified, evaluate_unlimited hequal]
    have hshared := Node.shareEqually_specifiedCall hne hw has hmultiples p q
    exact evaluate_eq_of_sameEffects
      (hshared.symm.trans (Node.shareEqually_equalCall has p' q' r'))

/-- A weight of one tenth for each of two assets. -/
theorem equal_weights_agree_tenths :
    let asset (ticker : String) : Node :=
      .list .plain [.atom (.symbol "asset") 0, .atom (.string ticker) 0] 0
    let children : List (Nat × Node) := [(1, asset "A"), (2, asset "B")]
    let feed : Feed := fun r => .error ⟨r.symbol, r.metric, "closed"⟩
    evaluate (Node.specifiedCall ⟨1, 1, by decide, by decide⟩ children 0 0) { feed } .fresh =
      evaluate (Node.equalCall (children.map Prod.snd) 0 0 0) { feed } .fresh := by
  intro asset children feed
  have hmultiples : ∀ k : Nat, k ≤ 2 → Decimal.IsDecimal ((k : Rat) *
      (⟨1, 1, by decide, by decide⟩ : Decimal).toRat) := by
    intro k hk
    refine ⟨⟨k, 1, by omega, by decide⟩, ?_⟩
    simp [Decimal.toRat, div_eq_mul_inv]
  have hok {n : Node} (h : (evaluate n { feed } .fresh).result.isOk = true) :
      ¬ StopsTooDeep (evaluate n { feed } .fresh).result := by
    rintro ⟨e, he, -⟩
    rw [he] at h
    cases h
  refine equal_weights_agree.2.2.2 _ children { feed } .fresh [.single "A", .single "B"] 0 0 0 0 0
    (List.cons_ne_nil _ _) (Decimal.toRat_pos_iff.2 (by decide)) (by decide +kernel) hmultiples
    (hok (by decide +kernel)) (hok (by decide +kernel))

end AllocScript
