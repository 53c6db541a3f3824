import AllocScript.Proofs.Eval.EqualWeights
import AllocScript.Proofs.Eval.Reordering

/-!
# Weights in a map and weights in pairs

`(weight-specified {c₁ w₁ …})` evaluates all children and weights, the child first, and then checks
the values; `(weight-specified w₁ c₁ …)` evaluates and checks one after the other, the weight first.
If all of them have values, the two calls do the same in another order and agree
(`weight_syntaxes_agree`).

The proof looks at runs that keep no answers. There a node has one value and one list of effects
wherever it stands (`Settled`). What a check says does not depend on the node that it would blame
(`SameAnywhere`), and both calls check the weight of an entry before its child. So the first entry
that is not right stops both for the same reason, and if there is none, both have the same weights
with permuted effects (`exists_collected`).
-/

namespace AllocScript

open Eval

variable {α β : Type}

/-! ## Runs that keep no answers -/

/-- These answers are known in the state, and no more than so many lists are around it. -/
structure EvalState.Within (known : Answers) (depth : Nat) (st : EvalState) : Prop where
  answers : st.answers = known
  depth : st.depth ≤ depth

/-- The computation ends with the value and has these effects. The answers stay as they are. -/
structure Runs (s : Setting) (known : Answers) (depth : Nat) (x : Eval α) (a : α)
    (effects : List Event) : Prop where
  result : ∀ {st : EvalState}, st.Within known depth → (x s st).result = .ok a
  effects : ∀ {st : EvalState}, st.Within known depth → Event.effects (x s st).events = effects
  state : ∀ {st : EvalState}, st.Within known depth → (x s st).state.Within known depth

/-- The computation stops because of the problem. -/
def StopsWith (s : Setting) (known : Answers) (depth : Nat) (x : Eval α) (problem : EvalProblem) :
    Prop :=
  ∀ st : EvalState, st.Within known depth →
    ∃ n, (x s st).result = .error (.error (.atNode n problem))

section Sequences

variable {s : Setting} {known : Answers} {depth : Nat} {x : Eval α} {f : α → Eval β} {a : α} {b : β}
  {effects effects' : List Event} {problem : EvalProblem}

theorem Runs.pure (a : α) : Runs s known depth (Pure.pure a) a [] :=
  ⟨fun _ => rfl, fun _ => rfl, fun hst => hst⟩

theorem Runs.bind (hx : Runs s known depth x a effects) (hf : Runs s known depth (f a) b effects') :
    Runs s known depth (x >>= f) b (effects ++ effects') where
  result hst := by
    rw [run_bind_of_ok (hx.result hst)]
    exact hf.result (hx.state hst)
  effects hst := by
    rw [run_bind_of_ok (hx.result hst), Event.effects_append, hx.effects hst,
      hf.effects (hx.state hst)]
  state hst := by
    rw [run_bind_of_ok (hx.result hst)]
    exact hf.state (hx.state hst)

theorem stopsWith_fail (n : Node) (problem : EvalProblem) :
    StopsWith s known depth (Eval.fail (α := α) n problem) problem := fun _ _ => ⟨n, rfl⟩

theorem StopsWith.bind (h : StopsWith s known depth x problem) (f : α → Eval β) :
    StopsWith s known depth (x >>= f) problem := fun st hst => by
  obtain ⟨n, hn⟩ := h st hst
  exact ⟨n, by rw [run_bind_of_error hn]⟩

theorem Runs.bind_stopsWith (hx : Runs s known depth x a effects)
    (hf : StopsWith s known depth (f a) problem) : StopsWith s known depth (x >>= f) problem :=
  fun st hst => by
    obtain ⟨n, hn⟩ := hf _ (hx.state hst)
    exact ⟨n, by rw [run_bind_of_ok (hx.result hst), hn]⟩

end Sequences

/-! ## Runs that are rearranged -/

namespace Outcome.Rearranged

variable {s : Setting} {known : Answers} {depth depth' : Nat} {x : Eval α} {y : Eval β} {γ : Type}
  {st : EvalState}

theorem of_sameEffects {o o' p p' : Outcome α} (h : o.SameEffects o') (h' : p.SameEffects p')
    (hrest : o'.Rearranged p') : o.Rearranged p where
  result := by rw [h.result, h'.result]; exact hrest.result
  steps a ha := by
    rw [Event.steps_eq_of_effects h.effects, Event.steps_eq_of_effects h'.effects]
    exact hrest.steps a (h.result ▸ ha)
  requests a ha := by
    rw [Event.requests_eq_of_effects h.effects, Event.requests_eq_of_effects h'.effects]
    exact hrest.requests a (h.result ▸ ha)
  answers a ha := by
    rw [h.answers, h'.answers]
    exact hrest.answers a (h.result ▸ ha)

/-- What follows permuted effects is rearranged if it is so by itself, with the same answers
known. -/
theorem of_runs {a : α} {b : β} {effects effects' : List Event} {f : α → Eval γ} {g : β → Eval γ}
    (hx : Runs s known depth x a effects) (hst : st.Within known depth)
    (hy : Runs s known depth' y b effects') (hst' : st.Within known depth')
    (hperm : effects.Perm effects')
    (h : ∀ st st' : EvalState, st.answers = st'.answers → (f a s st).Rearranged (g b s st')) :
    ((x >>= f) s st).Rearranged ((y >>= g) s st) := by
  have hrest := h _ _ ((hx.state hst).answers.trans (hy.state hst').answers.symm)
  rw [run_bind_of_ok (hx.result hst), run_bind_of_ok (hy.result hst')]
  have hsteps : (Event.steps (x s st).events).Perm (Event.steps (y s st).events) := by
    rw [← Event.steps_effects, ← Event.steps_effects (y s st).events, hx.effects hst,
      hy.effects hst']
    exact hperm.filterMap _
  have hrequests : (Event.requests (x s st).events).Perm (Event.requests (y s st).events) := by
    rw [← Event.requests_effects, ← Event.requests_effects (y s st).events, hx.effects hst,
      hy.effects hst']
    exact hperm.filterMap _
  refine ⟨hrest.result, fun c hc => ?_, fun c hc => ?_, hrest.answers⟩
  · simpa [Event.steps] using hsteps.append (hrest.steps c hc)
  · simpa [Event.requests] using hrequests.append (hrest.requests c hc)

theorem of_stopsWith {y : Eval α} {p : EvalProblem} (hx : StopsWith s known depth x p)
    (hst : st.Within known depth) (hy : StopsWith s known depth' y p)
    (hst' : st.Within known depth') : (x s st).Rearranged (y s st) := by
  obtain ⟨n, hn⟩ := hx st hst
  obtain ⟨n', hn'⟩ := hy st hst'
  refine ⟨by rw [hn, hn']; exact .error (.error rfl), ?_, ?_, ?_⟩
  all_goals
    intro a ha
    rw [hn] at ha
    cases ha

end Outcome.Rearranged

/-! ## Checks -/

/-- A check gives the same value at every node, or it fails at every node because of the same
problem. -/
inductive SameAnywhere (x : Node → Eval α) : Prop
  | value (a : α) : (∀ n, x n = pure a) → SameAnywhere x
  | problem (p : EvalProblem) : (∀ n, x n = fail n p) → SameAnywhere x

theorem expectWeight_sameAnywhere (v : Value) : SameAnywhere fun n => expectWeight n v := by
  cases v with
  | number d =>
    by_cases hneg : d.isNegative = true
    · exact .problem _ fun n => if_pos hneg
    · exact .value _ fun n => if_neg hneg
  | _ => exact .problem _ fun _ => rfl

theorem expectChild_sameAnywhere (v : Value) : SameAnywhere fun n => expectChild n v := by
  cases v with
  | allocation a => exact .value a fun _ => rfl
  | string symbol => exact .value (.single symbol) fun _ => rfl
  | _ => exact .problem _ fun _ => rfl

namespace Node

/-! ## Nodes with values -/

/-- The node has a value from the state, at some path. -/
def HasValue (n : Node) (s : Setting) (st : EvalState) : Prop :=
  ∃ path v, (n.eval path s st).result = .ok v

/-- The node has one value and one list of effects wherever no more than `depth` lists are around
it. -/
def Settled (s : Setting) (known : Answers) (depth : Nat) (n : Node) : Prop :=
  ∃ v effects, ∀ path, Runs s known depth (n.eval path) v effects

theorem HasValue.settled {n : Node} {s : Setting} {st : EvalState} (h : n.HasValue s st) :
    Settled (s.plain st.answers) st.answers st.depth n := by
  obtain ⟨place, v, hv⟩ := h
  rw [(n.eval_kept place).plain_result] at hv
  have hsame (path : NodePath) {st' : EvalState} (hst' : st'.Within st.answers st.depth) :=
    (n.eval_shallower path place (s.plain st.answers) hst'.answers hst'.depth v hv).1
  exact ⟨v, Event.effects (n.eval place (s.plain st.answers) st).events, fun path => {
    result := fun hst' => (hsame path hst').result.trans hv
    effects := fun hst' => (hsame path hst').effects
    state := fun {st'} hst' => ⟨((n.eval_kept path).plain_answers s _ st').trans hst'.answers,
      ((n.eval_framed path).depth _ st').trans_le hst'.depth⟩ }⟩

/-- Children and weights by turns, as they stand in a map. -/
def childrenFirst : List (Node × Node) → List Node
  | [] => []
  | (child, weight) :: rest => child :: weight :: childrenFirst rest

/-- Weights and children by turns, as they stand in a call. -/
def weightsFirst : List (Node × Node) → List Node
  | [] => []
  | (child, weight) :: rest => weight :: child :: weightsFirst rest

theorem length_weightsFirst (entries : List (Node × Node)) :
    (weightsFirst entries).length = 2 * entries.length := by
  induction entries with
  | nil => rfl
  | cons e rest ih => simp only [weightsFirst, List.length_cons, ih]; omega

section Entries

variable {s : Setting} {known : Answers} {depth : Nat}

/-- What the pairs come to, given the values and the effects of the map: the weights that the check
of the map gives, with permuted effects, or the problem that it stops with. -/
inductive Collected (s : Setting) (known : Answers) (depth : Nat) (values : List (Value × Value))
    (effects : List Event) (pairs : Eval (List (Decimal × Allocation))) : Prop
  | weights {weighted : List (Decimal × Allocation)} {effects' : List Event} :
      (∀ n, Operator.weightsOfMap n values = pure weighted) →
      Runs s known depth pairs weighted effects' → effects.Perm effects' →
      Collected s known depth values effects pairs
  | problem {p : EvalProblem} : (∀ n, Operator.weightsOfMap n values = fail n p) →
      StopsWith s known depth pairs p → Collected s known depth values effects pairs

/-- One more pair before the others. The weight is checked before the child. -/
theorem Collected.cons {values : List (Value × Value)} {effects weightEffects childEffects :
      List Event} {weight child : Operand} {w c : Value} {rest : List Operand}
    (hweight : Runs s known depth weight.value w weightEffects)
    (hchild : Runs s known depth child.value c childEffects)
    (h : Collected s known depth values effects (Operator.weightsOfPairs rest)) :
    Collected s known depth ((c, w) :: values) (childEffects ++ (weightEffects ++ effects))
      (Operator.weightsOfPairs (weight :: child :: rest)) := by
  have hmap (n : Node) : Operator.weightsOfMap n ((c, w) :: values) =
      expectWeight n w >>= fun d => expectChild n c >>= fun a =>
        Operator.weightsOfMap n values >>= fun others => pure ((d, a) :: others) := rfl
  have hpairs : Operator.weightsOfPairs (weight :: child :: rest) =
      weight.weight >>= fun d => child.child >>= fun a =>
        Operator.weightsOfPairs rest >>= fun others => pure ((d, a) :: others) := rfl
  rw [hpairs]
  rcases expectWeight_sameAnywhere w with ⟨d, hd⟩ | ⟨p, hp⟩
  · have hweight' : Runs s known depth weight.weight d (weightEffects ++ []) :=
      hweight.bind (by rw [hd]; exact .pure d)
    rcases expectChild_sameAnywhere c with ⟨a, ha⟩ | ⟨p, hp⟩
    · have hchild' : Runs s known depth child.child a (childEffects ++ []) :=
        hchild.bind (by rw [ha]; exact .pure a)
      cases h with
      | @weights weighted effects' hrest hruns hperm =>
        refine .weights (fun n => by rw [hmap, hd, ha, hrest]; rfl)
          (hweight'.bind (hchild'.bind (hruns.bind (.pure _)))) ?_
        simp only [List.append_nil, ← List.append_assoc]
        exact List.perm_append_comm.append hperm
      | problem hrest hstops =>
        exact .problem (fun n => by rw [hmap, hd, ha, hrest]; rfl)
          (hweight'.bind_stopsWith (hchild'.bind_stopsWith (hstops.bind _)))
    · have hstops : StopsWith s known depth child.child p :=
        hchild.bind_stopsWith (by rw [hp]; exact stopsWith_fail _ p)
      exact .problem (fun n => by rw [hmap, hd, hp]; rfl)
        (hweight'.bind_stopsWith (hstops.bind _))
  · have hstops : StopsWith s known depth weight.weight p :=
      hweight.bind_stopsWith (by rw [hp]; exact stopsWith_fail _ p)
    exact .problem (fun n => by rw [hmap, hp]; rfl) (hstops.bind _)

/-- **A map of settled nodes and the pairs of them.** The map has all values. The pairs come to what
the check of these values comes to. -/
theorem exists_collected {entries : List (Node × Node)}
    (h : ∀ e ∈ entries, Settled s known depth e.1 ∧ Settled s known depth e.2) :
    ∃ values effects,
      (∀ n path index,
        Runs s known depth (entriesOf n (operandsOf (childrenFirst entries) path index)) values
          effects) ∧
      ∀ path index,
        Collected s known depth values effects
          (Operator.weightsOfPairs (operandsOf (weightsFirst entries) path index)) := by
  induction entries with
  | nil =>
    exact ⟨[], [], fun _ _ _ => .pure [], fun _ _ => .weights (fun _ => rfl) (.pure []) .nil⟩
  | cons e rest ih =>
    obtain ⟨values, effects, hmap, hpairs⟩ := ih fun e' he' => h e' (List.mem_cons_of_mem _ he')
    obtain ⟨⟨c, childEffects, hchild⟩, w, weightEffects, hweight⟩ := h e List.mem_cons_self
    refine ⟨(c, w) :: values, childEffects ++ (weightEffects ++ (effects ++ [])),
      fun n path index => ?_, fun path index => ?_⟩
    · exact (hchild (index :: path)).bind ((hweight ((index + 1) :: path)).bind
        ((hmap n path (index + 2)).bind (.pure _)))
    · rw [List.append_nil]
      exact (hpairs path (index + 2)).cons (hweight (index :: path)) (hchild ((index + 1) :: path))

end Entries

/-! ## The two calls -/

/-- `(weight-specified {c₁ w₁ …})` -/
def mapCall (entries : List (Node × Node)) (p q r : Nat) : Node :=
  .list .plain [.atom (.symbol "weight-specified") p, .list .map (childrenFirst entries) q] r

/-- `(weight-specified w₁ c₁ …)` -/
def pairsCall (entries : List (Node × Node)) (p r : Nat) : Node :=
  .list .plain (.atom (.symbol "weight-specified") p :: weightsFirst entries) r

/-- What a call with a map does. -/
theorem evalList_mapCall (entries : List (Node × Node)) (p q r : Nat) (path : NodePath) :
    evalList (mapCall entries p q r) .plain
      (operandsOf [.atom (.symbol "weight-specified") p, .list .map (childrenFirst entries) q]
        path 0) =
      (Node.list .map (childrenFirst entries) q).eval (1 :: path) >>= fun
        | .map values => Operator.weightsOfMap (.list .map (childrenFirst entries) q) values >>=
            Operator.shareOut (mapCall entries p q r)
        | v => wrongType (.list .map (childrenFirst entries) q) "weight map" v := by
  rw [operandsOf, evalList_call rfl lookup?_weightSpecified]
  rfl

/-! ## The same weights -/

/-- Where weight is shared out, only the node of a problem may be another. -/
theorem shareOut_rearranged (call call' : Node) (weighted : List (Decimal × Allocation))
    (s : Setting) {st st' : EvalState} (hst : st.answers = st'.answers) :
    (Operator.shareOut call weighted s st).Rearranged
      (Operator.shareOut call' weighted s st') := by
  unfold Operator.shareOut
  cases Allocation.specifiedWeight weighted with
  | ok a =>
    exact ⟨.ok rfl, fun _ _ => .refl _, fun _ _ => .refl _, fun _ _ r =>
      congrArg (List.lookup r) hst⟩
  | error problem =>
    cases problem with
    | overflow kind => exact ⟨.error (.fault _), nofun, nofun, nofun⟩
    | _ => exact ⟨.error (.error rfl), nofun, nofun, nofun⟩

/-- A list inside of a limit has what its operands have one list further in. -/
theorem runs_list {s : Setting} {known : Answers} {depth : Nat} {kind : ListKind}
    {children : List Node} {p : Nat} {path : NodePath} {v : Value} {effects : List Event}
    (hroom : ∀ limit, s.depthLimit = some limit → depth < limit)
    (h : Runs s known (depth + 1)
      (evalList (.list kind children p) kind (operandsOf children path 0)) v effects) :
    Runs s known depth ((Node.list kind children p).eval path) v effects := by
  have hinner {st : EvalState} (hst : st.Within known depth) :
      ({ st with depth := st.depth + 1 } : EvalState).Within known (depth + 1) :=
    ⟨hst.answers, Nat.succ_le_succ hst.depth⟩
  have hsame {st : EvalState} (hst : st.Within known depth) :=
    eval_list_sameEffects (fun limit hlimit => hst.depth.trans_lt (hroom limit hlimit))
      kind children p path
  exact {
    result := fun hst => (hsame hst).result.trans (h.result (hinner hst))
    effects := fun hst => (hsame hst).effects.trans (h.effects (hinner hst))
    state := fun {st} hst => ⟨(hsame hst).answers.trans (h.state (hinner hst)).answers,
      (((Node.list kind children p).eval_framed path).depth s st).trans_le hst.depth⟩ }

/-- The calls with settled children and weights. -/
theorem calls_rearranged {entries : List (Node × Node)} (hne : entries ≠ []) {s : Setting}
    {st : EvalState} (hroom : ∀ limit, s.depthLimit = some limit → st.depth + 2 ≤ limit)
    (h : ∀ e ∈ entries,
      Settled s st.answers (st.depth + 2) e.1 ∧ Settled s st.answers (st.depth + 2) e.2)
    (path : NodePath) (p q r p' r' : Nat) :
    ((mapCall entries p q r).eval path s st).Rearranged
      ((pairsCall entries p' r').eval path s st) := by
  obtain ⟨values, effects, hmap, hpairs⟩ := exists_collected h
  have hvalue : Runs s st.answers (st.depth + 1)
      ((Node.list .map (childrenFirst entries) q).eval (1 :: path)) (.map values) (effects ++ []) :=
    runs_list hroom ((hmap _ (1 :: path) 0).bind (.pure (Value.map values)))
  have hcall (limit : Nat) (hlimit : s.depthLimit = some limit) : st.depth < limit :=
    (Nat.lt_add_of_pos_right Nat.two_pos).trans_le (hroom limit hlimit)
  refine .of_sameEffects (eval_list_sameEffects hcall .plain _ r path)
    (eval_list_sameEffects hcall .plain _ r' path) ?_
  -- Both calls go on one list further in, and the map is one more.
  have hinner : ({ st with depth := st.depth + 1 } : EvalState).Within st.answers (st.depth + 1) :=
    ⟨rfl, Nat.le_refl _⟩
  have hinner' : ({ st with depth := st.depth + 1 } : EvalState).Within st.answers (st.depth + 2) :=
    ⟨rfl, Nat.le_succ _⟩
  have hlength := length_weightsFirst entries
  have hpositive := List.length_pos_iff.2 hne
  rw [← mapCall, ← pairsCall, evalList_mapCall, evalList_weightPairs rfl (by omega) (by omega)]
  cases hpairs path 1 with
  | weights hcheck hruns hperm =>
    refine .of_runs hvalue hinner hruns hinner' (by simpa using hperm) fun st st' hst => ?_
    dsimp only
    rw [hcheck]
    exact shareOut_rearranged _ _ _ s hst
  | problem hcheck hstops =>
    refine .of_stopsWith (hvalue.bind_stopsWith ?_) hinner (hstops.bind _) hinner'
    dsimp only
    rw [hcheck]
    exact (stopsWith_fail _ _).bind _

/-- All children and weights have values in two lists more than there are around the state, and
there is room for these lists. -/
structure Evaluable (entries : List (Node × Node)) (s : Setting) (st : EvalState) : Prop where
  room : ∀ limit, s.depthLimit = some limit → st.depth + 2 ≤ limit
  children : ∀ e ∈ entries, e.1.HasValue s { st with depth := st.depth + 2 }
  weights : ∀ e ∈ entries, e.2.HasValue s { st with depth := st.depth + 2 }

/-- **The two syntaxes of weights agree.** Let all children and weights have values, whatever they
are, in two lists more than there are around the call, against any feed and with any answers known.
Then the call with a map and the call with pairs evaluate to the same allocation, with the same
steps of the trace and the same requests up to order and the same answers known behind them, or they
stop because of the same problem and so with the same message. -/
theorem weight_syntaxes_agree (entries : List (Node × Node)) (hne : entries ≠ [])
    (s : Setting) (p q r p' r' : Nat) :
    (∀ path st, Evaluable entries s st →
      ((mapCall entries p q r).eval path s st).Rearranged
        ((pairsCall entries p' r').eval path s st)) ∧
    ∀ context, Evaluable entries s (.initial context) →
      (evaluate (mapCall entries p q r) s context).Rearranged
        (evaluate (pairsCall entries p' r') s context) := by
  have heval (path : NodePath) (st : EvalState) (h : Evaluable entries s st) :
      ((mapCall entries p q r).eval path s st).Rearranged
        ((pairsCall entries p' r').eval path s st) := by
    refine (eval_kept _ path).rearranged (eval_kept _ path) ?_
    exact calls_rearranged (s := s.plain st.answers) hne h.room
      (fun e he => ⟨(h.children e he).settled, (h.weights e he).settled⟩) path p q r p' r'
  exact ⟨heval, fun context h => evaluate_rearranged (heval [] (.initial context) h)⟩

/-- An asset weighted by an answer that is known before and a symbol weighted by one that is not. -/
theorem weight_syntaxes_agree_rsi :
    let call (head symbol : String) (rest : List Node) : Node :=
      .list .plain (.atom (.symbol head) 0 :: .atom (.string symbol) 0 :: rest) 0
    let period : Node := .atom (.number ⟨2, 0, by decide, by decide⟩) 0
    let entries : List (Node × Node) := [(call "asset" "A" [], call "rsi" "A" [period]),
      (.atom (.string "B") 0, call "rsi" "B" [period])]
    let s : Setting := { feed := fun _ => .ok .one }
    let context : Context := ⟨[], .empty, [(⟨"A", .rsi, 2⟩, ⟨3, 0, by decide, by decide⟩)]⟩
    (evaluate (mapCall entries 0 0 0) s context).result.isOk = true ∧
      (evaluate (mapCall entries 0 0 0) s context).Rearranged
        (evaluate (pairsCall entries 0 0) s context) := by
  intro call period entries s context
  have hvalue (n : Node) (h : (n.eval [] s ⟨context, 2⟩).result.isOk = true) :
      n.HasValue s ⟨context, 2⟩ := by
    refine ⟨[], ?_⟩
    cases hr : (n.eval [] s ⟨context, 2⟩).result with
    | ok v => exact ⟨v, rfl⟩
    | error e => rw [hr] at h; cases h
  have hentries : Evaluable entries s (.initial context) := by
    refine ⟨fun limit hlimit => ?_, ?_, ?_⟩
    · cases hlimit
      decide
    · simp only [entries, List.forall_mem_cons]
      exact ⟨hvalue _ (by decide +kernel), hvalue _ (by decide +kernel), by simp⟩
    · simp only [entries, List.forall_mem_cons]
      exact ⟨hvalue _ (by decide +kernel), hvalue _ (by decide +kernel), by simp⟩
  exact ⟨by decide +kernel,
    (weight_syntaxes_agree entries (List.cons_ne_nil _ _) s 0 0 0 0 0).2 context hentries⟩

end Node

end AllocScript
