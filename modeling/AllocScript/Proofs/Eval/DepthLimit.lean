import AllocScript.Proofs.Eval.Context
import AllocScript.Proofs.Node.Paths
import AllocScript.Proofs.Node.RoundTrip

/-!
# The limit on nested lists

An evaluation with a limit on nested lists is the one without a limit, cut short where that one
begins a list that lies in as many lists as the limit (`Event.Deep`).

* `Cut` says this of two outcomes: they are the same if no such list begins, and otherwise the
  second one stops with the problem `nestedTooDeep` at the first of them. Lists in branches that are
  not evaluated begin no more than other nodes there, so they do not count.
* `Limited` says it of a computation in all its runs from inside of so many lists. What is made of
  limited computations is limited (`limitSimulation`), and from a node that the limit allows the
  evaluation is, too: the lists that are counted around it are as many as its path is long
  (`Node.eval_limited`).

The trees of sources are no deeper than the limit, which therefore does nothing to them.
-/

namespace AllocScript

/-- The evaluation of a list begins that lies in `limit` lists. -/
def Event.Deep (root : Node) (limit : Nat) : Event → Prop
  | .begun path => path.length = limit ∧
      ∃ kind children p, root.subtree? path = some (.list kind children p)
  | _ => False

/-- The computation stops because of the depth. -/
def StopsTooDeep {α : Type} (result : Except Stop α) : Prop :=
  ∃ e, result = .error (.error e) ∧ e.problem = .nestedTooDeep

theorem stopsTooDeep_map {α β : Type} (r : Except Stop α) (f : α → β) :
    StopsTooDeep (r.map f) ↔ StopsTooDeep r := by
  cases r with
  | ok a => exact iff_of_false (fun ⟨_, h, _⟩ => by cases h) (fun ⟨_, h, _⟩ => by cases h)
  | error e => exact exists_congr fun _ => and_congr_left' (by simp [Except.map])

/-- What the limit makes of an outcome without one. -/
inductive Cut {α : Type} (root : Node) (limit : Nat) (o : Outcome α) : Outcome α → Prop
  | whole : (∀ e ∈ o.events, ¬ e.Deep root limit) → ¬ StopsTooDeep o.result → Cut root limit o o
  | short {before after : List Event} {path : NodePath} {kind : ListKind} {children : List Node}
      {p : Nat} {st : EvalState} :
      o.events = before ++ .begun path :: after → (∀ e ∈ before, ¬ e.Deep root limit) →
      path.length = limit → root.subtree? path = some (.list kind children p) →
      Cut root limit o ⟨.error (.error (.atNode (.list kind children p) .nestedTooDeep)),
        before ++ [.begun path], st⟩

/-- Where no list lies as deep as the limit, it does nothing. -/
theorem Cut.eq_of_not_deep {α : Type} {root : Node} {limit : Nat} {o o' : Outcome α}
    (h : Cut root limit o o') (hdeep : ∀ e : Event, ¬ e.Deep root limit) :
    o' = o ∧ ¬ StopsTooDeep o.result := by
  cases h with
  | whole _ hstop => exact ⟨rfl, hstop⟩
  | @short _ _ path kind children p _ _ _ hlength hlist =>
    exact absurd ⟨hlength, kind, children, p, hlist⟩ (hdeep (.begun path))

/-- What is done to the state behind both outcomes makes no difference. -/
theorem Cut.setState {α : Type} {root : Node} {limit : Nat} {o o' : Outcome α}
    (h : Cut root limit o o') (f : EvalState → EvalState) :
    Cut root limit { o with state := f o.state } { o' with state := f o'.state } := by
  cases h with
  | whole hevents hstop => exact .whole hevents hstop
  | short heq hbefore hlength hlist => exact .short heq hbefore hlength hlist

/-- From inside of so many lists, the limit cuts the computation short or does nothing to it. -/
structure Limited {α : Type} (root : Node) (limit depth : Nat) (x : Eval α) : Prop where
  framed : Framed x
  cut : ∀ feed reuse (st : EvalState), st.depth = depth →
    Cut root limit (x ⟨feed, none, reuse⟩ st) (x ⟨feed, some limit, reuse⟩ st)

namespace Limited

open Eval

variable {α β : Type} {root : Node} {limit depth : Nat}

theorem not_stopsTooDeep_ok (a : α) : ¬ StopsTooDeep (.ok a : Except Stop α) := by
  rintro ⟨e, he, -⟩
  cases he

/-- A computation that knows nothing of the limit. -/
theorem of_ensures {x : Eval α} (hframed : Framed x) (hsame : ∀ feed limit reuse st,
      x ⟨feed, limit, reuse⟩ st = x ⟨feed, none, reuse⟩ st)
    (h : Ensures (fun e => ¬ e.Deep root limit)
      (fun e => ∀ error, e = .error error → error.problem ≠ .nestedTooDeep) (fun _ => True) x) :
    Limited root limit depth x where
  framed := hframed
  cut feed reuse st _ := by
    rw [hsame feed (some limit)]
    refine .whole (h.events _ st) ?_
    rintro ⟨e, he, hdeep⟩
    exact h.stop _ st _ he e rfl hdeep

theorem pure (a : α) : Limited root limit depth (Pure.pure a) :=
  of_ensures (.pure a) (fun _ _ _ _ => rfl) (.pure trivial)

theorem fail (n : Node) {problem : EvalProblem} (h : problem.isOwn = true) :
    Limited root limit depth (Eval.fail (α := α) n problem) :=
  of_ensures (.fail n problem) (fun _ _ _ _ => rfl) <| .fail fun e he => by
    cases he
    exact EvalProblem.ne_nestedTooDeep_of_isOwn h

theorem fault (f : Fault) : Limited root limit depth (Eval.fault (α := α) f) :=
  of_ensures (.fault f) (fun _ _ _ _ => rfl) (.halt fun e he => by cases he)

theorem emit {event : Event} (h : ¬ event.Deep root limit) :
    Limited root limit depth (Eval.emit event) :=
  of_ensures (.emit event) (fun _ _ _ _ => rfl) (.emit h)

theorem fetch (n : Node) (r : Request) : Limited root limit depth (Eval.fetch n r) :=
  of_ensures (.fetch n r) (fun _ _ _ _ => rfl) <| .fetch (fun h => h) fun cause e he => by
    cases he
    exact nofun

theorem bind {x : Eval α} {f : α → Eval β} (hx : Limited root limit depth x)
    (hf : ∀ a, Limited root limit depth (f a)) : Limited root limit depth (x >>= f) where
  framed := hx.framed.bind fun a => (hf a).framed
  cut feed reuse st hst := by
    have hcut := hx.cut feed reuse st hst
    have hdepth := (hx.framed.depth ⟨feed, none, reuse⟩ st).trans hst
    generalize hx' : x ⟨feed, some limit, reuse⟩ st = o' at hcut
    cases hcut with
    | whole hevents hstop =>
      cases hr : (x ⟨feed, none, reuse⟩ st).result with
      | error e =>
        rw [run_bind_of_error hr, run_bind_of_error (by rw [hx', hr]), hx']
        rw [hr] at hstop
        exact .whole hevents fun ⟨e', he', hdeep⟩ => hstop ⟨e', by cases he'; rfl, hdeep⟩
      | ok a =>
        rw [run_bind_of_ok hr, run_bind_of_ok (by rw [hx', hr]), hx']
        have hrest := (hf a).cut feed reuse _ hdepth
        generalize f a ⟨feed, some limit, reuse⟩ (x ⟨feed, none, reuse⟩ st).state = r' at hrest
        cases hrest with
        | whole hevents' hstop' =>
          exact .whole (List.forall_mem_append.2 ⟨hevents, hevents'⟩) hstop'
        | @short before after path kind children p st' heq hbefore hlength hlist =>
          rw [← List.append_assoc]
          exact .short (by rw [heq, List.append_assoc])
            (List.forall_mem_append.2 ⟨hevents, hbefore⟩) hlength hlist
    | @short before after path kind children p st' heq hbefore hlength hlist =>
      have hstop := congrArg Outcome.result hx'
      rw [run_bind_of_error hstop, hx']
      cases hr : (x ⟨feed, none, reuse⟩ st).result with
      | error e =>
        rw [run_bind_of_error hr]
        exact .short heq hbefore hlength hlist
      | ok a =>
        rw [run_bind_of_ok hr]
        exact .short (by rw [heq, List.append_assoc, List.cons_append]) hbefore hlength hlist

/-- A list may be evaluated if fewer lists than the limit are around it. -/
theorem nested (n : Node) {x : Eval α} (h : depth < limit)
    (hx : Limited root limit (depth + 1) x) : Limited root limit depth (Eval.nested n x) where
  framed := hx.framed.nested n
  cut feed reuse st hst := by
    have hcut := hx.cut feed reuse { st with depth := st.depth + 1 } (by rw [hst])
    have hroom : (some limit).any (· ≤ st.depth) = false := by simpa [hst] using h
    unfold Eval.nested
    dsimp only
    rw [hroom]
    exact hcut.setState fun st => { st with depth := st.depth - 1 }

/-- With as many lists around it as the limit, nothing comes about but that it begins. -/
theorem of_deep {kind : ListKind} {children : List Node} {p : Nat} {path : NodePath}
    (h : root.subtree? path = some (.list kind children p)) (hlength : path.length = limit)
    {x : Eval α} {f : α → Eval β} (hx : Framed x) (hf : ∀ a, Framed (f a)) :
    Limited root limit limit (do
      Eval.emit (.begun path)
      let a ← Eval.nested (.list kind children p) x
      f a) where
  framed := (Framed.emit _).bind fun _ => (hx.nested _).bind hf
  cut feed reuse st hst := by
    have hstop : Eval.nested (.list kind children p) x ⟨feed, some limit, reuse⟩ st =
        ⟨.error (.error (.atNode (.list kind children p) .nestedTooDeep)), [], st⟩ :=
      if_pos (by simp [hst])
    have hrest : (Eval.nested (.list kind children p) x >>= f) ⟨feed, some limit, reuse⟩ st =
        ⟨.error (.error (.atNode (.list kind children p) .nestedTooDeep)), [], st⟩ := by
      rw [run_bind_of_error (congrArg Outcome.result hstop), hstop]
    rw [run_begun_bind, run_begun_bind, hrest]
    exact @Cut.short _ _ _ _ [] _ _ _ _ _ _ rfl (fun e he => by cases he) hlength h

end Limited

/-- **Limited computations** in all that operators do. -/
def limitSimulation (root : Node) (limit depth : Nat) : Simulation where
  node := Eq
  rel x _ := Limited root limit depth x
  pure := Limited.pure
  bind := Limited.bind
  fail h _ := Limited.fail _ h
  fault := Limited.fault
  record _ := Limited.emit id
  quote _ _ := Limited.emit id
  setMetadata _ _ := Limited.emit id
  fetch r _ := Limited.fetch _ r

namespace Node

variable {root : Node} {limit : Nat}

mutual

theorem eval_limited (n : Node) (path : NodePath) (h : root.subtree? path = some n)
    (hpath : path.length ≤ limit) : Limited root limit path.length (n.eval path) := by
  cases n with
  | atom a p =>
    have hbegun : ¬ (Event.begun path).Deep root limit := by
      rintro ⟨-, kind, children, q, hlist⟩
      rw [h] at hlist
      cases hlist
    have hatom : Limited root limit path.length (a.eval (.atom a p)) :=
      StepSimulation.atomEval (S := (limitSimulation root limit _).toStepSimulation) rfl a
    exact .bind (.emit hbegun) fun _ => .bind hatom fun v => .bind (.emit id) fun _ => .pure v
  | list kind children p =>
    rcases hpath.lt_or_eq with hlt | heq
    · have hbegun : ¬ (Event.begun path).Deep root limit := fun hdeep => hlt.ne hdeep.1
      have hoperands := operandsOf_limited children path 0
        (fun i m hm => by rw [subtree?_child h, Nat.zero_add, hm]) hlt
      have hlist := Simulation.evalList (S := limitSimulation root limit (path.length + 1))
        (n := .list kind children p) rfl rfl kind hoperands
      exact .bind (.emit hbegun) fun _ => .bind (.nested _ hlt hlist) fun v =>
        .bind (.emit id) fun _ => .pure v
    · rw [heq]
      exact .of_deep h heq (evalList_framed kind children p path) fun v =>
        (Framed.emit _).bind fun _ => .pure v

theorem operandsOf_limited (ns : List Node) (path : NodePath) (index : Nat)
    (h : ∀ i m, ns[i]? = some m → root.subtree? ((index + i) :: path) = some m)
    (hlt : path.length < limit) :
    List.Forall₂ (limitSimulation root limit (path.length + 1)).Operands
      (operandsOf ns path index) (operandsOf ns path index) := by
  cases ns with
  | nil => exact .nil
  | cons n ns =>
    refine .cons ⟨rfl, eval_limited n (index :: path) (h 0 n rfl) hlt⟩
      (operandsOf_limited ns path (index + 1) (fun i m hm => ?_) hlt)
    rw [Nat.add_assoc, Nat.add_comm 1]
    exact h (i + 1) m hm

end

theorem evalStrategy_limited (n : Node) (limit : Nat) : Limited n limit 0 n.evalStrategy := by
  refine .bind (eval_limited n [] rfl (Nat.zero_le _)) fun v => ?_
  cases v with
  | allocation a => exact .pure a
  | _ => exact .fail n rfl

/-- No list in a tree lies in more lists than the tree is deep. -/
theorem not_deep_of_depth_le {n : Node} (h : n.depth ≤ limit) (e : Event) : ¬ e.Deep n limit := by
  cases e with
  | begun path =>
    rintro ⟨hlength, kind, children, p, hlist⟩
    have hle := length_add_depth_le hlist
    rw [depth] at hle
    omega
  | _ => exact id

end Node

/-- **The limits on nested lists agree.** A tree that is no deeper than the limit is evaluated as if
there were none, and the trees of sources are no deeper than theirs. Any tree is either evaluated as
if there were no limit, or that evaluation would begin a list inside of as many lists as the limit.
Then the evaluation stops with that problem at the first such list, and it has made the requests,
written the texts and taken the steps of the one without a limit up to there. -/
theorem evaluate_depth_limit (n : Node) (feed : Feed) (reuse : Bool) (limit : Nat)
    (context : Context) :
    let unlimited := evaluate n ⟨feed, none, reuse⟩ context
    let limited := evaluate n ⟨feed, some limit, reuse⟩ context
    let events := (n.evalStrategy ⟨feed, none, reuse⟩ (.initial context)).events
    (n.depth ≤ limit → limited = unlimited ∧ ¬ StopsTooDeep limited.result) ∧
    (∀ source, Node.ofSource source = .ok n → n.depth ≤ maxDepth) ∧
    ((∀ e ∈ events, ¬ e.Deep n limit) ∧ limited = unlimited ∧ ¬ StopsTooDeep limited.result ∨
      ∃ before path after kind children p, events = before ++ .begun path :: after ∧
        (∀ e ∈ before, ¬ e.Deep n limit) ∧ path.length = limit ∧
        n.subtree? path = some (.list kind children p) ∧
        limited.result = .error (.error (.atNode (.list kind children p) .nestedTooDeep)) ∧
        limited.requests = Event.requests before ∧
        limited.context.trace = context.trace ++ Event.steps before ∧
        limited.context.metadata = Context.writeNotes context.metadata (Event.notes before)) := by
  intro unlimited limited events
  have hcut := (n.evalStrategy_limited limit).cut feed reuse (.initial context) rfl
  refine ⟨fun hdepth => ?_, fun source h => (Node.wellFormed_of_ofSource h).depth, ?_⟩
  · obtain ⟨hsame, hstop⟩ := hcut.eq_of_not_deep (Node.not_deep_of_depth_le hdepth)
    simp only [limited, unlimited, evaluate, hsame]
    exact ⟨trivial, mt (stopsTooDeep_map _ _).1 hstop⟩
  · have hconcat : ∀ {α : Type} (f : Event → Option α) before path, f (.begun path) = none →
        (before ++ [.begun path]).filterMap f = before.filterMap f := by
      intro α f before path hf
      rw [List.filterMap_append, List.filterMap_cons_none hf, List.filterMap_nil, List.append_nil]
    simp only [limited, unlimited, events, evaluate_eq]
    generalize n.evalStrategy ⟨feed, some limit, reuse⟩ (.initial context) = o' at hcut
    cases hcut with
    | whole hevents hstop => exact .inl ⟨hevents, rfl, mt (stopsTooDeep_map _ _).1 hstop⟩
    | @short before after path kind children p st heq hbefore hlength hlist =>
      exact .inr ⟨before, path, after, kind, children, p, heq, hbefore, hlength, hlist, rfl,
        hconcat _ before path rfl, congrArg (context.trace ++ ·) (hconcat _ before path rfl),
        congrArg (Context.writeNotes context.metadata) (hconcat _ before path rfl)⟩

/-- `(if true (asset "A") (if true (asset "B")))` has three lists in each other, but two are enough
to evaluate it. With room for one list it stops at `(asset "A")`. -/
theorem evaluate_depth_limit_one :
    let leaf (a : Atom) : Node := .atom a 0
    let asset (ticker : String) : Node :=
      .list .plain [leaf (.symbol "asset"), leaf (.string ticker)] 0
    let strategy : Node := .list .plain [leaf (.symbol "if"), leaf (.symbol "true"), asset "A",
      .list .plain [leaf (.symbol "if"), leaf (.symbol "true"), asset "B"] 0] 0
    let feed : Feed := fun r => .error ⟨r.symbol, r.metric, "closed"⟩
    strategy.depth = 3 ∧
    evaluate strategy ⟨feed, some 3, true⟩ .fresh = evaluate strategy ⟨feed, none, true⟩ .fresh ∧
    evaluate strategy ⟨feed, some 2, true⟩ .fresh = evaluate strategy ⟨feed, none, true⟩ .fresh ∧
    StopsTooDeep (evaluate strategy ⟨feed, some 1, true⟩ .fresh).result := by
  intro leaf asset strategy feed
  refine ⟨rfl, ((evaluate_depth_limit strategy feed true 3 .fresh).1 (by decide)).1, rfl, ?_⟩
  rcases (evaluate_depth_limit strategy feed true 1 .fresh).2.2 with
    ⟨hnone, -⟩ | ⟨_, _, _, _, _, _, -, -, -, -, hresult, -⟩
  · -- The fifth event is that `(asset "A")` begins.
    have hmem : .begun [2] ∈ (strategy.evalStrategy ⟨feed, none, true⟩ (.initial .fresh)).events :=
      List.mem_of_getElem? (i := 4) rfl
    exact absurd ⟨rfl, _, _, _, rfl⟩ (hnone _ hmem)
  · exact ⟨_, hresult, rfl⟩

end AllocScript
