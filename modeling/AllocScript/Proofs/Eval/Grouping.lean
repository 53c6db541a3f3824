import AllocScript.Proofs.Eval.Nesting
import AllocScript.Proofs.Eval.Quotes
import AllocScript.Proofs.Eval.Visits

/-!
# Groups

A group around a node does nothing but to tell of itself. A `Grouping` is a node of a tree together
with the group that is put in its place.

* `Grouping.Agree`: how an evaluation with the group goes, compared with the one without it. It ends
  alike and does the same, but where the node begins the group adds a step to the trace.
* `Grouping.simulation`: what is made in the same way of computations that agree agrees, so from the
  place of the node this goes up to the root (`Grouping.alike_replaceAt`).
* `evaluate_group_transparent` says what this means for an evaluation. There the node begins once at
  most, because the title of the group has one value at most.
-/

namespace AllocScript

/-! ## Nodes that begin -/

/-- If the event is that a node begins, its path satisfies `B`. -/
def Event.BegunIn (B : NodePath → Prop) : Event → Prop
  | begun path => B path
  | _ => True

/-- The paths of all nodes that begin satisfy `B`. -/
abbrev Eval.Begins {α : Type} (B : NodePath → Prop) (x : Eval α) : Prop :=
  Ensures (Event.BegunIn B) (fun _ => True) (fun _ => True) x

/-- Nothing but the operands of an operator begins nodes. -/
def beginsSimulation (B : NodePath → Prop) : Simulation where
  node := Eq
  rel x _ := Eval.Begins B x
  pure _ := .pure trivial
  bind hx hf := hx.bind fun a _ => hf a
  fail _ _ := .fail trivial
  fault _ := .halt trivial
  record _ := .emit trivial
  quote _ _ := .emit trivial
  setMetadata _ _ := .emit trivial
  fetch _ _ := .fetch trivial fun _ => trivial

namespace Node

open Eval

variable {B : NodePath → Prop}

theorem found_begins (path : NodePath) (v : Value) :
    Begins B (emit (.found path v) >>= fun _ => pure v) :=
  (Ensures.emit trivial).bind fun _ _ => .pure trivial

mutual

/-- In the evaluation of a node begin nodes that lie in it. -/
theorem eval_begins (n : Node) {path : NodePath} (h : ∀ q, path <:+ q → B q) :
    Begins B (n.eval path) := by
  have hbegun : Begins B (emit (.begun path)) := Ensures.emit (h path List.suffix_rfl)
  cases n with
  | atom a p =>
    have hatom : Begins B (a.eval (.atom a p)) :=
      StepSimulation.atomEval (S := (beginsSimulation B).toStepSimulation) rfl a
    exact hbegun.bind fun _ _ => hatom.bind fun v _ => found_begins path v
  | list kind children p =>
    have hlist := evalList_begins kind children p fun i q hq =>
      h q ((List.suffix_cons i path).trans hq)
    exact hbegun.bind fun _ _ => (hlist.nested trivial).bind fun v _ => found_begins path v

theorem evalList_begins (kind : ListKind) (children : List Node) (p : Nat) {path : NodePath}
    (h : ∀ i q, (i :: path) <:+ q → B q) :
    Begins B (evalList (.list kind children p) kind (operandsOf children path 0)) :=
  Simulation.evalList (S := beginsSimulation B) rfl rfl kind (operandsOf_begins children h 0)

theorem operandsOf_begins (ns : List Node) {path : NodePath} (h : ∀ i q, (i :: path) <:+ q → B q)
    (index : Nat) :
    List.Forall₂ (beginsSimulation B).Operands (operandsOf ns path index)
      (operandsOf ns path index) := by
  cases ns with
  | nil => exact .nil
  | cons n ns => exact .cons ⟨rfl, eval_begins n (h index)⟩ (operandsOf_begins ns h (index + 1))

end

/-- A node begins first of all, and then never again. -/
theorem exists_eval_eq (n : Node) (path : NodePath) :
    ∃ x, n.eval path = (emit (.begun path) >>= fun _ => x) ∧ Begins (· ≠ path) x := by
  cases n with
  | atom a p =>
    have hatom : Begins (· ≠ path) (a.eval (.atom a p)) :=
      StepSimulation.atomEval (S := (beginsSimulation _).toStepSimulation) rfl a
    exact ⟨_, rfl, hatom.bind fun v _ => found_begins path v⟩
  | list kind children p =>
    have hlist : Begins (· ≠ path)
        (evalList (.list kind children p) kind (operandsOf children path 0)) :=
      evalList_begins kind children p fun i q hq => by
        rintro rfl
        exact absurd hq.length_le (Nat.not_succ_le_self _)
    exact ⟨_, rfl, (hlist.nested trivial).bind fun v _ => found_begins path v⟩

end Node

/-! ## A group in the place of a node -/

/-- The path leads to the first child of a plain list, so to its operator if it has one. -/
def Node.HeadAt (n : Node) (path : NodePath) : Prop :=
  ∃ above children p, path = 0 :: above ∧ n.subtree? above = some (.list .plain children p)

/-- A node at a path of a tree, and what a call of `group` around it is made of. -/
structure Grouping where
  path : NodePath
  node : Node
  title : String
  symbolPosition : Nat
  titlePosition : Nat

namespace Grouping

variable (g : Grouping)

/-- The call of `group` around the node. It has the position of the node. -/
def call : Node :=
  .list .plain [.atom (.symbol "group") g.symbolPosition, .atom (.string g.title) g.titlePosition,
    g.node] g.node.position

/-- What the group adds to the trace. -/
def step : String := s!"group {quote g.title}"

/-- Whether the node begins in an event. -/
def begins : Event → Bool
  | .begun path => path = g.path
  | _ => false

/-- The steps of the trace that an event stands for, if there is a group around the node. -/
def stepsOf : Event → List String
  | .begun path => if path = g.path then [g.step] else []
  | .decided step => [step]
  | _ => []

/-- The second outcome is that with the group. -/
structure Agree {α : Type} (o o' : Outcome α) : Prop where
  result : EndsAlike g.node g.call o.result o'.result
  steps : List.Forall₂ (StepAlike g.node g.call) (o.events.flatMap g.stepsOf)
    (Event.steps o'.events)
  notes : Event.notes o.events = Event.notes o'.events
  requests : Event.requests o.events = Event.requests o'.events
  begins : o.events.countP g.begins = (Event.valuesAt (1 :: g.path) o'.events).length
  answers : o.state.answers = o'.state.answers

/-- Without a limit on nested lists, and with the same answers known, the computations agree. -/
def Alike {α : Type} (x y : Eval α) : Prop :=
  ∀ feed reuse {st st' : EvalState}, st.answers = st'.answers →
    g.Agree (x ⟨feed, none, reuse⟩ st) (y ⟨feed, none, reuse⟩ st')

variable {g}

theorem begins_begun : g.begins (.begun g.path) = true := decide_eq_true rfl

theorem begins_of_ne {e : Event} (h : e ≠ .begun g.path) : g.begins e = false := by
  cases e with
  | begun path => exact decide_eq_false fun hpath => h (congrArg _ hpath)
  | _ => rfl

/-- Where no node at the path begins, none does in any event. -/
theorem begins_events {α : Type} {x : Eval α} (h : Eval.Begins (· ≠ g.path) x) (s : Setting)
    (st : EvalState) : ∀ e ∈ (x s st).events, g.begins e = false := by
  intro e he
  refine begins_of_ne ?_
  rintro rfl
  exact h.events s st _ he rfl

theorem stepsOf_begun : g.stepsOf (.begun g.path) = [g.step] := if_pos rfl

theorem position_call (g : Grouping) : g.node.position = g.call.position := rfl

theorem depth_le_call (g : Grouping) : g.node.depth ≤ g.call.depth :=
  (Nat.le_add_left _ _).trans (@Node.length_add_depth_le g.call g.node [2] rfl)

/-- Where the node does not begin, the group adds nothing. -/
theorem stepsOf_eq {events : List Event} (h : ∀ e ∈ events, g.begins e = false) :
    events.flatMap g.stepsOf = Event.steps events := by
  induction events with
  | nil => rfl
  | cons e events ih =>
    obtain ⟨he, hevents⟩ := List.forall_mem_cons.1 h
    rw [List.flatMap_cons, ih hevents]
    cases e with
    | begun path =>
      have hpath : path ≠ g.path := by simpa [begins] using he
      exact congrArg (· ++ _) (if_neg hpath)
    | _ => rfl

/-- Outcomes agree that have the same effects, if the node does not begin and the title has no
value. -/
theorem Agree.of_sameEffects {α : Type} {o o' : Outcome α} (h : o.SameEffects o')
    (hbegins : ∀ e ∈ o.events, g.begins e = false)
    (hvalues : Event.valuesAt (1 :: g.path) o'.events = []) : g.Agree o o' where
  result := h.result ▸ .refl _
  steps := by
    rw [stepsOf_eq hbegins, Event.steps_eq_of_effects h.effects]
    exact List.forall₂_same.2 fun step _ => .refl step
  notes := Event.notes_eq_of_effects h.effects
  requests := Event.requests_eq_of_effects h.effects
  begins := by
    rw [hvalues, List.countP_eq_zero.2 fun e he => by simp [hbegins e he]]
    rfl
  answers := h.answers

namespace Alike

open Eval

variable {α β : Type}

theorem emit {e : Event} (h : g.begins e = false) (h' : e.valueAt? (1 :: g.path) = none) :
    g.Alike (Eval.emit e) (Eval.emit e) :=
  fun _ _ _ _ hst => .of_sameEffects (.write e _ hst)
    (fun e' he => by rw [List.mem_singleton.1 he]; exact h) (List.filterMap_cons_none h')

theorem pure (a : α) : g.Alike (Pure.pure a) (Pure.pure a) :=
  fun _ _ _ _ hst => .of_sameEffects ⟨rfl, rfl, hst⟩ nofun rfl

theorem fault (f : Fault) : g.Alike (Eval.fault (α := α) f) (Eval.fault f) :=
  fun _ _ _ _ hst => .of_sameEffects ⟨rfl, rfl, hst⟩ nofun rfl

theorem bind {x y : Eval α} {f f' : α → Eval β} (hx : g.Alike x y)
    (hf : ∀ a, g.Alike (f a) (f' a)) : g.Alike (x >>= f) (y >>= f') := by
  intro feed reuse st st' hst
  have hfirst := hx feed reuse hst
  cases hr : (x ⟨feed, none, reuse⟩ st).result with
  | error e =>
    obtain ⟨hresult, hsteps, hnotes, hrequests, hbegins, hanswers⟩ := hfirst
    rw [hr] at hresult
    obtain ⟨e', hr', he⟩ := hresult.eq_error
    rw [run_bind_of_error hr, run_bind_of_error hr']
    exact ⟨.error he, hsteps, hnotes, hrequests, hbegins, hanswers⟩
  | ok a =>
    have hresult := hfirst.result
    rw [hr] at hresult
    have hrest := hf a feed reuse hfirst.answers
    rw [run_bind_of_ok hr, run_bind_of_ok hresult.eq_ok]
    refine ⟨hrest.result, ?_, ?_, ?_, ?_, hrest.answers⟩
    · rw [List.flatMap_append, Event.steps, List.filterMap_append]
      exact List.rel_append hfirst.steps hrest.steps
    · rw [Event.notes, Event.notes, List.filterMap_append, List.filterMap_append]
      exact congrArg₂ _ hfirst.notes hrest.notes
    · rw [Event.requests, Event.requests, List.filterMap_append, List.filterMap_append]
      exact congrArg₂ _ hfirst.requests hrest.requests
    · rw [List.countP_append, Event.valuesAt_append, List.length_append, hfirst.begins,
        hrest.begins]

theorem fail {c c' : Node} (h : c = c' ∨ Replaced g.node g.call c c') (problem : EvalProblem) :
    g.Alike (Eval.fail (α := α) c problem) (Eval.fail c' problem) :=
  fun _ _ _ _ hst => ⟨.atNode g.position_call h problem, .nil, rfl, rfl, rfl, hst⟩

theorem fetch {c c' : Node} (h : c = c' ∨ Replaced g.node g.call c c') (r : Request) :
    g.Alike (Eval.fetch c r) (Eval.fetch c' r) := by
  intro feed reuse st st' hst
  cases hr : feed r with
  | ok value =>
    -- Without a problem, the node is not looked at.
    have hsame : Eval.fetch c r ⟨feed, none, reuse⟩ st =
        Eval.fetch c' r ⟨feed, none, reuse⟩ st := by
      simp only [Eval.fetch, Eval.ask, hr]
    rw [hsame]
    exact .of_sameEffects (.fetch c' r _ hst) (begins_events (.fetch trivial fun _ => trivial) _ st)
      (List.length_eq_zero_iff.1 (Nat.le_zero.1 (AtMost.fetch c' r _ st')))
  | error e =>
    simp only [Eval.fetch, Eval.ask, hst, hr]
    cases if reuse = true then st'.answers.lookup r else none with
    | some v => exact .of_sameEffects ⟨rfl, rfl, hst⟩ nofun rfl
    | none => exact ⟨.atNode g.position_call h _, .nil, rfl, rfl, rfl, hst⟩

/-- Without a limit, it makes no difference how many lists are around a list. -/
theorem nested (c c' : Node) {x y : Eval α} (hxy : g.Alike x y) :
    g.Alike (Eval.nested c x) (Eval.nested c' y) := by
  intro feed reuse st st' hst
  obtain ⟨hresult, hsteps, hnotes, hrequests, hbegins, hanswers⟩ := @hxy feed reuse
    { st with depth := st.depth + 1 } { st' with depth := st'.depth + 1 } hst
  exact ⟨hresult, hsteps, hnotes, hrequests, hbegins, hanswers⟩

end Alike

/-- What is done in the same way with computations that agree agrees. -/
def simulation (g : Grouping) : Simulation where
  node c c' := c = c' ∨ Replaced g.node g.call c c'
  rel := g.Alike
  pure := Alike.pure
  bind := Alike.bind
  fail _ h := .fail h _
  fault := Alike.fault
  record _ := .emit rfl rfl
  quote branch h := fun _ _ _ _ hst => ⟨.ok (), .cons (.quote h branch) .nil, rfl, rfl, rfl, hst⟩
  setMetadata _ _ := .emit rfl rfl
  fetch r h := .fetch h r

/-! ## At the node -/

/-- The state in which the group evaluates the node. -/
def inner (g : Grouping) (st : EvalState) : EvalState :=
  { st with trace := st.trace ++ [g.step], depth := st.depth + 1 }

/-- What the group does besides evaluating the node. -/
theorem run_call (g : Grouping) (feed : Feed) (reuse : Bool) (st : EvalState) :
    let body := g.node.eval (2 :: g.path) ⟨feed, none, reuse⟩ (g.inner st)
    ∃ told, (∀ e ∈ told, ∃ v, e = .found g.path v) ∧
      g.call.eval g.path ⟨feed, none, reuse⟩ st =
        ⟨body.result, .begun g.path :: .begun (1 :: g.path) ::
          .found (1 :: g.path) (.string g.title) :: .decided g.step :: (body.events ++ told),
          { body.state with depth := body.state.depth - 1 }⟩ := by
  intro body
  let list := Node.evalList g.call .plain (Node.operandsOf
    [.atom (.symbol "group") g.symbolPosition, .atom (.string g.title) g.titlePosition, g.node]
    g.path 0)
  have hnested : Eval.nested g.call list ⟨feed, none, reuse⟩ st =
      ⟨body.result, .begun (1 :: g.path) :: .found (1 :: g.path) (.string g.title) ::
        .decided g.step :: body.events, { body.state with depth := body.state.depth - 1 }⟩ := rfl
  have heval : g.call.eval g.path = Eval.emit (.begun g.path) >>= fun _ =>
      Eval.nested g.call list >>= fun v => Eval.emit (.found g.path v) >>= fun _ => pure v := rfl
  rw [heval, Eval.run_begun_bind]
  cases hr : body.result with
  | error e =>
    refine ⟨[], nofun, ?_⟩
    rw [Eval.run_bind_of_error ((congrArg Outcome.result hnested).trans hr), hnested,
      List.append_nil]
  | ok v =>
    refine ⟨[.found g.path v], fun e he => ⟨v, List.mem_singleton.1 he⟩, ?_⟩
    rw [Eval.run_bind_of_ok ((congrArg Outcome.result hnested).trans hr), hnested]
    rfl

/-- Under the group the title has no other value. -/
theorem valuesAt_body (g : Grouping) (s : Setting) (st : EvalState) :
    Event.valuesAt (1 :: g.path) (g.node.eval (2 :: g.path) s st).events = [] := by
  obtain ⟨k, -, hway, hnode⟩ := AtMost.eval (1 :: g.path) g.node (2 :: g.path)
  have hk : k = 0 := by
    by_contra hne
    exact absurd (AtMost.child_unique List.suffix_rfl (hway hne)) (by decide)
  exact List.length_eq_zero_iff.1 (Nat.le_zero.1 (hk ▸ hnode s st))

/-- **The group agrees with the node.** -/
theorem alike_call (g : Grouping) : g.Alike (g.node.eval g.path) (g.call.eval g.path) := by
  intro feed reuse st st' hst
  obtain ⟨told, htold, hrun⟩ := g.run_call feed reuse st'
  rw [hrun]
  have hinner : st.answers = (g.inner st').answers := hst
  have hsame := g.node.eval_alike g.path (2 :: g.path) feed reuse hinner
  have hnone := g.valuesAt_body ⟨feed, none, reuse⟩ (g.inner st')
  generalize g.node.eval (2 :: g.path) ⟨feed, none, reuse⟩ (g.inner st') = body at hsame hnone ⊢
  obtain ⟨x, hx, hbegins⟩ := g.node.exists_eval_eq g.path
  rw [hx, Eval.run_begun_bind] at hsame ⊢
  have hnever := begins_events hbegins ⟨feed, none, reuse⟩ st
  obtain ⟨hresult, heffects, hanswers⟩ := hsame
  have hview {β : Type} (f : Event → Option β) (hf : ∀ v, f (.found g.path v) = none) :
      (body.events ++ told).filterMap f = body.events.filterMap f := by
    have hnil : told.filterMap f = [] := List.filterMap_eq_nil_iff.2 fun e he => by
      obtain ⟨v, rfl⟩ := htold e he
      exact hf v
    rw [List.filterMap_append, hnil, List.append_nil]
  refine ⟨?_, ?_, ?_, ?_, ?_, hanswers⟩
  · dsimp only
    rw [← hresult]
    exact .refl _
  · rw [List.flatMap_cons, stepsOf_eq hnever, stepsOf_begun]
    show List.Forall₂ _ (g.step :: Event.steps _) (g.step :: Event.steps (body.events ++ told))
    rw [Event.steps, Event.steps, hview _ fun _ => rfl, ← Event.steps, ← Event.steps]
    rw [← Event.steps_eq_of_effects heffects]
    exact List.forall₂_same.2 fun step _ => .refl step
  · exact (Event.notes_eq_of_effects heffects).trans (hview Event.note? fun _ => rfl).symm
  · exact (Event.requests_eq_of_effects heffects).trans (hview Event.request? fun _ => rfl).symm
  · have hpath : g.path ≠ 1 :: g.path := fun h => by simpa using congrArg List.length h
    have hvalues : Event.valuesAt (1 :: g.path) (body.events ++ told) = [] :=
      (hview _ fun v => if_neg hpath).trans hnone
    have htitle : Event.valuesAt (1 :: g.path) (.begun g.path :: .begun (1 :: g.path) ::
        .found (1 :: g.path) (.string g.title) :: .decided g.step :: (body.events ++ told)) =
        .string g.title :: Event.valuesAt (1 :: g.path) (body.events ++ told) := by
      simp only [Event.valuesAt, List.filterMap_cons, Event.valueAt?, if_true]
    rw [htitle, hvalues, List.countP_cons_of_pos begins_begun,
      List.countP_eq_zero.2 fun e he => by simp [hnever e he]]
    rfl

/-! ## From the node to the root -/

/-- A node beside the way to the group agrees with itself. -/
theorem alike_beside {path : NodePath} {i j : Nat} (hway : (i :: path) <:+ g.path) (hj : j ≠ i)
    (c : Node) : g.Alike (c.eval (j :: path)) (c.eval (j :: path)) := by
  intro feed reuse st st' hst
  have hbegins : Eval.Begins (· ≠ g.path) (c.eval (j :: path)) :=
    c.eval_begins fun q hq heq => hj (AtMost.child_unique (heq ▸ hq) hway)
  refine .of_sameEffects (c.eval_alike _ _ feed reuse hst) (begins_events hbegins _ st) ?_
  obtain ⟨k, -, hreach, hnode⟩ := AtMost.eval (1 :: g.path) c (j :: path)
  have hk : k = 0 := by
    by_contra hne
    exact hj (AtMost.child_unique (hreach hne) (hway.trans (List.suffix_cons 1 g.path)))
  exact List.length_eq_zero_iff.1 (Nat.le_zero.1 (hk ▸ hnode ⟨feed, none, reuse⟩ st'))

/-- A list on the way to the group agrees if its child on the way does. -/
theorem alike_set {kind : ListKind} {children : List Node} {i z : Nat} {path : NodePath}
    {m m' : Node} (hchild : children[i]? = some m) (hput : Replaced g.node g.call m m')
    (hway : (i :: path) <:+ g.path) (hsymbol : kind = .plain → i = 0 → m.symbol? = m'.symbol?)
    (h : g.Alike (m.eval (i :: path)) (m'.eval (i :: path))) :
    g.Alike ((Node.list kind children z).eval path)
      ((Node.list kind (children.set i m') z).eval path) := by
  have hlength : path.length < g.path.length := hway.length_le
  have hbegun : path ≠ g.path := fun heq => hlength.ne (congrArg List.length heq)
  have hfound : path ≠ 1 :: g.path := fun heq => by
    rw [heq, List.length_cons] at hlength
    omega
  have hoperands := Simulation.operandsOf_set (S := g.simulation) hchild ⟨.inr hput, h⟩
    fun j c hj _ => ⟨.inl rfl, alike_beside hway hj c⟩
  have hnode : g.simulation.node (.list kind children z) (.list kind (children.set i m') z) :=
    .inr (.child hchild hput)
  have hlist := Simulation.evalList hnode (Node.head?_set hchild hsymbol z) kind hoperands
  exact .bind (.emit (decide_eq_false hbegun) rfl) fun _ => .bind (.nested _ _ hlist) fun v =>
    .bind (.emit (e := .found path v) rfl (if_neg hfound)) fun _ => .pure v

/-- **The group agrees with the node** in all of a strategy. -/
theorem alike_evalStrategy {n : Node} (hnode : n.subtree? g.path = some g.node)
    (hhead : ¬ n.HeadAt g.path) :
    Replaced g.node g.call n (n.replaceAt g.path g.call) ∧
      g.Alike n.evalStrategy (n.replaceAt g.path g.call).evalStrategy := by
  obtain ⟨hput, -, -, heval⟩ := Replaced.replaceAt
    (P := fun path c c' => Replaced g.node g.call c c' ∧ path <:+ g.path ∧
      (n.HeadAt path → c.symbol? = c'.symbol?) ∧ g.Alike (c.eval path) (c'.eval path))
    (fun hparent hchild ⟨hput, hway, hsymbol, heval⟩ =>
      ⟨.child hchild hput, (List.suffix_cons _ _).trans hway, fun _ => rfl,
        alike_set hchild hput hway (fun hkind hi => by
          subst hkind hi
          exact hsymbol ⟨_, _, _, rfl, hparent⟩) heval⟩)
    hnode ⟨.here, List.suffix_rfl, fun h => absurd h hhead, g.alike_call⟩
  refine ⟨hput, heval.bind fun v => ?_⟩
  cases v with
  | allocation a => exact .pure a
  | _ => exact .fail (.inr hput) _

/-- A limit that the tree with the group keeps to makes no difference. -/
theorem agree_evalStrategy {n : Node} {s : Setting} (hnode : n.subtree? g.path = some g.node)
    (hhead : ¬ n.HeadAt g.path)
    (hdepth : ∀ limit, s.depthLimit = some limit → (n.replaceAt g.path g.call).depth ≤ limit)
    (context : Context) :
    g.Agree (n.evalStrategy s (.initial context))
      ((n.replaceAt g.path g.call).evalStrategy s (.initial context)) := by
  obtain ⟨hput, hagree⟩ := alike_evalStrategy hnode hhead
  obtain ⟨feed, _ | limit, reuse⟩ := s
  · exact hagree feed reuse rfl
  · have hle := hdepth limit rfl
    have hcut := ((n.evalStrategy_limited limit).cut feed reuse (.initial context)
      rfl).eq_of_not_deep (Node.not_deep_of_depth_le ((hput.depth_le g.depth_le_call).trans hle))
    have hcut' := (((n.replaceAt g.path g.call).evalStrategy_limited limit).cut feed reuse
      (.initial context) rfl).eq_of_not_deep (Node.not_deep_of_depth_le hle)
    rw [hcut.1, hcut'.1]
    exact hagree feed reuse rfl

/-! ## The trace -/

theorem step_eq (g : Grouping) : g.step = "group " ++ quote g.title := rfl

/-- No other step is like that of the group. -/
theorem eq_step {step : String} (h : StepAlike g.node g.call g.step step) : step = g.step := by
  generalize hs : g.step = first at h
  cases h with
  | refl => rfl
  | branch =>
    have hfirst := congrArg (fun s => s.toList.head?) hs
    rw [step_eq] at hfirst
    simp at hfirst

/-- Where the node begins, at most once, the trace has the step of the group. -/
theorem Agree.step_added {α : Type} {o o' : Outcome α} (h : g.Agree o o')
    (honce : (Event.valuesAt (1 :: g.path) o'.events).length ≤ 1) {before after : List Event}
    (hevents : o.events = before ++ .begun g.path :: after) :
    ∃ before' after', Event.steps o'.events = before' ++ g.step :: after' ∧
      List.Forall₂ (StepAlike g.node g.call) (Event.steps before) before' ∧
      List.Forall₂ (StepAlike g.node g.call) (Event.steps after) after' := by
  have hcount := h.begins
  have hsteps := h.steps
  rw [hevents] at hcount hsteps
  rw [List.countP_append, List.countP_cons_of_pos begins_begun] at hcount
  have hbefore : ∀ e ∈ before, g.begins e = false := fun e he =>
    Bool.eq_false_iff.2 (List.countP_eq_zero.1 (by omega) e he)
  have hafter : ∀ e ∈ after, g.begins e = false := fun e he =>
    Bool.eq_false_iff.2 (List.countP_eq_zero.1 (by omega) e he)
  rw [List.flatMap_append, List.flatMap_cons, stepsOf_eq hbefore, stepsOf_eq hafter,
    stepsOf_begun] at hsteps
  have hpre := List.forall₂_take (Event.steps before).length hsteps
  have hrest := List.forall₂_drop (Event.steps before).length hsteps
  rw [List.take_left] at hpre
  rw [List.drop_left, List.singleton_append] at hrest
  obtain ⟨step, after', hstep, hpost, heq⟩ := List.forall₂_cons_left_iff.1 hrest
  refine ⟨_, after', ?_, hpre, hpost⟩
  rw [← eq_step hstep, ← heq, List.take_append_drop]

end Grouping

/-- **A group is transparent.** Around any node of a strategy other than the first child of a plain
list, as long as the strategy with the group keeps to the limit on nested lists, a group makes no
difference to the allocation or its metadata, or to the problem, so the message and the cause, and
the position of the error; the same requests are made in the same order, and the same answers and
texts are left. The trace has the step of the group in addition, where the node begins, if it does,
and nothing else if it does not; its other steps are the same but for conditions that have the
group in them, which steps of `if` quote. -/
theorem evaluate_group_transparent (n : Node) (g : Grouping) (setting : Setting)
    (context : Context) (hnode : n.subtree? g.path = some g.node) (hhead : ¬ n.HeadAt g.path)
    (hdepth : ∀ limit, setting.depthLimit = some limit →
      (n.replaceAt g.path g.call).depth ≤ limit) :
    let run := evaluate n setting context
    let run' := evaluate (n.replaceAt g.path g.call) setting context
    let events := (n.evalStrategy setting (.initial context)).events
    EndsAlike g.node g.call run.result run'.result ∧ run.requests = run'.requests ∧
      run.context.answers = run'.context.answers ∧
      run.context.metadata = run'.context.metadata ∧
      (.begun g.path ∉ events →
        List.Forall₂ (StepAlike g.node g.call) run.context.trace run'.context.trace) ∧
      ∀ before after, events = before ++ .begun g.path :: after →
        ∃ before' after', run'.context.trace = before' ++ g.step :: after' ∧
          run.context.trace = (context.trace ++ Event.steps before) ++ Event.steps after ∧
          List.Forall₂ (StepAlike g.node g.call) (context.trace ++ Event.steps before) before' ∧
          List.Forall₂ (StepAlike g.node g.call) (Event.steps after) after' := by
  intro run run' events
  have hagree := Grouping.agree_evalStrategy hnode hhead hdepth context
  have htrace : run.context.trace = context.trace ++ Event.steps events :=
    congrArg Context.trace (evaluate_context n setting context)
  have htrace' : run'.context.trace = context.trace ++ Event.steps
      ((n.replaceAt g.path g.call).evalStrategy setting (.initial context)).events :=
    congrArg Context.trace (evaluate_context _ setting context)
  have hbefore : List.Forall₂ (StepAlike g.node g.call) context.trace context.trace :=
    List.forall₂_same.2 fun step _ => .refl step
  refine ⟨hagree.result.evaluate hagree.notes, hagree.requests, hagree.answers,
    metadata_eq_of_notes hagree.notes, fun hnever => ?_, fun before after h => ?_⟩
  · have hsteps := hagree.steps
    have hnone : ∀ e ∈ events, g.begins e = false := fun e he =>
      Grouping.begins_of_ne fun heq => hnever (heq ▸ he)
    rw [Grouping.stepsOf_eq hnone] at hsteps
    rw [htrace, htrace']
    exact List.rel_append hbefore hsteps
  · obtain ⟨before', after', hadded, hpre, hpost⟩ :=
      hagree.step_added (AtMost.evalStrategy _ _ _ _) h
    refine ⟨context.trace ++ before', after', ?_, ?_, List.rel_append hbefore hpre, hpost⟩
    · rw [htrace', hadded, List.append_assoc]
    · rw [htrace, h, Event.steps, List.filterMap_append, List.append_assoc]
      rfl

/-- A group around the condition of `(if true (asset "A"))`. -/
theorem evaluate_group_transparent_condition :
    let strategy (condition : Node) : Node := .list .plain
      [.atom (.symbol "if") 1, condition,
        .list .plain [.atom (.symbol "asset") 10, .atom (.string "A") 16] 9] 0
    let g : Grouping := ⟨[1], .atom (.symbol "true") 4, "always", 5, 11⟩
    let setting : Setting := ⟨fun r => .error ⟨r.symbol, r.metric, "closed"⟩, some maxDepth, true⟩
    let run := evaluate (strategy g.node) setting .fresh
    let run' := evaluate (strategy g.call) setting .fresh
    (strategy g.node).subtree? g.path = some g.node ∧ ¬ (strategy g.node).HeadAt g.path ∧
      (strategy g.call).depth ≤ maxDepth ∧ EndsAlike g.node g.call run.result run'.result ∧
      ∃ before after, run'.context.trace = before ++ g.step :: after := by
  intro strategy g setting run run'
  have hhead : ¬ (strategy g.node).HeadAt g.path := by
    rintro ⟨_, _, _, hpath, -⟩
    cases hpath
  have hdepth : (strategy g.call).depth ≤ maxDepth := by decide
  obtain ⟨hresult, -, -, -, -, htrace⟩ := evaluate_group_transparent (strategy g.node) g setting
    .fresh rfl hhead fun limit hlimit => by
      cases hlimit
      exact hdepth
  -- The condition begins right after the strategy.
  obtain ⟨before, after, hstep, -⟩ := htrace [.begun []] _ rfl
  exact ⟨rfl, hhead, hdepth, hresult, before, after, hstep⟩

end AllocScript
