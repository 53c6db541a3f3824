import AllocScript.Proofs.Eval.Context
import AllocScript.Proofs.Eval.Visits
import AllocScript.Source

/-!
# Which texts a strategy writes

A call of `defsymphony` writes its title under `name`, and then the scalars of its parameter map
under their keys (`Operator.textsOf`). Nothing else writes texts. So the texts that an evaluation
writes under a key are told by the values of titles and parameter maps, in the order in which they
get them (`Node.evalStrategy_tells`), and the last of them is the metadata under that key.
-/

namespace AllocScript

/-! ## Texts of operands -/

/-- The text of a scalar, as a parameter is written. -/
def Value.scalar? : Value → Option String
  | .string s => some s
  | .keyword k => some k
  | .number d => some d.renderShort
  | .boolean b => some (toString b)
  | _ => none

/-- The text of a parameter under a key, if it is one of that key. -/
def Operator.parameterText? (key : String) : Value × Value → Option String
  | (.keyword k, v) => if k = key then v.scalar? else none
  | _ => none

/-- The texts under a key that `defsymphony` writes because of the value of an operand, if it has
`count` of them: the title comes first, and of three operands the second is the parameter map. -/
def Operator.textsOf (key : String) (count : Nat) : Nat → Value → List String
  | 0, .string title => if "name" = key then [title] else []
  | 1, .map parameters => if count = 3 then parameters.filterMap (parameterText? key) else []
  | _, _ => []

/-- The texts under a key that are written because the node at a path has a value: those of an
operand of `defsymphony`. -/
def Node.textsAt (n : Node) (key : String) : NodePath → Value → List String
  | (i + 1) :: path, v =>
    match n.subtree? path with
    | some call =>
      if call.head? = some "defsymphony" then
        Operator.textsOf key ((call.children?.getD []).length - 1) i v
      else []
    | none => []
  | _, _ => []

namespace Event

/-- The texts that events tell of. -/
def told (n : Node) (key : String) : Event → List String
  | found path v => n.textsAt key path v
  | _ => []

/-- The text that is written under a key. -/
def written? (key : String) : Event → Option String
  | noted k text => if k = key then some text else none
  | _ => none

/-- The texts written under a key, in order. -/
def written (key : String) (events : List Event) : List String := events.filterMap (written? key)

end Event

/-! ## Written and told -/

/-- If the computation ends with a value, then of the texts under a key that it has to write, which
are those `owed` before it and those that its events tell of, only what `owes` says is left. -/
def Eval.Tells {α : Type} (n : Node) (key : String) (owed : List String) (owes : α → List String)
    (x : Eval α) : Prop :=
  ∀ s st a, (x s st).result = .ok a →
    Event.written key (x s st).events ++ owes a =
      owed ++ (x s st).events.flatMap (Event.told n key)

namespace Eval

/-- What is told is written as well. -/
abbrev Settled {α : Type} (n : Node) (key : String) (x : Eval α) : Prop :=
  Tells n key [] (fun _ => []) x

namespace Tells

variable {α β : Type} {n : Node} {key : String} {owed : List String} {owes : α → List String}

theorem pure {a : α} (h : owes a = owed) : Tells n key owed owes (Pure.pure a) := by
  intro s st b hb
  cases hb
  exact h.trans (List.append_nil owed).symm

theorem bind {x : Eval α} {f : α → Eval β} {left : β → List String} (hx : Tells n key owed owes x)
    (hf : ∀ a, Tells n key (owes a) left (f a)) : Tells n key owed left (x >>= f) := by
  intro s st b hb
  cases hr : (x s st).result with
  | error e =>
    rw [run_bind_of_error hr] at hb
    cases hb
  | ok a =>
    rw [run_bind_of_ok hr] at hb ⊢
    have hfirst := hx s st a hr
    have hrest := hf a s _ b hb
    rw [Event.written, List.filterMap_append, List.append_assoc, ← Event.written, ← Event.written,
      hrest, ← List.append_assoc, hfirst, List.append_assoc, List.flatMap_append]

theorem stops {x : Eval α} (h : ∀ s st a, (x s st).result ≠ .ok a) : Tells n key owed owes x :=
  fun s st a ha => absurd ha (h s st a)

theorem fail {node : Node} {problem : EvalProblem} :
    Tells n key owed owes (Eval.fail node problem) := stops nofun

/-- Events that neither write texts nor tell of any. -/
theorem of_silent {x : Eval α} (h : ∀ s st, ∀ e ∈ (x s st).events,
    e.written? key = none ∧ e.told n key = []) : Settled n key x := by
  intro s st a _
  rw [List.append_nil, List.nil_append, Event.written,
    List.filterMap_eq_nil_iff.2 fun e he => (h s st e he).1,
    List.flatMap_eq_nil_iff.2 fun e he => (h s st e he).2]

theorem emit {e : Event} (h : e.written? key = none ∧ e.told n key = []) :
    Settled n key (Eval.emit e) :=
  of_silent fun _ _ e' he => by rw [List.mem_singleton.1 he]; exact h

theorem fetch (node : Node) (r : Request) : Settled n key (Eval.fetch node r) := by
  refine of_silent fun s st e he => ?_
  have hasked : e = .asked r := by
    unfold Eval.fetch at he
    split at he
    · cases he
    · unfold Eval.ask at he
      split at he <;> exact List.mem_singleton.1 he
  rw [hasked]
  exact ⟨rfl, rfl⟩

theorem nested (node : Node) {x : Eval α} (hx : Tells n key owed owes x) :
    Tells n key owed owes (Eval.nested node x) := by
  intro s st a ha
  obtain ⟨hresult, hevents⟩ := run_nested_of_ok ha
  rw [hevents]
  exact hx s _ a hresult

/-- A text that is written is owed no longer. -/
theorem setMetadata (k text : String) (more : List String) :
    Tells n key ((if k = key then [text] else []) ++ more) (fun _ => more)
      (Eval.setMetadata k text) := by
  intro s st a _
  show List.filterMap (Event.written? key) [.noted k text] ++ more = _ ++ []
  by_cases hk : k = key <;> simp [Event.written?, hk]

/-- A node that has a value owes the texts that this tells of. -/
theorem found (path : NodePath) (v : Value) :
    Tells n key [] (fun _ => n.textsAt key path v) (Eval.emit (.found path v)) := by
  intro s st a _
  show List.filterMap (Event.written? key) [.found path v] ++ n.textsAt key path v =
    [] ++ [Event.found path v].flatMap (Event.told n key)
  simp [Event.written?, Event.told]

end Tells

/-- The steps of operators leave nothing unwritten. -/
def settledSteps (n : Node) (key : String) : StepSimulation where
  node := Eq
  rel x _ := Settled n key x
  pure _ := .pure rfl
  bind hx hf := hx.bind hf
  fail _ _ := .fail
  fault _ := .stops nofun
  record _ := .emit ⟨rfl, rfl⟩
  quote _ _ := .emit ⟨rfl, rfl⟩
  fetch r _ := .fetch _ r

end Eval

/-! ## Titles and parameters -/

namespace Operator

open Eval

variable {n : Node} {key : String}

theorem expectScalar_tells (node : Node) (k : String) (v : Value) (more : List String) :
    Tells n key ((if k = key then v.scalar?.toList else []) ++ more)
      (fun text => (if k = key then [text] else []) ++ more) (expectScalar node v) := by
  cases v <;> first | exact .pure rfl | exact .fail

theorem parameterTexts_cons (k : String) (v : Value) (parameters : List (Value × Value)) :
    ((.keyword k, v) :: parameters).filterMap (parameterText? key) =
      (if k = key then v.scalar?.toList else []) ++
        parameters.filterMap (parameterText? key) := by
  rw [List.filterMap_cons, parameterText?]
  by_cases hk : k = key
  · rw [if_pos hk, if_pos hk]
    cases v.scalar? <;> rfl
  · rw [if_neg hk, if_neg hk]
    rfl

/-- Each parameter is written in its turn. -/
theorem writeParameters_tells (node : Node) (parameters : List (Value × Value)) :
    Tells n key (parameters.filterMap (parameterText? key)) (fun _ => [])
      (writeParameters node parameters) := by
  fun_induction writeParameters node parameters with
  | case1 => exact .pure rfl
  | case2 k v rest ih =>
    rw [parameterTexts_cons]
    exact (expectScalar_tells node k v _).bind fun text => (Tells.setMetadata k text _).bind
      fun _ => ih
  | case3 => exact .fail

/-- **`defsymphony` writes its title and its parameters**, and nothing else. -/
theorem defsymphony_settled {operands : List Operand}
    (ho : ∀ (i : Nat) (o : Operand), operands[i]? = some o →
      Tells n key [] (textsOf key operands.length i) o.value) :
    Settled n key (defsymphony operands) := by
  match operands, ho with
  | [], _ => exact (settledSteps n key).fault _
  | title :: rest, ho =>
    have htitle :
        Tells n key [] (fun name => if "name" = key then [name] else []) title.string := by
      refine (ho 0 title rfl).bind fun v => ?_
      cases v with
      | string name => exact .pure rfl
      | _ => exact .fail
    have hname (name : String) : Tells n key (if "name" = key then [name] else []) (fun _ => [])
        (setMetadata "name" name) := by
      have hwritten : Tells n key _ _ _ := Tells.setMetadata "name" name []
      rwa [List.append_nil] at hwritten
    refine htitle.bind fun name => (hname name).bind fun _ =>
      ((settledSteps n key).record _).bind fun _ => ?_
    match rest, ho with
    | [], _ => exact Tells.fail
    | [body], ho =>
      -- A body in the place of the parameter map tells of none.
      have hbody := ho 1 body rfl
      have hnone : textsOf key [title, body].length 1 = fun _ => [] := by
        funext v
        cases v <;> rfl
      rwa [hnone] at hbody
    | [parameters, body], ho =>
      refine (ho 1 parameters rfl).bind fun v => ?_
      have hbody : Settled n key body.value := ho 2 body rfl
      cases v with
      | map entries => exact (writeParameters_tells parameters.node entries).bind fun _ => hbody
      | _ => exact Tells.bind (Tells.fail (α := Unit)) fun _ => hbody
    | _ :: _ :: _ :: _, _ => exact Tells.fail

end Operator

/-! ## Trees -/

namespace Node

open Eval Operator

variable {n : Node} {key : String}

theorem textsAt_eq {path : NodePath} {call : Node} (hpath : n.subtree? path = some call)
    (hhead : call.head? = some "defsymphony") (i : Nat) (v : Value) :
    n.textsAt key ((i + 1) :: path) v =
      textsOf key ((call.children?.getD []).length - 1) i v := by
  rw [textsAt, hpath]
  exact if_pos hhead

theorem textsAt_eq_nil {path : NodePath} {m : Node} (hpath : n.subtree? path = some m)
    (hhead : m.head? ≠ some "defsymphony") (i : Nat) (v : Value) :
    n.textsAt key (i :: path) v = [] := by
  cases i with
  | zero => rfl
  | succ i =>
    rw [textsAt, hpath]
    exact if_neg hhead

/-- A list writes what its children tell of. -/
theorem evalList_settled {kind : ListKind} {children : List Node} {p : Nat} {path : NodePath}
    (hpath : n.subtree? path = some (.list kind children p)) {operands : List Operand}
    (hlength : operands.length = children.length)
    (ho : ∀ (i : Nat) (o : Operand), operands[i]? = some o →
      Tells n key [] (n.textsAt key (i :: path)) o.value) :
    Settled n key (evalList (.list kind children p) kind operands) := by
  by_cases hhead : (Node.list kind children p).head? = some "defsymphony"
  · have hkind : kind = .plain := by
      cases kind with
      | plain => rfl
      | map => cases hhead
    subst hkind
    have hentry : Form.lookup? "defsymphony" =
        some ⟨"defsymphony", .defsymphony, .between 2 3⟩ := by decide
    cases operands with
    | nil =>
      unfold evalList
      rw [hhead]
      exact (settledSteps n key).fault _
    | cons head arguments =>
      rw [evalList_call hhead hentry]
      split
      · refine defsymphony_settled fun i o hi => ?_
        have hoperand := ho (i + 1) o hi
        rw [funext (textsAt_eq hpath hhead i)] at hoperand
        rwa [show arguments.length = children.length - 1 by rw [← hlength]; rfl]
      · exact .fail
  · have hoperands : List.Forall₂ (settledSteps n key).Operands operands operands := by
      refine List.forall₂_same.2 fun o hmem => ⟨rfl, ?_⟩
      obtain ⟨i, hi⟩ := List.getElem?_of_mem hmem
      have hoperand := ho i o hi
      rwa [funext (textsAt_eq_nil hpath hhead i)] at hoperand
    refine StepSimulation.evalList rfl rfl kind hoperands fun name entry hname hentry htail =>
      StepSimulation.apply rfl (fun hform => hhead ?_) htail
    have hoperator : name = "defsymphony" := Form.name_of_lookup? (by decide) hentry hform
    rw [hname, hoperator]

mutual

theorem eval_tells (m : Node) (path : NodePath) (hpath : n.subtree? path = some m) :
    Tells n key [] (n.textsAt key path) (m.eval path) := by
  have hbegin : Settled n key (emit (.begun path)) := .emit ⟨rfl, rfl⟩
  have hend (v : Value) : Tells n key [] (n.textsAt key path)
      (emit (.found path v) >>= fun _ => pure v) :=
    (Tells.found path v).bind fun _ => .pure rfl
  cases m with
  | atom a p =>
    have hatom : Settled n key (a.eval (.atom a p)) :=
      StepSimulation.atomEval (S := settledSteps n key) rfl a
    exact hbegin.bind fun _ => hatom.bind hend
  | list kind children p =>
    have hoperands := operandsOf_tells children path 0 fun i c hc => by
      rw [subtree?_child hpath, Nat.zero_add, hc]
    simp only [Nat.zero_add] at hoperands
    exact hbegin.bind fun _ =>
      (Tells.nested _ (evalList_settled hpath (length_operandsOf ..) hoperands)).bind hend

theorem operandsOf_tells (ns : List Node) (path : NodePath) (index : Nat)
    (hpath : ∀ i m, ns[i]? = some m → n.subtree? ((index + i) :: path) = some m) :
    ∀ (i : Nat) (o : Operand), (operandsOf ns path index)[i]? = some o →
      Tells n key [] (n.textsAt key ((index + i) :: path)) o.value := by
  cases ns with
  | nil => exact fun i o ho => by cases ho
  | cons m ns =>
    intro i o ho
    cases i with
    | zero =>
      cases ho
      exact eval_tells m (index :: path) (hpath 0 m rfl)
    | succ i =>
      rw [← Nat.add_assoc, Nat.add_right_comm]
      refine operandsOf_tells ns path (index + 1) (fun i c hc => ?_) i o ho
      rw [Nat.add_right_comm, Nat.add_assoc]
      exact hpath (i + 1) c hc

end

/-- **What a strategy writes under a key** are the texts that titles and parameter maps tell of, in
the order in which they get their values. -/
theorem evalStrategy_tells (n : Node) (key : String) : Settled n key n.evalStrategy := by
  refine (eval_tells n [] rfl).bind fun v => ?_
  cases v with
  | allocation a => exact .pure rfl
  | _ => exact .fail

/-- The texts under a key that titles and parameter maps tell of in a run. -/
def texts (n : Node) (key : String) (setting : Setting) (context : Context) : List String :=
  (n.evalStrategy setting (.initial context)).events.flatMap (Event.told n key)

end Node

theorem Event.lookup_notes (key : String) (events : List Event) :
    (notes events).reverse.lookup key = (written key events).getLast? := by
  induction events using List.reverseRecOn with
  | nil => rfl
  | append_singleton events e ih =>
    rw [notes, written, List.filterMap_append, List.filterMap_append, ← notes, ← written]
    cases e with
    | noted k text =>
      show ((notes events ++ [(k, text)]).reverse).lookup key = _
      rw [List.reverse_append]
      by_cases hk : k = key
      · simp [written?, hk]
      · have hne : (key == k) = false := by simpa using Ne.symm hk
        simp [written?, hk, List.lookup, hne, ih]
    | _ =>
      show (notes events ++ []).reverse.lookup key = (written key events ++ []).getLast?
      rwa [List.append_nil, List.append_nil]

/-- **The metadata of a result** are the last texts told of, over those of the context. -/
theorem get?_metadata_of_evaluate {n : Node} {setting : Setting} {context : Context}
    {a : Allocation} (ha : (evaluate n setting context).result = .ok a) (key : String) :
    a.metadata.get? key =
      (n.texts key setting context).getLast?.or (context.metadata.get? key) := by
  obtain ⟨b, hb, rfl⟩ := evaluate_eq_ok ha
  have hwritten := n.evalStrategy_tells key setting (.initial context) b hb
  rw [List.append_nil, List.nil_append] at hwritten
  rw [Allocation.withMetadata_of_bare (n.evalStrategy_bare setting (.initial context) b hb),
    evaluate_context, Node.texts, ← hwritten, ← Event.lookup_notes]
  exact Context.get?_writeNotes ..

/-! ## The name of a strategy -/

/-- A strategy with a title of its own. -/
def Node.strategy (name : String) (arguments : List Node) (p q z : Nat) : Node :=
  .list .plain (.atom (.symbol "defsymphony") p :: .atom (.string name) q :: arguments) z

/-- What the title is evaluated to comes about first. -/
theorem Operator.events_defsymphony {name : String} {q : Nat} {rest : List Operand}
    {setting : Setting} {st : EvalState} {v : Value}
    (hv : (defsymphony (⟨.atom (.string name) q, (Node.atom (.string name) q).eval [1]⟩ :: rest)
      setting st).result = .ok v) :
    ∃ later, (defsymphony (⟨.atom (.string name) q, (Node.atom (.string name) q).eval [1]⟩ :: rest)
      setting st).events = .begun [1] :: .found [1] (.string name) :: later := by
  obtain ⟨_, -, -, hevents⟩ := Eval.exists_runs_of_bind hv
  exact ⟨_, hevents⟩

/-- Such a strategy first of all tells of its title. -/
theorem Node.events_strategy {name : String} {arguments : List Node} {p q z : Nat}
    {setting : Setting} {st : EvalState} {b : Allocation}
    (hb : ((Node.strategy name arguments p q z).evalStrategy setting st).result = .ok b) :
    ∃ later, ((Node.strategy name arguments p q z).evalStrategy setting st).events =
      .begun [] :: .begun [1] :: .found [1] (.string name) :: later := by
  let n := Node.strategy name arguments p q z
  let title : Operand := ⟨.atom (.string name) q, (Node.atom (.string name) q).eval [1]⟩
  let operands := title :: operandsOf arguments [] 2
  let called := call n "defsymphony" operands
  have heval : n.eval [] = Eval.emit (.begun []) >>= fun _ => Eval.nested n called >>= fun v =>
      Eval.emit (.found [] v) >>= fun _ => pure v := rfl
  have hcalled : called = if (Arity.between 2 3).accepts operands.length then
      Operator.defsymphony operands
    else Eval.fail n (.argumentCount "defsymphony" (.between 2 3) operands.length) := rfl
  have htitle (st : EvalState) (w : Value) (hw : (called setting st).result = .ok w) :
      ∃ later, (called setting st).events =
        .begun [1] :: .found [1] (.string name) :: later := by
    rw [hcalled] at hw ⊢
    split at hw
    · rename_i harity
      rw [if_pos harity]
      exact Operator.events_defsymphony hw
    · cases hw
  obtain ⟨v, hv, -, hevents⟩ := Eval.exists_runs_of_bind (x := n.eval []) hb
  rw [heval] at hv
  obtain ⟨_, -, hv, hbegun⟩ := Eval.exists_runs_of_bind hv
  obtain ⟨w, hw, -, hcall⟩ := Eval.exists_runs_of_bind hv
  obtain ⟨hw, hnested⟩ := Eval.run_nested_of_ok hw
  obtain ⟨later, hlater⟩ := htitle _ w hw
  change ∃ later, ((n.eval [] >>= _) setting st).events = _ :: _ :: _ :: later
  rw [hevents, heval, hbegun, hcall, hnested, hlater]
  exact ⟨_, rfl⟩

/-- **What becomes of the name of a strategy.** If a strategy with a title evaluates to an
allocation, the title is the first name that is written. The name in the metadata is the last one
that is written, and a later one comes from the value of some other node that the evaluation comes
to: the title of another call of `defsymphony`, or a parameter map with the key `name`. -/
theorem evaluate_name (name : String) (arguments : List Node) (p q z : Nat) (setting : Setting)
    (context : Context) (a : Allocation)
    (ha : (evaluate (.strategy name arguments p q z) setting context).result = .ok a) :
    let n := Node.strategy name arguments p q z
    ∃ later, n.texts "name" setting context = name :: later ∧
      a.metadata.get? "name" = some (later.getLast?.getD name) ∧
      ∀ text ∈ later, ∃ path v, .found path v ∈ (n.evalStrategy setting (.initial context)).events ∧
        path ≠ [1] ∧ text ∈ n.textsAt "name" path v := by
  intro n
  obtain ⟨b, hb, -⟩ := evaluate_eq_ok ha
  obtain ⟨rest, hevents⟩ := Node.events_strategy hb
  have htexts : n.texts "name" setting context =
      name :: rest.flatMap (Event.told n "name") := by
    rw [Node.texts, hevents]
    rfl
  refine ⟨_, htexts, ?_, fun text htext => ?_⟩
  · rw [get?_metadata_of_evaluate ha, htexts, List.getLast?_cons]
    rfl
  · obtain ⟨e, he, htold⟩ := List.mem_flatMap.1 htext
    cases e with
    | found path v =>
      have hmem : .found path v ∈ (n.evalStrategy setting (.initial context)).events := by
        rw [hevents]
        simp [he]
      refine ⟨path, v, hmem, ?_, htold⟩
      rintro rfl
      -- The title of the strategy itself has its value once.
      have hmost := AtMost.evalStrategy [1] n setting (.initial context)
      have hagain := List.length_pos_of_mem (Event.mem_valuesAt he)
      rw [hevents] at hmost
      change (.string name :: Event.valuesAt [1] rest).length ≤ 1 at hmost
      rw [List.length_cons] at hmost
      omega
    | _ => cases htold

/-- A strategy with a parameter map that renames it. -/
theorem evaluate_name_parameter :
    let n := Node.strategy "A" [.list .map [.atom (.symbol ":name") 0, .atom (.string "B") 0] 0,
      .list .plain [.atom (.symbol "asset") 0, .atom (.string "S") 0] 0] 0 0 0
    ∃ a later, (evaluate n { feed := fun r => .error ⟨r.symbol, r.metric, "closed"⟩ } .fresh).result =
        .ok a ∧
      a.metadata.get? "name" = some (later.getLast?.getD "A") ∧ later = ["B"] := by
  intro n
  let setting : Setting := { feed := fun r => .error ⟨r.symbol, r.metric, "closed"⟩ }
  have hrun : (match (evaluate n setting .fresh).result with
      | .ok _ => true
      | .error _ => false) = true := by decide +kernel
  split at hrun
  · rename_i a ha
    obtain ⟨later, htexts, hname, -⟩ := evaluate_name "A" _ 0 0 0 setting .fresh a ha
    have hlater : n.texts "name" setting .fresh = ["A", "B"] := by decide +kernel
    exact ⟨a, later, ha, hname, (List.cons.inj (htexts.symm.trans hlater)).2⟩
  · cases hrun

/-- **A strategy can lose its name** to a strategy in its body, and to its own parameters. -/
theorem exists_renamed_strategy :
    ∃ n n' a b, Node.ofSource "(defsymphony \"A\" (defsymphony \"B\" (asset \"S\")))" = .ok n ∧
      Node.ofSource "(defsymphony \"A\" \x7b:name \"B\"\x7d (asset \"S\"))" = .ok n' ∧
      let closed : Feed := fun r => .error ⟨r.symbol, r.metric, "closed"⟩
      (evaluate n { feed := closed } .fresh).result = .ok a ∧
        (evaluate n' { feed := closed } .fresh).result = .ok b ∧
        a.metadata.get? "name" = some "B" ∧ b.metadata.get? "name" = some "B" := by
  have hrun : (match Node.ofSource "(defsymphony \"A\" (defsymphony \"B\" (asset \"S\")))",
      Node.ofSource "(defsymphony \"A\" \x7b:name \"B\"\x7d (asset \"S\"))" with
      | .ok n, .ok n' =>
        match (evaluate n { feed := fun r => .error ⟨r.symbol, r.metric, "closed"⟩ } .fresh).result,
          (evaluate n' { feed := fun r => .error ⟨r.symbol, r.metric, "closed"⟩ } .fresh).result
        with
        | .ok a, .ok b =>
          decide (a.metadata.get? "name" = some "B" ∧ b.metadata.get? "name" = some "B")
        | _, _ => false
      | _, _ => false) = true := by decide +kernel
  split at hrun
  · rename_i n n' hn hn'
    split at hrun
    · rename_i a b ha hb
      exact ⟨n, n', a, b, hn, hn', ha, hb, of_decide_eq_true hrun⟩
    · cases hrun
  · cases hrun

end AllocScript
