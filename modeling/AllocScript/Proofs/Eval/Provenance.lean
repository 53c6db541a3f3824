import AllocScript.Proofs.Allocation.Symbols
import AllocScript.Proofs.Eval.Conservation
import AllocScript.Proofs.Node.Paths

/-!
# Where texts, symbols and errors come from

What an evaluation knows of texts comes from the string nodes that it has begun. A `History` is what
is known of one run: the tree and the events that come about.

* `History.Sourced`: every text in a value is that of a string node that has begun. Every symbol in
  an allocation is such a text too, and if it is blank, a call of `weight-specified` was given it
  for a child (`History.Child`), since `asset` refuses it. Every metric has a period that its
  indicator allows.
* `Sound`: the invariant as a guarantee of a computation within the run. Moreover, only such symbols
  and metrics are asked for, and errors tell of a node that has begun and of a problem that can
  arise there.

Each operator keeps it (`Form.apply_sound`), so the evaluation of a node does (`Node.eval_sound`).
-/

namespace AllocScript

/-- The period of a metric is one that its indicator allows. -/
def Metric.Proper (m : Metric) : Prop :=
  if m.indicator.takesPeriod then 1 ≤ m.period ∧ m.period ≤ maxPeriod else m.period = 0

/-- A problem of a node. A few problems have cases of their own that never arise. -/
def EvalProblem.ArisesAt (m : Node) : EvalProblem → Prop
  | malformedDefsymphony | noOperand | indicatorArguments .. => False
  | keyWithoutValue => ∃ children p, m = .list .map children p ∧ children.length % 2 = 1
  | _ => True

/-- A tree and the events of one run of its evaluation. -/
structure History where
  root : Node
  happens : Event → Prop

namespace History

/-- The evaluation of the node has begun. -/
def Begun (h : History) (m : Node) : Prop :=
  ∃ path, h.happens (.begun path) ∧ h.root.subtree? path = some m

/-- The text of a string node that has begun. -/
def Text (h : History) (s : String) : Prop := ∃ p, h.Begun (.atom (.string s) p)

/-- A call of `weight-specified` has the text in the place of a child: behind a weight, or as a key
of its map. -/
inductive Child (h : History) (s : String) : Prop
  | pair {path : NodePath} {call : Node} (k : Nat) : h.root.subtree? path = some call →
      call.head? = some "weight-specified" →
      h.happens (.found ((2 * k + 2) :: path) (.string s)) → Child h s
  | key {path : NodePath} {call : Node} {entries : List (Value × Value)} {weight : Value} :
      h.root.subtree? path = some call → call.head? = some "weight-specified" →
      h.happens (.found (1 :: path) (.map entries)) → (.string s, weight) ∈ entries → Child h s

/-- A symbol that an allocation may have. -/
def Symbol (h : History) (s : String) : Prop := h.Text s ∧ (isBlankText s = true → h.Child s)

mutual

/-- The texts, symbols and metrics in a value come from the tree. -/
def Sourced (h : History) : Value → Prop
  | .string s => h.Text s
  | .allocation a => ∀ s ∈ a.symbols, h.Symbol s
  | .metric m => m.Proper
  | .list items => h.ItemsSourced items
  | .map entries => h.EntriesSourced entries
  | _ => True

def ItemsSourced (h : History) : List Value → Prop
  | [] => True
  | v :: vs => h.Sourced v ∧ h.ItemsSourced vs

def EntriesSourced (h : History) : List (Value × Value) → Prop
  | [] => True
  | (k, v) :: rest => (h.Sourced k ∧ h.Sourced v) ∧ h.EntriesSourced rest

end

/-- What is asked for comes from the tree. -/
def Warrants (h : History) : Event → Prop
  | .asked r => h.Text r.symbol ∧ r.metric.Proper
  | _ => True

/-- An error tells of a node that has begun. -/
def Explains (h : History) : Stop → Prop
  | .error e => ∃ m problem, h.Begun m ∧ problem.ArisesAt m ∧ e = .atNode m problem
  | .fault _ => True

end History

/-- Within the run, the computation asks only for what comes from the tree, its errors tell of nodes
that have begun, and its value satisfies `Q`. -/
abbrev Eval.Sound {α : Type} (h : History) (Q : α → Prop) (x : Eval α) : Prop :=
  Within h.happens h.Warrants h.Explains Q x

namespace Eval

variable {α : Type} {h : History} {node : Node}

theorem sound_fail {Q : α → Prop} (hn : h.Begun node) {problem : EvalProblem}
    (hp : problem.ArisesAt node) : Sound h Q (fail node problem) :=
  .of_ensures (.fail ⟨node, problem, hn, hp, rfl⟩)

theorem sound_fault {Q : α → Prop} (f : Fault) : Sound h Q (fault f) :=
  .of_ensures (.halt trivial)

theorem sound_record (step : String) : Sound h (fun _ => True) (record step) :=
  .of_ensures (.emit trivial)

theorem sound_setMetadata (key text : String) : Sound h (fun _ => True) (setMetadata key text) :=
  .of_ensures (.emit trivial)

theorem sound_ofWeights (r : Except Overflow α) : Sound h (fun a => r = .ok a) (ofWeights r) := by
  cases r with
  | ok a => exact .pure rfl
  | error kind => exact sound_fault _

theorem sound_fetch (hn : h.Begun node) {r : Request} (hsymbol : h.Text r.symbol)
    (hmetric : r.metric.Proper) : Sound h (fun _ => True) (fetch node r) :=
  .of_ensures <| .fetch ⟨hsymbol, hmetric⟩ fun cause =>
    ⟨node, .unavailable r cause, hn, trivial, rfl⟩

/-! ## Values of the expected kind -/

theorem expectNumber_sound (hn : h.Begun node) (v : Value) :
    Sound h (fun _ => True) (expectNumber node v) := by
  cases v <;> first | exact .pure trivial | exact sound_fail hn trivial

theorem expectBoolean_sound (hn : h.Begun node) (v : Value) :
    Sound h (fun _ => True) (expectBoolean node v) := by
  cases v <;> first | exact .pure trivial | exact sound_fail hn trivial

theorem expectString_sound (hn : h.Begun node) {v : Value} (hv : h.Sourced v) :
    Sound h h.Text (expectString node v) := by
  cases v <;> first | exact .pure hv | exact sound_fail hn trivial

theorem expectScalar_sound (hn : h.Begun node) (v : Value) :
    Sound h (fun _ => True) (expectScalar node v) := by
  cases v <;> first | exact .pure trivial | exact sound_fail hn trivial

theorem expectMetric_sound (hn : h.Begun node) {v : Value} (hv : h.Sourced v) :
    Sound h Metric.Proper (expectMetric node v) := by
  cases v <;> first | exact .pure hv | exact sound_fail hn trivial

theorem expectSelector_sound (hn : h.Begun node) (v : Value) :
    Sound h (fun _ => True) (expectSelector node v) := by
  cases v <;> first | exact .pure trivial | exact sound_fail hn trivial

theorem expectPositive_sound (hn : h.Begun node) (what : String) (d : Decimal) :
    Sound h (fun k => 1 ≤ k ∧ k ≤ maxPeriod) (expectPositive node what d) := by
  unfold expectPositive
  cases hcount : d.toCount? with
  | none => exact sound_fail hn trivial
  | some k =>
    refine .pure ?_
    unfold Decimal.toCount? at hcount
    dsimp only at hcount
    split at hcount
    · rename_i hq
      cases hcount
      unfold maxPeriod
      omega
    · cases hcount

theorem expectWindow_sound (hn : h.Begun node) (window : Option Value)
    (entries : List (Value × Value)) :
    Sound h (fun _ => True) (expectWindow node window entries) := by
  fun_induction expectWindow node window entries with
  | case1 => exact .pure trivial
  | case2 _ _ _ ih => exact ih
  | case3 => exact sound_fail hn trivial

theorem expectPeriod_sound (hn : h.Begun node) (v : Value) :
    Sound h (fun k => 1 ≤ k ∧ k ≤ maxPeriod) (expectPeriod node v) := by
  unfold expectPeriod
  split
  · exact expectPositive_sound hn ..
  · refine (expectWindow_sound hn ..).bind fun window _ => ?_
    split
    · exact expectPositive_sound hn ..
    · exact sound_fail hn trivial
    · exact sound_fail hn trivial
  · exact sound_fail hn trivial

theorem expectWeight_sound (hn : h.Begun node) (v : Value) :
    Sound h (fun _ => True) (expectWeight node v) := by
  refine (expectNumber_sound hn v).bind fun w _ => ?_
  split
  · exact sound_fail hn trivial
  · exact .pure trivial

/-- A text that stands for an allocation brings in a symbol that may be blank. -/
theorem expectChild_sound (hn : h.Begun node) {v : Value} (hv : h.Sourced v)
    (hchild : ∀ s, v = .string s → h.Child s) :
    Sound h (fun a => ∀ s ∈ a.symbols, h.Symbol s) (expectChild node v) := by
  cases v with
  | allocation a => exact .pure hv
  | string s =>
    refine .pure fun s' hs' => ?_
    rw [List.mem_singleton.1 hs']
    exact ⟨hv, fun _ => hchild s rfl⟩
  | _ => exact sound_fail hn trivial

theorem expectItems_sound (hn : h.Begun node) (items : List Value) (hv : h.ItemsSourced items) :
    Sound h (fun as => ∀ a ∈ as, ∀ s ∈ a.symbols, h.Symbol s) (expectItems node items) := by
  fun_induction expectItems node items with
  | case1 => exact .pure fun a ha => by cases ha
  | case2 a vs ih =>
    exact (ih hv.2).bind fun as has => .pure (List.forall_mem_cons.2 ⟨hv.1, has⟩)
  | case3 => exact sound_fail hn trivial

theorem expectAllocations_sound (hn : h.Begun node) {v : Value} (hv : h.Sourced v) :
    Sound h (fun as => ∀ a ∈ as, ∀ s ∈ a.symbols, h.Symbol s) (expectAllocations node v) := by
  cases v with
  | allocation a => exact .pure (List.forall_mem_singleton.2 hv)
  | list items => exact expectItems_sound hn items hv
  | _ => exact sound_fail hn trivial

end Eval

/-! ## Operands -/

namespace Operand

open Eval

/-- The value of the operand comes from the tree, and behind it the node has begun. -/
def Sound (h : History) (o : Operand) : Prop :=
  Eval.Sound h (fun v => h.Sourced v ∧ h.Begun o.node) o.value

/-- Moreover, the value is told as that of the node at a path. -/
def SoundAt (h : History) (path : NodePath) (o : Operand) : Prop :=
  Eval.Sound h (fun v => (h.Sourced v ∧ h.Begun o.node) ∧ h.happens (.found path v)) o.value

variable {h : History} {o : Operand}

theorem SoundAt.sound {path : NodePath} (ho : o.SoundAt h path) : o.Sound h :=
  ho.mono fun _ hv => hv.1

theorem Sound.number (ho : o.Sound h) : Eval.Sound h (fun _ => h.Begun o.node) o.number :=
  ho.bind fun v hv => (expectNumber_sound hv.2 v).mono fun _ _ => hv.2

theorem Sound.boolean (ho : o.Sound h) : Eval.Sound h (fun _ => True) o.boolean :=
  ho.bind fun v hv => expectBoolean_sound hv.2 v

theorem Sound.string (ho : o.Sound h) :
    Eval.Sound h (fun s => h.Text s ∧ h.Begun o.node) o.string :=
  ho.bind fun _ hv => (expectString_sound hv.2 hv.1).mono fun _ hs => ⟨hs, hv.2⟩

theorem Sound.period (ho : o.Sound h) :
    Eval.Sound h (fun k => 1 ≤ k ∧ k ≤ maxPeriod) o.period :=
  ho.bind fun v hv => expectPeriod_sound hv.2 v

theorem Sound.count (ho : o.Sound h) : Eval.Sound h (fun _ => True) o.count :=
  ho.bind fun v hv => (expectNumber_sound hv.2 v).bind fun d _ =>
    (expectPositive_sound hv.2 "count" d).mono fun _ _ => trivial

theorem Sound.weight (ho : o.Sound h) : Eval.Sound h (fun _ => True) o.weight :=
  ho.bind fun v hv => expectWeight_sound hv.2 v

theorem Sound.allocations (ho : o.Sound h) :
    Eval.Sound h (fun as => (∀ a ∈ as, ∀ s ∈ a.symbols, h.Symbol s) ∧ h.Begun o.node)
      o.allocations :=
  ho.bind fun _ hv => (expectAllocations_sound hv.2 hv.1).mono fun _ has => ⟨has, hv.2⟩

/-- A child of `weight-specified` in its place. -/
theorem SoundAt.child {path : NodePath} (ho : o.SoundAt h path)
    (hchild : ∀ s, h.happens (.found path (.string s)) → h.Child s) :
    Eval.Sound h (fun a => ∀ s ∈ a.symbols, h.Symbol s) o.child :=
  ho.bind fun _ hv => expectChild_sound hv.1.2 hv.1.1 fun s hs => hchild s (hs ▸ hv.2)

end Operand

/-! ## Operators -/

namespace Operator

open Eval

variable {h : History} {operands : List Operand} {call : Node}

theorem writeParameters_sound {node : Node} (hn : h.Begun node) (entries : List (Value × Value)) :
    Sound h (fun _ => True) (writeParameters node entries) := by
  fun_induction writeParameters node entries with
  | case1 => exact .pure trivial
  | case2 _ v _ ih =>
    exact (expectScalar_sound hn v).bind fun _ _ => (sound_setMetadata ..).bind fun _ _ => ih
  | case3 => exact sound_fail hn trivial

theorem defsymphony_sound (ho : ∀ o ∈ operands, o.Sound h)
    (hn : (Arity.between 2 3).accepts operands.length) :
    Sound h h.Sourced (defsymphony operands) := by
  match operands, hn with
  | [title, body], _ =>
    exact (ho title (by simp)).string.bind fun name _ => (sound_setMetadata ..).bind fun _ _ =>
      (sound_record _).bind fun _ _ => (ho body (by simp)).mono fun v hv => hv.1
  | [title, parameters, body], _ =>
    refine (ho title (by simp)).string.bind fun name _ => (sound_setMetadata ..).bind fun _ _ =>
      (sound_record _).bind fun _ _ => (ho parameters (by simp)).bind fun v hv => ?_
    have hbody : Sound h h.Sourced body.value := (ho body (by simp)).mono fun v hv => hv.1
    cases v with
    | map entries => exact (writeParameters_sound hv.2 entries).bind fun _ _ => hbody
    | _ => exact Within.bind (P := fun _ : Unit => True) (sound_fail hv.2 trivial) fun _ _ => hbody

theorem group_sound (ho : ∀ o ∈ operands, o.Sound h)
    (hn : (Arity.exactly 2).accepts operands.length) : Sound h h.Sourced (group operands) := by
  obtain ⟨title, body, rfl⟩ := List.length_eq_two.1 (beq_iff_eq.1 hn)
  exact (ho title (by simp)).string.bind fun name _ => (sound_record _).bind fun _ _ =>
    (ho body (by simp)).mono fun v hv => hv.1

theorem conditional_sound (ho : ∀ o ∈ operands, o.Sound h)
    (hn : (Arity.between 2 3).accepts operands.length) :
    Sound h h.Sourced (conditional operands) := by
  match operands, hn with
  | condition :: consequent :: rest, _ =>
    unfold conditional
    refine (ho condition (by simp)).boolean.bind fun holds _ => ?_
    cases holds with
    | true =>
      exact (sound_record _).bind fun _ _ => (ho consequent (by simp)).mono fun v hv => hv.1
    | false =>
      cases rest with
      | nil => exact (sound_record _).bind fun _ _ => .pure fun s hs => by cases hs
      | cons alternative others =>
        exact (sound_record _).bind fun _ _ => (ho alternative (by simp)).mono fun v hv => hv.1

theorem logical_sound (decisive : Bool) (ho : ∀ o ∈ operands, o.Sound h) :
    Sound h h.Sourced (logical decisive operands) := by
  induction operands with
  | nil => exact .pure trivial
  | cons o rest ih =>
    refine (ho o (by simp)).boolean.bind fun b _ => ?_
    split
    · exact .pure trivial
    · exact ih fun o ho' => ho o (List.mem_cons_of_mem _ ho')

theorem negation_sound (ho : ∀ o ∈ operands, o.Sound h)
    (hn : (Arity.exactly 1).accepts operands.length) : Sound h h.Sourced (negation operands) := by
  obtain ⟨o, rfl⟩ := List.length_eq_one_iff.1 (beq_iff_eq.1 hn)
  exact (ho o (by simp)).boolean.bind fun b _ => .pure trivial

theorem comparison_sound (op : Comparison) (ho : ∀ o ∈ operands, o.Sound h)
    (hn : (Arity.exactly 2).accepts operands.length) :
    Sound h h.Sourced (comparison op operands) := by
  obtain ⟨left, right, rfl⟩ := List.length_eq_two.1 (beq_iff_eq.1 hn)
  exact (ho left (by simp)).number.bind fun a _ => (ho right (by simp)).number.bind fun b _ =>
    .pure trivial

/-- Behind the numbers all operands have begun, and there are as many numbers as operands. -/
theorem numbers_sound (ho : ∀ o ∈ operands, o.Sound h) :
    Sound h (fun ds => (∀ d ∈ ds, h.Begun d.1) ∧ ds.length = operands.length)
      (numbers operands) := by
  induction operands with
  | nil => exact .pure ⟨fun d hd => (by cases hd), rfl⟩
  | cons o rest ih =>
    refine (ho o (by simp)).number.bind fun d hd => ?_
    refine (ih fun o ho' => ho o (List.mem_cons_of_mem _ ho')).bind fun ds hds => .pure ?_
    exact ⟨List.forall_mem_cons.2 ⟨hd, hds.1⟩, congrArg (· + 1) hds.2⟩

theorem accumulate_sound (hcall : h.Begun call) (op : Operation) (acc : Decimal)
    (ds : List (Node × Decimal)) (hds : ∀ d ∈ ds, h.Begun d.1) :
    Sound h (fun _ => True) (accumulate call op acc ds) := by
  fun_induction accumulate call op acc ds with
  | case1 => exact .pure trivial
  | case2 => exact sound_fail (List.forall_mem_cons.1 hds).1 trivial
  | case3 _ _ _ _ _ _ _ ih => exact ih (List.forall_mem_cons.1 hds).2
  | case4 => exact sound_fail hcall trivial

theorem arithmetic_sound (hcall : h.Begun call) (op : Operation) (ho : ∀ o ∈ operands, o.Sound h)
    (hne : operands ≠ []) : Sound h h.Sourced (arithmetic call op operands) := by
  refine (numbers_sound ho).bind fun ds hds => ?_
  obtain ⟨hbegun, hlength⟩ := hds
  split
  · exact absurd (List.length_eq_zero_iff.1 hlength.symm) hne
  · exact .pure trivial
  · exact (accumulate_sound hcall op _ _ fun d hd => hbegun d (List.mem_cons_of_mem _ hd)).bind
      fun d _ => .pure trivial

/-- **`asset` lets no blank symbol in.** -/
theorem asset_sound (ho : ∀ o ∈ operands, o.Sound h)
    (hn : (Arity.between 1 2).accepts operands.length) : Sound h h.Sourced (asset operands) := by
  cases operands with
  | nil => cases hn
  | cons symbol rest =>
    refine (ho symbol (by simp)).string.bind fun ticker hticker => ?_
    cases hblank : isBlankText ticker with
    | true => exact sound_fail hticker.2 trivial
    | false =>
      have hsingle : h.Sourced (.allocation (.single ticker)) := by
        intro s hs
        rw [List.mem_singleton.1 hs]
        exact ⟨hticker.1, fun htrue => by rw [hblank] at htrue; cases htrue⟩
      cases rest with
      | nil => exact .pure hsingle
      | cons title others =>
        exact (ho title (by simp)).string.bind fun _ _ => .pure hsingle

/-! ## Sharing weight -/

theorem weightEqual_sound (ho : ∀ o ∈ operands, o.Sound h)
    (hn : (Arity.exactly 1).accepts operands.length) :
    Sound h h.Sourced (weightEqual operands) := by
  obtain ⟨children, rfl⟩ := List.length_eq_one_iff.1 (beq_iff_eq.1 hn)
  refine (ho children (by simp)).allocations.bind fun as has => ?_
  refine (sound_ofWeights _).bind fun a ha => .pure fun s hs => ?_
  obtain ⟨c, hc, hs⟩ := Allocation.mem_symbols_equalWeight ha hs
  exact has.1 c hc s hs

theorem weightsOfMap_sound {node : Node} (hn : h.Begun node) (entries : List (Value × Value))
    (hv : h.EntriesSourced entries) (hchild : ∀ s w, (.string s, w) ∈ entries → h.Child s) :
    Sound h (fun weighted => ∀ c ∈ weighted, ∀ s ∈ c.2.symbols, h.Symbol s)
      (weightsOfMap node entries) := by
  induction entries with
  | nil => exact .pure fun c hc => by cases hc
  | cons e rest ih =>
    obtain ⟨child, weight⟩ := e
    refine (expectWeight_sound hn weight).bind fun w _ => ?_
    have hkey : ∀ s, child = .string s → h.Child s := by
      rintro s rfl
      exact hchild s weight List.mem_cons_self
    refine (expectChild_sound hn hv.1.1 hkey).bind fun a ha => ?_
    refine (ih hv.2 fun s w hs => hchild s w (List.mem_cons_of_mem _ hs)).bind
      fun others hothers => .pure ?_
    exact List.forall_mem_cons.2 ⟨ha, hothers⟩

/-- The operands of a call are the children behind its operator. Here `k` pairs of them have been
read. -/
theorem weightsOfPairs_sound {path : NodePath} (k : Nat)
    (ho : ∀ (i : Nat) (o : Operand), operands[i]? = some o → o.SoundAt h ((2 * k + i + 1) :: path))
    (hchild : ∀ k s, h.happens (.found ((2 * k + 2) :: path) (.string s)) → h.Child s) :
    Sound h (fun weighted => ∀ c ∈ weighted, ∀ s ∈ c.2.symbols, h.Symbol s)
      (weightsOfPairs operands) := by
  fun_induction weightsOfPairs operands generalizing k with
  | case1 weight child rest ih =>
    refine (ho 0 weight rfl).sound.weight.bind fun w _ => ?_
    refine ((ho 1 child rfl).child (hchild k)).bind fun a ha => ?_
    have hrest : ∀ (i : Nat) (o : Operand), rest[i]? = some o →
        o.SoundAt h ((2 * (k + 1) + i + 1) :: path) := by
      intro i o hi
      have hnext := ho (i + 2) o hi
      rwa [show 2 * k + (i + 2) + 1 = 2 * (k + 1) + i + 1 by omega] at hnext
    exact (ih (k + 1) hrest).bind fun others hothers =>
      .pure (List.forall_mem_cons.2 ⟨ha, hothers⟩)
  | case2 weight => exact (ho 0 weight rfl).sound.weight.bind fun _ _ => sound_fault _
  | case3 => exact .pure fun c hc => by cases hc

theorem shareOut_sound (hcall : h.Begun call) {weighted : List (Decimal × Allocation)}
    (hw : ∀ c ∈ weighted, ∀ s ∈ c.2.symbols, h.Symbol s) :
    Sound h h.Sourced (shareOut call weighted) := by
  unfold shareOut
  split
  · rename_i a ha
    refine .pure fun s hs => ?_
    obtain ⟨c, hc, hs⟩ := Allocation.mem_symbols_specifiedWeight ha hs
    exact hw c hc s hs
  · exact sound_fail hcall trivial
  · exact sound_fail hcall trivial
  · exact sound_fault _

/-- **`weight-specified` lets blank symbols in**, and only in the places of children. -/
theorem weightSpecified_sound {path : NodePath} (hcall : h.Begun call)
    (hpath : h.root.subtree? path = some call) (hhead : call.head? = some "weight-specified")
    (ho : ∀ (i : Nat) (o : Operand), operands[i]? = some o → o.SoundAt h ((i + 1) :: path)) :
    Sound h h.Sourced (weightSpecified call operands) := by
  unfold weightSpecified
  split
  · rename_i weights
    refine Within.bind (ho 0 weights rfl) fun v hv => ?_
    obtain ⟨⟨hsourced, hbegun⟩, hfound⟩ := hv
    cases v with
    | map entries =>
      refine (weightsOfMap_sound hbegun entries hsourced fun s w hs => ?_).bind
        fun weighted hw => shareOut_sound hcall hw
      exact .key hpath hhead hfound hs
    | _ => exact sound_fail hbegun trivial
  · split
    · have hoperands : ∀ (i : Nat) (o : Operand), operands[i]? = some o →
          o.SoundAt h ((2 * 0 + i + 1) :: path) := by
        intro i o hi
        rw [Nat.mul_zero, Nat.zero_add]
        exact ho i o hi
      exact (weightsOfPairs_sound 0 hoperands fun k s hs => .pair k hpath hhead hs).bind
        fun weighted hw => shareOut_sound hcall hw
    · exact sound_fail hcall trivial

/-! ## Rankings and indicators -/

theorem select_sound (selector : Nat → Selector) (ho : ∀ o ∈ operands, o.Sound h)
    (hn : (Arity.exactly 1).accepts operands.length) :
    Sound h h.Sourced (select selector operands) := by
  obtain ⟨o, rfl⟩ := List.length_eq_one_iff.1 (beq_iff_eq.1 hn)
  exact (ho o (by simp)).count.bind fun k _ => .pure trivial

/-- Candidates have symbols of the allocations. -/
theorem candidates_sound (hcall : h.Begun call) {node : Node} (hn : h.Begun node) {metric : Metric}
    (hmetric : metric.Proper) (seen : List String) (as : List Allocation)
    (has : ∀ a ∈ as, ∀ s ∈ a.symbols, h.Symbol s) :
    Sound h (fun cs => ∀ c ∈ cs, h.Symbol c.symbol) (candidates call node metric seen as) := by
  induction as generalizing seen with
  | nil => exact .pure fun c hc => by cases hc
  | cons a rest ih =>
    obtain ⟨ha, hrest⟩ := List.forall_mem_cons.1 has
    unfold candidates
    split
    · exact ih seen hrest
    · rename_i symbol hsymbols
      have hsymbol : h.Symbol symbol := ha symbol (by rw [hsymbols]; exact List.mem_cons_self)
      split
      · exact ih seen hrest
      · exact (sound_fetch hcall hsymbol.1 hmetric).bind fun value _ =>
          (ih _ hrest).bind fun others hothers => .pure (List.forall_mem_cons.2 ⟨hsymbol, hothers⟩)
    · exact sound_fail hn trivial

theorem filter_sound (hcall : h.Begun call) (ho : ∀ o ∈ operands, o.Sound h)
    (hn : (Arity.exactly 3).accepts operands.length) :
    Sound h h.Sourced (filter call operands) := by
  obtain ⟨metric, selector, children, rfl⟩ := List.length_eq_three.1 (beq_iff_eq.1 hn)
  unfold filter
  refine Within.bind (ho metric (by simp)) fun v hv => ?_
  refine (expectMetric_sound hv.2 hv.1).bind fun m hm => ?_
  refine Within.bind (ho selector (by simp)) fun v hv => ?_
  refine (expectSelector_sound hv.2 v).bind fun s _ => ?_
  refine (ho children (by simp)).allocations.bind fun as has => ?_
  refine (candidates_sound hcall has.2 hm [] as has.1).bind fun cs hcs => ?_
  refine (sound_record _).bind fun _ _ => (sound_ofWeights _).bind fun a ha => .pure ?_
  intro symbol hsymbol
  obtain ⟨c, hc, hsymbol⟩ := Allocation.mem_symbols_equalWeight ha hsymbol
  obtain ⟨candidate, hcandidate, rfl⟩ := List.mem_map.1 hc
  rw [List.mem_singleton.1 hsymbol]
  exact hcs candidate (List.mem_mergeSort.1 (List.mem_of_mem_take hcandidate))

theorem indicator_sound (hcall : h.Begun call) (i : Indicator) (ho : ∀ o ∈ operands, o.Sound h)
    (hn : (if i.takesPeriod then Arity.between 1 2 else .between 0 1).accepts operands.length) :
    Sound h h.Sourced (indicator call i operands) := by
  unfold indicator
  by_cases hperiod : i.takesPeriod = true
  · have hproper : ∀ {k}, 1 ≤ k ∧ k ≤ maxPeriod → Metric.Proper ⟨i, k⟩ := by
      intro k hk
      rw [Metric.Proper, if_pos hperiod]
      exact hk
    rw [if_pos hperiod] at hn ⊢
    match operands, hn with
    | [period], _ =>
      exact (ho period (by simp)).period.bind fun k hk => .pure (hproper hk)
    | [symbol, period], _ =>
      exact (ho symbol (by simp)).string.bind fun s hs =>
        (ho period (by simp)).period.bind fun k hk =>
          (sound_fetch hcall hs.1 (hproper hk)).bind fun d _ => .pure trivial
  · have hproper : Metric.Proper ⟨i, 0⟩ := by
      rw [Metric.Proper, if_neg hperiod]
    rw [if_neg hperiod]
    cases operands with
    | nil => exact .pure hproper
    | cons symbol others =>
      exact (ho symbol (by simp)).string.bind fun s hs =>
        (sound_fetch hcall hs.1 hproper).bind fun d _ => .pure trivial

end Operator

/-! ## Calls and nodes -/

namespace Form

open Eval Operator

/-- **Operators are sound.** An operator with an accepted number of operands ends in a value that
comes from the tree. -/
theorem apply_sound {h : History} {call : Node} {path : NodePath} (form : Form)
    {operands : List Operand} (hcall : h.Begun call) (hpath : h.root.subtree? path = some call)
    (hhead : form = .weightSpecified → call.head? = some "weight-specified")
    (ho : ∀ (i : Nat) (o : Operand), operands[i]? = some o → o.SoundAt h ((i + 1) :: path))
    (hn : form.arity.accepts operands.length) : Sound h h.Sourced (form.apply call operands) := by
  have hsound : ∀ o ∈ operands, o.Sound h := by
    intro o hmem
    obtain ⟨i, hi⟩ := List.getElem?_of_mem hmem
    exact (ho i o hi).sound
  cases form with
  | defsymphony => exact defsymphony_sound hsound hn
  | group => exact group_sound hsound hn
  | conditional => exact conditional_sound hsound hn
  | conjunction => exact logical_sound false hsound
  | disjunction => exact logical_sound true hsound
  | negation => exact negation_sound hsound hn
  | comparison op => exact comparison_sound op hsound hn
  | arithmetic op =>
    refine arithmetic_sound hcall op hsound ?_
    rintro rfl
    cases op <;> cases hn
  | asset => exact asset_sound hsound hn
  | weightEqual => exact weightEqual_sound hsound hn
  | weightSpecified => exact weightSpecified_sound hcall hpath (hhead rfl) ho
  | filter => exact filter_sound hcall hsound hn
  | selectTop => exact select_sound .top hsound hn
  | selectBottom => exact select_sound .bottom hsound hn
  | indicator i => exact indicator_sound hcall i hsound hn

end Form

namespace Node

open Eval

variable {h : History}

theorem atom_sound {a : Atom} {p : Nat} (hn : h.Begun (.atom a p)) :
    Sound h h.Sourced (a.eval (.atom a p)) := by
  cases a with
  | number d => exact .pure trivial
  | string s => exact .pure ⟨p, hn⟩
  | symbol name =>
    simp only [Atom.eval]
    split
    · exact .pure trivial
    · split
      · exact .pure trivial
      · split
        · exact .pure trivial
        · split
          · exact sound_fail hn trivial
          · exact sound_fail hn trivial

theorem valuesOf_sound {operands : List Operand} (ho : ∀ o ∈ operands, o.Sound h) :
    Sound h h.ItemsSourced (valuesOf operands) := by
  induction operands with
  | nil => exact .pure trivial
  | cons o rest ih =>
    refine Within.bind (ho o (by simp)) fun v hv => ?_
    exact (ih fun o ho' => ho o (List.mem_cons_of_mem _ ho')).bind fun vs hvs => .pure ⟨hv.1, hvs⟩

/-- Only an odd map has a key without a value. -/
theorem entriesOf_sound {node : Node} (hn : h.Begun node) {operands : List Operand}
    (hodd : operands.length % 2 = 1 → EvalProblem.ArisesAt node .keyWithoutValue)
    (ho : ∀ o ∈ operands, o.Sound h) :
    Sound h h.EntriesSourced (entriesOf node operands) := by
  fun_induction entriesOf node operands with
  | case1 => exact .pure trivial
  | case2 key => exact Within.bind (ho key (by simp)) fun _ _ => sound_fail hn (hodd rfl)
  | case3 key value rest ih =>
    refine Within.bind (ho key (by simp)) fun k hk => ?_
    refine Within.bind (ho value (by simp)) fun v hv => ?_
    have hrest : rest.length % 2 = 1 → EvalProblem.ArisesAt node .keyWithoutValue := by
      intro hlength
      refine hodd ?_
      rw [List.length_cons, List.length_cons]
      omega
    exact (ih hrest fun o ho' => ho o (by simp [ho'])).bind fun others hothers =>
      .pure ⟨⟨hk.1, hv.1⟩, hothers⟩

theorem call_sound {node : Node} {path : NodePath} {name : String} (hn : h.Begun node)
    (hpath : h.root.subtree? path = some node) (hhead : node.head? = some name)
    {operands : List Operand}
    (ho : ∀ (i : Nat) (o : Operand), operands[i]? = some o → o.SoundAt h ((i + 1) :: path)) :
    Sound h h.Sourced (call node name operands) := by
  unfold call
  split
  · exact sound_fail hn trivial
  · rename_i entry hentry
    split
    · rename_i harity
      rw [← Form.arity_of_lookup? hentry] at harity
      refine Form.apply_sound entry.form hn hpath (fun hform => ?_) ho harity
      have hname : name = "weight-specified" := Form.name_of_lookup? (by decide) hentry hform
      rw [hhead, hname]
    · exact sound_fail hn trivial

theorem evalList_sound {kind : ListKind} {children : List Node} {p : Nat} {path : NodePath}
    (hn : h.Begun (.list kind children p))
    (hpath : h.root.subtree? path = some (.list kind children p)) {operands : List Operand}
    (hlength : operands.length = children.length)
    (ho : ∀ (i : Nat) (o : Operand), operands[i]? = some o → o.SoundAt h (i :: path)) :
    Sound h h.Sourced (evalList (.list kind children p) kind operands) := by
  have hsound : ∀ o ∈ operands, o.Sound h := by
    intro o hmem
    obtain ⟨i, hi⟩ := List.getElem?_of_mem hmem
    exact (ho i o hi).sound
  cases kind with
  | map =>
    refine (entriesOf_sound hn (fun hodd => ?_) hsound).bind fun es hes => .pure hes
    exact ⟨children, p, rfl, hlength ▸ hodd⟩
  | plain =>
    unfold evalList
    dsimp only
    split
    · rename_i hhead
      exact call_sound hn hpath hhead fun i o hi => ho (i + 1) o hi
    · exact sound_fault _
    · exact (valuesOf_sound hsound).bind fun vs hvs => .pure hvs

mutual

/-- **Evaluation is sound** at every node of the tree. -/
theorem eval_sound (n : Node) (path : NodePath) (hpath : h.root.subtree? path = some n) :
    Sound h (fun v => (h.Sourced v ∧ h.Begun n) ∧ h.happens (.found path v)) (n.eval path) := by
  have hbegin : Sound h (fun _ => h.Begun n) (emit (.begun path)) :=
    (Within.emit trivial).mono fun _ happened => ⟨path, happened, hpath⟩
  have htell : ∀ v, h.Sourced v → h.Begun n →
      Sound h (fun v => (h.Sourced v ∧ h.Begun n) ∧ h.happens (.found path v))
        (emit (.found path v) >>= fun _ => pure v) :=
    fun v hv hn => Within.bind (Within.emit trivial) fun _ happened => .pure ⟨⟨hv, hn⟩, happened⟩
  cases n with
  | atom a p => exact hbegin.bind fun _ hn => (atom_sound hn).bind fun v hv => htell v hv hn
  | list kind children p =>
    refine hbegin.bind fun _ hn => ?_
    have hoperands := operandsOf_sound children path 0 fun i m hm => by
      rw [subtree?_child hpath, Nat.zero_add, hm]
    simp only [Nat.zero_add] at hoperands
    have hlist := evalList_sound hn hpath (length_operandsOf ..) hoperands
    exact (hlist.nested ⟨_, .nestedTooDeep, hn, trivial, rfl⟩).bind fun v hv => htell v hv hn

theorem operandsOf_sound (ns : List Node) (path : NodePath) (index : Nat)
    (hpath : ∀ i m, ns[i]? = some m → h.root.subtree? ((index + i) :: path) = some m) :
    ∀ (i : Nat) (o : Operand), (operandsOf ns path index)[i]? = some o →
      o.SoundAt h ((index + i) :: path) := by
  cases ns with
  | nil => exact fun i o ho => by cases ho
  | cons n ns =>
    intro i o ho
    cases i with
    | zero =>
      cases ho
      exact eval_sound n (index :: path) (hpath 0 n rfl)
    | succ i =>
      rw [← Nat.add_assoc, Nat.add_right_comm]
      refine operandsOf_sound ns path (index + 1) (fun i m hm => ?_) i o ho
      rw [Nat.add_right_comm, Nat.add_assoc]
      exact hpath (i + 1) m hm

end

theorem evalStrategy_sound (h : History) :
    Sound h (fun a => ∀ s ∈ a.symbols, h.Symbol s) h.root.evalStrategy := by
  refine Within.bind (eval_sound h.root [] rfl) fun v hv => ?_
  cases v with
  | allocation a => exact .pure hv.1.1
  | _ => exact sound_fail hv.1.2 trivial

/-- What comes about in a run of the evaluation of a strategy. -/
def history (n : Node) (setting : Setting) (context : Context) : History :=
  ⟨n, (· ∈ (n.evalStrategy setting (.initial context)).events)⟩

end Node

/-- The symbols of an allocation come from the tree that it is the value of. -/
theorem symbol_of_evaluate {n : Node} {setting : Setting} {context : Context} {a : Allocation}
    (ha : (evaluate n setting context).result = .ok a) {s : String} (hs : s ∈ a.symbols) :
    (n.history setting context).Symbol s := by
  obtain ⟨b, hb, rfl⟩ := evaluate_eq_ok ha
  have hsound := Node.evalStrategy_sound (n.history setting context)
  exact hsound.value setting (.initial context) b (fun _ he => he) hb s hs

end AllocScript
