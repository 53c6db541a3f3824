import AllocScript.Eval
import AllocScript.Proofs.Allocation.Shares
import AllocScript.Proofs.Eval.Metadata
import AllocScript.Proofs.Text.ByteOrder

/-!
# What a filter selects

A filter ranks the distinct symbols of its candidates and shares out weight equally among the first
ones. `Precedes` is the order of a ranking: by value, from the selector's end, and by the bytes of
the symbol where values are the same. Distinct symbols are never level in it, so which symbols there
are determines the ranking (`rank_eq_of_perm`). Each of them is looked up once, where it first
occurs (`candidates_run`), and the first ones of the ranking are the best (`exists_selects`).
-/

namespace AllocScript

/-! ## The order of a ranking -/

namespace Selector

/-- A candidate comes before another: its value is nearer to the selector's end, or the values are
the same and its symbol has the smaller bytes. -/
def Precedes (s : Selector) (a b : Candidate) : Prop :=
  (match s with
    | top _ => b.value.toRat < a.value.toRat
    | bottom _ => a.value.toRat < b.value.toRat) ∨
  a.value.toRat = b.value.toRat ∧ a.symbol.toUTF8.data.toList < b.symbol.toUTF8.data.toList

variable {s : Selector} {a b c : Candidate}

theorem ranksBefore_iff : s.ranksBefore a b = true ↔
    s.Precedes a b ∨ a.value.toRat = b.value.toRat ∧ a.symbol = b.symbol := by
  have hsymbol : a.symbol ≤ b.symbol ↔ a.symbol < b.symbol ∨ a.symbol = b.symbol := le_iff_lt_or_eq
  unfold Precedes
  rw [← lt_iff_utf8_lt]
  cases s <;> simp only [ranksBefore, Decimal.lt, Decimal.sameValue, Bool.or_eq_true,
    Bool.and_eq_true, decide_eq_true_eq, beq_iff_eq, hsymbol, and_or_left, or_assoc]

theorem ranksBefore_trans (a b c : Candidate) (hab : s.ranksBefore a b = true)
    (hbc : s.ranksBefore b c = true) : s.ranksBefore a c = true := by
  cases s <;> simp only [ranksBefore, Decimal.lt, Decimal.sameValue, Bool.or_eq_true,
    Bool.and_eq_true, decide_eq_true_eq, beq_iff_eq] at hab hbc ⊢ <;> grind

theorem ranksBefore_total (a b : Candidate) :
    (s.ranksBefore a b || s.ranksBefore b a) = true := by
  cases s <;> simp only [ranksBefore, Decimal.lt, Decimal.sameValue, Bool.or_eq_true,
    Bool.and_eq_true, decide_eq_true_eq, beq_iff_eq] <;> grind

theorem Precedes.asymm (hab : s.Precedes a b) : ¬ s.Precedes b a := by
  intro hba
  unfold Precedes at hab hba
  rw [← lt_iff_utf8_lt] at hab hba
  cases s <;> dsimp only at hab hba <;> grind

/-! ## Rankings -/

variable {cs ds : List Candidate}

theorem rank_perm_self (s : Selector) (cs : List Candidate) : (s.rank cs).Perm cs :=
  List.mergeSort_perm _ _

/-- Every candidate comes before all those behind it. -/
theorem rank_pairwise (s : Selector) (h : (cs.map (·.symbol)).Nodup) :
    (s.rank cs).Pairwise s.Precedes := by
  have hsorted : (s.rank cs).Pairwise fun a b => s.ranksBefore a b = true :=
    List.pairwise_mergeSort ranksBefore_trans ranksBefore_total cs
  have hdistinct : (s.rank cs).Pairwise fun a b => a.symbol ≠ b.symbol :=
    List.pairwise_map.1 (((rank_perm_self s cs).map _).nodup_iff.2 h)
  refine (hsorted.and hdistinct).imp fun ⟨hbefore, hne⟩ => ?_
  exact (ranksBefore_iff.1 hbefore).resolve_right fun heq => hne heq.2

/-- **A ranking does not depend on the order of the candidates.** -/
theorem rank_eq_of_perm (s : Selector) (hperm : cs.Perm ds) (h : (cs.map (·.symbol)).Nodup) :
    s.rank cs = s.rank ds := by
  have hds := rank_pairwise s (((hperm.map _).nodup_iff).1 h)
  have hranks : (s.rank cs).Perm (s.rank ds) :=
    (rank_perm_self s cs).trans (hperm.trans (rank_perm_self s ds).symm)
  exact hranks.eq_of_pairwise (fun _ _ _ _ hab hba => absurd hba hab.asymm)
    (rank_pairwise s h) hds

end Selector

/-! ## Distinct symbols -/

theorem nodup_eraseDups {α : Type} [BEq α] [LawfulBEq α] : (l : List α) → l.eraseDups.Nodup
  | [] => List.nodup_nil
  | x :: xs => by
    rw [List.eraseDups_cons]
    refine List.nodup_cons.2 ⟨fun hx => ?_, nodup_eraseDups (xs.filter fun y => !y == x)⟩
    simpa using List.mem_eraseDups.1 hx
  termination_by l => l.length
  decreasing_by exact Nat.lt_succ_of_le (List.length_filter_le _ _)

/-- The symbols of candidates in the order in which they first occur. -/
def distinctSymbols (as : List Allocation) : List String :=
  (as.flatMap Allocation.symbols).eraseDups

theorem mem_distinctSymbols {as : List Allocation} {x : String} :
    x ∈ distinctSymbols as ↔ ∃ a ∈ as, x ∈ a.symbols := by
  rw [distinctSymbols, List.mem_eraseDups, List.mem_flatMap]

theorem nodup_distinctSymbols (as : List Allocation) : (distinctSymbols as).Nodup :=
  nodup_eraseDups _

/-! ## Looking up the values -/

namespace Setting

/-- The answer to a request that is kept and used again. -/
def kept? (s : Setting) (known : Answers) (r : Request) : Option Decimal :=
  if s.reuse then known.lookup r else none

/-- The answer to a request: the one that is kept, or else the feed's. -/
def answer? (s : Setting) (known : Answers) (r : Request) : Option Decimal :=
  (s.kept? known r).or (s.feed r).toOption

end Setting

theorem Setting.answer?_congr {s : Setting} {known known' : Answers} {r : Request}
    (h : s.kept? known' r = s.kept? known r) : s.answer? known' r = s.answer? known r := by
  rw [Setting.answer?, h, Setting.answer?]

/-- A request that has an answer is made if the answer is not kept, and then the answers kept for
other requests are the same. -/
theorem Eval.exists_fetch_eq {s : Setting} {st : EvalState} {r : Request} {v : Decimal} (n : Node)
    (h : s.answer? st.answers r = some v) :
    ∃ st', Eval.fetch n r s st =
        ⟨.ok v, if (s.kept? st.answers r).isNone then [.asked r] else [], st'⟩ ∧
      ∀ r', r' ≠ r → s.kept? st'.answers r' = s.kept? st.answers r' := by
  unfold Setting.answer? at h
  cases hkept : s.kept? st.answers r with
  | some w =>
    rw [hkept] at h
    cases h
    refine ⟨st, ?_, fun _ _ => rfl⟩
    unfold Setting.kept? at hkept
    simp only [Eval.fetch, hkept]
    rfl
  | none =>
    rw [hkept, Option.none_or] at h
    cases hfeed : s.feed r with
    | error e =>
      rw [hfeed] at h
      cases h
    | ok w =>
      rw [hfeed] at h
      cases h
      refine ⟨if s.reuse then st.keep r v else st, ?_, fun r' hr' => ?_⟩
      · unfold Setting.kept? at hkept
        simp only [Eval.fetch, hkept, Eval.ask, hfeed]
        rfl
      · unfold Setting.kept?
        cases s.reuse with
        | false => rfl
        | true =>
          simp only [↓reduceIte, EvalState.keep]
          rw [List.lookup_cons, beq_eq_false_iff_ne.2 hr']

namespace Operator

open Eval

variable {s : Setting}

/-- The requests for symbols whose values are not kept. -/
def asking (s : Setting) (known : Answers) (m : Metric) (symbols : List String) : List Event :=
  (symbols.filter fun x => (s.kept? known ⟨x, m⟩).isNone).map fun x => .asked ⟨x, m⟩

theorem asking_cons (s : Setting) (known : Answers) (m : Metric) (x : String)
    (symbols : List String) : asking s known m (x :: symbols) =
      (if (s.kept? known ⟨x, m⟩).isNone then [.asked ⟨x, m⟩] else []) ++
        asking s known m symbols := by
  unfold asking
  rw [List.filter_cons]
  cases (s.kept? known ⟨x, m⟩).isNone <;> rfl

theorem asking_congr {known known' : Answers} {m : Metric} {symbols : List String}
    (h : ∀ x ∈ symbols, s.kept? known' ⟨x, m⟩ = s.kept? known ⟨x, m⟩) :
    asking s known' m symbols = asking s known m symbols :=
  congrArg (List.map _) (List.filter_congr fun x hx => by rw [h x hx])

/-- What is left of symbols, of which the first one is new. -/
theorem eraseDups_filter_cons {x : String} {xs seen : List String} (hx : seen.contains x = false) :
    ((x :: xs).filter fun y => !seen.contains y).eraseDups =
      x :: (xs.filter fun y => !(x :: seen).contains y).eraseDups := by
  rw [List.filter_cons, hx, Bool.not_false, if_pos rfl, List.eraseDups_cons, List.filter_filter]
  refine congrArg (fun l => x :: List.eraseDups l) (List.filter_congr fun y _ => ?_)
  rw [List.contains_cons, Bool.not_or]

/-- Candidates of no more than one symbol each: every distinct symbol that has not been seen is
looked up, in the order in which they occur first. -/
theorem candidates_run (call node : Node) (m : Metric) (value : String → Decimal)
    (as : List Allocation) (seen : List String) (st : EvalState) (hsize : ∀ a ∈ as, a.size ≤ 1)
    (hanswer : ∀ x, x ∉ seen → (∃ a ∈ as, x ∈ a.symbols) →
      s.answer? st.answers ⟨x, m⟩ = some (value x)) :
    let symbols := ((as.flatMap Allocation.symbols).filter fun x => !seen.contains x).eraseDups
    let o := candidates call node m seen as s st
    o.result = .ok (symbols.map fun x => ⟨value x, x⟩) ∧
      o.events = asking s st.answers m symbols := by
  induction as generalizing seen st with
  | nil => exact ⟨rfl, rfl⟩
  | cons a rest ih =>
    obtain ⟨ha, hrest⟩ := List.forall_mem_cons.1 hsize
    have hlater (x : String) (hx : ∃ b ∈ rest, x ∈ b.symbols) : ∃ b ∈ a :: rest, x ∈ b.symbols := by
      obtain ⟨b, hb, hxb⟩ := hx
      exact ⟨b, List.mem_cons_of_mem _ hb, hxb⟩
    have hskip := ih seen st hrest fun x hx hmem => hanswer x hx (hlater x hmem)
    cases hsymbols : a.symbols with
    | nil =>
      simp only [List.flatMap_cons, hsymbols, List.nil_append, candidates]
      exact hskip
    | cons x more =>
      have hmore : more = [] := by
        have hlength := a.length_symbols
        rw [hsymbols, List.length_cons] at hlength
        exact List.length_eq_zero_iff.1 (by omega)
      subst hmore
      simp only [List.flatMap_cons, hsymbols, List.singleton_append, candidates]
      cases hseen : seen.contains x with
      | true =>
        simp only [List.filter_cons, hseen, Bool.not_true, Bool.false_eq_true, ↓reduceIte]
        exact hskip
      | false =>
        have hnew : x ∉ seen := fun hmem => by
          rw [List.contains_iff_mem.2 hmem] at hseen
          cases hseen
        have hxa : x ∈ a.symbols := hsymbols ▸ List.mem_cons_self
        have hx := hanswer x hnew ⟨a, List.mem_cons_self, hxa⟩
        obtain ⟨st', hfetch, hkept⟩ := exists_fetch_eq call hx
        have hother {y : String} (hy : y ∉ x :: seen) :
            s.kept? st'.answers ⟨y, m⟩ = s.kept? st.answers ⟨y, m⟩ := by
          refine hkept _ fun heq => hy ?_
          injection heq with hyx
          exact hyx ▸ List.mem_cons_self
        obtain ⟨hresult, hevents⟩ := ih (x :: seen) st' hrest fun y hy hmem => by
          rw [Setting.answer?_congr (hother hy)]
          exact hanswer y (fun h => hy (List.mem_cons_of_mem _ h)) (hlater y hmem)
        rw [eraseDups_filter_cons hseen]
        simp only [Bool.false_eq_true, ↓reduceIte]
        rw [run_bind_of_ok (by rw [hfetch]), hfetch]
        dsimp only
        rw [run_bind_of_ok hresult]
        refine ⟨rfl, ?_⟩
        show _ ++ (_ ++ []) = _
        rw [hevents, List.append_nil, asking_cons]
        refine congrArg _ (asking_congr fun y hy => hother ?_)
        simpa using (List.mem_filter.1 (List.mem_eraseDups.1 hy)).2

end Operator

/-! ## The best symbols -/

/-- The candidates of some symbols with their values. -/
def candidatesOf (value : String → Decimal) (symbols : List String) : List Candidate :=
  symbols.map fun x => ⟨value x, x⟩

namespace Selector

variable {s : Selector} {value : String → Decimal} {symbols : List String}

theorem symbols_candidatesOf (value : String → Decimal) (symbols : List String) :
    (candidatesOf value symbols).map (·.symbol) = symbols := by
  rw [candidatesOf, List.map_map, Function.comp_def, List.map_id']

theorem eq_of_mem_candidatesOf {c : Candidate} (h : c ∈ candidatesOf value symbols) :
    c = ⟨value c.symbol, c.symbol⟩ := by
  obtain ⟨x, -, rfl⟩ := List.mem_map.1 h
  rfl

theorem rank_candidatesOf_congr {symbols' : List String} (s : Selector)
    (value : String → Decimal) (h : symbols.Nodup) (h' : symbols'.Nodup)
    (hmem : ∀ x, x ∈ symbols' ↔ x ∈ symbols) :
    s.rank (candidatesOf value symbols') = s.rank (candidatesOf value symbols) := by
  have hperm : symbols'.Perm symbols := (List.perm_ext_iff_of_nodup h' h).2 hmem
  exact s.rank_eq_of_perm (hperm.map _) ((symbols_candidatesOf value symbols').symm ▸ h')

/-- The allocation `a` has the best of some symbols, the first ones of `ranked`, in equal parts. -/
structure Selects (s : Selector) (value : String → Decimal) (symbols : List String)
    (ranked : List Candidate) (a : Allocation) : Prop where
  perm : ranked.Perm (candidatesOf value symbols)
  sorted : ranked.Pairwise s.Precedes
  mem_iff : ∀ x, x ∈ a.symbols ↔ x ∈ (ranked.take s.count).map (·.symbol)
  size : a.size = min s.count symbols.length
  best : ∀ x ∈ a.symbols, ∀ y ∈ symbols, y ∉ a.symbols →
    s.Precedes ⟨value x, x⟩ ⟨value y, y⟩
  equal : ∃ share, Decimal.ofRat? (1 / a.size) = some share ∧
    ∀ x ∈ a.symbols, a.weightOf x = share.toRat

theorem Selects.subset {ranked : List Candidate} {a : Allocation}
    (h : s.Selects value symbols ranked a) : ∀ x ∈ a.symbols, x ∈ symbols := by
  intro x hx
  obtain ⟨c, hc, rfl⟩ := List.mem_map.1 ((h.mem_iff x).1 hx)
  obtain ⟨y, hy, rfl⟩ := List.mem_map.1 (h.perm.mem_iff.1 (List.mem_of_mem_take hc))
  exact hy

/-- The first candidates of a ranking in equal parts have the best of the symbols, unless they are
so many that the parts are rounded to zero. -/
theorem exists_selects (s : Selector) (value : String → Decimal) (h : symbols.Nodup)
    (hfew : min s.count symbols.length < 2 * 10 ^ 28) :
    ∃ a, Allocation.equalWeight (((s.rank (candidatesOf value symbols)).take s.count).map
        fun c => .single c.symbol) = .ok a ∧
      s.Selects value symbols (s.rank (candidatesOf value symbols)) a := by
  have hsymbols : ((candidatesOf value symbols).map (·.symbol)).Nodup :=
    (symbols_candidatesOf value symbols).symm ▸ h
  have hperm := s.rank_perm_self (candidatesOf value symbols)
  have hsorted := s.rank_pairwise hsymbols
  generalize s.rank (candidatesOf value symbols) = ranked at hperm hsorted ⊢
  have hchosen : ((ranked.take s.count).map (·.symbol)).Nodup :=
    ((hperm.map _).nodup_iff.2 hsymbols).sublist ((List.take_sublist _ _).map _)
  have hlength : ((ranked.take s.count).map (·.symbol)).length = min s.count symbols.length := by
    rw [List.length_map, List.length_take, hperm.length_eq, candidatesOf, List.length_map]
  obtain ⟨a, ha, hmem, hsize, hweight⟩ :=
    Allocation.equalWeight_singles hchosen (hlength.symm ▸ hfew)
  refine ⟨a, by rwa [List.map_map] at ha, hperm, hsorted, hmem, hsize.trans hlength, ?_, ?_⟩
  · intro x hx y hy hy'
    obtain ⟨c, hc, rfl⟩ := List.mem_map.1 ((hmem x).1 hx)
    have hcs : c ∈ candidatesOf value symbols := hperm.mem_iff.1 (List.mem_of_mem_take hc)
    have hys : (⟨value y, y⟩ : Candidate) ∈ ranked := hperm.mem_iff.2 (List.mem_map_of_mem hy)
    -- what is not taken is among the rest of the ranking, behind all that is
    rw [← List.take_append_drop s.count ranked] at hys hsorted
    have hdrop : (⟨value y, y⟩ : Candidate) ∈ ranked.drop s.count :=
      (List.mem_append.1 hys).resolve_left fun htake =>
        hy' ((hmem y).2 (List.mem_map_of_mem (f := (·.symbol)) htake))
    rw [← eq_of_mem_candidatesOf hcs]
    exact (List.pairwise_append.1 hsorted).2.2 c hc _ hdrop
  · refine ⟨Allocation.equalShare a.size, Allocation.ofRat?_equalShare _, fun x hx => ?_⟩
    rw [hsize]
    exact hweight x ((hmem x).1 hx)

end Selector

/-! ## Filters -/

namespace Operator

open Eval

/-- The arguments of a filter: its metric, its selector and its candidates. -/
def filterArguments (metric selector children : Operand) :
    Eval (Metric × Selector × List Allocation) := do
  let m ← expectMetric metric.node (← metric.value)
  let s ← expectSelector selector.node (← selector.value)
  let as ← children.allocations
  pure (m, s, as)

/-- A selector that is the value of a node takes fewer than `2 ^ 32` candidates. -/
theorem filterArguments_count_lt (metric children : Operand) {selector : Operand}
    (h : selector.Bare) :
    Returns (fun args => args.2.1.count < 2 ^ 32) (filterArguments metric selector children) := by
  have hselector (v : Value) (hv : v.Bare) :
      Returns (fun s => s.count < 2 ^ 32) (expectSelector selector.node v) := by
    cases v with
    | selector s => exact .pure hv
    | _ => exact .fail
  exact .after fun _ => .after fun m => h.bind fun v hv => (hselector v hv).bind fun s hs =>
    .after fun as => .pure hs

variable {call : Node} {metric selector children : Operand} {setting : Setting}
  {start st : EvalState} {m : Metric} {s : Selector} {as : List Allocation} {before : List Event}
  {value : String → Decimal}

/-- What a filter does once it has its arguments. -/
theorem filter_eq : filter call [metric, selector, children] =
    filterArguments metric selector children >>= fun (m, s, as) =>
      candidates call children.node m [] as >>= fun cs =>
        record (rankingStep m s (s.rank cs)) >>= fun _ =>
          ofWeights (Allocation.equalWeight
            (((s.rank cs).take s.count).map fun c => Allocation.single c.symbol)) >>= fun a =>
            pure (.allocation a) := by
  simp only [filter, filterArguments, bind_assoc, pure_bind]

/-- Candidates that a filter can rank: none has more than one symbol, and the values of all symbols
are answered. -/
structure Rankable (setting : Setting) (known : Answers) (m : Metric) (value : String → Decimal)
    (as : List Allocation) : Prop where
  single : ∀ a ∈ as, a.size ≤ 1
  answered : ∀ x ∈ distinctSymbols as, setting.answer? known ⟨x, m⟩ = some (value x)

/-- A filter of candidates that can be ranked asks for the values of their distinct symbols, and
takes its decision. -/
theorem filter_run {ranked : List Candidate} {a : Allocation}
    (harguments : filterArguments metric selector children setting start =
      ⟨.ok (m, s, as), before, st⟩)
    (h : Rankable setting st.answers m value as)
    (hranked : s.rank (candidatesOf value (distinctSymbols as)) = ranked)
    (ha : Allocation.equalWeight ((ranked.take s.count).map fun c => .single c.symbol) = .ok a) :
    (filter call [metric, selector, children] setting start).result = .ok (.allocation a) ∧
    (filter call [metric, selector, children] setting start).events =
      before ++ asking setting st.answers m (distinctSymbols as) ++
        [.decided (rankingStep m s ranked)] := by
  have hfresh : ((as.flatMap Allocation.symbols).filter fun x => !([] : List String).contains x) =
      as.flatMap Allocation.symbols := List.filter_eq_self.2 fun _ _ => rfl
  have hrun := candidates_run call children.node m value as [] st h.single
    fun x _ hx => h.answered x (mem_distinctSymbols.2 hx)
  rw [hfresh] at hrun
  obtain ⟨hresult, hevents⟩ : _ = Except.ok (candidatesOf value (distinctSymbols as)) ∧
    _ = asking setting st.answers m (distinctSymbols as) := hrun
  rw [filter_eq, run_bind_of_ok (by rw [harguments]), harguments]
  dsimp only
  rw [run_bind_of_ok hresult, hevents, hranked, ha]
  refine ⟨rfl, ?_⟩
  show before ++ (asking setting st.answers m (distinctSymbols as) ++
    ([.decided (rankingStep m s ranked)] ++ [])) = _
  rw [List.append_nil, List.append_assoc]

/-- **A filter selects the best candidates, whatever their order.** It asks once for each symbol
whose value is not kept, in the order in which they first occur. Every filter by the same metric and
selector whose candidates have the same symbols, in whatever order and however often, with the same
values gives the same allocation and takes the same decision.

The parts of `2 * 10 ^ 28` symbols or more would be rounded to zero, and nothing selected. A
selector that is the value of a node never takes that many. -/
theorem filter_selects_best (call : Node)
    (harguments : filterArguments metric selector children setting start =
      ⟨.ok (m, s, as), before, st⟩)
    (h : Rankable setting st.answers m value as)
    (hfew : min s.count (distinctSymbols as).length < 2 * 10 ^ 28 ∨
      ∃ (n : Node) (path : NodePath), selector.value = n.eval path) :
    let o := filter call [metric, selector, children] setting start
    ∃ ranked a, s.Selects value (distinctSymbols as) ranked a ∧
      o.result = .ok (.allocation a) ∧
      o.events = before ++ asking setting st.answers m (distinctSymbols as) ++
        [.decided (rankingStep m s ranked)] ∧
      ∀ (call' : Node) {metric' selector' children' setting' start' as' before' st'},
        filterArguments metric' selector' children' setting' start' =
          ⟨.ok (m, s, as'), before', st'⟩ →
        Rankable setting' st'.answers m value as' →
        (∀ x, x ∈ distinctSymbols as' ↔ x ∈ distinctSymbols as) →
          let o := filter call' [metric', selector', children'] setting' start'
          o.result = .ok (.allocation a) ∧
            o.events = before' ++ asking setting' st'.answers m (distinctSymbols as') ++
              [.decided (rankingStep m s ranked)] := by
  have hcount : min s.count (distinctSymbols as).length < 2 * 10 ^ 28 := by
    rcases hfew with hfew | ⟨n, path, hselector⟩
    · exact hfew
    · have hbare : selector.Bare := by
        unfold Operand.Bare
        rw [hselector]
        exact n.eval_bare path
      have hlt : s.count < 2 ^ 32 := filterArguments_count_lt metric children hbare setting start
        (m, s, as) (by rw [harguments])
      omega
  obtain ⟨a, ha, hselects⟩ := s.exists_selects value (nodup_distinctSymbols as) hcount
  obtain ⟨hresult, hevents⟩ := filter_run harguments h rfl ha
  refine ⟨_, a, hselects, hresult, hevents, ?_⟩
  intro call' metric' selector' children' setting' start' as' before' st' harguments' h' hmem
  have hranked := s.rank_candidatesOf_congr value (nodup_distinctSymbols as)
    (nodup_distinctSymbols as') hmem
  exact filter_run harguments' h' hranked ha

/-- Of two symbols with the same value the first one is selected, from candidates in either order
and with a symbol that comes twice. -/
theorem filter_selects_best_tie :
    let call : Node := .list .plain [] 0
    let setting : Setting := { feed := fun _ => .ok .one }
    let start : EvalState := .initial .fresh
    let operands (as : List Allocation) : List Operand :=
      [⟨call, pure (.metric ⟨.currentPrice, 0⟩)⟩, ⟨call, pure (.selector (.top 1))⟩,
        ⟨call, pure (.list (as.map .allocation))⟩]
    ∃ a, a.size = 1 ∧ "A" ∈ a.symbols ∧
      (filter call (operands [.single "B", .single "A", .empty, .single "B"]) setting start).result =
        .ok (.allocation a) ∧
      (filter call (operands [.single "A", .single "B"]) setting start).result =
        .ok (.allocation a) := by
  intro call setting start operands
  let price : Metric := ⟨.currentPrice, 0⟩
  let mixed : List Allocation := [.single "B", .single "A", .empty, .single "B"]
  let plain : List Allocation := [.single "A", .single "B"]
  have harguments : filterArguments ⟨call, pure (.metric price)⟩ ⟨call, pure (.selector (.top 1))⟩
      ⟨call, pure (.list (mixed.map .allocation))⟩ setting start =
        ⟨.ok (price, .top 1, mixed), [], start⟩ := rfl
  have harguments' : filterArguments ⟨call, pure (.metric price)⟩ ⟨call, pure (.selector (.top 1))⟩
      ⟨call, pure (.list (plain.map .allocation))⟩ setting start =
        ⟨.ok (price, .top 1, plain), [], start⟩ := rfl
  have hrankable : Rankable setting [] price (fun _ => .one) mixed := ⟨by decide, fun _ _ => rfl⟩
  obtain ⟨ranked, a, hselects, hresult, -, hall⟩ :=
    filter_selects_best call harguments hrankable (.inl (by decide))
  have hsymbols : distinctSymbols mixed = ["B", "A"] := rfl
  have hsymbols' : distinctSymbols plain = ["A", "B"] := rfl
  refine ⟨a, hselects.size, ?_, hresult, (hall call harguments' ⟨by decide, fun _ _ => rfl⟩ ?_).1⟩
  · by_contra hA
    obtain ⟨x, hx⟩ : ∃ x, x ∈ a.symbols := List.exists_mem_of_length_pos (by
      rw [a.length_symbols, hselects.size]
      decide)
    have hbest := hselects.best x hx "A" (by decide) hA
    obtain rfl | rfl : x = "B" ∨ x = "A" := by simpa [hsymbols] using hselects.subset x hx
    · exact hbest.asymm (.inr ⟨rfl, by decide⟩)
    · exact hA hx
  · intro x
    rw [hsymbols, hsymbols']
    simp [or_comm]

end Operator

end AllocScript
