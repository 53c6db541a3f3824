import AllocScript.Command.Execute
import AllocScript.Files.Folder
import AllocScript.Proofs.Eval.Conservation

/-!
# Several strategy files in one command

Files that are evaluated in one command do not affect each other: each of them has the outcome that
it has on its own, what is printed is what they print on their own, and the status is that of the
first one that fails (`Command.executeEvaluate_each_alone`). A disk that notes what it is asked for
(`Disk.logged`) shows which files are read: nothing but the snapshot if it is bad, and otherwise
each file in its turn (`Command.asks_executeEvaluate_of_ok`). That the first failure sets the status
and none behind it changes it is the loop over the outcomes (`FileOutcome.statusAfter`), in which a
status that is not zero stays.
-/

namespace AllocScript

/-! ## Outcomes -/

/-- A strategy file ends with an allocation or with an error, never with a fault: its size is
limited, so the evaluation stays in the range of decimals. -/
theorem outcome_evaluateSource_ne_fault (source : String) (feed : Feed) (f : Fault) :
    (evaluateSource source feed).outcome ≠ .error (.fault f) := by
  unfold evaluateSource
  cases hn : Node.ofSource source with
  | error e => simp
  | ok node =>
    have hsize : node.size ≤ 10 ^ 15 := (Node.size_le_of_ofSource hn).trans (by decide)
    show (evaluateNode node feed).outcome ≠ _
    unfold evaluateNode
    cases hr : (evaluate node { feed } .fresh).result with
    | ok a => simp [hr]
    | error stop =>
      have hstop := (Node.evalStrategy_conserves node hsize).stop _ _ stop
        (evaluate_eq_error_iff.1 hr)
      cases stop with
      | error e => simp [hr, Failure.ofStop]
      | fault f => cases hstop

namespace Disk

variable (disk : Disk Id) (feed : Feed)

theorem outcome_evaluateFile_ne_fault (path : String) (f : Fault) :
    (disk.evaluateFile feed path).run.evaluation.outcome ≠ .error (.fault f) := by
  unfold evaluateFile
  cases hread : (disk.readStrategy path).run with
  | error e => simp [hread]
  | ok source =>
    have hsource := outcome_evaluateSource_ne_fault source feed f
    simp only [Id.run_bind, hread, Id.run_pure, Evaluation.fromFile]
    cases hrun : (evaluateSource source feed).outcome with
    | ok d => simp [Except.map]
    | error failure => simpa [Except.map, ← hrun] using hsource

/-- Each file is evaluated as it is when it is the only one. -/
theorem evaluateFiles_eq_map (paths : List String) :
    (disk.evaluateFiles feed paths).run =
      paths.map fun path => (disk.evaluateFile feed path).run := by
  induction paths with
  | nil => rfl
  | cons path paths ih =>
    rw [evaluateFiles, List.mapM_cons]
    simp only [Id.run_bind, Id.run_pure, List.map_cons]
    rw [← ih]
    rfl

end Disk

/-! ## Statuses -/

theorem StrategyError.exitStatus_ne_zero (e : StrategyError) : e.exitStatus ≠ 0 := by
  cases e <;> simp [exitStatus]

theorem Failure.exitStatus_ne_zero (failure : Failure) : failure.exitStatus ≠ 0 := by
  cases failure with
  | error e => exact e.exitStatus_ne_zero
  | fault f => simp [exitStatus]

namespace FileOutcome

variable {o : FileOutcome} {outcomes good rest : List FileOutcome}

theorem isOk_iff : o.isOk = true ↔ ∃ d, o.evaluation.outcome = .ok d := by
  unfold isOk
  cases o.evaluation.outcome <;> simp [Except.isOk, Except.toBool]

theorem statusAfter_of_ok {d : Decision} (status : Nat) (h : o.evaluation.outcome = .ok d) :
    statusAfter status o = status := by
  simp [statusAfter, h]

theorem statusAfter_zero_of_error {failure : Failure}
    (h : o.evaluation.outcome = .error failure) : statusAfter 0 o = failure.exitStatus := by
  simp [statusAfter, h]

theorem statusAfter_of_ne_zero {status : Nat} (h : status ≠ 0) (o : FileOutcome) :
    statusAfter status o = status := by
  unfold statusAfter
  split
  · rfl
  · exact if_neg h

/-- Once a file has failed, the status is kept, whatever the files behind it do. -/
theorem foldl_statusAfter_of_ne_zero {status : Nat} (h : status ≠ 0)
    (outcomes : List FileOutcome) : outcomes.foldl statusAfter status = status := by
  induction outcomes with
  | nil => rfl
  | cons o outcomes ih => rw [List.foldl_cons, statusAfter_of_ne_zero h o, ih]

/-- Files that succeed leave the status as it is. -/
theorem foldl_statusAfter_of_ok (status : Nat)
    (h : ∀ o ∈ outcomes, ∃ d, o.evaluation.outcome = .ok d) :
    outcomes.foldl statusAfter status = status := by
  induction outcomes with
  | nil => rfl
  | cons o outcomes ih =>
    obtain ⟨d, hd⟩ := h o List.mem_cons_self
    rw [List.foldl_cons, statusAfter_of_ok status hd]
    exact ih fun q hq => h q (List.mem_cons_of_mem o hq)

/-- The status is that of the first file that fails. -/
theorem foldl_statusAfter_of_first {failure : Failure}
    (hgood : ∀ q ∈ good, ∃ d, q.evaluation.outcome = .ok d)
    (ho : o.evaluation.outcome = .error failure) :
    (good ++ o :: rest).foldl statusAfter 0 = failure.exitStatus := by
  rw [List.foldl_append, foldl_statusAfter_of_ok 0 hgood, List.foldl_cons,
    statusAfter_zero_of_error ho]
  exact foldl_statusAfter_of_ne_zero failure.exitStatus_ne_zero rest

/-- The status is zero if no file fails, and only then. -/
theorem foldl_statusAfter_eq_zero_iff :
    outcomes.foldl statusAfter 0 = 0 ↔ ∀ o ∈ outcomes, ∃ d, o.evaluation.outcome = .ok d := by
  refine ⟨fun h => ?_, foldl_statusAfter_of_ok 0⟩
  induction outcomes with
  | nil => simp
  | cons o outcomes ih =>
    rw [List.foldl_cons] at h
    cases ho : o.evaluation.outcome with
    | ok d =>
      rw [statusAfter_of_ok 0 ho] at h
      exact List.forall_mem_cons.2 ⟨⟨d, ho⟩, ih h⟩
    | error failure =>
      have hne := failure.exitStatus_ne_zero
      rw [statusAfter_zero_of_error ho, foldl_statusAfter_of_ne_zero hne] at h
      exact absurd h hne

end FileOutcome

@[simp] theorem Shown.status_after (s : Shown) (message : String) :
    (s.after message).status = s.status := rfl

@[simp] theorem Shown.output_after (s : Shown) (message : String) :
    (s.after message).output = s.output := rfl

/-! ## What is read -/

namespace Disk

/-- The disk that also notes which paths it is asked for, in order. -/
def logged (disk : Disk Id) : Disk (StateM (List String)) where
  size path := fun log => (disk.size path, log ++ [path])
  read path := fun log => (disk.read path, log ++ [path])

/-- A computation gives this and asks for these paths, whatever has been asked for before. -/
def Asks {α : Type} (x : StateM (List String) α) (a : α) (asked : List String) : Prop :=
  ∀ log, x.run log = (a, log ++ asked)

variable {α β : Type}

theorem Asks.pure (a : α) : Asks (pure a) a [] := fun log => by
  rw [List.append_nil]
  rfl

theorem Asks.bind {x : StateM (List String) α} {f : α → StateM (List String) β} {a : α} {b : β}
    {asked more : List String} (hx : Asks x a asked) (hf : Asks (f a) b more) :
    Asks (x >>= f) b (asked ++ more) := fun log => by
  rw [StateT.run_bind, hx log, ← List.append_assoc, ← hf (log ++ asked)]
  rfl

/-- A computation that asks for nothing more. -/
theorem Asks.bind_nil {x : StateM (List String) α} {f : α → StateM (List String) β} {a : α} {b : β}
    {asked : List String} (hx : Asks x a asked) (hf : Asks (f a) b []) :
    Asks (x >>= f) b asked := by
  rw [← List.append_nil asked]
  exact hx.bind hf

variable (disk : Disk Id)

theorem asks_read (path : String) : Asks (disk.logged.read path) (disk.read path).run [path] :=
  fun _ => rfl

theorem asks_size (path : String) : Asks (disk.logged.size path) (disk.size path).run [path] :=
  fun _ => rfl

/-- A snapshot is read from one file. -/
theorem asks_readSnapshot (path : String) :
    Asks (disk.logged.readSnapshot path) (disk.readSnapshot path).run [path] := by
  refine (asks_read disk path).bind_nil ?_
  unfold readSnapshot
  rw [Id.run_bind]
  generalize (disk.read path).run = contents
  cases contents with
  | error e => cases e <;> exact .pure _
  | ok bytes =>
    dsimp only
    cases Snapshot.ofCsv bytes.toList <;> exact .pure _

/-- A text is read from one file. -/
theorem asks_readText (path : String) :
    Asks (disk.logged.readText path) (disk.readText path).run [path] := by
  refine (asks_read disk path).bind_nil ?_
  unfold readText
  rw [Id.run_bind]
  generalize (disk.read path).run = contents
  cases contents with
  | error e => exact .pure _
  | ok bytes =>
    dsimp only
    cases decodeUtf8 bytes <;> exact .pure _

/-- What a strategy file is asked for: its size, and its contents if it is not too large. -/
def strategyQueries (path : String) : List String :=
  match (disk.size path).run with
  | .error _ => [path]
  | .ok size => if maxSourceBytes < size then [path] else [path, path]

theorem asks_readStrategy (path : String) :
    Asks (disk.logged.readStrategy path) (disk.readStrategy path).run
      (disk.strategyQueries path) := by
  unfold strategyQueries
  cases hsize : (disk.size path).run with
  | error e =>
    refine (asks_size disk path).bind_nil ?_
    rw [readStrategy, Id.run_bind, hsize]
    exact .pure _
  | ok size =>
    dsimp only
    split
    next hlarge =>
      refine (asks_size disk path).bind_nil ?_
      rw [readStrategy, Id.run_bind, hsize]
      simp only [checkSourceSize, if_pos hlarge]
      exact .pure _
    next hfits =>
      show Asks _ _ ([path] ++ [path])
      refine (asks_size disk path).bind ?_
      rw [readStrategy, Id.run_bind, hsize]
      simp only [checkSourceSize, if_neg hfits]
      refine (asks_readText disk path).bind_nil ?_
      rw [Id.run_bind]
      cases (disk.readText path).run <;> exact .pure _

variable (feed : Feed)

theorem asks_evaluateFile (path : String) :
    Asks (disk.logged.evaluateFile feed path) (disk.evaluateFile feed path).run
      (disk.strategyQueries path) := by
  refine (asks_readStrategy disk path).bind_nil ?_
  rw [evaluateFile, Id.run_bind]
  cases (disk.readStrategy path).run <;> exact .pure _

/-- Files are read one after the other, each one as if it were alone. -/
theorem asks_evaluateFiles (paths : List String) :
    Asks (disk.logged.evaluateFiles feed paths) (disk.evaluateFiles feed paths).run
      (paths.flatMap disk.strategyQueries) := by
  induction paths with
  | nil => exact .pure _
  | cons path paths ih =>
    unfold evaluateFiles at ih ⊢
    rw [List.mapM_cons, List.mapM_cons, List.flatMap_cons]
    refine (asks_evaluateFile disk feed path).bind ?_
    exact ih.bind_nil (.pure _)

end Disk

namespace Command

variable (disk : Disk Id) (snapshot : String) (files : List String)

theorem asks_executeEvaluate_of_error {e : StrategyError} (trace : Bool)
    (h : (disk.readSnapshot snapshot).run = .error e) :
    Disk.Asks (executeEvaluate disk.logged snapshot trace files)
      (.failed ("error: " ++ e.message) e.exitStatus) [snapshot] := by
  refine (disk.asks_readSnapshot snapshot).bind_nil ?_
  rw [h]
  exact .pure _

theorem executeEvaluate_of_ok {values : Snapshot} (trace : Bool)
    (h : (disk.readSnapshot snapshot).run = .ok values) :
    (executeEvaluate disk snapshot trace files).run =
      (reportOutcomes trace (disk.evaluateFiles values.feed files).run).after
        s!"Loaded {values.size} indicator values from {snapshot}" := by
  rw [executeEvaluate, Id.run_bind, h]
  rfl

/-- The files are read behind the snapshot, one after the other, and each one as often as if it were
alone. -/
theorem asks_executeEvaluate_of_ok {values : Snapshot} (trace : Bool)
    (h : (disk.readSnapshot snapshot).run = .ok values) :
    Disk.Asks (executeEvaluate disk.logged snapshot trace files)
      (executeEvaluate disk snapshot trace files).run
      (snapshot :: files.flatMap disk.strategyQueries) := by
  rw [executeEvaluate_of_ok disk snapshot files trace h]
  refine (disk.asks_readSnapshot snapshot).bind ?_
  rw [h]
  exact (disk.asks_evaluateFiles values.feed files).bind_nil (.pure _)

/-- **Files that are evaluated in one command do not affect each other.** If the snapshot cannot be
loaded, nothing is printed, nothing but the snapshot is read, and the status is that of its error.
Otherwise the files are read behind the snapshot, each one in its turn and as if it were alone, each
file is recorded with the outcome that it has on its own, what is printed is what the files print on
their own, in their order and whether or not traces are shown, and the status is zero if all files
succeed and else that of the error of the first one that fails. -/
theorem executeEvaluate_each_alone (disk : Disk Id) (snapshot : String) (trace : Bool)
    (files : List String) :
    (∀ e, (disk.readSnapshot snapshot).run = .error e →
      (executeEvaluate disk snapshot trace files).run =
        ⟨[], ["error: " ++ e.message], e.exitStatus⟩ ∧
      Disk.Asks (executeEvaluate disk.logged snapshot trace files)
        (executeEvaluate disk snapshot trace files).run [snapshot]) ∧
    ∀ values, (disk.readSnapshot snapshot).run = .ok values →
      let outcome (path : String) := (disk.evaluateFile values.feed path).run.evaluation.outcome
      let shown := (executeEvaluate disk snapshot trace files).run
      Disk.Asks (executeEvaluate disk.logged snapshot trace files) shown
        (snapshot :: files.flatMap disk.strategyQueries) ∧
      (disk.evaluateFiles values.feed files).run =
        files.flatMap (fun path => (disk.evaluateFiles values.feed [path]).run) ∧
      (∀ trace', shown.output = files.flatMap fun path =>
        (executeEvaluate disk snapshot trace' [path]).run.output) ∧
      (shown.status = 0 ↔ ∀ path ∈ files, ∃ d, outcome path = .ok d) ∧
      ∀ good path rest failure, files = good ++ path :: rest →
        (∀ p ∈ good, ∃ d, outcome p = .ok d) → outcome path = .error failure →
        ∃ e, failure = .error e ∧ shown.status = e.exitStatus := by
  refine ⟨fun e h => ?_, fun values h => ?_⟩
  · have hfailed : (executeEvaluate disk snapshot trace files).run =
        .failed ("error: " ++ e.message) e.exitStatus := by
      rw [executeEvaluate, Id.run_bind, h]
      rfl
    exact ⟨hfailed, hfailed ▸ asks_executeEvaluate_of_error disk snapshot files trace h⟩
  · intro outcome shown
    have hshown := fun trace' fs => executeEvaluate_of_ok disk snapshot fs trace' h
    have hmap := disk.evaluateFiles_eq_map values.feed
    have hstatus : shown.status =
        (files.map fun path => (disk.evaluateFile values.feed path).run).foldl
          FileOutcome.statusAfter 0 := by
      rw [show shown = _ from hshown trace files, Shown.status_after, hmap, reportOutcomes]
    refine ⟨asks_executeEvaluate_of_ok disk snapshot files trace h, ?_, fun trace' => ?_, ?_, ?_⟩
    · simp [hmap, List.map_eq_flatMap]
    · simp [shown, hshown, hmap, reportOutcomes, List.flatMap_map]
    · rw [hstatus, FileOutcome.foldl_statusAfter_eq_zero_iff, List.forall_mem_map]
    · rintro good path rest failure rfl hgood hfails
      cases failure with
      | fault f => exact absurd hfails (disk.outcome_evaluateFile_ne_fault values.feed path f)
      | error e =>
        refine ⟨e, rfl, ?_⟩
        rw [hstatus, List.map_append, List.map_cons]
        exact FileOutcome.foldl_statusAfter_of_first (List.forall_mem_map.2 hgood) hfails

/-- A strategy and a file that is none, behind a snapshot and without one. -/
theorem executeEvaluate_each_alone_second :
    let folder := ((Folder.empty.add "values" (.file "symbol,indicator,period,value".toUTF8)).add
      "good" (.file "(asset \"A\")".toUTF8)).add "bad" (.file "(asset".toUTF8)
    (executeEvaluate folder.disk "none" false ["good"]).run.output = [] ∧
    (executeEvaluate folder.disk "values" false ["good", "bad", "none"]).run.status = 4 := by
  intro folder
  have hnone : (folder.disk.readSnapshot "none").run.isOk = false := by decide +kernel
  have hruns : ((folder.disk.readSnapshot "values").run.toOption.any fun values =>
      (folder.disk.evaluateFile values.feed "good").run.isOk &&
        (FileOutcome.statusAfter 0 (folder.disk.evaluateFile values.feed "bad").run == 4)) =
      true := by
    decide +kernel
  constructor
  · cases h : (folder.disk.readSnapshot "none").run with
    | error e => rw [((executeEvaluate_each_alone folder.disk "none" false ["good"]).1 e h).1]
    | ok values => rw [h] at hnone; cases hnone
  · cases h : (folder.disk.readSnapshot "values").run with
    | error e => rw [h] at hruns; cases hruns
    | ok values =>
      simp only [h, Except.toOption, Option.any_some, Bool.and_eq_true, beq_iff_eq] at hruns
      obtain ⟨hgood, hbad⟩ := hruns
      obtain ⟨-, -, -, -, first⟩ := (executeEvaluate_each_alone folder.disk "values" false
        ["good", "bad", "none"]).2 values h
      have hsucceeds : ∀ p ∈ ["good"], ∃ d,
          (folder.disk.evaluateFile values.feed p).run.evaluation.outcome = .ok d := by
        rw [List.forall_mem_singleton]
        exact FileOutcome.isOk_iff.1 hgood
      cases hfails : (folder.disk.evaluateFile values.feed "bad").run.evaluation.outcome with
      | ok d => rw [FileOutcome.statusAfter_of_ok 0 hfails] at hbad; cases hbad
      | error failure =>
        rw [FileOutcome.statusAfter_zero_of_error hfails] at hbad
        obtain ⟨e, rfl, hstatus⟩ := first ["good"] "bad" ["none"] failure rfl hsucceeds hfails
        exact hstatus.trans hbad

end Command

end AllocScript
