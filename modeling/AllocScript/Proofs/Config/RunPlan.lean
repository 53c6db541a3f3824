import Mathlib
import AllocScript.Config.RunPlan
import AllocScript.Proofs.Config.StrategyList

/-!
# Settings that are checked and settings that are used

`Settings.check` and `RunPlan.ofSettings` read the same keys one after the other.
`Settings.Describe` says what settings must be like to pass the check (`check_eq_ok_iff`). A plan is
made of exactly those (`RunPlan.ofSettings_of_describe`), so that none of the errors of its own that
`RunPlan.ofSettings` has can come about, and all its errors are those of the check
(`RunPlan.ofSettings_iff_check`).
-/

namespace AllocScript

namespace Settings

/-- The settings describe a run with a snapshot at this path and this list of strategies. -/
structure Describe (settings : Settings) (path list : String) : Prop where
  snapshot : settings.text? "engine" "snapshot" = some path
  not_blank : isBlankText path = false
  strategies : settings.text? "engine" "strategies" = some list
  listable : Listable (pieces list)
  level : ∀ level, settings.text? "logging" "level" = some level →
    lowercase (trim level) ∈ logLevels

/-- The level of the log that the settings ask for. -/
def level (settings : Settings) : String :=
  match settings.text? "logging" "level" with
  | some level => lowercase (trim level)
  | none => defaultLogLevel

/-! ## What the check finds -/

variable {settings : Settings} {part key text : String}

theorem required_eq_ok_iff :
    settings.required part key = .ok text ↔
      settings.text? part key = some text ∧ isBlankText text = false := by
  unfold required
  cases h : settings.text? part key with
  | none => simp
  | some found =>
    dsimp only
    cases hblank : isBlankText found with
    | true =>
      refine iff_of_false nofun ?_
      rintro ⟨htext, hnot⟩
      rw [← Option.some.inj htext, hblank] at hnot
      cases hnot
    | false =>
      refine ⟨fun h => ?_, fun h => ?_⟩
      · cases h
        exact ⟨rfl, hblank⟩
      · cases h.1
        rfl

/-- A list with something in each of its pieces is not blank. -/
theorem isBlankText_of_listable (h : Listable (pieces text)) : isBlankText text = false := by
  by_contra hblank
  rw [Bool.not_eq_false] at hblank
  have hcomma : ∀ c ∈ text.toList, (c == ',') = false := by
    intro c hc
    refine beq_eq_false_iff_ne.2 ?_
    rintro rfl
    exact absurd (isBlankText_iff.1 hblank _ hc) (by decide)
  have hpieces : pieces text = [text] := by
    rw [pieces, List.splitOn, List.splitOnP_eq_singleton hcomma, List.map_singleton,
      String.ofList_toList]
  have hnot := h.not_blank text (by rw [hpieces]; exact List.mem_singleton_self _)
  rw [hblank] at hnot
  cases hnot

theorem checkStrategies_eq_ok_iff :
    settings.checkStrategies = .ok () ↔
      ∃ list, settings.text? "engine" "strategies" = some list ∧ Listable (pieces list) := by
  unfold checkStrategies
  constructor
  · intro h
    cases hlist : settings.required "engine" "strategies" with
    | error e => rw [hlist] at h; cases h
    | ok list =>
      cases hread : readStrategyList list with
      | error e => simp [hlist, hread, bind, Except.bind] at h
      | ok entries =>
        exact ⟨list, (required_eq_ok_iff.1 hlist).1, (readStrategyList_eq_ok_iff.1 hread).1⟩
  · rintro ⟨list, hlist, hlistable⟩
    have hrequired := required_eq_ok_iff.2 ⟨hlist, isBlankText_of_listable hlistable⟩
    have hread := readStrategyList_eq_ok_iff.2 ⟨hlistable, rfl⟩
    simp [hrequired, hread, bind, Except.bind]

theorem checkLogLevel_eq_ok_iff :
    settings.checkLogLevel = .ok () ↔ ∀ level, settings.text? "logging" "level" = some level →
      lowercase (trim level) ∈ logLevels := by
  unfold checkLogLevel
  cases h : settings.text? "logging" "level" with
  | none => exact iff_of_true rfl nofun
  | some level =>
    simp only [Option.some.injEq, forall_eq', ← List.contains_iff_mem]
    cases logLevels.contains (lowercase (trim level)) <;> simp

/-- The check passes if and only if the settings describe a run. -/
theorem check_eq_ok_iff :
    settings.check = .ok () ↔ ∃ path list, settings.Describe path list := by
  show (settings.required "engine" "snapshot" >>= fun _ =>
    settings.checkStrategies >>= fun _ => settings.checkLogLevel) = _ ↔ _
  constructor
  · intro h
    cases hpath : settings.required "engine" "snapshot" with
    | error e => rw [hpath] at h; cases h
    | ok path =>
      rw [hpath] at h
      change (settings.checkStrategies >>= fun _ => settings.checkLogLevel) = _ at h
      cases hlist : settings.checkStrategies with
      | error e => rw [hlist] at h; cases h
      | ok _ =>
        rw [hlist] at h
        obtain ⟨hpath, hblank⟩ := required_eq_ok_iff.1 hpath
        obtain ⟨list, hlist, hlistable⟩ := checkStrategies_eq_ok_iff.1 hlist
        exact ⟨path, list, hpath, hblank, hlist, hlistable, checkLogLevel_eq_ok_iff.1 h⟩
  · rintro ⟨path, list, hpath, hblank, hlist, hlistable, hlevel⟩
    rw [required_eq_ok_iff.2 ⟨hpath, hblank⟩, checkStrategies_eq_ok_iff.2 ⟨list, hlist, hlistable⟩,
      checkLogLevel_eq_ok_iff.2 hlevel]
    rfl

theorem Describe.level_mem {path list : String} (h : settings.Describe path list) :
    settings.level ∈ logLevels := by
  unfold Settings.level
  split
  next level hlevel => exact h.level level hlevel
  next => decide

end Settings

namespace RunPlan

variable {settings : Settings}

theorem ofSettings_of_describe {path list : String} (h : settings.Describe path list)
    (base : String) :
    ofSettings settings base = .ok {
      snapshot := Path.join base (trim path)
      strategies := ((pieces list).map trim).map (Path.join base)
      logLevel := settings.level
      logJson := settings.flag "logging" "json" false } := by
  have hcheck : settings.check = .ok () := Settings.check_eq_ok_iff.2 ⟨path, list, h⟩
  have hread := readStrategyList_eq_ok_iff.2 ⟨h.listable, rfl⟩
  simp only [ofSettings, hcheck, h.snapshot, h.strategies, hread, bind, Except.bind]
  rfl

theorem ofSettings_of_error {e : StrategyError} (h : settings.check = .error e) (base : String) :
    ofSettings settings base = .error e := by
  unfold ofSettings
  rw [h]
  rfl

/-- Settings are described by what they say. -/
theorem exists_describe_of_ofSettings {base : String} {plan : RunPlan}
    (h : ofSettings settings base = .ok plan) : ∃ path list, settings.Describe path list := by
  cases hcheck : settings.check with
  | ok _ => exact Settings.check_eq_ok_iff.1 hcheck
  | error e =>
    rw [ofSettings_of_error hcheck] at h
    cases h

/-- **Settings that pass the check make a plan, and only those.** Where the check fails, so does the
plan, with the same error. Where it passes, there are a snapshot and a list of strategies that can
be read, so the plan has no errors of its own. Then the strategies are the entries between the
commas of the list, trimmed and below the base directory, in order; there is one at least, none is
blank and no two are the same. The snapshot is the trimmed path, which is not blank, below the base
directory, and the level is one that a log can have. -/
theorem ofSettings_iff_check (settings : Settings) (base : String) :
    (∀ e, ofSettings settings base = .error e ↔ settings.check = .error e) ∧
    ((∃ plan, ofSettings settings base = .ok plan) ↔ settings.check = .ok ()) ∧
    (settings.check = .ok () → ∃ path list entries,
      settings.text? "engine" "snapshot" = some path ∧
      settings.text? "engine" "strategies" = some list ∧ readStrategyList list = .ok entries) ∧
    ∀ plan, ofSettings settings base = .ok plan → ∃ path list,
      settings.text? "engine" "snapshot" = some path ∧ isBlankText (trim path) = false ∧
      plan.snapshot = Path.join base (trim path) ∧
      settings.text? "engine" "strategies" = some list ∧
      let entries := (pieces list).map trim
      plan.strategies = entries.map (Path.join base) ∧ entries ≠ [] ∧
        (∀ e ∈ entries, isBlankText e = false) ∧ entries.Nodup ∧ plan.logLevel ∈ logLevels := by
  refine ⟨fun e => ⟨fun h => ?_, fun h => ofSettings_of_error h base⟩, ⟨?_, fun h => ?_⟩,
    fun h => ?_, fun plan h => ?_⟩
  · cases hcheck : settings.check with
    | error e' =>
      rw [ofSettings_of_error hcheck] at h
      cases h
      rfl
    | ok _ =>
      obtain ⟨path, list, hdescribe⟩ := Settings.check_eq_ok_iff.1 hcheck
      rw [ofSettings_of_describe hdescribe] at h
      cases h
  · rintro ⟨plan, h⟩
    exact Settings.check_eq_ok_iff.2 (exists_describe_of_ofSettings h)
  · obtain ⟨path, list, hdescribe⟩ := Settings.check_eq_ok_iff.1 h
    exact ⟨_, ofSettings_of_describe hdescribe base⟩
  · obtain ⟨path, list, hdescribe⟩ := Settings.check_eq_ok_iff.1 h
    exact ⟨path, list, _, hdescribe.snapshot, hdescribe.strategies,
      readStrategyList_eq_ok_iff.2 ⟨hdescribe.listable, rfl⟩⟩
  · obtain ⟨path, list, hdescribe⟩ := exists_describe_of_ofSettings h
    rw [ofSettings_of_describe hdescribe] at h
    obtain rfl := Except.ok.inj h
    refine ⟨path, list, ?_⟩
    -- The fields of the plan are read off first: `rfl` would unfold the path to find them equal.
    dsimp only
    refine ⟨hdescribe.snapshot, ?_, rfl, hdescribe.strategies, rfl, ?_, ?_,
      hdescribe.listable.distinct, hdescribe.level_mem⟩
    · rw [isBlankText_trim, hdescribe.not_blank]
    · exact mt List.map_eq_nil_iff.1 (pieces_ne_nil list)
    · refine List.forall_mem_map.2 fun p hp => ?_
      rw [isBlankText_trim, hdescribe.listable.not_blank p hp]

/-- Settings with blank space around every text, and a level in capitals. -/
theorem ofSettings_iff_check_capitals :
    let settings : Settings := {
      text? := fun part key =>
        if key = "snapshot" then some " s.csv" else if key = "strategies" then some "b ,a\t"
        else if part = "logging" then some " DEBUG" else none
      flag := fun _ _ default => default }
    settings.check = .ok () ∧ ofSettings settings "conf" =
      .ok ⟨"conf/s.csv", ["conf/b", "conf/a"], "debug", false⟩ ∧
      "debug" ∈ logLevels := by
  intro settings
  have hplan : ofSettings settings "conf" =
      .ok ⟨"conf/s.csv", ["conf/b", "conf/a"], "debug", false⟩ := by decide +kernel
  obtain ⟨-, hagree, -, hcontents⟩ := ofSettings_iff_check settings "conf"
  obtain ⟨_, _, -, -, -, -, -, -, -, -, hlevel⟩ := hcontents _ hplan
  exact ⟨hagree.1 ⟨_, hplan⟩, hplan, hlevel⟩

end RunPlan

end AllocScript
