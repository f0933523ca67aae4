import InvocationTrace.Cli.Outcome
import InvocationTrace.Proofs.Index.Contents
import InvocationTrace.Proofs.Totals

/-!
# Faults of commands

When a question about a log fails, and with which fault. Times are summed as they come, so what
decides is every partial sum and not the total: terms that would cancel later do not help. A sum that
overflows while an index is built hides that the root is unknown, and a sum in a report hides a
difference.
-/

namespace InvocationTrace

open Grouping Signed64

namespace Index

variable {rootId runId : String} {events : Log} {ix : Index}

def ToolTimeOverruns (rootId : String) (events : Log) : Prop :=
  ∃ runId, Overruns ((toolEnds rootId runId events).map Event.elapsed)

def AgentTimeOverruns (ix : Index) : Prop :=
  ∃ agent, Overruns
    ((ix.runs.filter fun r => r.isSpecialist && r.agentName == agent).map Run.elapsed)

def OverheadOverruns (ix : Index) : Prop :=
  ∃ r ∈ ix.runs, r.isSpecialist = true ∧ r.isSuccess = true ∧
    ¬ Fits (r.elapsed - ix.toolTime r.runId)

theorem toolTimes?_scope_eq_none_iff :
    toolTimes? (scope rootId events) = none ↔ ToolTimeOverruns rootId events := by
  simp only [toolTimes?_eq_none_iff, members_timedRun_scope, ToolTimeOverruns]

theorem agentTotals?_eq_none_iff : ix.agentTotals? = none ↔ ix.AgentTimeOverruns := by
  rw [agentTotals?, Option.map_eq_none_iff, mapM_groups_eq_none_iff, AgentTimeOverruns]
  simp only [members, specialistRuns, List.filter_filter, Option.some_beq_some, Bool.and_comm]

theorem overheads?_eq_none_iff {limit : Nat} :
    ix.overheads? limit = none ↔ ix.OverheadOverruns := by
  rw [overheads?, Option.map_eq_none_iff, mapM_eq_none_iff, OverheadOverruns]
  simp only [successes, specialistRuns, List.mem_filter, overheadOf?, Option.map_eq_none_iff,
    check_eq_none_iff, and_assoc]

theorem build_eq_sumOverflow_iff_overruns :
    build rootId events = .error .sumOverflow ↔ ToolTimeOverruns rootId events := by
  rw [build_eq_sumOverflow_iff, toolTimes?_scope_eq_none_iff]

theorem build_eq_rootNotFound_iff_overruns :
    build rootId events = .error (.rootNotFound rootId) ↔
      ¬ ToolTimeOverruns rootId events ∧ ∀ e ∈ events, e.invocationId ≠ some rootId := by
  rw [build_eq_rootNotFound_iff, ne_eq, toolTimes?_scope_eq_none_iff]

theorem exists_build_eq_ok_iff : (∃ ix, build rootId events = .ok ix) ↔
    ¬ ToolTimeOverruns rootId events ∧ ∃ e ∈ events, e.invocationId = some rootId := by
  constructor
  · intro h
    obtain ⟨ix, hix⟩ := h
    have hfits : ¬ ToolTimeOverruns rootId events := by
      intro hover
      rw [build_eq_sumOverflow_iff_overruns.mpr hover] at hix
      cases hix
    refine ⟨hfits, ?_⟩
    by_contra hnone
    have hmissing : ∀ e ∈ events, e.invocationId ≠ some rootId := by simpa using hnone
    rw [build_eq_rootNotFound_iff_overruns.mpr ⟨hfits, hmissing⟩] at hix
    cases hix
  · intro h
    obtain ⟨hfits, e, he, hid⟩ := h
    rcases build_cases rootId events with hb | hb | hb
    · exact absurd (build_eq_sumOverflow_iff_overruns.mp hb) hfits
    · exact absurd hid ((build_eq_rootNotFound_iff_overruns.mp hb).2 e he)
    · exact hb

/-- A report fails for its sums before it fails for a difference, and for nothing else. -/
theorem debugText_faults (ix : Index) (threshold : Int) :
    (ix.debugText threshold = .error .sumOverflow ↔ ix.AgentTimeOverruns) ∧
      (ix.debugText threshold = .error .differenceOverflow ↔
        ¬ ix.AgentTimeOverruns ∧ ix.OverheadOverruns) ∧
      ((∃ text, ix.debugText threshold = .ok text) ↔
        ¬ ix.AgentTimeOverruns ∧ ¬ ix.OverheadOverruns) := by
  rw [← agentTotals?_eq_none_iff, ← @overheads?_eq_none_iff ix Report.rankingLength, debugText,
    Report.build]
  cases ix.agentTotals? with
  | none => simp [Except.map]
  | some totals =>
    cases ix.overheads? Report.rankingLength with
    | none => simp [Except.map]
    | some overheads => simp [Except.map]

end Index

namespace RootListing

variable {roots : List RootSummary} {agent : Option String}

theorem matching_eq_nil_iff :
    matching agent roots = [] ↔ ∀ s ∈ roots, s.matchesAgent agent = false := by
  rw [matching, ← List.length_eq_zero_iff, List.length_mergeSort, List.length_eq_zero_iff,
    List.filter_eq_nil_iff]
  simp only [Bool.not_eq_true]

theorem latest_faults (roots : List RootSummary) (agent : Option String) :
    (latest roots agent = .error .noMatchingRoots ↔
        ∀ s ∈ roots, s.matchesAgent agent = false) ∧
      ((∃ s, latest roots agent = .ok s) ↔ ∃ s ∈ roots, s.matchesAgent agent = true) := by
  have hnil : (∃ s ∈ roots, s.matchesAgent agent = true) ↔ matching agent roots ≠ [] := by
    rw [ne_eq, matching_eq_nil_iff]
    simp
  rw [hnil, ← matching_eq_nil_iff, latest, ofRoots]
  cases matching agent roots with
  | nil => simp
  | cons s rest => simp

end RootListing

namespace Cli

/-- Which questions about a log fail, and how. -/
theorem faults_exact (events : Log) (id : String) :
    (Index.build id events = .error .sumOverflow ↔ Index.ToolTimeOverruns id events) ∧
      (Index.build id events = .error (.rootNotFound id) ↔
        ¬ Index.ToolTimeOverruns id events ∧ ∀ e ∈ events, e.invocationId ≠ some id) ∧
      ((∃ ix, Index.build id events = .ok ix) ↔
        ¬ Index.ToolTimeOverruns id events ∧ ∃ e ∈ events, e.invocationId = some id) ∧
      (∀ ix, Index.build id events = .ok ix →
        (∀ withRuns, ∃ text, (Command.tree id withRuns).output events = .ok text) ∧
          ∀ threshold,
            ((Command.debug id threshold).output events = .error .sumOverflow ↔
              ix.AgentTimeOverruns) ∧
            ((Command.debug id threshold).output events = .error .differenceOverflow ↔
              ¬ ix.AgentTimeOverruns ∧ ix.OverheadOverruns) ∧
            ((∃ text, (Command.debug id threshold).output events = .ok text) ↔
              ¬ ix.AgentTimeOverruns ∧ ¬ ix.OverheadOverruns)) ∧
      (∀ limit agent json, ∃ text, (Command.roots limit agent json).output events = .ok text) ∧
      ∀ agent,
        (RootListing.latest (RootSummary.collect events) agent = .error .noMatchingRoots ↔
          ∀ s ∈ RootSummary.collect events, s.matchesAgent agent = false) ∧
        ((∃ s, RootListing.latest (RootSummary.collect events) agent = .ok s) ↔
          ∃ s ∈ RootSummary.collect events, s.matchesAgent agent = true) := by
  refine ⟨Index.build_eq_sumOverflow_iff_overruns, Index.build_eq_rootNotFound_iff_overruns,
    Index.exists_build_eq_ok_iff, ?_, ?_, ?_⟩
  · intro ix h
    constructor
    · intro withRuns
      exact ⟨ix.treeText withRuns, by rw [Command.output, h]; rfl⟩
    · intro threshold
      have hreport : (Command.debug id threshold).output events = ix.debugText threshold := by
        rw [Command.output, h]
        rfl
      rw [hreport]
      exact ix.debugText_faults threshold
  · intro limit agent json
    exact ⟨_, rfl⟩
  · intro agent
    exact RootListing.latest_faults _ agent

/-- A successful run with the least of all times, which still spent time in a tool. -/
def leastTimeLog : Log :=
  [{ line := 1, kind := .invocationStart, invocationId := some "r" },
   { line := 2, kind := .toolEnd, invocationId := some "c", rootInvocationId := some "r",
     runId := some "run", depth := 1, elapsedMs := some 1 },
   { line := 3, kind := .runEnd, invocationId := some "c", rootInvocationId := some "r",
     runId := some "run", depth := 1, status := some "success",
     elapsedMs := some Signed64.least }]

theorem faults_exact_leastTimeLog :
    ∃ ix, Index.build "r" leastTimeLog = .ok ix ∧
      (∃ text, (Command.tree "r" true).output leastTimeLog = .ok text) ∧
      (Command.debug "r" 500).output leastTimeLog = .error .differenceOverflow ∧
      ¬ ix.AgentTimeOverruns ∧ ix.OverheadOverruns := by
  have hbuild : Index.build "r" leastTimeLog = .ok _ := rfl
  have hfault : (Command.debug "r" 500).output leastTimeLog = .error .differenceOverflow := by
    decide +kernel
  obtain ⟨-, -, -, hindex, -, -⟩ := faults_exact leastTimeLog "r"
  obtain ⟨htree, hdebug⟩ := hindex _ hbuild
  exact ⟨_, hbuild, htree true, hfault, (hdebug 500).2.1.mp hfault⟩

end Cli

end InvocationTrace
