import InvocationTrace.Proofs.Index.Contents
import InvocationTrace.Proofs.Ranking
import InvocationTrace.Proofs.Totals
import Mathlib

/-!
# Conservation of time

Times that come out are exact. The time that a run spent in tools is the sum over its own tool calls,
wherever they were made; the totals of the agents divide the time of all delegated runs among them;
and what a run's tools do not account for is its overhead.
-/

namespace InvocationTrace

open Grouping

private theorem lookup_map {β : Type} (entry : String → β) (k : String) (ks : List String) :
    (ks.map fun l => (l, entry l)).lookup k = if k ∈ ks then some (entry k) else none := by
  induction ks with
  | nil => rfl
  | cons l ls ih =>
    rw [List.map_cons, List.lookup_cons, ih]
    by_cases hk : k = l
    · simp [hk]
    · have hne : (k == l) = false := beq_eq_false_iff_ne.mpr hk
      simp [hk, hne]

namespace Index

variable {rootId : String} {events : Log} {ix : Index} {totals : List AgentTotal}

theorem toolTime_of_build (h : build rootId events = .ok ix) (runId : String) :
    ix.toolTime (some runId) = ((toolEnds rootId runId events).map Event.elapsed).sum := by
  obtain ⟨htimes, -⟩ := build_eq_ok_iff.mp h
  rw [toolTime, Option.bind_some, toolTimes?_eq_some htimes, groups, List.map_map,
    ← members_timedRun_scope]
  refine (congrArg (Option.getD · 0) (lookup_map _ runId _)).trans ?_
  split
  · rfl
  · rename_i hk
    rw [members_eq_nil_iff.mpr hk]
    rfl

/-- The time that the delegated runs of an agent took together. -/
def agentTime (ix : Index) (agent : String) : Int :=
  ((ix.runs.filter fun r => r.isSpecialist && r.agentName == agent).map Run.elapsed).sum

/-- The agents of the delegated runs in the order of their names. -/
def agents (ix : Index) : List String := keys (fun r => some r.agentName) ix.specialistRuns

theorem mem_agents {agent : String} :
    agent ∈ ix.agents ↔ ∃ r ∈ ix.runs, r.isSpecialist = true ∧ r.agentName = agent := by
  simp only [agents, mem_keys, specialistRuns, List.mem_filter, Option.some.injEq, and_assoc]

private theorem map_groups_agentName {β : Type} (entry : String → Int → β) :
    ((groups (fun r : Run => some r.agentName) ix.specialistRuns).map fun (agent, runs) =>
      entry agent (runs.map Run.elapsed).sum) =
      ix.agents.map fun agent => entry agent (ix.agentTime agent) := by
  rw [groups, List.map_map]
  apply List.map_congr_left
  intro agent _
  simp only [Function.comp_apply, agentTime, members, specialistRuns, List.filter_filter,
    Option.some_beq_some, Bool.and_comm]

/-- The totals are those of the agents in the order of their names, sorted. -/
theorem agentTotals?_eq_some (h : ix.agentTotals? = some totals) :
    totals = (ix.agents.map fun agent => AgentTotal.mk agent (ix.agentTime agent)).mergeSort
      AgentTotal.greaterFirst := by
  obtain ⟨unsorted, hunsorted, htotals⟩ := Option.map_eq_some_iff.mp h
  rw [← htotals, mapM_groups_eq_some hunsorted, map_groups_agentName]

theorem agentTotals_perm (h : ix.agentTotals? = some totals) :
    totals.Perm (ix.agents.map fun agent => AgentTotal.mk agent (ix.agentTime agent)) := by
  rw [agentTotals?_eq_some h]
  exact List.mergeSort_perm _ _

theorem agents_of_agentTotals (h : ix.agentTotals? = some totals) :
    (totals.map AgentTotal.agent).Perm ix.agents := by
  have hperm := (agentTotals_perm h).map AgentTotal.agent
  rw [List.map_map] at hperm
  exact (List.map_id ix.agents) ▸ hperm

theorem sum_agentTotals (h : ix.agentTotals? = some totals) :
    (totals.map AgentTotal.totalMs).sum =
      ((ix.runs.filter Run.isSpecialist).map Run.elapsed).sum := by
  calc (totals.map AgentTotal.totalMs).sum
    _ = (ix.agents.map ix.agentTime).sum := by
        rw [((agentTotals_perm h).map AgentTotal.totalMs).sum_eq, List.map_map]
        rfl
    _ = ((groups (fun r : Run => some r.agentName) ix.specialistRuns).map fun (_, runs) =>
          (runs.map Run.elapsed).sum).sum := by rw [map_groups_agentName fun _ total => total]
    _ = (ix.specialistRuns.map Run.elapsed).sum := sum_groups (fun _ _ => rfl) Run.elapsed

theorem agentTotals_pairwise (h : ix.agentTotals? = some totals) : totals.Pairwise fun t u =>
    u.totalMs < t.totalMs ∨ t.totalMs = u.totalMs ∧ t.agent < u.agent := by
  rw [agentTotals?_eq_some h]
  have hnames : (ix.agents.map fun agent =>
      AgentTotal.mk agent (ix.agentTime agent)).Pairwise fun t u => t.agent < u.agent :=
    List.pairwise_map.mpr (keys_pairwise _ _)
  exact pairwise_mergeSort_of_key AgentTotal.totalMs hnames

/-- The row of a run in the ranking of overheads. -/
def overheadRow (ix : Index) (r : Run) : Overhead where
  run := r
  elapsedMs := r.elapsed
  toolMs := ix.toolTime r.runId
  overheadMs := r.elapsed - ix.toolTime r.runId

theorem overheads?_eq_some {limit : Nat} {rows : List Overhead}
    (h : ix.overheads? limit = some rows) :
    rows = ((ix.successes.map ix.overheadRow).mergeSort Overhead.ranksBefore).take limit := by
  obtain ⟨unsorted, hunsorted, hrows⟩ := Option.map_eq_some_iff.mp h
  have hmap : unsorted = ix.successes.map ix.overheadRow := by
    refine eq_map_of_mapM_eq_some ?_ hunsorted
    intro r row hrow
    obtain ⟨overhead, hoverhead, hrow⟩ := Option.map_eq_some_iff.mp hrow
    rw [← hrow, ← (Signed64.check_eq_some_iff.mp hoverhead).2]
    rfl
  rw [← hrows, hmap]

theorem exists_overheadRow {limit : Nat} {rows : List Overhead}
    (h : ix.overheads? limit = some rows) :
    ∀ row ∈ rows, ∃ r ∈ ix.successes, row = ix.overheadRow r := by
  intro row hrow
  rw [overheads?_eq_some h] at hrow
  obtain ⟨r, hr, heq⟩ := List.mem_map.mp (List.mem_mergeSort.mp (List.mem_of_mem_take hrow))
  exact ⟨r, hr, heq.symm⟩

/-- Times that come out are exact and complete: those spent in tools, those of the agents, and what
is left of the runs. -/
theorem times_conserved (ix : Index) :
    (∀ rootId events, build rootId events = .ok ix →
      (∀ runId, ix.toolTime (some runId) =
        ((toolEnds rootId runId events).map Event.elapsed).sum) ∧ ix.toolTime none = 0) ∧
      (∀ totals, ix.agentTotals? = some totals →
        (totals.map AgentTotal.agent).Nodup ∧
        (∀ agent, agent ∈ totals.map AgentTotal.agent ↔
          ∃ r ∈ ix.runs, r.isSpecialist = true ∧ r.agentName = agent) ∧
        (∀ t ∈ totals, t.totalMs = ((ix.runs.filter fun r =>
          r.isSpecialist && r.agentName == t.agent).map Run.elapsed).sum) ∧
        (totals.map AgentTotal.totalMs).sum =
          ((ix.runs.filter Run.isSpecialist).map Run.elapsed).sum ∧
        totals.Pairwise fun t u =>
          u.totalMs < t.totalMs ∨ t.totalMs = u.totalMs ∧ t.agent < u.agent) ∧
      ∀ limit rows, ix.overheads? limit = some rows → ∀ row ∈ rows,
        row.run ∈ ix.runs ∧ row.elapsedMs = row.run.elapsed ∧
          row.toolMs = ix.toolTime row.run.runId ∧
          row.overheadMs = row.elapsedMs - row.toolMs := by
  refine ⟨fun rootId events h => ⟨toolTime_of_build h, rfl⟩, ?_, ?_⟩
  · intro totals h
    have hagents := agents_of_agentTotals h
    refine ⟨hagents.nodup_iff.mpr (keys_nodup _ _), ?_, ?_, sum_agentTotals h,
      agentTotals_pairwise h⟩
    · intro agent
      rw [hagents.mem_iff, mem_agents]
    · intro t ht
      obtain ⟨agent, -, rfl⟩ := List.mem_map.mp ((agentTotals_perm h).mem_iff.mp ht)
      rfl
  · intro limit rows h row hrow
    obtain ⟨r, hr, rfl⟩ := exists_overheadRow h row hrow
    have hmem : r ∈ ix.runs := List.mem_of_mem_filter (List.mem_of_mem_filter hr)
    exact ⟨hmem, rfl, rfl, rfl⟩

end Index

/-- Two attempts under one run id, for which the root called a tool as well, and a run of no agent
that took as long as both. -/
def sharedRunLog : Log :=
  [{ line := 1, kind := .invocationStart, invocationId := some "r" },
   { line := 2, kind := .toolEnd, invocationId := some "a", rootInvocationId := some "r",
     runId := some "run", depth := 1, elapsedMs := some 300 },
   { line := 3, kind := .toolEnd, invocationId := some "r", runId := some "run",
     elapsedMs := some 50 },
   { line := 4, kind := .runEnd, invocationId := some "a", rootInvocationId := some "r",
     runId := some "run", agent := some "scout", depth := 1, status := some "failure",
     elapsedMs := some 400 },
   { line := 5, kind := .runEnd, invocationId := some "a", rootInvocationId := some "r",
     runId := some "run", agent := some "scout", depth := 1, status := some "success",
     elapsedMs := some 1000 },
   { line := 6, kind := .runEnd, invocationId := some "b", rootInvocationId := some "r",
     depth := 1, status := some "success", elapsedMs := some 1400 }]

theorem times_conserved_sharedRunLog :
    ∃ ix rows, Index.build "r" sharedRunLog = .ok ix ∧
      ix.agentTotals? = some [⟨"-", 1400⟩, ⟨"scout", 1400⟩] ∧ ix.overheads? 5 = some rows ∧
      ix.toolTime (some "run") = 350 ∧
      ((ix.runs.filter Run.isSpecialist).map Run.elapsed).sum = 2800 ∧
      rows.map Overhead.overheadMs = [1400, 650] ∧
      ∀ row ∈ rows, row.toolMs = ix.toolTime row.run.runId ∧
        row.overheadMs = row.elapsedMs - row.toolMs := by
  have hcomplete : ∃ ix, Index.build "r" sharedRunLog = .ok ix ∧
      ix.agentTotals? = some [⟨"-", 1400⟩, ⟨"scout", 1400⟩] ∧
      (ix.overheads? 5).map (·.map Overhead.overheadMs) = some [1400, 650] :=
    ⟨_, rfl, by cbv, by cbv⟩
  obtain ⟨ix, hbuild, hagents, hoverheads⟩ := hcomplete
  obtain ⟨rows, hrows, hoverheads⟩ := Option.map_eq_some_iff.mp hoverheads
  obtain ⟨htimes, htotals, hexact⟩ := ix.times_conserved
  obtain ⟨-, -, -, hsum, -⟩ := htotals _ hagents
  refine ⟨ix, rows, hbuild, hagents, hrows, (htimes "r" sharedRunLog hbuild).1 "run", hsum.symm,
    hoverheads, ?_⟩
  intro row hrow
  exact (hexact 5 rows hrows row hrow).2.2

end InvocationTrace
