import InvocationTrace.Proofs.Index.Reported
import InvocationTrace.Proofs.Report.Conservation

/-!
# Rankings cut to a length

A ranking shows the first of its candidates by an order that leaves no two of them level, so that its
rows are determined and a longer ranking goes on where a shorter one ends. Runs are ranked by time
alone; since they come sorted by their lines, the earlier line breaks ties. The other rankings look at
the line themselves.
-/

namespace InvocationTrace

/-- What is listed are the first candidates, `limit` of them at most, by an order that ranks any two
candidates. -/
structure IsTop {α : Type} (outranks : α → α → Prop) (limit : Nat) (candidates listed : List α) :
    Prop where
  length : listed.length = min limit candidates.length
  ranked : ∃ omitted, (listed ++ omitted).Perm candidates ∧ (listed ++ omitted).Pairwise outranks

/-- The longer time first, then the earlier line. -/
def Run.Outranks (r s : Run) : Prop :=
  s.elapsed < r.elapsed ∨ r.elapsed = s.elapsed ∧ r.line < s.line

/-- The longer time first, then the earlier line. -/
def ToolCall.Outranks (a b : ToolCall) : Prop :=
  b.elapsedMs < a.elapsedMs ∨ a.elapsedMs = b.elapsedMs ∧ a.line < b.line

/-- The greater overhead first, then the longer time, then the earlier line. -/
def Overhead.Outranks (a b : Overhead) : Prop :=
  b.overheadMs < a.overheadMs ∨ a.overheadMs = b.overheadMs ∧
    (b.elapsedMs < a.elapsedMs ∨ a.elapsedMs = b.elapsedMs ∧ a.run.line < b.run.line)

theorem isTop_take {α : Type} {outranks : α → α → Prop} {candidates ranking : List α}
    (hperm : ranking.Perm candidates) (hranked : ranking.Pairwise outranks) (limit : Nat) :
    IsTop outranks limit candidates (ranking.take limit) where
  length := by rw [List.length_take, hperm.length_eq]
  ranked := by
    refine ⟨ranking.drop limit, ?_⟩
    rw [List.take_append_drop]
    exact ⟨hperm, hranked⟩

theorem IsTop.unique {α : Type} {outranks : α → α → Prop} {limit : Nat}
    {candidates listed listed' : List α} (hasymm : ∀ a b, outranks a b → ¬outranks b a)
    (h : IsTop outranks limit candidates listed) (h' : IsTop outranks limit candidates listed') :
    listed = listed' := by
  obtain ⟨omitted, hperm, hranked⟩ := h.ranked
  obtain ⟨omitted', hperm', hranked'⟩ := h'.ranked
  have heq : listed ++ omitted = listed' ++ omitted' := by
    refine (hperm.trans hperm'.symm).eq_of_pairwise ?_ hranked hranked'
    intro a b _ _ hab hba
    exact absurd hba (hasymm a b hab)
  exact (List.append_inj heq (h.length.trans h'.length.symm)).1

theorem IsTop.eq_iff {α : Type} {outranks : α → α → Prop} {limit : Nat}
    {candidates top listed : List α} (hasymm : ∀ a b, outranks a b → ¬outranks b a)
    (h : IsTop outranks limit candidates top) :
    listed = top ↔ IsTop outranks limit candidates listed := by
  constructor
  · rintro rfl
    exact h
  · intro hlisted
    exact hlisted.unique hasymm h

theorem Run.Outranks.asymm (r s : Run) (h : r.Outranks s) : ¬s.Outranks r := by
  rw [Run.Outranks] at *
  omega

theorem ToolCall.Outranks.asymm (a b : ToolCall) (h : a.Outranks b) : ¬b.Outranks a := by
  rw [ToolCall.Outranks] at *
  omega

theorem Overhead.Outranks.asymm (a b : Overhead) (h : a.Outranks b) : ¬b.Outranks a := by
  rw [Overhead.Outranks] at *
  omega

namespace Index

variable {rootId : String} {events : Log} {ix : Index}

theorem lines_nodup_runs (h : build rootId events = .ok ix)
    (hlines : (events.map Event.line).Nodup) : (ix.runs.map Run.line).Nodup := by
  rw [((runs_perm_of_build h).map Run.line).nodup_iff, lines_reported]
  exact hlines.sublist (List.filter_sublist.map Event.line)

theorem lines_nodup_toolCalls (h : build rootId events = .ok ix)
    (hlines : (events.map Event.line).Nodup) : (ix.toolCalls.map ToolCall.line).Nodup := by
  obtain ⟨-, -, -, hcalls⟩ := build_eq_ok_iff.mp h
  rw [hcalls, map_eq_map_of_forall₂ (forall₂_callEnds rootId events) fun _ _ hr => hr.line]
  exact hlines.sublist (List.filter_sublist.map Event.line)

theorem runs_pairwise (h : build rootId events = .ok ix)
    (hlines : (events.map Event.line).Nodup) : ix.runs.Pairwise fun r s => r.line < s.line := by
  have hsorted := List.pairwise_mergeSort Run.byLine_trans Run.byLine_total
    (ix.invocations.flatMap (·.runs))
  have hdistinct := List.pairwise_map.mp (lines_nodup_runs h hlines)
  refine (hsorted.and hdistinct).imp ?_
  intro r s hrs
  exact Nat.lt_of_le_of_ne (Run.byLine_iff.mp hrs.1) hrs.2

theorem successes_eq (ix : Index) :
    ix.successes = ix.runs.filter fun r => r.isSpecialist && r.isSuccess := by
  simp only [successes, specialistRuns, List.filter_filter, Bool.and_comm]

theorem slowest_isTop (h : build rootId events = .ok ix) (hlines : (events.map Event.line).Nodup)
    (limit : Nat) : IsTop Run.Outranks limit ix.successes (ix.slowest limit) := by
  refine isTop_take (List.mergeSort_perm _ _) ?_ limit
  have hbyLine : ix.successes.Pairwise fun r s => r.line < s.line :=
    ((runs_pairwise h hlines).filter _).filter _
  exact pairwise_mergeSort_of_key Run.elapsed hbyLine

theorem overheads_isTop (h : build rootId events = .ok ix)
    (hlines : (events.map Event.line).Nodup) {limit : Nat} {rows : List Overhead}
    (hrows : ix.overheads? limit = some rows) :
    IsTop Overhead.Outranks limit (ix.successes.map ix.overheadRow) rows := by
  rw [overheads?_eq_some hrows]
  refine isTop_take (List.mergeSort_perm _ _) ?_ limit
  have hbyLine : (ix.successes.map ix.overheadRow).Pairwise fun a b => a.run.line < b.run.line :=
    List.pairwise_map.mpr (((runs_pairwise h hlines).filter _).filter _)
  refine (pairwise_mergeSort_of_pairwise Overhead.ranksBefore_trans Overhead.ranksBefore_total
    hbyLine).imp ?_
  intro a b hab
  rw [Overhead.ranksBefore_iff, Overhead.ranksBefore_iff] at hab
  rw [Overhead.Outranks]
  omega

theorem slowTools_isTop (h : build rootId events = .ok ix)
    (hlines : (events.map Event.line).Nodup) (threshold : Int) (limit : Nat) :
    IsTop ToolCall.Outranks limit (ix.toolCalls.filter fun call => threshold ≤ call.elapsedMs)
      (ix.slowTools threshold limit) := by
  refine isTop_take (List.mergeSort_perm _ _) ?_ limit
  have hdistinct : (ix.toolCalls.filter fun call =>
      decide (threshold ≤ call.elapsedMs)).Pairwise fun a b => a.line ≠ b.line :=
    (List.pairwise_map.mp (lines_nodup_toolCalls h hlines)).filter _
  refine (pairwise_mergeSort_of_pairwise ToolCall.ranksBefore_trans ToolCall.ranksBefore_total
    hdistinct).imp ?_
  intro a b hab
  rw [ToolCall.ranksBefore_iff, ToolCall.ranksBefore_iff] at hab
  rw [ToolCall.Outranks]
  omega

/-- A higher threshold ends the ranking of tool calls earlier and changes nothing before. -/
theorem slowTools_eq_takeWhile (ix : Index) {lo hi : Int} (hle : lo ≤ hi) (limit : Nat) :
    ix.slowTools hi limit =
        (ix.slowTools lo limit).takeWhile (fun call => decide (hi ≤ call.elapsedMs)) ∧
      ix.slowTools hi limit =
        (ix.slowTools lo limit).filter fun call => decide (hi ≤ call.elapsedMs) := by
  have hfirst : ((ix.toolCalls.filter fun call =>
      decide (lo ≤ call.elapsedMs)).mergeSort ToolCall.ranksBefore).Pairwise fun a b =>
        decide (hi ≤ b.elapsedMs) = true → decide (hi ≤ a.elapsedMs) = true := by
    refine (List.pairwise_mergeSort ToolCall.ranksBefore_trans ToolCall.ranksBefore_total _).imp ?_
    intro a b hab hb
    rw [ToolCall.ranksBefore_iff] at hab
    rw [decide_eq_true_iff] at *
    omega
  have hcalls : ix.toolCalls.filter (fun call => decide (hi ≤ call.elapsedMs)) =
      (ix.toolCalls.filter fun call => decide (lo ≤ call.elapsedMs)).filter fun call =>
        decide (hi ≤ call.elapsedMs) := by
    rw [List.filter_filter]
    apply List.filter_congr
    intro call _
    rw [Bool.eq_iff_iff, Bool.and_eq_true, decide_eq_true_iff, decide_eq_true_iff]
    omega
  have hcut : ix.slowTools hi limit =
      (ix.slowTools lo limit).takeWhile fun call => decide (hi ≤ call.elapsedMs) := by
    rw [slowTools, slowTools, hcalls,
      ← filter_mergeSort ToolCall.ranksBefore_trans ToolCall.ranksBefore_total,
      ← takeWhile_eq_filter hfirst, List.take_takeWhile]
  refine ⟨hcut, hcut.trans ?_⟩
  exact takeWhile_eq_filter (hfirst.sublist (List.take_sublist limit _))

theorem overheads_prefix {m n : Nat} (hle : m ≤ n) {rows more : List Overhead}
    (hrows : ix.overheads? m = some rows) (hmore : ix.overheads? n = some more) :
    rows <+: more := by
  rw [overheads?_eq_some hrows, overheads?_eq_some hmore]
  exact List.take_prefix_take_left hle

/-- The rankings of a log whose events stand on different lines are the first of the candidates and
nothing else; they go on where a shorter one ends, and end earlier for a higher threshold. -/
theorem rankings_are_top (h : build rootId events = .ok ix)
    (hlines : (events.map Event.line).Nodup) :
    (∀ limit listed, listed = ix.slowest limit ↔ IsTop Run.Outranks limit
      (ix.runs.filter fun r => r.isSpecialist && r.isSuccess) listed) ∧
    (∀ limit rows, ix.overheads? limit = some rows → ∀ listed, listed = rows ↔
      IsTop Overhead.Outranks limit
        ((ix.runs.filter fun r => r.isSpecialist && r.isSuccess).map ix.overheadRow) listed) ∧
    (∀ threshold limit listed, listed = ix.slowTools threshold limit ↔
      IsTop ToolCall.Outranks limit
        (ix.toolCalls.filter fun call => threshold ≤ call.elapsedMs) listed) ∧
    (∀ m n, m ≤ n → ix.slowest m <+: ix.slowest n ∧
      (∀ rows more, ix.overheads? m = some rows → ix.overheads? n = some more → rows <+: more) ∧
      ∀ threshold, ix.slowTools threshold m <+: ix.slowTools threshold n) ∧
    ∀ lo hi limit, lo ≤ hi →
      ix.slowTools hi limit =
          (ix.slowTools lo limit).takeWhile (fun call => decide (hi ≤ call.elapsedMs)) ∧
        ix.slowTools hi limit =
          (ix.slowTools lo limit).filter fun call => decide (hi ≤ call.elapsedMs) := by
  rw [← successes_eq]
  refine ⟨?_, ?_, ?_, ?_, fun _ _ limit hle => ix.slowTools_eq_takeWhile hle limit⟩
  · intro limit listed
    exact (slowest_isTop h hlines limit).eq_iff Run.Outranks.asymm
  · intro limit rows hrows listed
    exact (overheads_isTop h hlines hrows).eq_iff Overhead.Outranks.asymm
  · intro threshold limit listed
    exact (slowTools_isTop h hlines threshold limit).eq_iff ToolCall.Outranks.asymm
  · intro m n hle
    refine ⟨List.take_prefix_take_left hle, fun _ _ => overheads_prefix hle, ?_⟩
    intro threshold
    exact List.take_prefix_take_left hle

end Index

/-- Two runs and two tool calls that took equally long. What stands on the earlier line was written
later. -/
def levelLog : Log :=
  [{ line := 1, kind := .invocationStart, invocationId := some "r" },
   { line := 9, kind := .runEnd, invocationId := some "b", rootInvocationId := some "r",
     runId := some "late", depth := 1, status := some "success", elapsedMs := some 400 },
   { line := 7, kind := .runEnd, invocationId := some "a", rootInvocationId := some "r",
     runId := some "early", depth := 1, status := some "success", elapsedMs := some 400 },
   { line := 8, kind := .runEnd, invocationId := some "a", rootInvocationId := some "r",
     runId := some "long", depth := 1, status := some "success", elapsedMs := some 900 },
   { line := 5, kind := .toolEnd, invocationId := some "a", rootInvocationId := some "r",
     runId := some "long", depth := 1, elapsedMs := some 700 },
   { line := 4, kind := .toolEnd, invocationId := some "b", rootInvocationId := some "r",
     depth := 1, elapsedMs := some 700 },
   { line := 3, kind := .toolEnd, invocationId := some "b", rootInvocationId := some "r",
     depth := 1, elapsedMs := some 600 }]

theorem rankings_are_top_levelLog :
    ∃ ix rows, Index.build "r" levelLog = .ok ix ∧ ix.overheads? 2 = some rows ∧
      (ix.slowest 2).map Run.line = [8, 7] ∧ rows.map (·.run.line) = [7, 9] ∧
      (ix.slowTools 500 5).map ToolCall.line = [4, 5, 3] ∧
      IsTop Run.Outranks 2 (ix.runs.filter fun r => r.isSpecialist && r.isSuccess)
        (ix.slowest 2) ∧
      IsTop Overhead.Outranks 2
        ((ix.runs.filter fun r => r.isSpecialist && r.isSuccess).map ix.overheadRow) rows ∧
      ix.slowTools 500 2 <+: ix.slowTools 500 5 ∧
      ix.slowTools 700 5 =
        (ix.slowTools 500 5).takeWhile (fun call => decide (700 ≤ call.elapsedMs)) := by
  have hcomplete : ∃ ix, Index.build "r" levelLog = .ok ix ∧
      (ix.overheads? 2).map (·.map (·.run.line)) = some [7, 9] ∧
      (ix.slowest 2).map Run.line = [8, 7] ∧
      (ix.slowTools 500 5).map ToolCall.line = [4, 5, 3] :=
    ⟨_, rfl, by cbv, by cbv, by cbv⟩
  obtain ⟨ix, hbuild, hoverheads, hslowest, htools⟩ := hcomplete
  obtain ⟨rows, hrows, hoverheads⟩ := Option.map_eq_some_iff.mp hoverheads
  obtain ⟨hruns, hover, -, hlonger, hthreshold⟩ :=
    Index.rankings_are_top hbuild (by decide : (levelLog.map Event.line).Nodup)
  exact ⟨ix, rows, hbuild, hrows, hslowest, hoverheads, htools, (hruns 2 _).mp rfl,
    (hover 2 rows hrows rows).mp rfl, (hlonger 2 5 (by decide)).2.2 500,
    (hthreshold 500 700 5 (by decide)).1⟩

end InvocationTrace
