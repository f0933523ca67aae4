import InvocationTrace.Proofs.Index.Runs
import InvocationTrace.Proofs.Log.Interleaving

/-!
# Delivery of events

A log may give its events in any order of their lines. Records depend on that order: of several
starts the last one given counts, and of several runs the first one given fills in what is unknown.
A report reads no such field. It reads runs and tool calls, which keep their lines and are sorted by
them, and totals, which come out the same in every order in which they come out.
-/

namespace InvocationTrace

variable {es es' : Log} {rootId : String}

theorem Run.line_of_ofEvent? {e : Event} {r : Run} (h : ofEvent? e = some r) :
    r.line = e.line := by
  rw [ofEvent?] at h
  split at h
  · rw [← Option.some.inj h]
    rfl
  · cases h

namespace Index

variable {ix ix' : Index}

theorem runs_unique (h : build rootId es = .ok ix) (hlines : (es.map Event.line).Nodup) :
    ∀ r ∈ ix.runs, ∀ s ∈ ix.runs, r.line = s.line → r = s := by
  intro r hr s hs
  have hperm := runs_perm_of_build h
  exact Log.unique_of_line (lines_nodup_scope hlines) (fun _ _ => Run.line_of_ofEvent?) r
    (hperm.mem_iff.mp hr) s (hperm.mem_iff.mp hs)

/-- Runs on different lines come out the same, whatever the order of the events. -/
theorem runs_eq_of_perm (hlines : (es.map Event.line).Nodup) (hp : es.Perm es')
    (h : build rootId es = .ok ix) (h' : build rootId es' = .ok ix') : ix.runs = ix'.runs := by
  have hscope : ((scope rootId es).filterMap Run.ofEvent?).Perm
      ((scope rootId es').filterMap Run.ofEvent?) := (hp.filter _).filterMap _
  have hruns : ix.runs.Perm ix'.runs :=
    ((runs_perm_of_build h).trans hscope).trans (runs_perm_of_build h').symm
  have hstored : (ix.invocations.flatMap (·.runs)).Perm (ix'.invocations.flatMap (·.runs)) :=
    ((List.mergeSort_perm _ _).symm.trans hruns).trans (List.mergeSort_perm _ _)
  refine mergeSort_eq_of_perm hstored Run.byLine_trans Run.byLine_total ?_
  intro r hr s hs hrs hsr
  exact runs_unique h hlines r (List.mem_mergeSort.mpr hr) s (List.mem_mergeSort.mpr hs)
    (Run.line_eq_of_byLine hrs hsr)

end Index

/-- The report on a root of a log. -/
def Report.ofLog (rootId : String) (threshold : Int) (limit : Nat) (events : Log) :
    Except Fault Report :=
  (Index.build rootId events).bind fun ix => build ix threshold limit

/-- A report depends on the events and their lines, not on the order in which the log gives them,
unless tool times overflow in one of the orders: a partial sum may fit in the other. -/
theorem Report.ofLog_perm (hlines : (es.map Event.line).Nodup) (hp : es.Perm es')
    (hsum : Index.build rootId es ≠ .error .sumOverflow)
    (hsum' : Index.build rootId es' ≠ .error .sumOverflow) (threshold : Int) (limit : Nat) :
    ofLog rootId threshold limit es = ofLog rootId threshold limit es' := by
  rw [ofLog, ofLog]
  rcases Index.build_cases_of_perm hp hsum hsum' with ⟨h, h'⟩ | ⟨ix, ix', h, h'⟩
  · rw [h, h']
  rw [h, h']
  have hscope : (Index.scope rootId es).Perm (Index.scope rootId es') := hp.filter _
  obtain ⟨ht, -, -, hc⟩ := Index.build_eq_ok_iff.mp h
  obtain ⟨ht', -, -, hc'⟩ := Index.build_eq_ok_iff.mp h'
  have hruns : ix.specialistRuns = ix'.specialistRuns := by
    rw [Index.specialistRuns, Index.specialistRuns, Index.runs_eq_of_perm hlines hp h h']
  have htimes : ix.toolTimes = ix'.toolTimes := Index.toolTimes?_unique hscope ht ht'
  have hcalls : ix.toolCalls.Perm ix'.toolCalls := by
    rw [hc, hc']
    exact hscope.filterMap _
  exact Index.report_congr hruns htimes
    (Index.slowTools_eq_of_perm hcalls (Index.toolCalls_unique h hlines) threshold limit)

/-- A root whose child starts over after a failed run and a tool call. -/
def secondStartLog : Log :=
  [{ line := 1, kind := .invocationStart, invocationId := some "r" },
   { line := 2, kind := .invocationStart, invocationId := some "c", rootInvocationId := some "r",
     requestedAgents := ["scout"] },
   { line := 3, kind := .runEnd, invocationId := some "c", rootInvocationId := some "r",
     depth := 1, status := some "error", elapsedMs := some 40 },
   { line := 4, kind := .toolEnd, invocationId := some "c", rootInvocationId := some "r",
     depth := 1, elapsedMs := some 900 },
   { line := 5, kind := .invocationStart, invocationId := some "c", rootInvocationId := some "r",
     requestedAgents := ["worker"] }]

theorem Report.ofLog_perm_secondStartLog :
    ∃ ix ix', Index.build "r" secondStartLog = .ok ix ∧
      Index.build "r" secondStartLog.reverse = .ok ix' ∧ ix.invocations ≠ ix'.invocations ∧
      ∀ threshold limit, ofLog "r" threshold limit secondStartLog =
        ofLog "r" threshold limit secondStartLog.reverse :=
  ⟨_, _, rfl, rfl, by decide,
    ofLog_perm (by decide) (List.reverse_perm _).symm nofun nofun⟩

end InvocationTrace
