import InvocationTrace.Report.Text

/-!
# What the texts read

The tree reads the root and the invocations of an index, the report the tool times and the slow
calls as well. Two indexes that agree on these give the same texts.
-/

namespace InvocationTrace.Index

variable {ix ix' : Index} {withRuns : Bool}

theorem childrenOf_congr (hid : ix.rootId = ix'.rootId) (hinv : ix.invocations = ix'.invocations)
    (id : String) : ix.childrenOf id = ix'.childrenOf id := by
  simp only [childrenOf, parentOf, hid, hinv]

theorem shownRuns_congr (hid : ix.rootId = ix'.rootId) (i : Invocation) :
    ix.shownRuns i = ix'.shownRuns i := by
  rw [shownRuns, shownRuns, hid]

theorem below_congr (hid : ix.rootId = ix'.rootId)
    (hchildren : ∀ id, ix.childrenOf id = ix'.childrenOf id) (levels : Nat) (i : Invocation) :
    ix.below withRuns levels i = ix'.below withRuns levels i := by
  induction levels generalizing i with
  | zero => rfl
  | succ levels ih =>
    have hsub : ix.below withRuns levels = ix'.below withRuns levels := funext ih
    rw [below, below, shownRuns_congr hid, hchildren, hsub]

theorem treeText_congr (hroot : ix.root = ix'.root) (hinv : ix.invocations = ix'.invocations)
    (withRuns : Bool) : ix.treeText withRuns = ix'.treeText withRuns := by
  have hid : ix.rootId = ix'.rootId := congrArg Invocation.id hroot
  have hforest : ix.forest withRuns = ix'.forest withRuns := by
    rw [forest, forest, hinv, hroot, below_congr hid (childrenOf_congr hid hinv)]
  rw [treeText, treeText, treeRows, treeRows, hforest, hroot]

/-- A report reads the delegated runs, the times spent in tools and the slow calls. -/
theorem report_congr (hruns : ix.specialistRuns = ix'.specialistRuns)
    (htimes : ix.toolTimes = ix'.toolTimes) {threshold : Int} {limit : Nat}
    (hslow : ix.slowTools threshold limit = ix'.slowTools threshold limit) :
    Report.build ix threshold limit = Report.build ix' threshold limit := by
  have hfail : ix.failures = ix'.failures := by rw [failures, failures, hruns]
  have hsuccess : ix.successes = ix'.successes := by rw [successes, successes, hruns]
  have hslowest : ix.slowest limit = ix'.slowest limit := by rw [slowest, slowest, hsuccess]
  have htotals : ix.agentTotals? = ix'.agentTotals? := by rw [agentTotals?, agentTotals?, hruns]
  have hoverhead : ix.overheadOf? = ix'.overheadOf? := by
    funext r
    simp only [overheadOf?, toolTime, htimes]
  have hoverheads : ix.overheads? limit = ix'.overheads? limit := by
    rw [overheads?, overheads?, hsuccess, hoverhead]
  rw [Report.build, Report.build, htotals, hoverheads, hfail, hslowest, hslow]

theorem debugText_congr (hroot : ix.root = ix'.root) (hinv : ix.invocations = ix'.invocations)
    (htimes : ix.toolTimes = ix'.toolTimes) {threshold : Int}
    (hslow : ∀ limit, ix.slowTools threshold limit = ix'.slowTools threshold limit) :
    ix.debugText threshold = ix'.debugText threshold := by
  have hruns : ix.specialistRuns = ix'.specialistRuns := by
    rw [specialistRuns, specialistRuns, runs, runs, hinv]
  rw [debugText, debugText, treeText_congr hroot hinv true,
    report_congr hruns htimes (hslow Report.rankingLength)]

end InvocationTrace.Index
