import InvocationTrace.Proofs.Root.Summary

/-!
# Fields of a summary

The summaries of a log are collected in one pass over all roots at once. Each is still a query on the
events of its own root: its start is that of the first event that opens the root, its outcome that of
the ends told last, and the events of its children are counted, from the opening event on.
-/

namespace InvocationTrace

open Grouping

variable {rootId : String} {events es : Log} {first : Event}

namespace RootSummary

variable {s : RootSummary}

/-- What a summary tells of the event that opens its root and of the root's events from that one
on. -/
structure Tells (s : RootSummary) (first : Event) (es : Log) : Prop where
  startLine : s.startLine = first.line
  startTs : s.startTs = first.timestamp
  mode : s.mode = first.mode
  agent : s.agent = (first.requestedAgents.head?.or first.agent).getD "-"
  status : s.status =
    ((es.filter (Event.endsRoot s.rootId)).filterMap Event.status).getLast?.getD Status.running
  elapsedMs :
    s.elapsedMs = ((es.filter (Event.endsRoot s.rootId)).filterMap Event.elapsedMs).getLast?
  endLine : s.endLine = (es.lastEnd? s.rootId).map Event.line
  endTs : s.endTs = (es.lastEnd? s.rootId).bind Event.timestamp
  childInvocations : s.childInvocations = es.countP (Event.startsChild s.rootId)
  childRuns : s.childRuns = es.countP (Event.endsChildRun s.rootId)
  childFailures : s.childFailures =
    es.countP fun e => e.endsChildRun s.rootId && Status.isFailure e.status

theorem tells_foldl (rootId : String) (first : Event) (rest : Log) :
    (rest.foldl record (opened rootId first)).Tells first rest := by
  have hopening := sameOpening_foldl (opened rootId first) rest
  have hid : (rest.foldl record (opened rootId first)).rootId = rootId := hopening.rootId
  constructor
  case startLine => exact hopening.startLine
  case startTs => exact hopening.startTs
  case mode => exact hopening.mode
  case agent => exact hopening.agent
  case status =>
    rw [hid]
    exact status_foldl _ rest
  case elapsedMs =>
    rw [hid, elapsedMs_foldl]
    exact Option.or_none
  case endLine =>
    rw [hid, endLine_foldl]
    exact Option.or_none
  case endTs =>
    rw [hid, endTs_foldl]
    cases h : rest.lastEnd? rootId <;> simp [opened, h]
  case childInvocations =>
    rw [hid, childInvocations_foldl]
    exact Nat.zero_add _
  case childRuns =>
    rw [hid, childRuns_foldl]
    exact Nat.zero_add _
  case childFailures =>
    rw [hid, childFailures_foldl]
    exact Nat.zero_add _

/-- The event that opens a root neither ends it nor counts as a child's. -/
theorem Tells.cons (h : s.Tells first es) (hopens : first.opensRoot = true)
    (hroot : first.effectiveRoot = some s.rootId) : s.Tells first (first :: es) := by
  have hfirst : first.kind = .invocationStart ∧ first.invocationId = some s.rootId := by
    simp only [Event.opensRoot, Bool.and_eq_true, beq_iff_eq] at hopens
    exact ⟨hopens.1.1, hopens.2.trans hroot⟩
  have hends : first.endsRoot s.rootId = false := by simp [Event.endsRoot, hfirst]
  have hruns : first.endsChildRun s.rootId = false := by simp [Event.endsChildRun, hfirst]
  have hstarts : first.startsChild s.rootId = false := by simp [Event.startsChild, hfirst]
  have hall : (first :: es).filter (Event.endsRoot s.rootId) =
      es.filter (Event.endsRoot s.rootId) := List.filter_cons_of_neg (by simp [hends])
  have hlast : Log.lastEnd? s.rootId (first :: es) = es.lastEnd? s.rootId := by
    rw [Log.lastEnd?, hall, Log.lastEnd?]
  exact { h with
    status := by rw [hall, h.status]
    elapsedMs := by rw [hall, h.elapsedMs]
    endLine := by rw [hlast, h.endLine]
    endTs := by rw [hlast, h.endTs]
    childInvocations := by simp [hstarts, h.childInvocations]
    childRuns := by simp [hruns, h.childRuns]
    childFailures := by simp [hruns, h.childFailures] }

/-- Every failure that is counted is one of the runs that are. -/
theorem Tells.childFailures_le (h : s.Tells first es) : s.childFailures ≤ s.childRuns := by
  rw [h.childFailures, h.childRuns]
  apply List.countP_mono_left
  intro e _ he
  simp only [Bool.and_eq_true] at he
  exact he.1

theorem exists_tells_of_mem_collect (h : s ∈ collect events) : ∃ before first rest,
    members Event.effectiveRoot s.rootId events = before ++ first :: rest ∧
      (∀ e ∈ before, e.opensRoot = false) ∧ first.opensRoot = true ∧
      s.Tells first (first :: rest) := by
  obtain ⟨before, first, rest, hsplit, hbefore, hopens, hs⟩ :=
    exists_opening_of_ofEvents? (mem_collect.mp h)
  have hroot : first.effectiveRoot = some s.rootId := by
    have hfirst : first ∈ members Event.effectiveRoot s.rootId events := by simp [hsplit]
    exact (mem_members.mp hfirst).2
  have htells : s.Tells first rest := by
    have h := tells_foldl s.rootId first rest
    rwa [← hs] at h
  exact ⟨before, first, rest, hsplit, hbefore, hopens, htells.cons hopens hroot⟩

theorem ofEvents?_eq_none_iff :
    ofEvents? rootId es = none ↔ ∀ e ∈ es, e.opensRoot = false := by
  have hnil : ofEvents? rootId es = none ↔ es.dropWhile (fun e => !e.opensRoot) = [] := by
    rw [ofEvents?]
    cases es.dropWhile (fun e => !e.opensRoot) <;> simp
  rw [hnil, List.dropWhile_eq_nil_iff]
  simp only [Bool.not_eq_true']

theorem exists_mem_collect_iff : (∃ s ∈ collect events, s.rootId = rootId) ↔
    ∃ e ∈ events, e.opensRoot = true ∧ e.effectiveRoot = some rootId := by
  have hfound : (∃ s ∈ collect events, s.rootId = rootId) ↔
      ofEvents? rootId (members Event.effectiveRoot rootId events) ≠ none := by
    rw [← find?_collect, ← Option.isSome_iff_ne_none, List.find?_isSome]
    simp only [beq_iff_eq]
  rw [hfound, ne_eq, ofEvents?_eq_none_iff]
  simp only [mem_members, not_forall, Bool.not_eq_false, exists_prop, and_assoc]
  simp only [and_comm (a := Event.effectiveRoot _ = some rootId)]

theorem collect_pairwise (events : Log) :
    (collect events).Pairwise fun s t => s.rootId < t.rootId := by
  rw [collect, groups, List.filterMap_map, List.pairwise_filterMap]
  refine (keys_pairwise Event.effectiveRoot events).imp ?_
  intro k l hkl s hs t ht
  rwa [rootId_of_ofEvents? hs, rootId_of_ofEvents? ht]

/-- A log has one summary for each root that one of its events opens. The summary tells what the
events of that root say from the first one that opens it on, and no other event has a part in it. -/
theorem collect_tells (events : Log) :
    ((collect events).Pairwise fun s t => s.rootId < t.rootId) ∧
      (∀ rootId, (∃ s ∈ collect events, s.rootId = rootId) ↔
        ∃ e ∈ events, e.opensRoot = true ∧ e.effectiveRoot = some rootId) ∧
      (∀ s ∈ collect events, ∃ before first rest,
        members Event.effectiveRoot s.rootId events = before ++ first :: rest ∧
          (∀ e ∈ before, e.opensRoot = false) ∧ first.opensRoot = true ∧
          s.Tells first (first :: rest)) ∧
      (∀ s ∈ collect events, s.childFailures ≤ s.childRuns) ∧
      ∀ events' rootId, members Event.effectiveRoot rootId events =
          members Event.effectiveRoot rootId events' →
        (collect events).find? (fun s => s.rootId == rootId) =
          (collect events').find? fun s => s.rootId == rootId := by
  refine ⟨collect_pairwise events, fun _ => exists_mem_collect_iff,
    fun _ hs => exists_tells_of_mem_collect hs, ?_, ?_⟩
  · intro s hs
    obtain ⟨before, first, rest, -, -, -, htells⟩ := exists_tells_of_mem_collect hs
    exact htells.childFailures_le
  · intro events' rootId hown
    rw [find?_collect, find?_collect, hown]

end RootSummary

/-- A root that is opened after one of its children has failed, runs on within itself, is started
again by another agent, and fails at last. A second root is never opened. -/
def reopenedLog : Log :=
  [{ line := 1, kind := .runEnd, invocationId := some "c", rootInvocationId := some "r",
     depth := 1, status := some "failure" },
   { line := 2, kind := .invocationStart, invocationId := some "r", requestedAgents := ["lead"] },
   { line := 3, kind := .invocationStart, invocationId := some "c", rootInvocationId := some "r" },
   { line := 4, kind := .runEnd, invocationId := some "c", rootInvocationId := some "q",
     depth := 1, status := some "failure" },
   { line := 5, kind := .runEnd, invocationId := some "c", rootInvocationId := some "r",
     depth := 1, status := some "success" },
   { line := 6, kind := .runEnd, invocationId := some "r", depth := 2, status := some "success",
     elapsedMs := some 9, timestamp := some "noon" },
   { line := 7, kind := .invocationStart, invocationId := some "r",
     requestedAgents := ["reader"] },
   { line := 8, kind := .invocationEnd, invocationId := some "r", status := some "failure" }]

theorem collect_tells_reopenedLog :
    (∀ s ∈ RootSummary.collect reopenedLog, s.rootId ≠ "q") ∧
      ∃ s ∈ RootSummary.collect reopenedLog, s.rootId = "r" ∧ s.startLine = 2 ∧
        s.agent = "lead" ∧ s.status = "failure" ∧ s.elapsedMs = some 9 ∧ s.endLine = some 8 ∧
        s.endTs = none ∧ s.childInvocations = 1 ∧ s.childRuns = 1 ∧ s.childFailures = 0 := by
  obtain ⟨-, hids, htells, -, -⟩ := RootSummary.collect_tells reopenedLog
  constructor
  · intro s hs hid
    obtain ⟨e, he, hopens, hroot⟩ := (hids "q").mp ⟨s, hs, hid⟩
    revert e
    decide
  · obtain ⟨s, hs, hid⟩ := (hids "r").mpr (by decide)
    obtain ⟨before, first, rest, hsplit, hbefore, hopens, ht⟩ := htells s hs
    rw [hid] at hsplit
    -- The first event of the root does not open it and the second one does.
    cases before with
    | nil =>
      obtain ⟨rfl, -⟩ := List.cons.inj hsplit
      exact absurd hopens (by decide)
    | cons e before =>
      obtain ⟨-, hsplit⟩ := List.cons.inj hsplit
      cases before with
      | nil =>
        obtain ⟨rfl, rfl⟩ := List.cons.inj hsplit
        obtain ⟨hline, -, -, hagent, hstatus, helapsed, hend, hts, hstarts, hruns, hfailures⟩ := ht
        rw [hid] at hstatus helapsed hend hts hstarts hruns hfailures
        exact ⟨s, hs, hid, hline, hagent, hstatus, helapsed, hend, hts, hstarts, hruns, hfailures⟩
      | cons f before =>
        have hf : f.opensRoot = false := hbefore f (by simp)
        obtain ⟨rfl, -⟩ := List.cons.inj hsplit
        exact absurd hf (by decide)

end InvocationTrace
