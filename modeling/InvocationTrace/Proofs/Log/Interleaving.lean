import InvocationTrace.Proofs.Index.Contents
import InvocationTrace.Proofs.Ranking
import InvocationTrace.Proofs.Report.Frame
import InvocationTrace.Proofs.Totals

/-!
# Interleaving of invocations

Several agents write to one log at once. How the events of different invocations are interleaved
does not matter: a record depends on its own invocation's events only, sums that come out do not
depend on the order of the terms, and every list that is shown is sorted by an order that tells its
elements apart. Only the list of tool calls keeps the order of the log.
-/

namespace InvocationTrace

open Grouping

/-- A log with the same events in another order that keeps, for every invocation, the order of the
events that carry its id. -/
structure Log.Interleaves (es es' : Log) : Prop where
  perm : es.Perm es'
  order : ∀ id : String, es.filter (fun e => e.invocationId == some id) =
    es'.filter fun e => e.invocationId == some id

namespace Log.Interleaves

variable {es es' : Log} {rootId : String}

theorem swap (xs ys : Log) {e e' : Event} (hne : e.invocationId ≠ e'.invocationId) :
    Log.Interleaves (xs ++ e :: e' :: ys) (xs ++ e' :: e :: ys) := by
  refine ⟨(List.Perm.swap e' e ys).append_left xs, ?_⟩
  intro id
  simp only [List.filter_append, List.filter_cons]
  by_cases he : e.invocationId = some id
  · have he' : e'.invocationId ≠ some id := fun h => hne (he.trans h.symm)
    simp [he, he']
  · simp [he]

theorem scope (h : es.Interleaves es') :
    (Index.scope rootId es).Interleaves (Index.scope rootId es') := by
  refine ⟨h.perm.filter _, ?_⟩
  intro id
  simp only [Index.scope]
  rw [List.filter_comm, h.order id, List.filter_comm]

theorem recordsOf_eq (h : es.Interleaves es') :
    Index.recordsOf rootId es = Index.recordsOf rootId es' := by
  rw [Index.recordsOf, Index.recordsOf, groups_congr h.order]

end Log.Interleaves

theorem ToolCall.line_of_ofEvent? {e : Event} {call : ToolCall} (h : ofEvent? e = some call) :
    call.line = e.line := by
  rw [ofEvent?] at h
  split at h
  · split at h
    · rw [← Option.some.inj h]
    · cases h
  · cases h

namespace Index

variable {ix ix' : Index} {es es' : Log} {rootId : String}

theorem toolCalls_unique (h : build rootId es = .ok ix) (hlines : (es.map Event.line).Nodup) :
    ∀ a ∈ ix.toolCalls, ∀ b ∈ ix.toolCalls, a.line = b.line → a = b := by
  obtain ⟨-, -, -, hcalls⟩ := build_eq_ok_iff.mp h
  rw [hcalls]
  exact Log.unique_of_line (lines_nodup_scope hlines) fun _ _ => ToolCall.line_of_ofEvent?

/-- Two logs that differ in the interleaving of their invocations answer alike, unless tool times
overflow in one of them: a partial sum may fit in one order and not in the other. -/
theorem build_interleaving (hlines : (es.map Event.line).Nodup) (h : es.Interleaves es')
    (hsum : build rootId es ≠ .error .sumOverflow)
    (hsum' : build rootId es' ≠ .error .sumOverflow) :
    (build rootId es = .error (.rootNotFound rootId) ∧
        build rootId es' = .error (.rootNotFound rootId)) ∨
      ∃ ix ix', build rootId es = .ok ix ∧ build rootId es' = .ok ix' ∧
        ix.invocations = ix'.invocations ∧
        (∀ runId, ix.toolTime runId = ix'.toolTime runId) ∧
        ix.toolCalls.Perm ix'.toolCalls ∧
        (∀ withRuns, ix.treeText withRuns = ix'.treeText withRuns) ∧
        ∀ threshold, ix.debugText threshold = ix'.debugText threshold := by
  have hscope : (scope rootId es).Interleaves (scope rootId es') := h.scope
  rcases build_cases rootId es with he | he | ⟨ix, he⟩
  · exact absurd he hsum
  · have hnone := (build_eq_rootNotFound_iff.mp he).2
    refine .inl ⟨he, build_eq_rootNotFound_iff.mpr ⟨?_, ?_⟩⟩
    · exact fun ht => hsum' (build_eq_sumOverflow_iff.mpr ht)
    · exact fun e hmem => hnone e (h.perm.mem_iff.mpr hmem)
  rcases build_cases rootId es' with he' | he' | ⟨ix', he'⟩
  · exact absurd he' hsum'
  · have hnone := (build_eq_rootNotFound_iff.mp he').2
    have hnone' : build rootId es = .error (.rootNotFound rootId) := by
      refine build_eq_rootNotFound_iff.mpr ⟨?_, ?_⟩
      · exact fun ht => hsum (build_eq_sumOverflow_iff.mpr ht)
      · exact fun e hmem => hnone e (h.perm.mem_iff.mp hmem)
    rw [he] at hnone'
    cases hnone'
  · obtain ⟨ht, hi, hr, hc⟩ := build_eq_ok_iff.mp he
    obtain ⟨ht', hi', hr', hc'⟩ := build_eq_ok_iff.mp he'
    have hinv : ix.invocations = ix'.invocations := by rw [hi, hi', hscope.recordsOf_eq]
    have hroot : ix.root = ix'.root := by
      rw [hinv, hr'] at hr
      exact (Option.some.inj hr).symm
    have htimes : ix.toolTimes = ix'.toolTimes := toolTimes?_unique hscope.perm ht ht'
    have hcalls : ix.toolCalls.Perm ix'.toolCalls := by
      rw [hc, hc']
      exact hscope.perm.filterMap _
    refine .inr ⟨ix, ix', he, he', hinv, ?_, hcalls, treeText_congr hroot hinv, ?_⟩
    · intro runId
      rw [toolTime, toolTime, htimes]
    · intro threshold
      exact debugText_congr hroot hinv htimes
        (slowTools_eq_of_perm hcalls (toolCalls_unique he hlines) threshold)

end Index

def quickCall : Event :=
  { line := 4, kind := .toolEnd, invocationId := some "a", rootInvocationId := some "r",
    runId := some "run", depth := 1, elapsedMs := some 700 }

def slowCall : Event :=
  { quickCall with line := 5, invocationId := some "b", elapsedMs := some 900 }

/-- A root with two invocations under it, whose tool calls for one run end in the given order. -/
def siblingsLog (first second : Event) : Log :=
  [{ line := 1, kind := .invocationStart, invocationId := some "r" },
   { line := 2, kind := .invocationStart, invocationId := some "a",
     rootInvocationId := some "r" },
   { line := 3, kind := .invocationStart, invocationId := some "b",
     rootInvocationId := some "r" }] ++ first :: second ::
  [{ line := 6, kind := .runEnd, invocationId := some "a", rootInvocationId := some "r",
     runId := some "run", depth := 1, status := some "success", elapsedMs := some 2000 }]

theorem build_interleaving_siblingsLog :
    ∃ ix ix', Index.build "r" (siblingsLog quickCall slowCall) = .ok ix ∧
      Index.build "r" (siblingsLog slowCall quickCall) = .ok ix' ∧
      ix.toolCalls ≠ ix'.toolCalls ∧ ix.toolCalls.Perm ix'.toolCalls ∧
      ∀ threshold, ix.debugText threshold = ix'.debugText threshold := by
  have hne : quickCall.invocationId ≠ slowCall.invocationId := by decide
  obtain hnone | ⟨ix, ix', h, h', -, -, hcalls, -, hdebug⟩ :=
    @Index.build_interleaving (siblingsLog quickCall slowCall) _ "r" (by decide)
      (.swap _ _ hne) nofun nofun
  · cases hnone.1
  · refine ⟨ix, ix', h, h', ?_, hcalls, hdebug⟩
    cases h
    cases h'
    decide

end InvocationTrace
