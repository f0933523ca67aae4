import InvocationTrace.Proofs.Root.Listing
import InvocationTrace.Proofs.Root.Summary
import Mathlib.Data.List.Forall2

/-!
# A growing log

A listing is taken again and again while agents write to the log. A root that was listed once stays
listed as it was opened, its counts only go up, and what is known of its end is not forgotten. New
roots come in front of the old ones, which keep their order.
-/

namespace InvocationTrace

open Grouping

variable {es fs : Log}

namespace RootSummary

variable {s t : RootSummary}

/-- How the summary of a root may change when its log grows. -/
structure GrownFrom (t s : RootSummary) : Prop extends SameOpening t s where
  childInvocations : s.childInvocations ≤ t.childInvocations
  childRuns : s.childRuns ≤ t.childRuns
  childFailures : s.childFailures ≤ t.childFailures
  endLine : ∀ m, s.endLine = some m → ∃ n, t.endLine = some n ∧ m ≤ n
  elapsedMs : s.elapsedMs.isSome = true → t.elapsedMs.isSome = true

/-- Events on later lines than the end of the root so far. -/
theorem grownFrom_foldl (hlines : ∀ m, s.endLine = some m → ∀ e ∈ fs, m ≤ e.line) :
    (fs.foldl record s).GrownFrom s where
  toSameOpening := sameOpening_foldl s fs
  childInvocations := by
    rw [childInvocations_foldl]
    exact Nat.le_add_right _ _
  childRuns := by
    rw [childRuns_foldl]
    exact Nat.le_add_right _ _
  childFailures := by
    rw [childFailures_foldl]
    exact Nat.le_add_right _ _
  endLine := by
    intro m hm
    rw [endLine_foldl]
    cases hlast : (fs.filter (Event.endsRoot s.rootId)).getLast? with
    | none => exact ⟨m, hm, Nat.le_refl m⟩
    | some e =>
      have he : e ∈ fs := List.mem_of_mem_filter (List.mem_of_getLast? hlast)
      exact ⟨e.line, rfl, hlines m hm e he⟩
  elapsedMs := by
    intro hsome
    rw [elapsedMs_foldl, Option.isSome_or, hsome, Bool.or_true]

/-- The summary after further events of the log, of which it takes those of its root. -/
def grow (fs : Log) (s : RootSummary) : RootSummary :=
  (members Event.effectiveRoot s.rootId fs).foldl record s

theorem sameOpening_grow (fs : Log) (s : RootSummary) : SameOpening (s.grow fs) s :=
  sameOpening_foldl s _

/-- Whether a root is among given ones. -/
def isAmong (roots : List RootSummary) (t : RootSummary) : Bool :=
  roots.any fun s => s.rootId == t.rootId

theorem isAmong_eq_false_iff {roots : List RootSummary} :
    isAmong roots t = false ↔ ∀ s ∈ roots, s.rootId ≠ t.rootId := by
  simp [isAmong]

theorem isAmong_collect (es : Log) (t : RootSummary) : isAmong (collect es) t =
    (ofEvents? t.rootId (members Event.effectiveRoot t.rootId es)).isSome := by
  rw [isAmong, ← find?_collect, Bool.eq_iff_iff, List.any_eq_true, List.find?_isSome]

private theorem collect_eq_filterMap {events : Log} (hsub : es ⊆ events) : collect es =
    (keys Event.effectiveRoot events).filterMap fun rootId =>
      ofEvents? rootId (members Event.effectiveRoot rootId es) :=
  filterMap_groups_of_subset hsub fun _ => rfl

private theorem filter_isAmong_append (rootId : String) (es fs : Log) :
    (ofEvents? rootId (members Event.effectiveRoot rootId (es ++ fs))).filter
        (isAmong (collect es)) =
      (ofEvents? rootId (members Event.effectiveRoot rootId es)).map (grow fs) := by
  rw [members_append, ofEvents?_append]
  cases hs : ofEvents? rootId (members Event.effectiveRoot rootId es) with
  | none =>
    rw [Option.map_none, Option.filter_eq_none_iff]
    intro t ht
    rw [isAmong_collect, rootId_of_ofEvents? ht, hs]
    exact Bool.false_ne_true
  | some s =>
    have hid : s.rootId = rootId := rootId_of_ofEvents? hs
    have hgrown : (members Event.effectiveRoot rootId fs).foldl record s = s.grow fs := by
      rw [grow, hid]
    have hamong : isAmong (collect es) (s.grow fs) = true := by
      rw [isAmong_collect, (sameOpening_grow fs s).rootId, hid, hs]
      rfl
    simp only [hgrown, Option.filter_some, hamong, if_true, Option.map_some]

/-- Roots that were collected before are the collected ones, grown. -/
theorem filter_isAmong_collect_append (es fs : Log) :
    (collect (es ++ fs)).filter (isAmong (collect es)) = (collect es).map (grow fs) := by
  -- Taken over the keys of the longer log, the two collections can be compared key by key.
  have hall : collect (es ++ fs) = (keys Event.effectiveRoot (es ++ fs)).filterMap fun rootId =>
      ofEvents? rootId (members Event.effectiveRoot rootId (es ++ fs)) :=
    collect_eq_filterMap (List.Subset.refl _)
  have hold : collect es = (keys Event.effectiveRoot (es ++ fs)).filterMap fun rootId =>
      ofEvents? rootId (members Event.effectiveRoot rootId es) :=
    collect_eq_filterMap (List.subset_append_left es fs)
  calc (collect (es ++ fs)).filter (isAmong (collect es))
    _ = (keys Event.effectiveRoot (es ++ fs)).filterMap fun rootId =>
          (ofEvents? rootId (members Event.effectiveRoot rootId (es ++ fs))).filter
            (isAmong (collect es)) := by rw [hall, List.filter_filterMap]
    _ = (keys Event.effectiveRoot (es ++ fs)).filterMap fun rootId =>
          (ofEvents? rootId (members Event.effectiveRoot rootId es)).map (grow fs) :=
        List.filterMap_congr fun rootId _ => filter_isAmong_append rootId es fs
    _ = (collect es).map (grow fs) := by rw [hold, List.map_filterMap]

/-- A root that was not collected before is collected from the further events alone. -/
theorem mem_collect_of_not_isAmong (ht : t ∈ collect (es ++ fs))
    (hnew : isAmong (collect es) t = false) : t ∈ collect fs := by
  rw [isAmong_collect, Option.isSome_eq_false_iff, Option.isNone_iff_eq_none] at hnew
  rw [mem_collect, members_append, ofEvents?_append, hnew] at ht
  exact mem_collect.mpr ht

/-- A summary tells of the event that opened its root. -/
theorem exists_opening_of_mem_collect {events : Log} (h : t ∈ collect events) : ∃ e ∈ events,
    e.opensRoot = true ∧ e.effectiveRoot = some t.rootId ∧ SameOpening t (opened t.rootId e) := by
  obtain ⟨before, first, rest, hsplit, -, hopens, ht⟩ :=
    exists_opening_of_ofEvents? (mem_collect.mp h)
  have hfirst : first ∈ members Event.effectiveRoot t.rootId events := by
    rw [hsplit]
    exact List.mem_append_right _ List.mem_cons_self
  obtain ⟨hmem, heff⟩ := mem_members.mp hfirst
  have hopening := sameOpening_foldl (opened t.rootId first) rest
  rw [← ht] at hopening
  exact ⟨first, hmem, hopens, heff, hopening⟩

theorem exists_endLine_of_mem_collect {events : Log} {m : Nat} (h : s ∈ collect events)
    (hm : s.endLine = some m) : ∃ e ∈ events, e.line = m := by
  obtain ⟨before, first, rest, hsplit, -, -, hs⟩ := exists_opening_of_ofEvents? (mem_collect.mp h)
  rw [hs, endLine_foldl] at hm
  simp only [opened, Option.or_none, Option.map_eq_some_iff] at hm
  obtain ⟨e, he, hline⟩ := hm
  have hrest : e ∈ members Event.effectiveRoot s.rootId events := by
    rw [hsplit]
    have : e ∈ rest := List.mem_of_mem_filter (List.mem_of_getLast? he)
    simp [this]
  exact ⟨e, (mem_members.mp hrest).1, hline⟩

theorem line_lt_of_append (hlines : ((es ++ fs).map Event.line).Pairwise (· < ·)) :
    ∀ e ∈ es, ∀ f ∈ fs, e.line < f.line := by
  rw [List.map_append, List.pairwise_append] at hlines
  intro e he f hf
  exact hlines.2.2 e.line (List.mem_map_of_mem he) f.line (List.mem_map_of_mem hf)

theorem grownFrom_grow (hlines : ((es ++ fs).map Event.line).Pairwise (· < ·))
    (hs : s ∈ collect es) : (s.grow fs).GrownFrom s := by
  refine grownFrom_foldl ?_
  intro m hm f hf
  obtain ⟨e, he, hline⟩ := exists_endLine_of_mem_collect hs hm
  rw [← hline]
  exact Nat.le_of_lt (line_lt_of_append hlines e he f (mem_members.mp hf).1)

theorem startLine_lt_of_not_isAmong (hlines : ((es ++ fs).map Event.line).Pairwise (· < ·)) :
    ∀ s ∈ collect (es ++ fs), ∀ t ∈ collect (es ++ fs), isAmong (collect es) s = true →
      isAmong (collect es) t = false → s.startLine < t.startLine := by
  intro s hs t ht hold hnew
  have hgrown : s ∈ (collect es).map (grow fs) := by
    rw [← filter_isAmong_collect_append, List.mem_filter]
    exact ⟨hs, hold⟩
  -- Growing keeps the start, and the earlier root was opened within `es`, the other within `fs`.
  obtain ⟨s', hs', rfl⟩ := List.mem_map.mp hgrown
  obtain ⟨e, he, -, -, hopening⟩ := exists_opening_of_mem_collect hs'
  obtain ⟨f, hf, -, -, hopening'⟩ :=
    exists_opening_of_mem_collect (mem_collect_of_not_isAmong ht hnew)
  calc (s'.grow fs).startLine
    _ = s'.startLine := (sameOpening_grow fs s').startLine
    _ = e.line := hopening.startLine
    _ < f.line := line_lt_of_append hlines e he f hf
    _ = t.startLine := hopening'.startLine.symm

end RootSummary

namespace RootListing

open RootSummary

/-- The listing of a grown log is that of the log before, each row grown, behind the roots that were
opened since. -/
theorem rows_of_grown_log (hlines : ((es ++ fs).map Event.line).Pairwise (· < ·)) :
    (∀ s ∈ collect es, ∃ t ∈ collect (es ++ fs), t.GrownFrom s) ∧
      ∀ agent, ∃ newRows oldRows,
        (ofRoots (collect (es ++ fs)) agent none).rows = newRows ++ oldRows ∧
        List.Forall₂ (fun s t => t.GrownFrom s) (ofRoots (collect es) agent none).rows oldRows ∧
        (∀ t, t ∈ newRows ↔ t ∈ collect (es ++ fs) ∧ t.matchesAgent agent = true ∧
          ∀ s ∈ collect es, s.rootId ≠ t.rootId) ∧
        ∀ t ∈ newRows, ∃ f ∈ fs, f.opensRoot = true ∧ f.effectiveRoot = some t.rootId ∧
          t.startLine = f.line := by
  have hold := filter_isAmong_collect_append es fs
  constructor
  · intro s hs
    have ht : s.grow fs ∈ (collect (es ++ fs)).filter (isAmong (collect es)) := by
      rw [hold]
      exact List.mem_map_of_mem hs
    exact ⟨s.grow fs, List.mem_of_mem_filter ht, grownFrom_grow hlines hs⟩
  · intro agent
    have hrows : matching agent (collect (es ++ fs)) =
        matching agent ((collect (es ++ fs)).filter fun t => !isAmong (collect es) t) ++
          (matching agent (collect es)).map (grow fs) := by
      rw [matching_eq_append agent (startLine_lt_of_not_isAmong hlines), hold, matching_map]
      · exact fun s => (sameOpening_grow fs s).agent
      · exact fun s => (sameOpening_grow fs s).startLine
    have hnew : ∀ t, t ∈ matching agent
        ((collect (es ++ fs)).filter fun t => !isAmong (collect es) t) ↔
          t ∈ collect (es ++ fs) ∧ t.matchesAgent agent = true ∧
            ∀ s ∈ collect es, s.rootId ≠ t.rootId := by
      intro t
      rw [mem_matching, List.mem_filter, Bool.not_eq_true', isAmong_eq_false_iff, and_assoc,
        and_comm (a := t.matchesAgent agent = true)]
    refine ⟨_, _, hrows, ?_, hnew, ?_⟩
    · rw [List.forall₂_map_right_iff]
      refine List.forall₂_same.mpr ?_
      intro s hs
      exact grownFrom_grow hlines (mem_matching.mp hs).1
    · intro t ht
      obtain ⟨hmem, -, hother⟩ := (hnew t).mp ht
      obtain ⟨f, hf, hopens, heff, hopening⟩ := exists_opening_of_mem_collect
        (mem_collect_of_not_isAmong hmem (isAmong_eq_false_iff.mpr hother))
      exact ⟨f, hf, hopens, heff, hopening.startLine⟩

end RootListing

/-- A root with a child that failed, and the end of the root. -/
def earlyLog : Log :=
  [{ line := 1, kind := .invocationStart, invocationId := some "r", agent := some "lead" },
   { line := 2, kind := .runEnd, invocationId := some "c", rootInvocationId := some "r",
     depth := 1, status := some "failure" },
   { line := 3, kind := .invocationEnd, invocationId := some "r", elapsedMs := some 5 }]

/-- The root is started again by another agent and runs on, and a second root is opened. -/
def lateLog : Log :=
  [{ line := 4, kind := .invocationStart, invocationId := some "r", agent := some "reader" },
   { line := 5, kind := .invocationStart, invocationId := some "q" },
   { line := 6, kind := .runEnd, invocationId := some "r" }]

theorem rows_of_grown_log_lateLog :
    ((earlyLog ++ lateLog).map Event.line).Pairwise (· < ·) ∧
      ∃ s t newRows, (RootListing.ofRoots (RootSummary.collect earlyLog) none none).rows = [s] ∧
        (RootListing.ofRoots (RootSummary.collect (earlyLog ++ lateLog)) none none).rows =
          newRows ++ [t] ∧
        t.GrownFrom s ∧ t.agent = "lead" ∧ 1 ≤ t.childFailures ∧ t.elapsedMs.isSome = true ∧
        (∃ n, t.endLine = some n ∧ 3 ≤ n) ∧ ∃ q ∈ newRows, q.rootId = "q" := by
  have hlines : ((earlyLog ++ lateLog).map Event.line).Pairwise (· < ·) := by decide
  have hlisted : (RootListing.ofRoots (RootSummary.collect earlyLog) none none).rows = [_] :=
    List.mergeSort_singleton _
  obtain ⟨-, hrows⟩ := RootListing.rows_of_grown_log hlines
  obtain ⟨newRows, oldRows, hsplit, hold, hnew, -⟩ := hrows none
  rw [hlisted] at hold
  obtain ⟨t, oldRows', ht, hnil, rfl⟩ := List.forall₂_cons_left_iff.mp hold
  obtain rfl := List.forall₂_nil_left_iff.mp hnil
  have hq := (hnew _).mpr ⟨List.mem_cons_self, rfl, by decide⟩
  exact ⟨hlines, _, t, newRows, hlisted, hsplit, ht, ht.agent, ht.childFailures, ht.elapsedMs rfl,
    ht.endLine 3 rfl, _, hq, rfl⟩

end InvocationTrace
