import InvocationTrace.Proofs.Index.Fields
import InvocationTrace.Proofs.Index.Outcome
import InvocationTrace.Proofs.Index.Runs
import InvocationTrace.Proofs.Report.Conservation

/-!
# The index of a growing log

A log is only ever appended to, and the index of a root is built anew from all of it. What the index
held stays: invocations with their runs, tool calls, and the fact that something started or ended;
tool times go on from where they were. The outcome of an invocation, once known, is only changed by an
end that tells another one. The root is an exception, since it is settled by its latest run.
-/

namespace InvocationTrace

variable {rootId : String} {es fs : Log} {ix : Index}

theorem Log.own_append (id : String) (es fs : Log) :
    Log.own id (es ++ fs) = es.own id ++ fs.own id := Grouping.members_append

theorem Log.lastOf?_append {α : Type} (kind : Event.Kind) (said : Event → Option α) (es fs : Log) :
    lastOf? kind said (es ++ fs) = (lastOf? kind said fs).or (lastOf? kind said es) := by
  rw [lastOf?, List.filter_append, List.filterMap_append, List.getLast?_append, lastOf?, lastOf?]

theorem Log.firstOf?_append {α : Type} (kind : Event.Kind) (said : Event → Option α) (es fs : Log) :
    firstOf? kind said (es ++ fs) = (firstOf? kind said es).or (firstOf? kind said fs) := by
  rw [firstOf?, List.filter_append, List.filterMap_append, List.head?_append, firstOf?, firstOf?]

theorem Log.isSome_last?_append {α : Type} {kind : Event.Kind} {said : Event → α}
    (h : ((last? kind es).map said).isSome = true) :
    ((last? kind (es ++ fs)).map said).isSome = true := by
  rw [Option.isSome_map] at *
  rw [last?_append, Option.isSome_or, h, Bool.or_true]

/-- What the last end tells or else the first run, once it is known, stays until an end tells it
again. -/
theorem Log.exists_end_of_outcome_ne {α : Type} {said : Event → Option α}
    (hknown : ((lastOf? .invocationEnd said es).or (firstOf? .runEnd said es)).isSome = true)
    (hchanged : (lastOf? .invocationEnd said (es ++ fs)).or (firstOf? .runEnd said (es ++ fs)) ≠
      (lastOf? .invocationEnd said es).or (firstOf? .runEnd said es)) :
    ∃ e ∈ fs, e.kind = .invocationEnd ∧ (said e).isSome = true := by
  by_contra hquiet
  have hnone : lastOf? .invocationEnd said fs = none := by
    refine lastOf?_eq_none_iff.mpr ?_
    intro e he hk
    by_contra htold
    exact hquiet ⟨e, he, hk, Option.isSome_iff_ne_none.mpr htold⟩
  apply hchanged
  rw [lastOf?_append, hnone, Option.none_or, firstOf?_append, ← Option.or_assoc,
    Option.or_of_isSome hknown]

/-- How the record of an invocation may change when its log grows. -/
structure Invocation.GrownFrom (j i : Invocation) : Prop where
  id : j.id = i.id
  runs : i.runs <+: j.runs
  startLine : i.startLine.isSome = true → j.startLine.isSome = true
  endLine : i.endLine.isSome = true → j.endLine.isSome = true

namespace Index

theorem scope_append (rootId : String) (es fs : Log) :
    scope rootId (es ++ fs) = scope rootId es ++ scope rootId fs := List.filter_append _ _

theorem toolEnds_append (rootId runId : String) (es fs : Log) :
    toolEnds rootId runId (es ++ fs) = toolEnds rootId runId es ++ toolEnds rootId runId fs :=
  List.filter_append _ _

theorem grownFrom_recordOf (rootId id : String) (es fs : Log) :
    (recordOf rootId id (es ++ fs)).GrownFrom (recordOf rootId id es) where
  id := by rw [id_recordOf, id_recordOf]
  runs := by
    rw [runs_recordOf, runs_recordOf, List.filter_append, List.map_append]
    exact List.prefix_append _ _
  startLine := by
    rw [(tells_recordOf rootId id es).startLine, (tells_recordOf rootId id (es ++ fs)).startLine]
    exact Log.isSome_last?_append
  endLine := by
    rw [(tells_recordOf rootId id es).endLine, (tells_recordOf rootId id (es ++ fs)).endLine]
    exact Log.isSome_last?_append

theorem exists_build_append (h : build rootId es = .ok ix)
    (hsum : build rootId (es ++ fs) ≠ .error .sumOverflow) :
    ∃ ix', build rootId (es ++ fs) = .ok ix' := by
  have hroot : ∃ e ∈ es, e.invocationId = some rootId := by
    have hmem : ∃ i ∈ ix.invocations, i.id = rootId :=
      ⟨ix.root, (keyed_of_build h).root_mem, rootId_of_build h⟩
    exact exists_mem_scope_own.mp ((exists_mem_invocations_of_build h).mp hmem)
  rcases build_cases rootId (es ++ fs) with hover | hnone | hok
  · exact absurd hover hsum
  · obtain ⟨e, he, hid⟩ := hroot
    exact absurd hid ((build_eq_rootNotFound_iff.mp hnone).2 e (List.mem_append_left fs he))
  · exact hok

/-- The records of an index, from the same events as those of the index of the grown log. -/
theorem exists_grown_record {ix' : Index} {i : Invocation} (h : build rootId es = .ok ix)
    (h' : build rootId (es ++ fs) = .ok ix') (hi : i ∈ ix.invocations) :
    i = recordOf rootId i.id ((scope rootId es).own i.id) ∧
      recordOf rootId i.id ((scope rootId es).own i.id ++ (scope rootId fs).own i.id) ∈
        ix'.invocations := by
  obtain ⟨-, hinv, -, -⟩ := build_eq_ok_iff.mp h
  obtain ⟨-, hinv', -, -⟩ := build_eq_ok_iff.mp h'
  obtain ⟨e, he, hid⟩ := (exists_mem_invocations_of_build h).mp ⟨i, hi, rfl⟩
  refine ⟨(mem_recordsOf.mp (hinv ▸ hi)).2, ?_⟩
  rw [hinv', mem_recordsOf, id_recordOf, scope_append, ← Log.own_append]
  exact ⟨Grouping.mem_keys.mpr ⟨e, List.mem_append_left _ he, hid⟩, rfl⟩

/-- A status or a time that is known is changed only by an end that tells another. -/
theorem exists_end_of_recordOf_ne {id : String} (hne : id ≠ rootId) (es fs : Log) :
    ((recordOf rootId id es).status.isSome = true →
      (recordOf rootId id (es ++ fs)).status ≠ (recordOf rootId id es).status →
        ∃ e ∈ fs, e.kind = .invocationEnd ∧ e.status.isSome = true) ∧
      ((recordOf rootId id es).elapsedMs.isSome = true →
        (recordOf rootId id (es ++ fs)).elapsedMs ≠ (recordOf rootId id es).elapsedMs →
          ∃ e ∈ fs, e.kind = .invocationEnd ∧ e.elapsedMs.isSome = true) := by
  obtain ⟨hstatus, helapsed⟩ := outcome_recordOf hne es
  obtain ⟨hstatus', helapsed'⟩ := outcome_recordOf hne (es ++ fs)
  rw [hstatus, helapsed, hstatus', helapsed']
  exact ⟨Log.exists_end_of_outcome_ne, Log.exists_end_of_outcome_ne⟩

/-- What the index of a log holds, the index of a longer log holds too, as long as tool times do not
overflow: it adds to the invocations, to their runs, to the tool calls and to the tool times, and
only an end that tells an outcome changes the one that was known of an invocation under the root. -/
theorem build_append (h : build rootId es = .ok ix)
    (hsum : build rootId (es ++ fs) ≠ .error .sumOverflow) :
    ∃ ix', build rootId (es ++ fs) = .ok ix' ∧
      (∀ i ∈ ix.invocations, ∃ j ∈ ix'.invocations, j.GrownFrom i ∧
        (i.id ≠ rootId →
          (i.status.isSome = true → j.status ≠ i.status → ∃ e ∈ (scope rootId fs).own i.id,
            e.kind = .invocationEnd ∧ e.status.isSome = true) ∧
          (i.elapsedMs.isSome = true → j.elapsedMs ≠ i.elapsedMs →
            ∃ e ∈ (scope rootId fs).own i.id,
              e.kind = .invocationEnd ∧ e.elapsedMs.isSome = true))) ∧
      ix.toolCalls <+: ix'.toolCalls ∧
      ∀ runId, ix'.toolTime (some runId) = ix.toolTime (some runId) +
        ((toolEnds rootId runId fs).map Event.elapsed).sum := by
  obtain ⟨ix', h'⟩ := exists_build_append h hsum
  refine ⟨ix', h', ?_, ?_, ?_⟩
  · intro i hi
    obtain ⟨hrecord, hmem⟩ := exists_grown_record h h' hi
    have hgrown := grownFrom_recordOf rootId i.id ((scope rootId es).own i.id)
      ((scope rootId fs).own i.id)
    rw [← hrecord] at hgrown
    refine ⟨_, hmem, hgrown, ?_⟩
    intro hne
    have hchanged := exists_end_of_recordOf_ne hne ((scope rootId es).own i.id)
      ((scope rootId fs).own i.id)
    rwa [← hrecord] at hchanged
  · obtain ⟨-, -, -, hcalls⟩ := build_eq_ok_iff.mp h
    obtain ⟨-, -, -, hcalls'⟩ := build_eq_ok_iff.mp h'
    rw [hcalls, hcalls', scope_append, List.filterMap_append]
    exact List.prefix_append _ _
  · intro runId
    rw [toolTime_of_build h', toolTime_of_build h, toolEnds_append, List.map_append,
      List.sum_append]

end Index

/-- A child whose run failed in some time, with a tool call. -/
def shortLog : Log :=
  [{ line := 1, kind := .invocationStart, invocationId := some "r" },
   { line := 2, kind := .invocationStart, invocationId := some "c",
     rootInvocationId := some "r" },
   { line := 3, kind := .toolEnd, invocationId := some "c", rootInvocationId := some "r",
     runId := some "run", depth := 1, elapsedMs := some 40 },
   { line := 4, kind := .runEnd, invocationId := some "c", rootInvocationId := some "r",
     runId := some "run", depth := 1, status := some "failure", elapsedMs := some 50 }]

/-- The child runs again with another outcome and ends, telling its time but no status. -/
def moreLog : Log :=
  [{ line := 5, kind := .toolEnd, invocationId := some "c", rootInvocationId := some "r",
     runId := some "run", depth := 1, elapsedMs := some (-30) },
   { line := 6, kind := .runEnd, invocationId := some "c", rootInvocationId := some "r",
     runId := some "run", depth := 1, status := some "success", elapsedMs := some 60 },
   { line := 7, kind := .invocationEnd, invocationId := some "c", rootInvocationId := some "r",
     elapsedMs := some 70 }]

theorem build_append_moreLog :
    ∃ ix ix' i j, Index.build "r" shortLog = .ok ix ∧
      Index.build "r" (shortLog ++ moreLog) = .ok ix' ∧ i ∈ ix.invocations ∧
      j ∈ ix'.invocations ∧ j.id = "c" ∧ i.runs <+: j.runs ∧ j.status = some "failure" ∧
      ix.toolCalls <+: ix'.toolCalls ∧ ix'.toolTime (some "run") = ix.toolTime (some "run") - 30 := by
  have hbuild : Index.build "r" shortLog = .ok _ := rfl
  obtain ⟨ix', hbuild', hrecords, hcalls, htimes⟩ :=
    @Index.build_append "r" shortLog moreLog _ hbuild nofun
  obtain ⟨j, hj, hgrown, houtcome⟩ := hrecords _ List.mem_cons_self
  have hstatus : j.status = some "failure" := by
    by_contra hchanged
    obtain ⟨e, he, hk, htold⟩ := (houtcome (by decide)).1 rfl hchanged
    revert e
    decide
  exact ⟨_, ix', _, j, hbuild, hbuild', List.mem_cons_self, hj, hgrown.id, hgrown.runs, hstatus,
    hcalls, htimes "run"⟩

end InvocationTrace
