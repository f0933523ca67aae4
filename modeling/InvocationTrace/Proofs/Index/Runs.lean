import InvocationTrace.Proofs.Index.Contents
import InvocationTrace.Proofs.Index.Record

/-!
# Runs of an index

The runs of an index are the run ends in its scope, each as often as it was logged. They are kept
with their invocations and come out in the order of their lines.
-/

namespace InvocationTrace

open Grouping

/-- The run whose end an event reports. -/
def Run.ofEvent? (e : Event) : Option Run :=
  match e.kind, e.invocationId with
  | .runEnd, some id => some (Run.ofEvent id e)
  | _, _ => none

namespace Index

variable {rootId : String} {events : Log} {ix : Index}

theorem runs_recordOf (rootId id : String) (es : List Event) : (recordOf rootId id es).runs =
    (es.filter fun e => e.kind == .runEnd).map (Run.ofEvent id) := by
  rw [recordOf]
  split
  · rw [Invocation.runs_settled, Invocation.runs_ofEvents]
  · exact Invocation.runs_ofEvents id es

theorem runs_recordOf_members (rootId id : String) (es : List Event) :
    (recordOf rootId id (members Event.invocationId id es)).runs =
      (members Event.invocationId id es).filterMap Run.ofEvent? := by
  rw [runs_recordOf, ← List.filterMap_eq_map, List.filterMap_filter]
  apply List.filterMap_congr
  intro e he
  have hid : e.invocationId = some id := (mem_members.mp he).2
  cases hk : e.kind <;> simp [Run.ofEvent?, hk, hid]

/-- The runs that are stored, invocation after invocation. -/
theorem flatMap_runs_of_build (h : build rootId events = .ok ix) :
    ix.invocations.flatMap Invocation.runs =
      ((groups Event.invocationId (scope rootId events)).flatMap Prod.snd).filterMap
        Run.ofEvent? := by
  obtain ⟨-, hi, -, -⟩ := build_eq_ok_iff.mp h
  rw [hi, recordsOf, groups, List.map_map, List.flatMap_map, List.flatMap_map,
    List.filterMap_flatMap]
  congr 1
  funext id
  exact runs_recordOf_members rootId id _

theorem runs_perm_of_build (h : build rootId events = .ok ix) :
    ix.runs.Perm ((scope rootId events).filterMap Run.ofEvent?) := by
  have hall : (scope rootId events).filter (fun e => e.invocationId.isSome) =
      scope rootId events := by
    refine List.filter_eq_self.mpr ?_
    intro e he
    exact (mem_scope.mp he).2.2
  refine (List.mergeSort_perm _ _).trans ?_
  rw [flatMap_runs_of_build h]
  have hgroups := flatMap_groups_perm Event.invocationId (scope rootId events)
  rw [hall] at hgroups
  exact hgroups.filterMap Run.ofEvent?

end Index

end InvocationTrace
