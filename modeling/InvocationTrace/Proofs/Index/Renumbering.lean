import InvocationTrace.Proofs.Index.Record
import InvocationTrace.Proofs.Totals
import Mathlib.Data.Nat.Basic
import Mathlib.Order.Monotone.Basic

/-!
# Renumbered lines

Lines serve as an order only. If the events of a log get other lines in the same order, everything
in an index stays as it was but for the lines themselves.
-/

namespace InvocationTrace

open Grouping

variable {number : Nat → Nat}

def Event.renumber (number : Nat → Nat) (e : Event) : Event := { e with line := number e.line }

def Run.renumber (number : Nat → Nat) (r : Run) : Run := { r with line := number r.line }

def ToolCall.renumber (number : Nat → Nat) (call : ToolCall) : ToolCall :=
  { call with line := number call.line }

def Invocation.renumber (number : Nat → Nat) (i : Invocation) : Invocation :=
  { i with
    startLine := i.startLine.map number
    endLine := i.endLine.map number
    runs := i.runs.map (Run.renumber number) }

def Index.renumber (number : Nat → Nat) (ix : Index) : Index :=
  { ix with
    root := ix.root.renumber number
    invocations := ix.invocations.map (Invocation.renumber number)
    toolCalls := ix.toolCalls.map (ToolCall.renumber number) }

theorem Run.latest?_renumber (h : StrictMono number) (runs : List Run) :
    latest? (runs.map (renumber number)) = (latest? runs).map (renumber number) := by
  induction runs using List.reverseRecOn with
  | nil => rfl
  | append_singleton runs r ih =>
    rw [List.map_append, List.map_cons, List.map_nil, latest?_append_singleton,
      latest?_append_singleton, ih]
    cases latest? runs with
    | none => rfl
    | some b =>
      have hle : (b.renumber number).line ≤ (r.renumber number).line ↔ b.line ≤ r.line :=
        h.le_iff_le
      simp only [Option.map_some, hle]
      split <;> rfl

theorem ToolCall.ofEvent?_renumber (e : Event) :
    ofEvent? (e.renumber number) = (ofEvent? e).map (renumber number) := by
  by_cases hd : 1 ≤ e.depth
  · cases hk : e.kind <;> cases hid : e.invocationId <;>
      simp [ofEvent?, Event.renumber, Event.elapsed, renumber, hk, hid, hd]
  · cases hk : e.kind <;> cases hid : e.invocationId <;>
      simp [ofEvent?, Event.renumber, hk, hid, hd]

namespace Invocation

@[simp] theorem id_renumber (i : Invocation) : (i.renumber number).id = i.id := rfl

theorem record_renumber (i : Invocation) (e : Event) :
    (i.renumber number).record (e.renumber number) = (i.record e).renumber number := by
  have hkind : (e.renumber number).kind = e.kind := rfl
  cases hk : e.kind with
  | runEnd =>
    simp only [record, hkind, hk, addRun, renumber, List.map_append, List.map_cons, List.map_nil]
    rfl
  | invocationStart | singleStart | parallelStart | invocationEnd =>
    simp only [record, hkind, hk]
    rfl
  | toolEnd | other => simp only [record, hkind, hk]

theorem ofEvents_renumber (id : String) (es : List Event) :
    ofEvents id (es.map (Event.renumber number)) = (ofEvents id es).renumber number := by
  induction es using List.reverseRecOn with
  | nil => rfl
  | append_singleton es e ih =>
    rw [List.map_append, List.map_cons, List.map_nil, ofEvents_append_singleton,
      ofEvents_append_singleton, ih, record_renumber]

theorem settled_renumber (h : StrictMono number) (i : Invocation) :
    (i.renumber number).settled = i.settled.renumber number := by
  have hended : (i.renumber number).hasEnded = i.hasEnded := Option.isSome_map
  have hstatus : (i.renumber number).status = i.status := rfl
  have hruns : Run.latest? (i.renumber number).runs =
      (Run.latest? i.runs).map (Run.renumber number) := Run.latest?_renumber h i.runs
  rw [settled, settled, hended, hstatus, hruns]
  split
  · rfl
  · cases Run.latest? i.runs <;> rfl

theorem startsBefore_renumber (h : StrictMono number) (i j : Invocation) :
    (i.renumber number).startsBefore (j.renumber number) = i.startsBefore j := by
  rw [startsBefore, startsBefore]
  cases hi : i.startLine with
  | none => cases hj : j.startLine <;> simp [renumber, hi, hj]
  | some m =>
    cases hj : j.startLine with
    | none => simp [renumber, hi, hj]
    | some n => simp [renumber, hi, hj, h.injective.eq_iff, h.lt_iff_lt]

end Invocation

namespace Index

variable {rootId : String} {events : Log}

theorem scope_renumber (rootId : String) (events : Log) :
    scope rootId (events.map (Event.renumber number)) =
      (scope rootId events).map (Event.renumber number) :=
  List.filter_map

theorem toolTimes?_renumber (events : Log) :
    toolTimes? (events.map (Event.renumber number)) = toolTimes? events := by
  rw [toolTimes?, groups_map, List.mapM_map]
  simp only [Function.comp_def, List.map_map]
  rfl

theorem recordOf_renumber (h : StrictMono number) (rootId id : String) (es : List Event) :
    recordOf rootId id (es.map (Event.renumber number)) =
      (recordOf rootId id es).renumber number := by
  rw [recordOf, recordOf, Invocation.ofEvents_renumber]
  split
  · exact Invocation.settled_renumber h _
  · rfl

theorem recordsOf_renumber (h : StrictMono number) (rootId : String) (events : Log) :
    recordsOf rootId (events.map (Event.renumber number)) =
      (recordsOf rootId events).map (Invocation.renumber number) := by
  simp only [recordsOf, groups_map, List.map_map]
  apply List.map_congr_left
  intro (id, es) _
  exact recordOf_renumber h rootId id es

theorem build_renumber (h : StrictMono number) (rootId : String) (events : Log) :
    build rootId (events.map (Event.renumber number)) =
      (build rootId events).map (renumber number) := by
  rw [build, build, scope_renumber, toolTimes?_renumber]
  cases toolTimes? (scope rootId events) with
  | none => rfl
  | some times =>
    simp only [recordsOf_renumber h, List.find?_map]
    have hid : (fun i : Invocation => i.id == rootId) ∘ Invocation.renumber number =
        fun i => i.id == rootId := rfl
    rw [hid]
    cases (recordsOf rootId (scope rootId events)).find? fun i => i.id == rootId with
    | none => rfl
    | some root =>
      simp only [Option.map_some, Except.map, renumber, List.filterMap_map, List.map_filterMap]
      congr 3
      funext e
      exact ToolCall.ofEvent?_renumber e

end Index

end InvocationTrace
