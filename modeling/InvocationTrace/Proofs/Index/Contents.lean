import InvocationTrace.Index
import InvocationTrace.Proofs.Grouping
import Mathlib.Data.List.Nodup

/-!
# Contents of an index

What building an index can answer, and what the index holds when it is built: one record for each
id that an event of the scope carries, the root's among them. Everything proved about an index
starts from these facts and not from the definition of building.
-/

namespace InvocationTrace.Index

open Grouping

variable {rootId id : String} {events : Log} {ix : Index} {e : Event} {i j : Invocation}

theorem mem_scope : e ∈ scope rootId events ↔
    e ∈ events ∧ (e.rootInvocationId = some rootId ∨ e.invocationId = some rootId) ∧
      e.invocationId.isSome = true := by
  simp [scope, Event.belongsTo]

/-- An event of the root itself is in scope, whatever root it names. -/
theorem exists_mem_scope_own :
    (∃ e ∈ scope rootId events, e.invocationId = some rootId) ↔
      ∃ e ∈ events, e.invocationId = some rootId := by
  constructor
  · intro h
    obtain ⟨e, he, hid⟩ := h
    exact ⟨e, (mem_scope.mp he).1, hid⟩
  · intro h
    obtain ⟨e, he, hid⟩ := h
    exact ⟨e, mem_scope.mpr ⟨he, .inr hid, by simp [hid]⟩, hid⟩

theorem lines_nodup_scope (h : (events.map Event.line).Nodup) :
    ((scope rootId events).map Event.line).Nodup :=
  h.sublist (List.filter_sublist.map Event.line)

@[simp] theorem id_recordOf (rootId id : String) (es : List Event) :
    (recordOf rootId id es).id = id := by
  simp only [recordOf]
  split
  · rw [Invocation.id_settled, Invocation.id_ofEvents]
  · exact Invocation.id_ofEvents id es

theorem ids_recordsOf (rootId : String) (events : Log) :
    (recordsOf rootId events).map Invocation.id = keys Event.invocationId events := by
  simp [recordsOf, groups, Function.comp_def]

theorem mem_recordsOf : i ∈ recordsOf rootId events ↔
    i.id ∈ keys Event.invocationId events ∧
      i = recordOf rootId i.id (members Event.invocationId i.id events) := by
  simp only [recordsOf, groups, List.map_map, List.mem_map, Function.comp_apply]
  constructor
  · intro h
    obtain ⟨id, hid, hi⟩ := h
    subst hi
    exact ⟨by rwa [id_recordOf], by rw [id_recordOf]⟩
  · intro h
    exact ⟨i.id, h.1, h.2.symm⟩

theorem build_eq_ok_iff : build rootId events = .ok ix ↔
    toolTimes? (scope rootId events) = some ix.toolTimes ∧
      ix.invocations = recordsOf rootId (scope rootId events) ∧
      ix.invocations.find? (·.id == rootId) = some ix.root ∧
      ix.toolCalls = (scope rootId events).filterMap ToolCall.ofEvent? := by
  rw [build]
  cases ht : toolTimes? (scope rootId events) with
  | none => simp
  | some times =>
    cases hr : (recordsOf rootId (scope rootId events)).find? (·.id == rootId) with
    | none =>
      simp only [hr, reduceCtorEq, false_iff, not_and]
      intro _ hi hf
      rw [hi, hr] at hf
      cases hf
    | some root =>
      simp only [hr, Except.ok.injEq, Option.some.injEq]
      constructor
      · intro hix
        subst hix
        simp only [hr, and_self]
      · intro h
        obtain ⟨htimes, hi, hf, hc⟩ := h
        subst htimes
        rw [hi, hr] at hf
        rw [Option.some.inj hf, ← hi, ← hc]

theorem find?_recordsOf_eq_none_iff :
    (recordsOf rootId (scope rootId events)).find? (·.id == rootId) = none ↔
      ∀ e ∈ events, e.invocationId ≠ some rootId := by
  have hkey : rootId ∈ keys Event.invocationId (scope rootId events) ↔
      ∃ e ∈ events, e.invocationId = some rootId := mem_keys.trans exists_mem_scope_own
  rw [List.find?_eq_none, ← not_iff_not]
  simp only [beq_iff_eq, not_forall, not_not, exists_prop, ne_eq]
  rw [← hkey, ← ids_recordsOf rootId, List.mem_map]

theorem build_eq_sumOverflow_iff : build rootId events = .error .sumOverflow ↔
    toolTimes? (scope rootId events) = none := by
  rw [build]
  cases toolTimes? (scope rootId events) with
  | none => simp
  | some times =>
    cases h : (recordsOf rootId (scope rootId events)).find? (·.id == rootId) <;> simp [h]

theorem build_eq_rootNotFound_iff : build rootId events = .error (.rootNotFound rootId) ↔
    toolTimes? (scope rootId events) ≠ none ∧ ∀ e ∈ events, e.invocationId ≠ some rootId := by
  rw [build, ← find?_recordsOf_eq_none_iff]
  cases toolTimes? (scope rootId events) with
  | none => simp
  | some times =>
    cases h : (recordsOf rootId (scope rootId events)).find? (·.id == rootId) <;> simp [h]

/-- There is no other answer than an index and these two faults. -/
theorem build_cases (rootId : String) (events : Log) :
    build rootId events = .error .sumOverflow ∨
      build rootId events = .error (.rootNotFound rootId) ∨
      ∃ ix, build rootId events = .ok ix := by
  rw [build]
  cases toolTimes? (scope rootId events) with
  | none => exact .inl rfl
  | some times =>
    cases h : (recordsOf rootId (scope rootId events)).find? (·.id == rootId) with
    | none => exact .inr (.inl (by simp [h]))
    | some root =>
      simp only [h]
      exact .inr (.inr ⟨_, rfl⟩)

/-- Where tool times come out, the same events have an index in every order or in none. -/
theorem build_cases_of_perm {events' : Log} (hp : events.Perm events')
    (hsum : build rootId events ≠ .error .sumOverflow)
    (hsum' : build rootId events' ≠ .error .sumOverflow) :
    (build rootId events = .error (.rootNotFound rootId) ∧
        build rootId events' = .error (.rootNotFound rootId)) ∨
      ∃ ix ix', build rootId events = .ok ix ∧ build rootId events' = .ok ix' := by
  have hfits : toolTimes? (scope rootId events) ≠ none := mt build_eq_sumOverflow_iff.mpr hsum
  have hfits' : toolTimes? (scope rootId events') ≠ none := mt build_eq_sumOverflow_iff.mpr hsum'
  by_cases hnone : ∀ e ∈ events, e.invocationId ≠ some rootId
  · have hnone' : ∀ e ∈ events', e.invocationId ≠ some rootId :=
      fun e he => hnone e (hp.mem_iff.mpr he)
    exact .inl ⟨build_eq_rootNotFound_iff.mpr ⟨hfits, hnone⟩,
      build_eq_rootNotFound_iff.mpr ⟨hfits', hnone'⟩⟩
  · have hnone' : ¬ ∀ e ∈ events', e.invocationId ≠ some rootId :=
      fun h => hnone fun e he => h e (hp.mem_iff.mp he)
    obtain ⟨ix, hix⟩ := ((build_cases rootId events).resolve_left hsum).resolve_left
      fun h => hnone (build_eq_rootNotFound_iff.mp h).2
    obtain ⟨ix', hix'⟩ := ((build_cases rootId events').resolve_left hsum').resolve_left
      fun h => hnone' (build_eq_rootNotFound_iff.mp h).2
    exact .inr ⟨ix, ix', hix, hix'⟩

/-- What the structure of an index needs: every invocation has one record, the root too. -/
structure Keyed (ix : Index) : Prop where
  ids_nodup : (ix.invocations.map Invocation.id).Nodup
  root_mem : ix.root ∈ ix.invocations

theorem Keyed.eq_of_id (h : ix.Keyed) (hi : i ∈ ix.invocations) (hj : j ∈ ix.invocations)
    (hid : i.id = j.id) : i = j :=
  List.inj_on_of_nodup_map h.ids_nodup hi hj hid

theorem Keyed.nodup (h : ix.Keyed) : ix.invocations.Nodup := h.ids_nodup.of_map

theorem keyed_of_build (h : build rootId events = .ok ix) : ix.Keyed := by
  obtain ⟨-, hi, hr, -⟩ := build_eq_ok_iff.mp h
  refine ⟨?_, List.mem_of_find?_eq_some hr⟩
  rw [hi, ids_recordsOf]
  exact keys_nodup _ _

theorem rootId_of_build (h : build rootId events = .ok ix) : ix.rootId = rootId := by
  obtain ⟨-, -, hr, -⟩ := build_eq_ok_iff.mp h
  have hid := List.find?_some hr
  simp only [beq_iff_eq] at hid
  exact hid

/-- The root's record takes in all that the root said, under whatever root. -/
theorem root_of_build (h : build rootId events = .ok ix) : ix.root =
    (Invocation.ofEvents rootId (members Event.invocationId rootId events)).settled := by
  obtain ⟨-, hi, -, -⟩ := build_eq_ok_iff.mp h
  have hid : ix.root.id = rootId := rootId_of_build h
  have hrec := (mem_recordsOf.mp (hi ▸ (keyed_of_build h).root_mem)).2
  have hown : members Event.invocationId rootId (scope rootId events) =
      members Event.invocationId rootId events := by
    rw [scope, members_filter]
    refine List.filter_eq_self.mpr ?_
    intro e he
    simp [Event.belongsTo, (mem_members.mp he).2]
  rw [hid, recordOf, if_pos rfl, hown] at hrec
  exact hrec

/-- The ids of an index are those that the events of the scope carry. -/
theorem exists_mem_invocations_of_build (h : build rootId events = .ok ix) :
    (∃ i ∈ ix.invocations, i.id = id) ↔ ∃ e ∈ scope rootId events, e.invocationId = some id := by
  obtain ⟨-, hi, -, -⟩ := build_eq_ok_iff.mp h
  rw [← List.mem_map, hi, ids_recordsOf, mem_keys]

end InvocationTrace.Index
