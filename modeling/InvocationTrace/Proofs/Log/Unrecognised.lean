import InvocationTrace.Proofs.Totals
import InvocationTrace.Proofs.Tree.Reachable
import InvocationTrace.Root.Summary

/-!
# Unrecognised events

An event of an unknown kind says nothing: it changes no record, no total and no summary. But its
invocation gets a record all the same. So such events can be left out of a log exactly if they are
not the only ones of an invocation; a record without any other event is drawn under the root.
-/

namespace InvocationTrace

open Grouping

variable {e : Event} {es events : Log} {rootId id : String} {ix : Index}

/-- The log without its unrecognised events. -/
def Log.recognised (events : Log) : Log := events.filter fun e => e.kind != .other

theorem Log.mem_recognised : e ∈ Log.recognised events ↔ e ∈ events ∧ e.kind ≠ .other := by
  simp [Log.recognised]

private theorem foldl_recognised {α : Type} {step : α → Event → α} {start : α}
    (hstep : ∀ a e, e.kind = .other → step a e = a) :
    (Log.recognised es).foldl step start = es.foldl step start := by
  rw [Log.recognised, List.foldl_filter]
  congr 1
  funext a e
  by_cases he : e.kind = .other
  · rw [hstep a e he, ite_self]
  · simp [he]

namespace Invocation

theorem record_of_other (i : Invocation) (h : e.kind = .other) : i.record e = i := by
  simp only [record, h]

theorem ofEvents_recognised (id : String) (es : List Event) :
    ofEvents id (Log.recognised es) = ofEvents id es :=
  foldl_recognised fun i _ he => i.record_of_other he

theorem ofEvents_of_recognised_eq_nil (h : Log.recognised es = []) :
    ofEvents id es = { id := id } := by
  rw [← ofEvents_recognised, h]
  rfl

end Invocation

namespace RootSummary

theorem record_of_other (s : RootSummary) (h : e.kind = .other) : s.record e = s := by
  simp only [record, h, ite_self]

theorem ofEvents?_recognised (rootId : String) (es : List Event) :
    ofEvents? rootId (Log.recognised es) = ofEvents? rootId es := by
  induction es with
  | nil => rfl
  | cons e es ih =>
    by_cases he : e.kind = .other
    · have hclosed : e.opensRoot = false := by simp [Event.opensRoot, he]
      have hskip : Log.recognised (e :: es) = Log.recognised es := by simp [Log.recognised, he]
      rw [hskip, ih]
      simp only [ofEvents?, List.dropWhile_cons, hclosed, Bool.not_false, if_true]
    · have hkeep : Log.recognised (e :: es) = e :: Log.recognised es := by
        simp [Log.recognised, he]
      rw [hkeep]
      by_cases hopen : e.opensRoot = true
      · simp only [ofEvents?, List.dropWhile_cons, hopen, Bool.not_true, Bool.false_eq_true,
          if_false]
        rw [foldl_recognised fun s _ h => s.record_of_other h]
      · simp only [Bool.not_eq_true] at hopen
        simpa only [ofEvents?, List.dropWhile_cons, hopen, Bool.not_false, if_true] using ih

theorem collect_recognised (events : Log) :
    collect (Log.recognised events) = collect events := by
  refine filterMap_groups_filter _ ?_ ?_
  · exact fun _ => rfl
  · exact fun rootId es => ofEvents?_recognised rootId es

end RootSummary

namespace Index

theorem scope_recognised (rootId : String) (events : Log) :
    scope rootId (Log.recognised events) = Log.recognised (scope rootId events) := by
  simp only [scope, Log.recognised]
  rw [List.filter_comm]

private theorem recognised_of_toolEnd (e : Event) (h : e.kind = .toolEnd) :
    (e.kind != .other) = true := by
  rw [h]
  rfl

theorem toolTimes?_recognised (es : Log) : toolTimes? (Log.recognised es) = toolTimes? es :=
  toolTimes?_filter recognised_of_toolEnd es

theorem toolCalls_recognised (es : Log) :
    (Log.recognised es).filterMap ToolCall.ofEvent? = es.filterMap ToolCall.ofEvent? :=
  toolCalls_filter recognised_of_toolEnd es

theorem recordOf_recognised (rootId id : String) (es : List Event) :
    recordOf rootId id (Log.recognised es) = recordOf rootId id es := by
  rw [recordOf, recordOf, Invocation.ofEvents_recognised]

theorem recordsOf_recognised_iff :
    recordsOf rootId (Log.recognised es) = recordsOf rootId es ↔
      ∀ e ∈ es, e.invocationId.isSome → ∃ e' ∈ es, e'.kind ≠ .other ∧
        e'.invocationId = e.invocationId := by
  constructor
  · intro h e he hid
    obtain ⟨id, hid⟩ := Option.isSome_iff_exists.mp hid
    have hkeys : keys Event.invocationId (Log.recognised es) = keys Event.invocationId es := by
      rw [← ids_recordsOf rootId, h, ids_recordsOf]
    have hmem : id ∈ keys Event.invocationId (Log.recognised es) := by
      rw [hkeys]
      exact mem_keys.mpr ⟨e, he, hid⟩
    obtain ⟨e', he', hid'⟩ := mem_keys.mp hmem
    obtain ⟨hmem', hkind⟩ := Log.mem_recognised.mp he'
    exact ⟨e', hmem', hkind, by rw [hid', hid]⟩
  · intro h
    have hkeys : keys Event.invocationId (Log.recognised es) = keys Event.invocationId es := by
      apply keys_eq_of_mem_iff
      intro id
      rw [mem_keys, mem_keys]
      constructor
      · intro hid
        obtain ⟨e, he, hid⟩ := hid
        exact ⟨e, (Log.mem_recognised.mp he).1, hid⟩
      · intro hid
        obtain ⟨e, he, hid⟩ := hid
        obtain ⟨e', he', hkind, hsame⟩ := h e he (by rw [hid]; rfl)
        exact ⟨e', Log.mem_recognised.mpr ⟨he', hkind⟩, by rw [hsame, hid]⟩
    simp only [recordsOf, groups, hkeys, List.map_map]
    apply List.map_congr_left
    intro id _
    simp only [Function.comp_apply]
    rw [Log.recognised, members_filter]
    exact recordOf_recognised rootId id _

/-- An invocation that only unrecognised events name is drawn under the root, as one of which
nothing is known. -/
theorem drawn_of_unrecognised (h : build rootId events = .ok ix) (withRuns : Bool)
    (hid : ∃ e ∈ scope rootId events, e.invocationId = some id) (hroot : id ≠ rootId)
    (hother : ∀ e ∈ scope rootId events, e.invocationId = some id → e.kind = .other) :
    { id := id } ∈ ix.drawnInvocations withRuns := by
  have hk : ix.Keyed := keyed_of_build h
  obtain ⟨i, hi, hiid⟩ := (exists_mem_invocations_of_build h).mpr hid
  obtain ⟨-, hinv, -, -⟩ := build_eq_ok_iff.mp h
  have hnone : Log.recognised (members Event.invocationId id (scope rootId events)) = [] := by
    apply List.filter_eq_nil_iff.mpr
    intro e he
    obtain ⟨hmem, hkey⟩ := mem_members.mp he
    simp [hother e hmem hkey]
  have hblank : i = { id := id } := by
    have hrec := (mem_recordsOf.mp (hinv ▸ hi)).2
    rw [hiid, recordOf, if_neg hroot] at hrec
    rw [hrec, Invocation.ofEvents_of_recognised_eq_nil hnone]
  rw [hblank] at hi
  have hparent : ix.parentOf { id := id } = ix.root.id := rfl
  exact (mem_drawnInvocations hk).mpr ⟨hi, .under hk.root_mem hparent .root⟩

/-- Summaries never depend on unrecognised events. An index and what is drawn from it do not depend
on them if it cannot be built for another reason, or else if every invocation in the scope of the
root has a recognised event there. -/
theorem build_recognised_iff (rootId : String) (events : Log) :
    RootSummary.collect (Log.recognised events) = RootSummary.collect events ∧
      (build rootId (Log.recognised events) = build rootId events ↔
        build rootId events = .error .sumOverflow ∨
          (∀ e ∈ events, e.invocationId ≠ some rootId) ∨
          ∀ e ∈ scope rootId events, ∃ e' ∈ scope rootId events,
            e'.kind ≠ .other ∧ e'.invocationId = e.invocationId) := by
  refine ⟨RootSummary.collect_recognised events, ?_⟩
  have htimes : toolTimes? (scope rootId (Log.recognised events)) =
      toolTimes? (scope rootId events) := by
    rw [scope_recognised, toolTimes?_recognised]
  rcases build_cases rootId events with hb | hb | ⟨ix, hb⟩
  · have hb' : build rootId (Log.recognised events) = .error .sumOverflow := by
      rw [build_eq_sumOverflow_iff, htimes]
      exact build_eq_sumOverflow_iff.mp hb
    simp only [hb, hb', true_or]
  · obtain ⟨hfits, hnone⟩ := build_eq_rootNotFound_iff.mp hb
    have hb' : build rootId (Log.recognised events) = .error (.rootNotFound rootId) := by
      rw [build_eq_rootNotFound_iff, htimes]
      exact ⟨hfits, fun e he => hnone e (Log.mem_recognised.mp he).1⟩
    simp only [hb, hb', true_iff]
    exact .inr (.inl hnone)
  · -- An index that is built can differ in nothing but its records.
    obtain ⟨ht, hi, hr, hc⟩ := build_eq_ok_iff.mp hb
    have hrecords : build rootId (Log.recognised events) = build rootId events ↔
        recordsOf rootId (Log.recognised (scope rootId events)) =
          recordsOf rootId (scope rootId events) := by
      rw [hb, build_eq_ok_iff, htimes, scope_recognised, toolCalls_recognised, hi]
      constructor
      · exact fun h => h.2.1.symm
      · exact fun h => ⟨ht, h.symm, hi ▸ hr, hc⟩
    rw [hrecords, recordsOf_recognised_iff]
    constructor
    · intro h
      refine .inr (.inr ?_)
      exact fun e he => h e he (mem_scope.mp he).2.2
    · intro h
      rcases h with h | h | h
      · rw [hb] at h
        cases h
      · have hroot : build rootId events = .error (.rootNotFound rootId) := by
          rw [build_eq_rootNotFound_iff, ht]
          exact ⟨by simp, h⟩
        rw [hb] at hroot
        cases hroot
      · exact fun e he _ => h e he

end Index

/-- A root, and an unrecognised event of an invocation that never starts. -/
def heartbeatLog : Log :=
  [{ line := 1, kind := .invocationStart, invocationId := some "r" },
   { line := 2, kind := .other, invocationId := some "c", rootInvocationId := some "r" }]

theorem heartbeatLog_adds_row :
    ∃ ix ix', Index.build "r" heartbeatLog = .ok ix ∧
      Index.build "r" (Log.recognised heartbeatLog) = .ok ix' ∧
      (ix.drawnInvocations false).map Invocation.id = ["r", "c"] ∧
      (ix'.drawnInvocations false).map Invocation.id = ["r"] ∧
      Index.build "c" heartbeatLog ≠ .error (.rootNotFound "c") ∧
      Index.build "c" (Log.recognised heartbeatLog) = .error (.rootNotFound "c") :=
  ⟨_, _, rfl, rfl, by cbv, by cbv, nofun, rfl⟩

end InvocationTrace
