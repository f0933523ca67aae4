import InvocationTrace.Proofs.Index.Contents
import InvocationTrace.Proofs.Index.Record

/-!
# Fields of a record

Every field of a record follows one of three policies. It is restated by each event of one kind, or
overridden by each event that tells it, or filled in by the first event that tells it. The agent is
overridden by single starts and filled in by starts, ends and runs; status and time are overridden by
ends and filled in by runs. So each field is a query on the invocation's own events, and the events of
other invocations have no part in it.
-/

namespace InvocationTrace

variable {rootId id : String} {events es : Log} {ix : Index} {e : Event} {i : Invocation}

/-- The agent that an event tells as long as no agent is known. A start in single mode tells the
first agent that is requested. -/
def Event.assumedAgent? (e : Event) : Option String :=
  match e.kind with
  | .invocationStart => if e.mode = some .single then e.requestedAgents.head? else none
  | .invocationEnd | .runEnd => e.agent
  | _ => none

namespace Invocation

/-- What a record tells of the events that it was made from; its outcome apart, which settling may
change. -/
structure Tells (i : Invocation) (es : Log) : Prop where
  startLine : i.startLine = (es.last? .invocationStart).map Event.line
  startTs : i.startTs = (es.last? .invocationStart).bind Event.timestamp
  mode : i.mode = (es.last? .invocationStart).bind Event.mode
  depth : i.depth = (es.last? .invocationStart).map Event.depth
  parentInvocationId :
    i.parentInvocationId = (es.last? .invocationStart).bind Event.parentInvocationId
  parentRunId : i.parentRunId = (es.last? .invocationStart).bind Event.parentRunId
  requestedAgents :
    i.requestedAgents = ((es.last? .invocationStart).map Event.requestedAgents).getD []
  parallelTaskCount : i.parallelTaskCount = (es.last? .parallelStart).bind Event.taskCount
  endLine : i.endLine = (es.last? .invocationEnd).map Event.line
  endTs : i.endTs = (es.last? .invocationEnd).bind Event.timestamp
  taskCount : i.taskCount = Log.lastOf? .invocationEnd Event.taskCount es
  successCount : i.successCount = Log.lastOf? .invocationEnd Event.successCount es
  agent : i.agent =
    (Log.lastOf? .singleStart Event.agent es).or (es.filterMap Event.assumedAgent?).head?

/-- A field that the events of one kind restate, even where they do not tell it. -/
theorem restated_ofEvents {α : Type} {field : Invocation → Option α} {kind : Event.Kind}
    {said : Event → Option α} (hblank : field { id := id } = none)
    (hrecord : ∀ i e, field (record i e) = if e.kind = kind then said e else field i)
    (es : List Event) : field (ofEvents id es) = (Log.last? kind es).bind said := by
  induction es using List.reverseRecOn with
  | nil => exact hblank
  | append_singleton es e ih =>
    rw [ofEvents_append_singleton, hrecord, ih, Log.last?_append_singleton]
    split <;> rfl

/-- What one event does to the fields that a start does not restate. -/
theorem fields_record (i : Invocation) (e : Event) :
    (i.record e).parallelTaskCount =
        (if e.kind = .parallelStart then e.taskCount else i.parallelTaskCount) ∧
      (i.record e).endLine = (if e.kind = .invocationEnd then some e.line else i.endLine) ∧
      (i.record e).endTs = (if e.kind = .invocationEnd then e.timestamp else i.endTs) ∧
      (i.record e).taskCount =
        (if e.kind = .invocationEnd then e.taskCount else none).or i.taskCount ∧
      (i.record e).successCount =
        (if e.kind = .invocationEnd then e.successCount else none).or i.successCount ∧
      (i.record e).agent =
        (if e.kind = .singleStart then e.agent else none).or (i.agent.or e.assumedAgent?) := by
  cases hk : e.kind with
  | invocationStart =>
    by_cases hm : e.mode = some .single <;>
      simp [record, hk, Invocation.start, Event.assumedAgent?, hm]
  | invocationEnd => simp [record, hk, finish, Event.assumedAgent?]
  | runEnd => simp [record, hk, addRun, Event.assumedAgent?]
  | singleStart | parallelStart | toolEnd | other => simp [record, hk, Event.assumedAgent?]

/-- A field that the events of one kind override where they tell it. -/
theorem overridden_by_kind {α : Type} {field : Invocation → Option α} {kind : Event.Kind}
    {said : Event → Option α} (hblank : field { id := id } = none)
    (hrecord : ∀ i e, field (record i e) = (if e.kind = kind then said e else none).or (field i))
    (es : List Event) : field (ofEvents id es) = Log.lastOf? kind said es := by
  -- Such a field is never filled in.
  have hnothing : ∀ i e, field (record i e) =
      (if e.kind = kind then said e else none).or ((field i).or none) := by
    intro i e
    rw [hrecord, Option.or_none]
  rw [overridden_ofEvents hblank hnothing]
  simp [Log.lastOf?, List.filterMap_filter]

theorem tells_ofEvents (id : String) (es : Log) : (ofEvents id es).Tells es := by
  have hstart := sameStart_ofEvents id es
  rw [Log.lastStart?_eq_last?] at hstart
  have hfields := fields_record
  simp only [forall_and] at hfields
  obtain ⟨hparallel, hline, hts, htasks, hsuccesses, hagent⟩ := hfields
  constructor
  case startLine => rw [hstart.startLine]; cases es.last? .invocationStart <;> rfl
  case startTs => rw [hstart.startTs]; cases es.last? .invocationStart <;> rfl
  case mode => rw [hstart.mode]; cases es.last? .invocationStart <;> rfl
  case depth => rw [hstart.depth]; cases es.last? .invocationStart <;> rfl
  case parentInvocationId =>
    rw [hstart.parentInvocationId]; cases es.last? .invocationStart <;> rfl
  case parentRunId => rw [hstart.parentRunId]; cases es.last? .invocationStart <;> rfl
  case requestedAgents => rw [hstart.requestedAgents]; cases es.last? .invocationStart <;> rfl
  case parallelTaskCount => exact restated_ofEvents rfl hparallel es
  case endLine =>
    rw [Option.map_eq_bind]
    exact restated_ofEvents rfl hline es
  case endTs => exact restated_ofEvents rfl hts es
  case taskCount => exact overridden_by_kind rfl htasks es
  case successCount => exact overridden_by_kind rfl hsuccesses es
  case agent =>
    rw [overridden_ofEvents rfl hagent, Log.lastOf?, List.filterMap_filter]
    simp only [beq_iff_eq]

theorem Tells.settled (h : i.Tells es) : i.settled.Tells es := by
  obtain ⟨status, elapsedMs, hi⟩ := exists_settled_eq i
  rw [hi]
  cases h
  constructor <;> assumption

end Invocation

namespace Index

theorem tells_recordOf (rootId id : String) (es : Log) : (recordOf rootId id es).Tells es := by
  rw [recordOf]
  split
  · exact (Invocation.tells_ofEvents id es).settled
  · exact Invocation.tells_ofEvents id es

/-- Only the record of the root is settled. -/
theorem outcome_recordOf (hne : id ≠ rootId) (es : Log) :
    (recordOf rootId id es).status =
        (Log.lastOf? .invocationEnd Event.status es).or (Log.firstOf? .runEnd Event.status es) ∧
      (recordOf rootId id es).elapsedMs =
        (Log.lastOf? .invocationEnd Event.elapsedMs es).or
          (Log.firstOf? .runEnd Event.elapsedMs es) := by
  rw [recordOf, if_neg hne]
  exact ⟨Invocation.status_ofEvents id es, Invocation.elapsedMs_ofEvents id es⟩

/-- An index has one record for each id that an event of the root carries, and every record is made
from the root's events with its id and from nothing else. -/
theorem records_tell (h : build rootId events = .ok ix) :
    (ix.invocations.map Invocation.id).Nodup ∧
      (∀ id, id ∈ ix.invocations.map Invocation.id ↔
        ∃ e ∈ events, e.belongsTo rootId = true ∧ e.invocationId = some id) ∧
      (∀ i ∈ ix.invocations, i.Tells ((scope rootId events).own i.id)) ∧
      (∀ i ∈ ix.invocations, i.id ≠ rootId →
        i.status = (Log.lastOf? .invocationEnd Event.status ((scope rootId events).own i.id)).or
            (Log.firstOf? .runEnd Event.status ((scope rootId events).own i.id)) ∧
          i.elapsedMs =
            (Log.lastOf? .invocationEnd Event.elapsedMs ((scope rootId events).own i.id)).or
              (Log.firstOf? .runEnd Event.elapsedMs ((scope rootId events).own i.id))) ∧
      ∀ events' ix', build rootId events' = .ok ix' →
        ∀ i ∈ ix.invocations, ∀ j ∈ ix'.invocations, i.id = j.id →
          (scope rootId events).own i.id = (scope rootId events').own i.id → i = j := by
  have hrecord : ∀ {events ix}, build rootId events = .ok ix → ∀ i ∈ ix.invocations,
      i = recordOf rootId i.id ((scope rootId events).own i.id) := by
    intro events ix h i hi
    obtain ⟨-, hinv, -, -⟩ := build_eq_ok_iff.mp h
    exact (mem_recordsOf.mp (hinv ▸ hi)).2
  refine ⟨(keyed_of_build h).ids_nodup, ?_, ?_, ?_, ?_⟩
  · intro id
    rw [List.mem_map, exists_mem_invocations_of_build h]
    constructor
    · rintro ⟨e, he, hid⟩
      obtain ⟨hmem, hbelongs, -⟩ := mem_scope.mp he
      exact ⟨e, hmem, by simpa [Event.belongsTo] using hbelongs, hid⟩
    · rintro ⟨e, hmem, hbelongs, hid⟩
      exact ⟨e, mem_scope.mpr ⟨hmem, by simpa [Event.belongsTo] using hbelongs, by simp [hid]⟩, hid⟩
  · intro i hi
    have ht := tells_recordOf rootId i.id ((scope rootId events).own i.id)
    rwa [← hrecord h i hi] at ht
  · intro i hi hne
    have ho := outcome_recordOf hne ((scope rootId events).own i.id)
    rwa [← hrecord h i hi] at ho
  · intro events' ix' h' i hi j hj hid hown
    calc
      i = recordOf rootId i.id ((scope rootId events).own i.id) := hrecord h i hi
      _ = recordOf rootId j.id ((scope rootId events').own j.id) := by rw [hown, hid]
      _ = j := (hrecord h' j hj).symm

end Index

/-- A child that runs before it starts, starts and ends twice, and whose agent is first assumed and
then told. -/
def restlessLog : Log :=
  [{ line := 1, kind := .invocationStart, invocationId := some "r" },
   { line := 2, kind := .runEnd, invocationId := some "c", rootInvocationId := some "r",
     depth := 1, agent := some "worker", elapsedMs := some 3 },
   { line := 3, kind := .invocationStart, invocationId := some "c", rootInvocationId := some "r",
     parentInvocationId := some "r", mode := some .single, requestedAgents := ["scout"] },
   { line := 4, kind := .parallelStart, invocationId := some "c", rootInvocationId := some "r",
     taskCount := some 4 },
   { line := 5, kind := .invocationEnd, invocationId := some "c", rootInvocationId := some "r",
     status := some "failure", taskCount := some 2 },
   { line := 6, kind := .singleStart, invocationId := some "c", rootInvocationId := some "r",
     agent := some "lead" },
   { line := 7, kind := .parallelStart, invocationId := some "c", rootInvocationId := some "r" },
   { line := 8, kind := .invocationEnd, invocationId := some "c", rootInvocationId := some "r",
     elapsedMs := some 9, successCount := some 1 },
   { line := 9, kind := .invocationStart, invocationId := some "c", rootInvocationId := some "r",
     requestedAgents := ["reader"] }]

theorem records_tell_restlessLog :
    ∃ ix i, Index.build "r" restlessLog = .ok ix ∧ i ∈ ix.invocations ∧ i.id = "c" ∧
      i.startLine = some 9 ∧ i.parentInvocationId = none ∧ i.requestedAgents = ["reader"] ∧
      i.agent = some "lead" ∧ i.parallelTaskCount = none ∧ i.endLine = some 8 ∧
      i.taskCount = some 2 ∧ i.status = some "failure" ∧ i.elapsedMs = some 9 := by
  have hbuild : Index.build "r" restlessLog = .ok _ := rfl
  obtain ⟨-, hids, htells, hout, -⟩ := Index.records_tell hbuild
  obtain ⟨i, hi, hid⟩ := List.mem_map.mp ((hids "c").mpr (by decide))
  have ht := htells i hi
  obtain ⟨hstatus, helapsed⟩ := hout i hi (by rw [hid]; decide)
  rw [hid] at ht hstatus helapsed
  exact ⟨_, i, hbuild, hi, hid, ht.startLine, ht.parentInvocationId, ht.requestedAgents, ht.agent,
    ht.parallelTaskCount, ht.endLine, ht.taskCount, hstatus, helapsed⟩

end InvocationTrace
