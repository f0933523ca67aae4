import InvocationTrace.Index
import Mathlib.Data.List.Induction

/-!
# Records in closed form

What the events of one invocation leave in its record: all that a start says comes from the last
start, the outcome from the last end that tells it or else from the first run that does, and every
run is kept. Settling takes the outcome of an invocation that has not ended from its latest run.
-/

namespace InvocationTrace

variable {es : Log} {id : String}

/-- What an invocation said itself, in the order of the log. -/
def Log.own (id : String) (events : Log) : Log := Grouping.members Event.invocationId id events

theorem Log.lines_nodup_own {events : Log} (h : (events.map Event.line).Nodup) :
    ((events.own id).map Event.line).Nodup :=
  h.sublist (List.filter_sublist.map Event.line)

def Log.last? (kind : Event.Kind) (es : Log) : Option Event :=
  (es.filter fun e => e.kind == kind).getLast?

theorem Log.last?_append (kind : Event.Kind) (es fs : Log) :
    last? kind (es ++ fs) = (last? kind fs).or (last? kind es) := by
  rw [last?, List.filter_append, List.getLast?_append, last?, last?]

theorem Log.last?_append_singleton (kind : Event.Kind) (es : Log) (e : Event) :
    last? kind (es ++ [e]) = if e.kind = kind then some e else last? kind es := by
  rw [last?_append]
  by_cases hk : e.kind = kind
  · simp [last?, hk]
  · simp [last?, hk]

def Log.lastStart? (es : Log) : Option Event :=
  (es.filter fun e => e.kind == .invocationStart).getLast?

theorem Log.lastStart?_eq_last? (es : Log) : lastStart? es = es.last? .invocationStart := rfl

theorem Log.lastStart?_append_singleton (es : Log) (e : Event) : lastStart? (es ++ [e]) =
    if e.kind = .invocationStart then some e else lastStart? es := by
  rw [lastStart?_eq_last?, lastStart?_eq_last?, last?_append_singleton]

/-- What the last event of a kind says, among those that say it. -/
def Log.lastOf? {α : Type} (kind : Event.Kind) (said : Event → Option α) (es : Log) : Option α :=
  ((es.filter fun e => e.kind == kind).filterMap said).getLast?

/-- What the first event of a kind says, among those that say it. -/
def Log.firstOf? {α : Type} (kind : Event.Kind) (said : Event → Option α) (es : Log) : Option α :=
  ((es.filter fun e => e.kind == kind).filterMap said).head?

theorem getLast?_filterMap_of_isSome {α β : Type} {said : α → Option β} {xs : List α}
    (h : ∀ x, xs.getLast? = some x → (said x).isSome = true) :
    (xs.filterMap said).getLast? = xs.getLast?.bind said := by
  rcases List.eq_nil_or_concat xs with hxs | ⟨init, x, hxs⟩
  · rw [hxs]
    rfl
  · obtain ⟨y, hy⟩ := Option.isSome_iff_exists.mp (h x (by simp [hxs]))
    simp [hxs, hy]

theorem Log.lastOf?_of_getLast? {α : Type} {kind : Event.Kind} {said : Event → Option α} {e : Event}
    (h : (es.filter fun e => e.kind == kind).getLast? = some e) (he : (said e).isSome = true) :
    lastOf? kind said es = said e := by
  rw [lastOf?, getLast?_filterMap_of_isSome, h, Option.bind_some]
  intro f hf
  rw [h] at hf
  rwa [← Option.some.inj hf]

namespace Invocation

theorem ofEvents_append_singleton (id : String) (es : List Event) (e : Event) :
    ofEvents id (es ++ [e]) = (ofEvents id es).record e := by
  rw [ofEvents, ofEvents, List.foldl_append]
  rfl

/-- Two records that say the same of the start. -/
structure SameStart (i j : Invocation) : Prop where
  startLine : i.startLine = j.startLine
  startTs : i.startTs = j.startTs
  mode : i.mode = j.mode
  depth : i.depth = j.depth
  parentInvocationId : i.parentInvocationId = j.parentInvocationId
  parentRunId : i.parentRunId = j.parentRunId
  requestedAgents : i.requestedAgents = j.requestedAgents

theorem SameStart.trans {i j k : Invocation} (hij : SameStart i j) (hjk : SameStart j k) :
    SameStart i k where
  startLine := hij.startLine.trans hjk.startLine
  startTs := hij.startTs.trans hjk.startTs
  mode := hij.mode.trans hjk.mode
  depth := hij.depth.trans hjk.depth
  parentInvocationId := hij.parentInvocationId.trans hjk.parentInvocationId
  parentRunId := hij.parentRunId.trans hjk.parentRunId
  requestedAgents := hij.requestedAgents.trans hjk.requestedAgents

theorem sameStart_record_of_start (i j : Invocation) {e : Event}
    (h : e.kind = .invocationStart) : SameStart (i.record e) (j.start e) := by
  simp only [record, h]
  constructor <;> rfl

theorem SameStart.record {i j : Invocation} (hij : SameStart i j) {e : Event}
    (h : e.kind ≠ .invocationStart) : SameStart (i.record e) j := by
  cases hk : e.kind with
  | invocationStart => exact absurd hk h
  | singleStart | parallelStart | invocationEnd | runEnd | toolEnd | other =>
    simp only [Invocation.record, hk]
    constructor <;> simp only [finish, addRun, hij.startLine, hij.startTs, hij.mode, hij.depth,
      hij.parentInvocationId, hij.parentRunId, hij.requestedAgents]

theorem sameStart_ofEvents (id : String) (es : List Event) : SameStart (ofEvents id es)
    (match Log.lastStart? es with
      | none => { id := id }
      | some e => start { id := id } e) := by
  induction es using List.reverseRecOn with
  | nil => constructor <;> rfl
  | append_singleton es e ih =>
    rw [ofEvents_append_singleton, Log.lastStart?_append_singleton]
    by_cases hk : e.kind = .invocationStart
    · rw [if_pos hk]
      exact sameStart_record_of_start (ofEvents id es) { id := id } hk
    · rw [if_neg hk]
      exact ih.record hk

theorem parentInvocationId_ofEvents (id : String) (es : List Event) :
    (ofEvents id es).parentInvocationId =
      (Log.lastStart? es).bind Event.parentInvocationId := by
  rw [(sameStart_ofEvents id es).parentInvocationId]
  cases Log.lastStart? es <;> rfl

/-- Settling changes the outcome only. -/
theorem exists_settled_eq (i : Invocation) :
    ∃ status elapsedMs, i.settled = { i with status := status, elapsedMs := elapsedMs } := by
  unfold settled
  split
  · exact ⟨i.status, i.elapsedMs, rfl⟩
  · split
    · exact ⟨i.status, i.elapsedMs, rfl⟩
    · exact ⟨_, _, rfl⟩

theorem sameStart_settled (i : Invocation) : SameStart i.settled i := by
  obtain ⟨status, elapsedMs, h⟩ := exists_settled_eq i
  rw [h]
  constructor <;> rfl

/-- A field that some events override and others fill in as long as it is unknown. -/
theorem overridden_ofEvents {α : Type} {field : Invocation → Option α}
    {overrides fills : Event → Option α} (hblank : field { id := id } = none)
    (hrecord : ∀ i e, field (record i e) = (overrides e).or ((field i).or (fills e)))
    (es : List Event) : field (ofEvents id es) =
      (es.filterMap overrides).getLast?.or (es.filterMap fills).head? := by
  induction es using List.reverseRecOn with
  | nil => exact hblank
  | append_singleton es e ih =>
    have hlast : ((es ++ [e]).filterMap overrides).getLast? =
        (overrides e).or (es.filterMap overrides).getLast? := by
      cases ho : overrides e <;> simp [ho]
    have hfirst : ((es ++ [e]).filterMap fills).head? =
        (es.filterMap fills).head?.or (fills e) := by
      cases hf : fills e <;> simp [hf]
    rw [ofEvents_append_singleton, hrecord, ih, hlast, hfirst, Option.or_assoc, Option.or_assoc]

theorem status_ofEvents (id : String) (es : List Event) : (ofEvents id es).status =
    (Log.lastOf? .invocationEnd Event.status es).or (Log.firstOf? .runEnd Event.status es) := by
  rw [Log.lastOf?, Log.firstOf?, List.filterMap_filter, List.filterMap_filter]
  refine overridden_ofEvents rfl ?_ es
  intro i e
  cases hk : e.kind <;> simp [record, hk, start, finish, addRun]

theorem elapsedMs_ofEvents (id : String) (es : List Event) : (ofEvents id es).elapsedMs =
    (Log.lastOf? .invocationEnd Event.elapsedMs es).or
      (Log.firstOf? .runEnd Event.elapsedMs es) := by
  rw [Log.lastOf?, Log.firstOf?, List.filterMap_filter, List.filterMap_filter]
  refine overridden_ofEvents rfl ?_ es
  intro i e
  cases hk : e.kind <;> simp [record, hk, start, finish, addRun]

theorem hasEnded_ofEvents (id : String) (es : List Event) :
    (ofEvents id es).hasEnded = es.any fun e => e.kind == .invocationEnd := by
  induction es using List.reverseRecOn with
  | nil => rfl
  | append_singleton es e ih =>
    rw [ofEvents_append_singleton, List.any_append, ← ih]
    cases hk : e.kind <;> simp [hasEnded, record, hk, start, finish, addRun]

theorem runs_ofEvents (id : String) (es : List Event) : (ofEvents id es).runs =
    (es.filter fun e => e.kind == .runEnd).map (Run.ofEvent id) := by
  induction es using List.reverseRecOn with
  | nil => rfl
  | append_singleton es e ih =>
    rw [ofEvents_append_singleton, List.filter_append, List.map_append, ← ih]
    cases hk : e.kind <;> simp [record, hk, start, finish, addRun]

@[simp] theorem runs_settled (i : Invocation) : i.settled.runs = i.runs := by
  unfold settled
  split
  · rfl
  · split <;> rfl

end Invocation

namespace Run

variable {runs : List Run} {r : Run}

theorem latest?_append_singleton (runs : List Run) (r : Run) : latest? (runs ++ [r]) =
    match latest? runs with
    | none => some r
    | some b => if b.line ≤ r.line then some r else some b := by
  rw [latest?, List.foldl_append]
  rfl

theorem mem_of_latest?_eq_some (h : latest? runs = some r) : r ∈ runs := by
  induction runs using List.reverseRecOn generalizing r with
  | nil => cases h
  | append_singleton runs s ih =>
    rw [latest?_append_singleton] at h
    cases hb : latest? runs with
    | none =>
      simp only [hb, Option.some.injEq] at h
      simp [h]
    | some b =>
      simp only [hb] at h
      split at h
      · simp [Option.some.inj h]
      · exact List.mem_append_left _ (Option.some.inj h ▸ ih hb)

end Run

namespace Invocation

variable {e : Event}

theorem settled_of_ended_with_status {i : Invocation} (hended : i.hasEnded = true)
    (hstatus : i.status.isSome = true) : i.settled = i := by
  rw [settled, hended, hstatus]
  rfl

theorem settled_of_not_ended {i : Invocation} (h : i.hasEnded = false) : i.settled =
    match Run.latest? i.runs with
    | none => i
    | some r => { i with status := r.status, elapsedMs := r.elapsedMs } := by
  rw [settled, h]
  rfl

theorem hasEnded_ofEvents_eq_false (h : ∀ e ∈ es, e.kind ≠ .invocationEnd) :
    (ofEvents id es).hasEnded = false := by
  rw [hasEnded_ofEvents, List.any_eq_false]
  intro e he
  simp [h e he]

/-- In increasing lines the latest run is the one that is told last. -/
theorem latest?_runs_ofEvents (hlines : (es.map Event.line).Pairwise (· < ·))
    (h : (es.filter fun e => e.kind == .runEnd).getLast? = some e) :
    Run.latest? (ofEvents id es).runs = some (Run.ofEvent id e) := by
  obtain ⟨init, hinit⟩ := List.getLast?_eq_some_iff.mp h
  have hruns : (ofEvents id es).runs = init.map (Run.ofEvent id) ++ [Run.ofEvent id e] := by
    rw [runs_ofEvents, hinit, List.map_append]
    rfl
  have hbefore : ∀ f ∈ init, f.line < e.line := by
    have hsorted : ((init ++ [e]).map Event.line).Pairwise (· < ·) :=
      hlines.sublist ((hinit ▸ List.filter_sublist).map Event.line)
    rw [List.map_append, List.pairwise_append] at hsorted
    intro f hf
    exact hsorted.2.2 f.line (List.mem_map_of_mem hf) e.line (by simp)
  rw [hruns, Run.latest?_append_singleton]
  cases hlatest : Run.latest? (init.map (Run.ofEvent id)) with
  | none => rfl
  | some r =>
    obtain ⟨f, hf, hr⟩ := List.mem_map.mp (Run.mem_of_latest?_eq_some hlatest)
    have hle : r.line ≤ (Run.ofEvent id e).line := by
      rw [← hr]
      exact Nat.le_of_lt (hbefore f hf)
    exact if_pos hle

theorem outcome_of_no_ends
    (h : ∀ f ∈ es, ¬ (f.kind = .runEnd ∨ f.kind = .invocationEnd)) :
    (ofEvents id es).settled.status = none ∧ (ofEvents id es).settled.elapsedMs = none := by
  have hruns : (es.filter fun f => f.kind == .runEnd) = [] :=
    List.filter_eq_nil_iff.mpr fun f hf hk => h f hf (.inl (beq_iff_eq.mp hk))
  have hends : (es.filter fun f => f.kind == .invocationEnd) = [] :=
    List.filter_eq_nil_iff.mpr fun f hf hk => h f hf (.inr (beq_iff_eq.mp hk))
  have hopen : (ofEvents id es).hasEnded = false :=
    hasEnded_ofEvents_eq_false fun f hf hk => h f hf (.inr hk)
  rw [settled_of_not_ended hopen, runs_ofEvents, hruns, List.map_nil, Run.latest?, List.foldl_nil]
  constructor
  · simp [status_ofEvents, Log.lastOf?, Log.firstOf?, hruns, hends]
  · simp [elapsedMs_ofEvents, Log.lastOf?, Log.firstOf?, hruns, hends]

theorem outcome_of_last_run (hlines : (es.map Event.line).Pairwise (· < ·))
    (hopen : ∀ f ∈ es, f.kind ≠ .invocationEnd)
    (h : (es.filter fun f => f.kind == .runEnd).getLast? = some e) :
    (ofEvents id es).settled.status = e.status ∧
      (ofEvents id es).settled.elapsedMs = e.elapsedMs := by
  rw [settled_of_not_ended (hasEnded_ofEvents_eq_false hopen), latest?_runs_ofEvents hlines h]
  exact ⟨rfl, rfl⟩

theorem outcome_of_last_end
    (h : (es.filter fun f => f.kind == .invocationEnd).getLast? = some e)
    (hstatus : e.status.isSome = true) (helapsed : e.elapsedMs.isSome = true) :
    (ofEvents id es).settled.status = e.status ∧
      (ofEvents id es).settled.elapsedMs = e.elapsedMs := by
  have htold : (ofEvents id es).status = e.status ∧
      (ofEvents id es).elapsedMs = e.elapsedMs := by
    rw [status_ofEvents, elapsedMs_ofEvents, Log.lastOf?_of_getLast? h hstatus,
      Log.lastOf?_of_getLast? h helapsed, Option.or_of_isSome hstatus,
      Option.or_of_isSome helapsed]
    exact ⟨rfl, rfl⟩
  have hended : (ofEvents id es).hasEnded = true := by
    obtain ⟨he, hk⟩ := List.mem_filter.mp (List.mem_of_getLast? h)
    rw [hasEnded_ofEvents, List.any_eq_true]
    exact ⟨e, he, hk⟩
  rw [settled_of_ended_with_status hended (by rw [htold.1]; exact hstatus)]
  exact htold

end Invocation

end InvocationTrace
