import InvocationTrace.Proofs.Index.Runs
import InvocationTrace.Proofs.Ranking
import Mathlib.Data.List.Forall2

/-!
# What an index keeps

The runs and tool calls of an index are what the events of its scope report, each with all that its
event says and as often as it was reported. Tool calls stay in the order of the log. Runs are stored
with their invocations and sorted by line when they are taken together, which gives back the order of
the log unless the log is not in the order of its lines.
-/

namespace InvocationTrace

open Grouping

/-- A run says what the event says that reports its end. -/
structure Run.Reports (r : Run) (e : Event) : Prop where
  line : r.line = e.line
  timestamp : r.timestamp = e.timestamp
  invocationId : some r.invocationId = e.invocationId
  runId : r.runId = e.runId
  agent : r.agent = e.agent
  status : r.status = e.status
  elapsedMs : r.elapsedMs = e.elapsedMs
  depth : r.depth = e.depth
  stderrTail : r.stderrTail = e.stderrTail

/-- A tool call says what the event says that reports its end. -/
structure ToolCall.Reports (call : ToolCall) (e : Event) : Prop where
  line : call.line = e.line
  invocationId : some call.invocationId = e.invocationId
  runId : call.runId = e.runId
  agent : call.agent = e.agent
  elapsedMs : call.elapsedMs = e.elapsedMs.getD 0
  toolName : call.toolName = e.toolName
  toolSummary : call.toolSummary = e.toolSummary

/-- By line, and on one line by invocation. -/
def Run.precedes (r s : Run) : Bool :=
  if r.line = s.line then r.invocationId ≤ s.invocationId else r.line < s.line

namespace Index

/-- The events that report the end of a run of the root, in the order of the log. -/
def runEnds (rootId : String) (events : Log) : Log :=
  events.filter fun e => e.kind == .runEnd && e.belongsTo rootId && e.invocationId.isSome

/-- The events that report the end of a delegated tool call of the root, in the order of the log. -/
def callEnds (rootId : String) (events : Log) : Log :=
  events.filter fun e =>
    e.kind == .toolEnd && e.belongsTo rootId && e.invocationId.isSome && decide (1 ≤ e.depth)

end Index

namespace Run

variable {r s : Run} {e : Event}

theorem precedes_iff : r.precedes s = true ↔
    r.line < s.line ∨ r.line = s.line ∧ r.invocationId ≤ s.invocationId := by
  rw [precedes]
  split
  · rename_i hl
    simp [hl]
  · rename_i hl
    simp [hl]

theorem precedes_trans (r s t : Run) (hrs : r.precedes s = true) (hst : s.precedes t = true) :
    r.precedes t = true := by
  rw [precedes_iff] at *
  rcases hrs with hlt | ⟨hl, hid⟩
  · left
    omega
  · rcases hst with hlt | ⟨hl', hid'⟩
    · left
      omega
    · exact .inr ⟨hl.trans hl', String.le_trans hid hid'⟩

theorem precedes_total (r s : Run) : (r.precedes s || s.precedes r) = true := by
  rw [Bool.or_eq_true, precedes_iff, precedes_iff]
  rcases Nat.lt_trichotomy r.line s.line with hlt | hl | hgt
  · exact .inl (.inl hlt)
  · rcases String.le_total r.invocationId s.invocationId with hid | hid
    · exact .inl (.inr ⟨hl, hid⟩)
    · exact .inr (.inr ⟨hl.symm, hid⟩)
  · exact .inr (.inl hgt)

/-- Only runs of one invocation on one line tie. -/
theorem precedes_both (r s : Run) : (r.precedes s && s.precedes r) =
    (s.line == r.line && s.invocationId == r.invocationId) := by
  rw [Bool.eq_iff_iff, Bool.and_eq_true, Bool.and_eq_true, precedes_iff, precedes_iff,
    beq_iff_eq, beq_iff_eq]
  constructor
  · rintro ⟨hlt | ⟨hl, hid⟩, hlt' | ⟨hl', hid'⟩⟩
    · omega
    · omega
    · omega
    · exact ⟨hl', String.le_antisymm hid' hid⟩
  · rintro ⟨hl, hid⟩
    rw [hl, hid]
    exact ⟨.inr ⟨rfl, String.le_refl _⟩, .inr ⟨rfl, String.le_refl _⟩⟩

theorem isSome_ofEvent? (e : Event) :
    (ofEvent? e).isSome = (e.kind == .runEnd && e.invocationId.isSome) := by
  cases hk : e.kind <;> cases hid : e.invocationId <;> simp [ofEvent?, hk, hid]

theorem reports_of_ofEvent? (h : ofEvent? e = some r) : r.Reports e := by
  rw [ofEvent?] at h
  split at h
  · rename_i hid
    rw [← Option.some.inj h]
    constructor
    case invocationId => exact hid.symm
    all_goals rfl
  · cases h

end Run

namespace ToolCall

variable {call : ToolCall} {e : Event}

theorem isSome_ofEvent? (e : Event) : (ofEvent? e).isSome =
    (e.kind == .toolEnd && e.invocationId.isSome && decide (1 ≤ e.depth)) := by
  cases hk : e.kind <;> cases hid : e.invocationId <;> by_cases hd : 1 ≤ e.depth <;>
    simp [ofEvent?, hk, hid, hd]

theorem reports_of_ofEvent? (h : ofEvent? e = some call) : call.Reports e := by
  rw [ofEvent?] at h
  split at h
  · rename_i hid
    split at h
    · rw [← Option.some.inj h]
      constructor
      case invocationId => exact hid.symm
      all_goals rfl
    · cases h
  · cases h

end ToolCall

theorem forall₂_filterMap_filter {α β : Type} {reported? : α → Option β} {p : α → Bool}
    {R : β → α → Prop} {xs : List α} (hp : ∀ x ∈ xs, (reported? x).isSome = p x)
    (hR : ∀ x y, reported? x = some y → R y x) :
    List.Forall₂ R (xs.filterMap reported?) (xs.filter p) := by
  induction xs with
  | nil => exact .nil
  | cons x xs ih =>
    have hx : (reported? x).isSome = p x := hp x List.mem_cons_self
    have hrest := ih fun y hy => hp y (List.mem_cons_of_mem x hy)
    cases hy : reported? x with
    | none =>
      rw [hy, Option.isSome_none] at hx
      simpa [hy, ← hx] using hrest
    | some y =>
      rw [hy, Option.isSome_some] at hx
      simpa [hy, ← hx] using ⟨hR x y hy, hrest⟩

theorem map_eq_map_of_forall₂ {α β γ : Type} {R : α → β → Prop} {f : α → γ} {g : β → γ}
    {xs : List α} {ys : List β} (h : List.Forall₂ R xs ys) (hR : ∀ x y, R x y → f x = g y) :
    xs.map f = ys.map g := by
  induction h with
  | nil => rfl
  | cons hxy _ ih => rw [List.map_cons, List.map_cons, hR _ _ hxy, ih]

namespace Index

variable {rootId : String} {events : Log} {ix : Index}

theorem forall₂_runEnds (rootId : String) (events : Log) :
    List.Forall₂ Run.Reports ((scope rootId events).filterMap Run.ofEvent?)
      (runEnds rootId events) := by
  have hends : (scope rootId events).filter (fun e => e.kind == .runEnd) =
      runEnds rootId events := by
    simp only [scope, List.filter_filter, runEnds, Bool.and_assoc]
  rw [← hends]
  refine forall₂_filterMap_filter ?_ fun _ _ => Run.reports_of_ofEvent?
  intro e he
  rw [Run.isSome_ofEvent?, (mem_scope.mp he).2.2, Bool.and_true]

theorem forall₂_callEnds (rootId : String) (events : Log) :
    List.Forall₂ ToolCall.Reports ((scope rootId events).filterMap ToolCall.ofEvent?)
      (callEnds rootId events) := by
  have hends : (scope rootId events).filter (fun e => e.kind == .toolEnd && decide (1 ≤ e.depth)) =
      callEnds rootId events := by
    simp only [scope, List.filter_filter, callEnds, Bool.and_assoc, Bool.and_left_comm,
      Bool.and_comm]
  rw [← hends]
  refine forall₂_filterMap_filter ?_ fun _ _ => ToolCall.reports_of_ofEvent?
  intro e he
  rw [ToolCall.isSome_ofEvent?, (mem_scope.mp he).2.2, Bool.and_true]

theorem lines_reported (rootId : String) (events : Log) :
    ((scope rootId events).filterMap Run.ofEvent?).map Run.line =
      (runEnds rootId events).map Event.line :=
  map_eq_map_of_forall₂ (forall₂_runEnds rootId events) fun _ _ hr => hr.line

/-- The runs of one invocation are reported by its own events. -/
theorem filter_reported (id : String) (es : Log) :
    (es.filterMap Run.ofEvent?).filter (fun r => r.invocationId == id) =
      (members Event.invocationId id es).filterMap Run.ofEvent? := by
  rw [List.filter_filterMap, members, List.filterMap_filter]
  apply List.filterMap_congr
  intro e _
  cases hid : e.invocationId with
  | none => simp [Run.ofEvent?, hid]
  | some id' =>
    cases hk : e.kind with
    | runEnd => by_cases h : id' = id <;> simp [Run.ofEvent?, hk, hid, Run.ofEvent, h]
    | invocationStart | singleStart | parallelStart | invocationEnd | toolEnd | other =>
      simp [Run.ofEvent?, hk]

/-- Runs are stored in the order of their invocations. -/
theorem flatMap_runs_pairwise (h : build rootId events = .ok ix) :
    (ix.invocations.flatMap Invocation.runs).Pairwise fun r s =>
      r.invocationId ≤ s.invocationId := by
  rw [flatMap_runs_of_build h, List.pairwise_filterMap]
  refine (flatMap_groups_pairwise Event.invocationId (scope rootId events)).imp ?_
  intro e f hle r hr s hs
  exact hle _ (Run.reports_of_ofEvent? hr).invocationId.symm _
    (Run.reports_of_ofEvent? hs).invocationId.symm

theorem filter_flatMap_runs (h : build rootId events = .ok ix) (id : String) :
    (ix.invocations.flatMap Invocation.runs).filter (fun r => r.invocationId == id) =
      ((scope rootId events).filterMap Run.ofEvent?).filter fun r => r.invocationId == id := by
  rw [flatMap_runs_of_build h, filter_reported, filter_reported, members_flatMap_groups]

/-- Sorting the stored runs by line is sorting the reported ones by line and invocation. -/
theorem runs_eq_mergeSort (h : build rootId events = .ok ix) :
    ix.runs = ((scope rootId events).filterMap Run.ofEvent?).mergeSort Run.precedes := by
  refine eq_of_pairwise_of_filter_eq Run.precedes_total ?_
    (List.pairwise_mergeSort Run.precedes_trans Run.precedes_total _) ?_
  · refine (pairwise_mergeSort_of_pairwise Run.byLine_trans Run.byLine_total
      (flatMap_runs_pairwise h)).imp ?_
    intro r s hrs
    rw [Run.byLine_iff, Run.byLine_iff] at hrs
    rw [Run.precedes_iff]
    rcases Nat.lt_or_eq_of_le hrs.1 with hlt | hl
    · exact .inl hlt
    · exact .inr ⟨hl, hrs.2 (Nat.le_of_eq hl.symm)⟩
  · intro r
    simp only [Run.precedes_both]
    rw [runs, filter_mergeSort_of_tied Run.byLine_trans Run.byLine_total,
      filter_mergeSort_of_tied Run.precedes_trans Run.precedes_total]
    · rw [← List.filter_filter, ← List.filter_filter, filter_flatMap_runs h]
    · intro s t hs ht
      simp only [Bool.and_eq_true, beq_iff_eq] at hs ht
      rw [Run.precedes_iff, hs.1, hs.2, ht.1, ht.2]
      exact .inr ⟨rfl, String.le_refl _⟩
    · intro s t hs ht
      simp only [Bool.and_eq_true, beq_iff_eq] at hs ht
      rw [Run.byLine_iff, hs.1, ht.1]

/-- In a log that is in the order of its lines, that is the order of the runs. -/
theorem runs_eq_reported (h : build rootId events = .ok ix)
    (hlines : (events.map Event.line).Pairwise (· < ·)) :
    ix.runs = (scope rootId events).filterMap Run.ofEvent? := by
  rw [runs_eq_mergeSort h]
  apply List.mergeSort_of_pairwise
  have hsorted : (((scope rootId events).filterMap Run.ofEvent?).map Run.line).Pairwise
      (· < ·) := by
    rw [lines_reported]
    exact hlines.sublist (List.filter_sublist.map Event.line)
  refine (List.pairwise_map.mp hsorted).imp ?_
  intro r s hlt
  exact Run.precedes_iff.mpr (.inl hlt)

/-- An index has the runs and the delegated tool calls that the events in its scope report, and no
others. -/
theorem runs_and_calls_reported (h : build rootId events = .ok ix) :
    (∃ reported, List.Forall₂ Run.Reports reported (runEnds rootId events) ∧
      ix.runs = reported.mergeSort Run.precedes ∧
      ((events.map Event.line).Pairwise (· < ·) → ix.runs = reported)) ∧
      List.Forall₂ ToolCall.Reports ix.toolCalls (callEnds rootId events) := by
  refine ⟨⟨_, forall₂_runEnds rootId events, runs_eq_mergeSort h, runs_eq_reported h⟩, ?_⟩
  obtain ⟨-, -, -, hcalls⟩ := build_eq_ok_iff.mp h
  rw [hcalls]
  exact forall₂_callEnds rootId events

end Index

/-- Two invocations whose runs end in turn, one of them twice under one run id, and a tool call of
the root beside one of its child. -/
def alternatingLog : Log :=
  [{ line := 1, kind := .invocationStart, invocationId := some "r" },
   { line := 2, kind := .runEnd, invocationId := some "b", rootInvocationId := some "r",
     runId := some "again", depth := 1, status := some "failure" },
   { line := 3, kind := .runEnd, invocationId := some "a", rootInvocationId := some "r",
     runId := some "once", depth := 1 },
   { line := 4, kind := .toolEnd, invocationId := some "r" },
   { line := 5, kind := .toolEnd, invocationId := some "b", rootInvocationId := some "r",
     depth := 1 },
   { line := 6, kind := .runEnd, invocationId := some "b", rootInvocationId := some "r",
     runId := some "again", depth := 1, status := some "success" }]

theorem runs_and_calls_reported_alternatingLog :
    ∃ ix, Index.build "r" alternatingLog = .ok ix ∧
      ix.runs.map Run.runId = [some "again", some "once", some "again"] ∧
      ix.runs.map Run.status = [some "failure", none, some "success"] ∧
      ix.toolCalls.map ToolCall.line = [5] := by
  have hbuild : Index.build "r" alternatingLog = .ok _ := rfl
  obtain ⟨⟨reported, hreported, -, hruns⟩, hcalls⟩ := Index.runs_and_calls_reported hbuild
  rw [← hruns (by decide)] at hreported
  exact ⟨_, hbuild, map_eq_map_of_forall₂ hreported fun _ _ hr => hr.runId,
    map_eq_map_of_forall₂ hreported fun _ _ hr => hr.status,
    map_eq_map_of_forall₂ hcalls fun _ _ hr => hr.line⟩

end InvocationTrace
