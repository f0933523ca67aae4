import InvocationTrace.Root.Summary
import InvocationTrace.Proofs.Grouping
import Mathlib.Data.List.Induction
import Mathlib.Data.List.TakeWhile

/-!
# Summaries in closed form

What the events of a root leave in its summary after the one that opens it: the root's own ends
override one another, and the run ends of the others are counted.
-/

namespace InvocationTrace

open Grouping

/-- Whether an event ends the root or one of its own runs. -/
def Event.endsRoot (rootId : String) (e : Event) : Bool :=
  e.invocationId == some rootId && (e.kind == .runEnd || e.kind == .invocationEnd)

/-- Whether an event ends a delegated run that is not the root's own. -/
def Event.endsChildRun (rootId : String) (e : Event) : Bool :=
  e.kind == .runEnd && e.invocationId != some rootId && decide (0 < e.depth)

/-- Whether an event starts an invocation that is not the root itself. -/
def Event.startsChild (rootId : String) (e : Event) : Bool :=
  e.kind == .invocationStart && e.invocationId != some rootId

/-- The last event that ends the root or one of its own runs. -/
def Log.lastEnd? (rootId : String) (events : Log) : Option Event :=
  (events.filter (Event.endsRoot rootId)).getLast?

namespace RootSummary

variable {rootId : String} {es events : Log}

/-- Two summaries that say the same of how the root was opened. -/
structure SameOpening (s t : RootSummary) : Prop where
  rootId : s.rootId = t.rootId
  startLine : s.startLine = t.startLine
  startTs : s.startTs = t.startTs
  mode : s.mode = t.mode
  agent : s.agent = t.agent

theorem SameOpening.trans {s t u : RootSummary} (hst : SameOpening s t) (htu : SameOpening t u) :
    SameOpening s u where
  rootId := hst.rootId.trans htu.rootId
  startLine := hst.startLine.trans htu.startLine
  startTs := hst.startTs.trans htu.startTs
  mode := hst.mode.trans htu.mode
  agent := hst.agent.trans htu.agent

/-- An event ends the root, ends a run within it, or at most adds a child. -/
theorem record_cases (s : RootSummary) (e : Event) :
    (e.endsRoot s.rootId = true ∧ e.endsChildRun s.rootId = false ∧ s.record e = s.finish e) ∨
    (e.endsRoot s.rootId = false ∧ e.endsChildRun s.rootId = true ∧
      s.record e = { s with
        childRuns := s.childRuns + 1
        childFailures := s.childFailures + if Status.isFailure e.status then 1 else 0 }) ∨
    (e.endsRoot s.rootId = false ∧ e.endsChildRun s.rootId = false ∧
      ∃ n, s.record e = { s with childInvocations := n }) := by
  by_cases hown : e.invocationId = some s.rootId
  · have hchild : e.endsChildRun s.rootId = false := by simp [Event.endsChildRun, hown]
    cases hk : e.kind with
    | runEnd | invocationEnd =>
      exact .inl ⟨by simp [Event.endsRoot, hown, hk], hchild, by simp [record, hown, hk]⟩
    | invocationStart | singleStart | parallelStart | toolEnd | other =>
      exact .inr (.inr ⟨by simp [Event.endsRoot, hk], hchild, s.childInvocations,
        by simp [record, hown, hk]⟩)
  · have hroot : e.endsRoot s.rootId = false := by simp [Event.endsRoot, hown]
    cases hk : e.kind with
    | runEnd =>
      by_cases hd : 0 < e.depth
      · refine .inr (.inl ⟨hroot, by simp [Event.endsChildRun, hown, hk, hd], ?_⟩)
        simp [record, countRun, hown, hk, hd]
      · refine .inr (.inr ⟨hroot, by simp [Event.endsChildRun, hd], s.childInvocations, ?_⟩)
        simp [record, countRun, hown, hk, hd]
    | invocationStart =>
      exact .inr (.inr ⟨hroot, by simp [Event.endsChildRun, hk], s.childInvocations + 1,
        by simp [record, hown, hk]⟩)
    | invocationEnd | singleStart | parallelStart | toolEnd | other =>
      exact .inr (.inr ⟨hroot, by simp [Event.endsChildRun, hk], s.childInvocations,
        by simp [record, hown, hk]⟩)

theorem sameOpening_record (s : RootSummary) (e : Event) : SameOpening (s.record e) s := by
  rcases record_cases s e with ⟨-, -, h⟩ | ⟨-, -, h⟩ | ⟨-, -, n, h⟩
  · rw [h]
    constructor <;> rfl
  · rw [h]
    constructor <;> rfl
  · rw [h]
    constructor <;> rfl

theorem sameOpening_foldl (s : RootSummary) (es : List Event) :
    SameOpening (es.foldl record s) s := by
  induction es generalizing s with
  | nil => constructor <;> rfl
  | cons e es ih =>
    have hrest : SameOpening (es.foldl record (s.record e)) (s.record e) := ih (s.record e)
    exact hrest.trans (sameOpening_record s e)

private theorem foldl_append_singleton (s : RootSummary) (es : List Event) (e : Event) :
    (es ++ [e]).foldl record s = (es.foldl record s).record e := by
  rw [List.foldl_append]
  rfl

theorem outcome_record (s : RootSummary) (e : Event) :
    (s.record e).status = (if e.endsRoot s.rootId then e.status.getD s.status else s.status) ∧
      (s.record e).elapsedMs =
        if e.endsRoot s.rootId then e.elapsedMs.or s.elapsedMs else s.elapsedMs := by
  rcases record_cases s e with ⟨hroot, -, h⟩ | ⟨hroot, -, h⟩ | ⟨hroot, -, n, h⟩
  · rw [h, hroot]
    exact ⟨rfl, rfl⟩
  · rw [h, hroot]
    exact ⟨rfl, rfl⟩
  · rw [h, hroot]
    exact ⟨rfl, rfl⟩

theorem counts_record (s : RootSummary) (e : Event) :
    (s.record e).childRuns = s.childRuns + (if e.endsChildRun s.rootId then 1 else 0) ∧
      (s.record e).childFailures = s.childFailures +
        if e.endsChildRun s.rootId && Status.isFailure e.status then 1 else 0 := by
  rcases record_cases s e with ⟨-, hchild, h⟩ | ⟨-, hchild, h⟩ | ⟨-, hchild, n, h⟩
  · rw [h, hchild]
    exact ⟨rfl, rfl⟩
  · rw [h, hchild]
    exact ⟨rfl, rfl⟩
  · rw [h, hchild]
    exact ⟨rfl, rfl⟩

theorem childInvocations_record (s : RootSummary) (e : Event) :
    (s.record e).childInvocations =
      s.childInvocations + if e.startsChild s.rootId then 1 else 0 := by
  by_cases hown : e.invocationId = some s.rootId
  · cases hk : e.kind <;> simp [record, hown, hk, finish, Event.startsChild]
  · cases hk : e.kind with
    | runEnd => by_cases hd : 0 < e.depth <;> simp [record, countRun, hown, hk, hd, Event.startsChild]
    | invocationStart => simp [record, hown, hk, Event.startsChild]
    | singleStart | parallelStart | invocationEnd | toolEnd | other =>
      simp [record, hown, hk, Event.startsChild]

theorem end_record (s : RootSummary) (e : Event) :
    (s.record e).endLine = (if e.endsRoot s.rootId then some e.line else s.endLine) ∧
      (s.record e).endTs = if e.endsRoot s.rootId then e.timestamp else s.endTs := by
  rcases record_cases s e with ⟨hroot, -, h⟩ | ⟨hroot, -, h⟩ | ⟨hroot, -, n, h⟩
  · rw [h, hroot]
    exact ⟨rfl, rfl⟩
  · rw [h, hroot]
    exact ⟨rfl, rfl⟩
  · rw [h, hroot]
    exact ⟨rfl, rfl⟩

theorem status_foldl (s : RootSummary) (es : List Event) : (es.foldl record s).status =
    (((es.filter (Event.endsRoot s.rootId)).filterMap Event.status).getLast?).getD s.status := by
  induction es using List.reverseRecOn with
  | nil => rfl
  | append_singleton es e ih =>
    rw [foldl_append_singleton, (outcome_record _ e).1, ih, (sameOpening_foldl s es).rootId]
    by_cases he : e.endsRoot s.rootId = true
    · cases hs : e.status <;> simp [he, hs]
    · simp [he]

theorem elapsedMs_foldl (s : RootSummary) (es : List Event) : (es.foldl record s).elapsedMs =
    (((es.filter (Event.endsRoot s.rootId)).filterMap Event.elapsedMs).getLast?).or
      s.elapsedMs := by
  induction es using List.reverseRecOn with
  | nil => rfl
  | append_singleton es e ih =>
    rw [foldl_append_singleton, (outcome_record _ e).2, ih, (sameOpening_foldl s es).rootId]
    by_cases he : e.endsRoot s.rootId = true
    · cases hs : e.elapsedMs <;> simp [he, hs]
    · simp [he]

/-- A field that every end of the root restates, even where it does not tell it. -/
private theorem restated_foldl {α : Type} {field : RootSummary → Option α}
    {said : Event → Option α}
    (hrecord : ∀ s e, field (record s e) = if e.endsRoot s.rootId then said e else field s)
    (s : RootSummary) (es : List Event) :
    field (es.foldl record s) = (Log.lastEnd? s.rootId es).elim (field s) said := by
  induction es using List.reverseRecOn with
  | nil => rfl
  | append_singleton es e ih =>
    rw [foldl_append_singleton, hrecord, ih, (sameOpening_foldl s es).rootId]
    by_cases he : e.endsRoot s.rootId = true
    · simp [Log.lastEnd?, he]
    · simp [Log.lastEnd?, he]

theorem endLine_foldl (s : RootSummary) (es : List Event) : (es.foldl record s).endLine =
    ((es.filter (Event.endsRoot s.rootId)).getLast?.map Event.line).or s.endLine := by
  rw [restated_foldl fun s e => (end_record s e).1, Log.lastEnd?]
  cases (es.filter (Event.endsRoot s.rootId)).getLast? <;> rfl

theorem endTs_foldl (s : RootSummary) (es : List Event) : (es.foldl record s).endTs =
    (Log.lastEnd? s.rootId es).elim s.endTs Event.timestamp :=
  restated_foldl (fun s e => (end_record s e).2) s es

private theorem counted_foldl {count : RootSummary → Nat} {counts : String → Event → Bool}
    (hrecord : ∀ s e, count (record s e) = count s + if counts s.rootId e then 1 else 0)
    (s : RootSummary) (es : List Event) :
    count (es.foldl record s) = count s + es.countP (counts s.rootId) := by
  induction es using List.reverseRecOn with
  | nil => rfl
  | append_singleton es e ih =>
    rw [foldl_append_singleton, hrecord, ih, (sameOpening_foldl s es).rootId, List.countP_append,
      List.countP_singleton, Nat.add_assoc]

theorem childRuns_foldl (s : RootSummary) (es : List Event) : (es.foldl record s).childRuns =
    s.childRuns + es.countP (Event.endsChildRun s.rootId) :=
  counted_foldl (fun s e => (counts_record s e).1) s es

theorem childFailures_foldl (s : RootSummary) (es : List Event) :
    (es.foldl record s).childFailures = s.childFailures +
      es.countP fun e => e.endsChildRun s.rootId && Status.isFailure e.status :=
  @counted_foldl childFailures
    (fun rootId e => e.endsChildRun rootId && Status.isFailure e.status)
    (fun s e => (counts_record s e).2) s es

theorem childInvocations_foldl (s : RootSummary) (es : List Event) :
    (es.foldl record s).childInvocations =
      s.childInvocations + es.countP (Event.startsChild s.rootId) :=
  counted_foldl childInvocations_record s es

/-- A summary starts with the first event that opens the root, and goes on with what follows it. -/
theorem exists_opening_of_ofEvents? {s : RootSummary} (h : ofEvents? rootId es = some s) :
    ∃ before first rest, es = before ++ first :: rest ∧
      (∀ e ∈ before, e.opensRoot = false) ∧ first.opensRoot = true ∧
      s = rest.foldl record (opened rootId first) := by
  rw [ofEvents?] at h
  cases hd : es.dropWhile (fun e => !e.opensRoot) with
  | nil =>
    rw [hd] at h
    cases h
  | cons first rest =>
    rw [hd] at h
    have hopens : first.opensRoot = true := by
      have hhead := List.head?_dropWhile_not (fun e : Event => !e.opensRoot) es
      simpa [hd] using hhead
    refine ⟨es.takeWhile fun e => !e.opensRoot, first, rest, ?_, ?_, hopens,
      (Option.some.inj h).symm⟩
    · rw [← hd, List.takeWhile_append_dropWhile]
    · intro e he
      simpa using List.mem_takeWhile_imp he

/-- Further events are recorded in the summary that there is, or may open the root that is not. -/
theorem ofEvents?_append (rootId : String) (es fs : List Event) : ofEvents? rootId (es ++ fs) =
    match ofEvents? rootId es with
    | none => ofEvents? rootId fs
    | some s => some (fs.foldl record s) := by
  rw [ofEvents?, ofEvents?, List.dropWhile_append]
  cases hd : es.dropWhile (fun e => !e.opensRoot) with
  | nil => simp [ofEvents?]
  | cons first rest => simp

theorem rootId_of_ofEvents? {s : RootSummary} (h : ofEvents? rootId es = some s) :
    s.rootId = rootId := by
  rw [ofEvents?] at h
  split at h
  · cases h
  · rw [← Option.some.inj h]
    exact (sameOpening_foldl _ _).rootId

private theorem find?_filterMap_of_rootId {summary? : String → Option RootSummary}
    (hid : ∀ k s, summary? k = some s → s.rootId = k) (rootId : String) (ks : List String) :
    (ks.filterMap summary?).find? (fun s => s.rootId == rootId) =
      if rootId ∈ ks then summary? rootId else none := by
  induction ks with
  | nil => rfl
  | cons k ks ih =>
    cases hs : summary? k with
    | none =>
      rw [List.filterMap_cons_none hs, ih]
      by_cases hk : rootId = k
      · simp [hk, hs]
      · simp [hk]
    | some s =>
      rw [List.filterMap_cons_some hs]
      by_cases hk : rootId = k
      · simp [hk, hid k s hs, hs]
      · simp [hid k s hs, Ne.symm hk, hk, ih]

theorem mem_collect {s : RootSummary} : s ∈ collect events ↔
    ofEvents? s.rootId (members Event.effectiveRoot s.rootId events) = some s := by
  simp only [collect, groups, List.filterMap_map, List.mem_filterMap, Function.comp_apply]
  constructor
  · rintro ⟨k, -, hk⟩
    rwa [rootId_of_ofEvents? hk]
  · intro h
    refine ⟨s.rootId, ?_, h⟩
    by_contra hnone
    rw [members_eq_nil_iff.mpr hnone] at h
    cases h

/-- A root's summary is made from the events of which it is the effective root. -/
theorem find?_collect (rootId : String) (events : Log) :
    (collect events).find? (fun s => s.rootId == rootId) =
      ofEvents? rootId (members Event.effectiveRoot rootId events) := by
  rw [collect, groups, List.filterMap_map]
  refine (find?_filterMap_of_rootId (fun _ _ h => rootId_of_ofEvents? h) rootId _).trans ?_
  split
  · rfl
  · rename_i hnone
    rw [members_eq_nil_iff.mpr hnone]
    rfl

end RootSummary

end InvocationTrace
