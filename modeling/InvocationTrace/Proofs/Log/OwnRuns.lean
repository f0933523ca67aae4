import InvocationTrace.Proofs.Index.Contents
import InvocationTrace.Proofs.Index.Record
import InvocationTrace.Proofs.Ranking
import InvocationTrace.Proofs.Report.Frame
import InvocationTrace.Proofs.Root.Summary
import InvocationTrace.Proofs.Totals

/-!
# A root's own runs

Runs of depth 0 are the root's own. They tell how the root itself came out and are kept with it, but
no report counts them, no row shows them, and a summary does not take them for delegated work. So a
log without them answers the same of everything but the root's own outcome.
-/

namespace InvocationTrace

open Grouping

variable {rootId id : String} {es events : Log}

/-- Whether an event ends one of the root's own runs. -/
def Event.endsOwnRun (rootId : String) (e : Event) : Bool :=
  e.kind == .runEnd && e.invocationId == some rootId && e.depth == 0

theorem Event.endsOwnRun_iff {e : Event} : e.endsOwnRun rootId = true ↔
    e.kind = .runEnd ∧ e.invocationId = some rootId ∧ e.depth = 0 := by
  simp only [endsOwnRun, Bool.and_eq_true, beq_iff_eq, and_assoc]

/-- The log without the ends of the root's own runs. -/
def Log.withoutOwnRuns (rootId : String) (events : Log) : Log :=
  events.filter fun e => !e.endsOwnRun rootId

namespace Invocation

/-- The second record is the first without its runs of depth 0, and may tell another outcome. -/
def LosesOwnRuns (i j : Invocation) : Prop :=
  ∃ status elapsedMs agent, j =
    { i with
      status := status
      elapsedMs := elapsedMs
      agent := agent
      runs := i.runs.filter Run.isSpecialist }

variable {i j : Invocation} {e : Event}

/-- An event other than the end of a run of depth 0 says the same in both records. -/
theorem LosesOwnRuns.record (h : i.LosesOwnRuns j) (he : e.kind = .runEnd → e.depth ≠ 0) :
    (i.record e).LosesOwnRuns (j.record e) := by
  obtain ⟨status, elapsedMs, agent, rfl⟩ := h
  cases hk : e.kind with
  | runEnd =>
    have hspecial : (Run.ofEvent i.id e).isSpecialist = true :=
      decide_eq_true (Nat.one_le_iff_ne_zero.mpr (he hk))
    simp only [Invocation.record, hk]
    refine ⟨status.or e.status, elapsedMs.or e.elapsedMs, agent.or e.agent, ?_⟩
    rw [addRun, addRun, List.filter_append, List.filter_cons_of_pos hspecial, List.filter_nil]
  | invocationStart | singleStart | parallelStart | invocationEnd | toolEnd | other =>
    simp only [Invocation.record, hk]
    exact ⟨_, _, _, rfl⟩

/-- The end of a run of depth 0 adds nothing but an outcome to what the first record keeps. -/
theorem LosesOwnRuns.record_own (h : i.LosesOwnRuns j) (hk : e.kind = .runEnd)
    (hd : e.depth = 0) : (i.record e).LosesOwnRuns j := by
  obtain ⟨status, elapsedMs, agent, rfl⟩ := h
  have hown : (Run.ofEvent i.id e).isSpecialist = false := by
    simp [Run.isSpecialist, Run.ofEvent, hd]
  refine ⟨status, elapsedMs, agent, ?_⟩
  simp only [Invocation.record, hk, addRun]
  rw [List.filter_append, List.filter_cons_of_neg (by simp [hown]), List.filter_nil,
    List.append_nil]

theorem losesOwnRuns_ofEvents (h : ∀ e ∈ es, e.invocationId = some id) :
    (ofEvents id es).LosesOwnRuns (ofEvents id (Log.withoutOwnRuns id es)) := by
  induction es using List.reverseRecOn with
  | nil => exact ⟨none, none, none, rfl⟩
  | append_singleton es e ih =>
    have hrest := ih fun f hf => h f (List.mem_append_left [e] hf)
    have hid : e.invocationId = some id := h e (by simp)
    rw [ofEvents_append_singleton]
    by_cases he : e.endsOwnRun id = true
    · have hdrop : Log.withoutOwnRuns id (es ++ [e]) = Log.withoutOwnRuns id es := by
        simp [Log.withoutOwnRuns, he]
      obtain ⟨hk, -, hd⟩ := Event.endsOwnRun_iff.mp he
      rw [hdrop]
      exact hrest.record_own hk hd
    · have hkeep : Log.withoutOwnRuns id (es ++ [e]) = Log.withoutOwnRuns id es ++ [e] := by
        simp [Log.withoutOwnRuns, he]
      rw [hkeep, ofEvents_append_singleton]
      exact hrest.record fun hk hd => he (Event.endsOwnRun_iff.mpr ⟨hk, hid, hd⟩)

theorem LosesOwnRuns.settled (h : i.LosesOwnRuns j) : i.settled.LosesOwnRuns j.settled := by
  obtain ⟨status, elapsedMs, agent, hj⟩ := h
  obtain ⟨_, _, hi'⟩ := exists_settled_eq i
  obtain ⟨status', elapsedMs', hj'⟩ := exists_settled_eq j
  refine ⟨status', elapsedMs', agent, ?_⟩
  rw [hj', hi', hj]

theorem LosesOwnRuns.id_eq (h : i.LosesOwnRuns j) : j.id = i.id := by
  obtain ⟨_, _, _, hj⟩ := h
  rw [hj]

theorem LosesOwnRuns.runs_eq (h : i.LosesOwnRuns j) : j.runs = i.runs.filter Run.isSpecialist := by
  obtain ⟨_, _, _, hj⟩ := h
  rw [hj]

end Invocation

namespace Index

variable {ix ix' : Index} {i : Invocation}

/-- What a filter rejects may be replaced by anything that it rejects. -/
private theorem filter_map_eq_filter {α : Type} {p : α → Bool} {f : α → α}
    (hp : ∀ x, p (f x) = p x) (hf : ∀ x, p x = true → f x = x) (xs : List α) :
    (xs.map f).filter p = xs.filter p := by
  have hcomp : p ∘ f = p := funext hp
  rw [List.filter_map, hcomp]
  refine (List.map_congr_left ?_).trans (List.map_id _)
  intro x hx
  exact hf x (List.mem_filter.mp hx).2

/-- Two indexes that differ in the record of the root only, and there in the root's own runs and in
what these tell. -/
structure LosesOwnRuns (ix ix' : Index) : Prop where
  root : ix.root.LosesOwnRuns ix'.root
  invocations : ix'.invocations = ix.invocations.map fun i =>
    if i.id = ix.rootId then ix'.root else i
  toolTimes : ix'.toolTimes = ix.toolTimes
  toolCalls : ix'.toolCalls = ix.toolCalls

namespace LosesOwnRuns

theorem rootId_eq (h : ix.LosesOwnRuns ix') : ix'.rootId = ix.rootId := h.root.id_eq

theorem childrenOf_eq (h : ix.LosesOwnRuns ix') (id : String) :
    ix'.childrenOf id = ix.childrenOf id := by
  have hroot : ix'.root.id = ix.rootId := h.rootId_eq
  have hparent : ∀ i, ix'.parentOf i = ix.parentOf i := by
    intro i
    rw [parentOf, parentOf, h.rootId_eq]
  rw [childrenOf, childrenOf, h.rootId_eq, h.invocations]
  simp only [hparent]
  congr 1
  apply filter_map_eq_filter
  · intro i
    by_cases hi : i.id = ix.rootId
    · simp [hi, hroot]
    · simp [hi]
  · intro i hi
    have hne : i.id ≠ ix.rootId := by
      simp only [Bool.and_eq_true, bne_iff_ne] at hi
      exact hi.1
    rw [if_neg hne]

theorem shownRuns_root (h : ix.LosesOwnRuns ix') :
    ix'.shownRuns ix'.root = ix.shownRuns ix.root := by
  rw [shownRuns, shownRuns, h.root.runs_eq, List.filter_filter]
  congr 1
  apply List.filter_congr
  intro r _
  have hroot : (ix.root.id == ix.rootId) = true := beq_self_eq_true _
  have hroot' : (ix'.root.id == ix'.rootId) = true := beq_self_eq_true _
  rw [hroot, hroot', Bool.true_and, Run.isSpecialist]
  by_cases hd : r.depth = 0
  · simp [hd]
  · simp [hd, Nat.one_le_iff_ne_zero]

/-- Below the root the two trees have the same rows. -/
theorem treeRows_eq (h : ix.LosesOwnRuns ix') (withRuns : Bool) :
    ix'.treeRows withRuns = ix.treeRows withRuns := by
  have hlength : ix'.invocations.length = ix.invocations.length := by
    rw [h.invocations, List.length_map]
  have hbelow : ∀ levels i, ix'.below withRuns levels i = ix.below withRuns levels i :=
    below_congr h.rootId_eq h.childrenOf_eq
  have hid : ix'.root.id = ix.root.id := h.root.id_eq
  rw [treeRows, treeRows, forest, forest, hlength]
  cases ix.invocations.length with
  | zero => rfl
  | succ levels =>
    rw [below, below, h.shownRuns_root, hid, h.childrenOf_eq, funext (hbelow levels)]

theorem specialistRuns_eq (h : ix.LosesOwnRuns ix') (hk : ix.Keyed) :
    ix'.specialistRuns = ix.specialistRuns := by
  have hruns : ∀ i ∈ ix.invocations,
      (if i.id = ix.rootId then ix'.root else i).runs.filter Run.isSpecialist =
        i.runs.filter Run.isSpecialist := by
    intro i hi
    by_cases hid : i.id = ix.rootId
    · rw [if_pos hid, h.root.runs_eq, hk.eq_of_id hi hk.root_mem hid, List.filter_filter]
      simp only [Bool.and_self]
    · rw [if_neg hid]
  rw [specialistRuns, specialistRuns, runs, runs,
    filter_mergeSort Run.byLine_trans Run.byLine_total,
    filter_mergeSort Run.byLine_trans Run.byLine_total, List.filter_flatMap, List.filter_flatMap,
    h.invocations, List.flatMap_map]
  congr 1
  exact List.flatMap_congr hruns

theorem report_eq (h : ix.LosesOwnRuns ix') (hk : ix.Keyed) (threshold : Int) (limit : Nat) :
    Report.build ix' threshold limit = Report.build ix threshold limit := by
  refine report_congr (h.specialistRuns_eq hk) h.toolTimes ?_
  rw [slowTools, slowTools, h.toolCalls]

end LosesOwnRuns

theorem scope_withoutOwnRuns (rootId : String) (events : Log) :
    scope rootId (Log.withoutOwnRuns rootId events) =
      Log.withoutOwnRuns rootId (scope rootId events) := by
  rw [scope, Log.withoutOwnRuns, List.filter_comm]
  rfl

theorem kept_of_toolEnd (rootId : String) (e : Event) (h : e.kind = .toolEnd) :
    (!e.endsOwnRun rootId) = true := by
  simp [Event.endsOwnRun, h]

theorem keys_withoutOwnRuns (h : ∃ e ∈ Log.withoutOwnRuns rootId es, e.invocationId = some rootId) :
    keys Event.invocationId (Log.withoutOwnRuns rootId es) = keys Event.invocationId es := by
  apply keys_eq_of_mem_iff
  intro id
  rw [mem_keys, mem_keys]
  constructor
  · intro hid
    obtain ⟨e, he, hid⟩ := hid
    exact ⟨e, List.mem_of_mem_filter he, hid⟩
  · intro hid
    obtain ⟨e, he, hid⟩ := hid
    by_cases hown : e.endsOwnRun rootId = true
    · have hroot : e.invocationId = some rootId := (Event.endsOwnRun_iff.mp hown).2.1
      rw [hroot] at hid
      rwa [← Option.some.inj hid]
    · exact ⟨e, List.mem_filter.mpr ⟨he, by simp [hown]⟩, hid⟩

theorem members_withoutOwnRuns (h : id ≠ rootId) (es : Log) :
    members Event.invocationId id (Log.withoutOwnRuns rootId es) =
      members Event.invocationId id es := by
  rw [Log.withoutOwnRuns, members_filter]
  refine List.filter_eq_self.mpr ?_
  intro e he
  have hid : e.invocationId = some id := (mem_members.mp he).2
  simp [Event.endsOwnRun, hid, h]

theorem recordsOf_withoutOwnRuns
    (h : ∃ e ∈ Log.withoutOwnRuns rootId es, e.invocationId = some rootId) :
    recordsOf rootId (Log.withoutOwnRuns rootId es) = (recordsOf rootId es).map fun i =>
      if i.id = rootId then
        recordOf rootId rootId
          (members Event.invocationId rootId (Log.withoutOwnRuns rootId es))
      else i := by
  rw [recordsOf, recordsOf, groups, groups, keys_withoutOwnRuns h]
  simp only [List.map_map]
  apply List.map_congr_left
  intro id _
  simp only [Function.comp_apply, id_recordOf]
  by_cases hid : id = rootId
  · rw [if_pos hid, hid]
  · rw [if_neg hid, members_withoutOwnRuns hid]

theorem losesOwnRuns_of_build
    (h : ∃ e ∈ Log.withoutOwnRuns rootId events, e.invocationId = some rootId)
    (hb : build rootId events = .ok ix)
    (hb' : build rootId (Log.withoutOwnRuns rootId events) = .ok ix') : ix.LosesOwnRuns ix' := by
  have hid : ix.rootId = rootId := rootId_of_build hb
  have hid' : ix'.root.id = rootId := rootId_of_build hb'
  have hmem : ix'.root ∈ ix'.invocations := (keyed_of_build hb').root_mem
  have hown : ∃ e ∈ Log.withoutOwnRuns rootId (scope rootId events),
      e.invocationId = some rootId := by
    rw [← scope_withoutOwnRuns]
    exact exists_mem_scope_own.mpr h
  obtain ⟨ht, hi, -, hc⟩ := build_eq_ok_iff.mp hb
  obtain ⟨ht', hi', -, hc'⟩ := build_eq_ok_iff.mp hb'
  rw [scope_withoutOwnRuns] at ht' hi' hc'
  refine ⟨?_, ?_, ?_, ?_⟩
  · rw [root_of_build hb, root_of_build hb', Log.withoutOwnRuns, members_filter]
    exact (Invocation.losesOwnRuns_ofEvents fun e he => (mem_members.mp he).2).settled
  · have hroot : ix'.root = recordOf rootId rootId (members Event.invocationId rootId
        (Log.withoutOwnRuns rootId (scope rootId events))) := by
      have hrec := (mem_recordsOf.mp (hi' ▸ hmem)).2
      rwa [hid'] at hrec
    rw [hi, hi', hid, hroot, recordsOf_withoutOwnRuns hown]
  · rw [Log.withoutOwnRuns, toolTimes?_filter (kept_of_toolEnd rootId), ht] at ht'
    exact (Option.some.inj ht').symm
  · rw [hc, hc', Log.withoutOwnRuns, toolCalls_filter (kept_of_toolEnd rootId)]

end Index

namespace RootSummary

/-- A summary without what tells how the root came out. -/
def withoutOutcome (s : RootSummary) : RootSummary :=
  { s with status := Status.running, elapsedMs := none, endLine := none, endTs := none }

theorem record_withoutOutcome (s : RootSummary) (e : Event) :
    (s.record e).withoutOutcome = (s.withoutOutcome.record e).withoutOutcome := by
  have hid : s.withoutOutcome.rootId = s.rootId := rfl
  rw [record, record, hid]
  by_cases hown : e.invocationId = some s.rootId
  · rw [if_pos hown, if_pos hown]
    cases e.kind <;> rfl
  · rw [if_neg hown, if_neg hown]
    cases e.kind with
    | runEnd =>
      simp only [countRun]
      split <;> rfl
    | invocationStart | singleStart | parallelStart | invocationEnd | toolEnd | other => rfl

theorem record_of_endsOwnRun {s : RootSummary} {e : Event} (h : e.endsOwnRun s.rootId = true) :
    (s.record e).withoutOutcome = s.withoutOutcome := by
  obtain ⟨hk, hown, -⟩ := Event.endsOwnRun_iff.mp h
  simp only [record, hown, hk, if_true]
  rfl

theorem foldl_withoutOwnRuns {s t : RootSummary} (h : s.withoutOutcome = t.withoutOutcome)
    (es : Log) :
    ((Log.withoutOwnRuns t.rootId es).foldl record s).withoutOutcome =
      (es.foldl record t).withoutOutcome := by
  induction es generalizing s t with
  | nil => exact h
  | cons e es ih =>
    have hid : (t.record e).rootId = t.rootId := (sameOpening_record t e).rootId
    by_cases he : e.endsOwnRun t.rootId = true
    · have hdrop : Log.withoutOwnRuns t.rootId (e :: es) = Log.withoutOwnRuns t.rootId es := by
        simp [Log.withoutOwnRuns, he]
      rw [hdrop, List.foldl_cons, ← hid]
      exact ih (h.trans (record_of_endsOwnRun he).symm)
    · have hkeep : Log.withoutOwnRuns t.rootId (e :: es) =
          e :: Log.withoutOwnRuns t.rootId es := by
        simp [Log.withoutOwnRuns, he]
      rw [hkeep, List.foldl_cons, List.foldl_cons, ← hid]
      apply ih
      rw [record_withoutOutcome, h, ← record_withoutOutcome]

theorem ofEvents?_withoutOwnRuns (rootId : String) (es : Log) :
    (ofEvents? rootId (Log.withoutOwnRuns rootId es)).map withoutOutcome =
      (ofEvents? rootId es).map withoutOutcome := by
  have hkept : ∀ e : Event, e.opensRoot = true → e.endsOwnRun rootId = false := by
    intro e he
    have hk : e.kind = .invocationStart := by
      simp only [Event.opensRoot, Bool.and_eq_true, beq_iff_eq] at he
      exact he.1.1
    simp [Event.endsOwnRun, hk]
  have hclosed : (fun e : Event => !!e.endsOwnRun rootId || !e.opensRoot) =
      fun e => !e.opensRoot := by
    funext e
    cases ho : e.opensRoot with
    | false => simp
    | true => simp [hkept e ho]
  rw [ofEvents?, ofEvents?, Log.withoutOwnRuns, List.dropWhile_filter, hclosed]
  cases hes : es.dropWhile fun e => !e.opensRoot with
  | nil => rfl
  | cons first rest =>
    have hopens : first.opensRoot = true := by
      have hhead := List.head?_dropWhile_not (fun e : Event => !e.opensRoot) es
      simpa [hes] using hhead
    rw [List.filter_cons_of_pos (by rw [hkept first hopens]; rfl)]
    exact congrArg some (@foldl_withoutOwnRuns (opened rootId first) (opened rootId first) rfl rest)

theorem find?_collect_withoutOwnRuns (rootId : String) (events : Log) :
    ((collect (Log.withoutOwnRuns rootId events)).find? fun s => s.rootId == rootId).map
        withoutOutcome =
      ((collect events).find? fun s => s.rootId == rootId).map withoutOutcome := by
  rw [find?_collect, find?_collect, Log.withoutOwnRuns, members_filter]
  exact ofEvents?_withoutOwnRuns rootId _

end RootSummary

/-- A root's own runs show in its own outcome only: without them no report changes, no row below the
root, and nothing in the root's summary but how the root came out. -/
theorem Log.own_runs_show_in_outcome_only
    (h : ∃ e ∈ withoutOwnRuns rootId events, e.invocationId = some rootId) :
    ((Index.build rootId events = .error .sumOverflow ∧
        Index.build rootId (withoutOwnRuns rootId events) = .error .sumOverflow) ∨
      ∃ ix ix', Index.build rootId events = .ok ix ∧
        Index.build rootId (withoutOwnRuns rootId events) = .ok ix' ∧
        (∀ threshold limit,
          Report.build ix' threshold limit = Report.build ix threshold limit) ∧
        (∀ withRuns, ix'.treeRows withRuns = ix.treeRows withRuns ∧
          ix'.treeText withRuns = rowsText (ix'.root.row ::
            (ix.treeRows withRuns).map (Forest.Row.draw TreeItem.text))) ∧
        ix.LosesOwnRuns ix') ∧
      ((RootSummary.collect (withoutOwnRuns rootId events)).find? fun s =>
          s.rootId == rootId).map RootSummary.withoutOutcome =
        ((RootSummary.collect events).find? fun s => s.rootId == rootId).map
          RootSummary.withoutOutcome := by
  refine ⟨?_, RootSummary.find?_collect_withoutOwnRuns rootId events⟩
  have htimes : Index.toolTimes? (Index.scope rootId (withoutOwnRuns rootId events)) =
      Index.toolTimes? (Index.scope rootId events) := by
    rw [Index.scope_withoutOwnRuns, withoutOwnRuns,
      Index.toolTimes?_filter (Index.kept_of_toolEnd rootId)]
  obtain ⟨e, he, hid⟩ := h
  rcases Index.build_cases rootId events with hb | hb | ⟨ix, hb⟩
  · have hb' : Index.build rootId (withoutOwnRuns rootId events) = .error .sumOverflow := by
      rw [Index.build_eq_sumOverflow_iff, htimes]
      exact Index.build_eq_sumOverflow_iff.mp hb
    exact .inl ⟨hb, hb'⟩
  · exact absurd hid ((Index.build_eq_rootNotFound_iff.mp hb).2 e (List.mem_of_mem_filter he))
  rcases Index.build_cases rootId (withoutOwnRuns rootId events) with hb' | hb' | ⟨ix', hb'⟩
  · rw [Index.build_eq_sumOverflow_iff, htimes] at hb'
    rw [Index.build_eq_sumOverflow_iff.mpr hb'] at hb
    cases hb
  · exact absurd hid ((Index.build_eq_rootNotFound_iff.mp hb').2 e he)
  have hloses : ix.LosesOwnRuns ix' := Index.losesOwnRuns_of_build ⟨e, he, hid⟩ hb hb'
  refine .inr ⟨ix, ix', hb, hb', hloses.report_eq (Index.keyed_of_build hb), ?_, hloses⟩
  intro withRuns
  have hrows : ix'.treeRows withRuns = ix.treeRows withRuns := hloses.treeRows_eq withRuns
  exact ⟨hrows, by rw [Index.treeText, hrows]⟩

/-- A root that ran once itself and once at depth 1, and a failed run under it. -/
def leadLog : Log :=
  [{ line := 1, kind := .invocationStart, invocationId := some "r" },
   { line := 2, kind := .runEnd, invocationId := some "r", status := some "error",
     agent := some "lead" },
   { line := 3, kind := .runEnd, invocationId := some "r", depth := 1,
     status := some "success" },
   { line := 4, kind := .runEnd, invocationId := some "c", rootInvocationId := some "r",
     depth := 1, status := some "error" }]

theorem Log.own_runs_show_in_outcome_only_leadLog :
    (∃ e ∈ withoutOwnRuns "r" leadLog, e.invocationId = some "r") ∧
      ∃ ix ix', Index.build "r" leadLog = .ok ix ∧
        Index.build "r" (withoutOwnRuns "r" leadLog) = .ok ix' ∧
        ix.root.row ≠ ix'.root.row ∧
        ∀ withRuns, ix'.treeRows withRuns = ix.treeRows withRuns := by
  have hother : ∃ e ∈ withoutOwnRuns "r" leadLog, e.invocationId = some "r" := by decide
  obtain ⟨hsum | ⟨ix, ix', hb, hb', -, htree, -⟩, -⟩ := own_runs_show_in_outcome_only hother
  · cases hsum.1
  · refine ⟨hother, ix, ix', hb, hb', ?_, fun withRuns => (htree withRuns).1⟩
    cases hb
    cases hb'
    decide

end InvocationTrace
