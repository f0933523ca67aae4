import InvocationTrace.Proofs.Index.Runs
import InvocationTrace.Proofs.Root.Summary
import InvocationTrace.Report

/-!
# Agreement of listing and index

A listing and an index read the same log by different rules. In a summary the last word counts; in a
record an end counts more than a run, and only a root without an outcome of its own takes that of its
latest run. Membership differs too: a summary takes in the events whose effective root is the root,
an index those that name the root as their root or are the root's own. The two still agree on a root
that reports as it should.
-/

namespace InvocationTrace

open Grouping

variable {rootId id : String} {events es : Log} {ix : Index} {start first e : Event}

/-- A root all of whose events name it as their root, that starts once before it ends, and whose
last end tells the outcome: an end of the root itself, if it has any. -/
structure Log.Reports (rootId : String) (start : Event) (events : Log) : Prop where
  lines : (events.map Event.line).Pairwise (· < ·)
  root : ∀ e ∈ members Event.invocationId rootId events,
    e.rootInvocationId = none ∨ e.rootInvocationId = some rootId
  starts : (members Event.invocationId rootId events).filter
    (fun e => e.kind == .invocationStart) = [start]
  starts_first : ∀ e ∈ events, e.endsRoot rootId = true → start.line < e.line
  lastEnd : ∀ e, lastEnd? rootId events = some e →
    e.status.isSome = true ∧ e.elapsedMs.isSome = true ∧
      ((∃ f ∈ members Event.invocationId rootId events, f.kind = .invocationEnd) →
        e.kind = .invocationEnd)

private theorem filter_filter_of_imp {α : Type} {p q : α → Bool} {xs : List α}
    (hq : ∀ x ∈ xs, q x = true → p x = true) : (xs.filter p).filter q = xs.filter q := by
  rw [List.filter_filter]
  apply List.filter_congr
  intro x hx
  rw [Bool.eq_iff_iff, Bool.and_eq_true]
  exact ⟨And.left, fun hqx => ⟨hqx, hq x hx hqx⟩⟩

private theorem getLast?_filter_of_imp {α : Type} {p q : α → Bool} {xs : List α} {x : α}
    (h : (xs.filter p).getLast? = some x) (hx : q x = true)
    (hq : ∀ y ∈ xs, q y = true → p y = true) : (xs.filter q).getLast? = some x := by
  obtain ⟨init, hinit⟩ := List.getLast?_eq_some_iff.mp h
  rw [← filter_filter_of_imp hq, hinit, List.filter_append]
  simp [hx]

namespace Log

theorem lastEnd?_filter {p : Event → Bool}
    (h : ∀ e ∈ events, e.endsRoot rootId = true → p e = true) :
    lastEnd? rootId (events.filter p) = lastEnd? rootId events := by
  rw [lastEnd?, filter_filter_of_imp h, lastEnd?]

theorem lastEnd?_eq_none_iff :
    lastEnd? rootId events = none ↔ ∀ e ∈ events, e.endsRoot rootId = false := by
  simp [lastEnd?]

end Log

theorem Event.endsRoot_iff : e.endsRoot rootId = true ↔
    e.invocationId = some rootId ∧ (e.kind = .runEnd ∨ e.kind = .invocationEnd) := by
  simp [endsRoot]

/-- The record of a root has the outcome that the last of its ends tells. -/
theorem Invocation.outcome_settled (hlines : (es.map Event.line).Pairwise (· < ·))
    (hown : ∀ e ∈ es, e.invocationId = some id)
    (hlast : ∀ e, Log.lastEnd? id es = some e →
      e.status.isSome = true ∧ e.elapsedMs.isSome = true ∧
        ((∃ f ∈ es, f.kind = .invocationEnd) → e.kind = .invocationEnd)) :
    (ofEvents id es).settled.status = (Log.lastEnd? id es).bind Event.status ∧
      (ofEvents id es).settled.elapsedMs = (Log.lastEnd? id es).bind Event.elapsedMs := by
  have hends : ∀ f ∈ es, f.kind = .runEnd ∨ f.kind = .invocationEnd → f.endsRoot id = true :=
    fun f hf hk => Event.endsRoot_iff.mpr ⟨hown f hf, hk⟩
  cases hl : Log.lastEnd? id es with
  | none =>
    refine outcome_of_no_ends ?_
    intro f hf hk
    have hfalse : f.endsRoot id = false := Log.lastEnd?_eq_none_iff.mp hl f hf
    rw [hends f hf hk] at hfalse
    cases hfalse
  | some e =>
    obtain ⟨hstatus, helapsed, hend⟩ := hlast e hl
    have he : e.endsRoot id = true := (List.mem_filter.mp (List.mem_of_getLast? hl)).2
    rcases (Event.endsRoot_iff.mp he).2 with hk | hk
    · refine outcome_of_last_run hlines ?_ (getLast?_filter_of_imp hl (beq_iff_eq.mpr hk) ?_)
      · intro f hf hf'
        rw [hend ⟨f, hf, hf'⟩] at hk
        cases hk
      · exact fun f hf hf' => hends f hf (.inl (beq_iff_eq.mp hf'))
    · refine outcome_of_last_end (getLast?_filter_of_imp hl (beq_iff_eq.mpr hk) ?_)
        hstatus helapsed
      exact fun f hf hf' => hends f hf (.inr (beq_iff_eq.mp hf'))

namespace Log.Reports

theorem start_mem (h : events.Reports rootId start) :
    start ∈ events ∧ start.invocationId = some rootId ∧ start.kind = .invocationStart := by
  have hmem : start ∈ (members Event.invocationId rootId events).filter
      (fun e => e.kind == .invocationStart) := by
    rw [h.starts]
    exact List.mem_singleton_self start
  obtain ⟨hown, hk⟩ := List.mem_filter.mp hmem
  obtain ⟨hstart, hid⟩ := mem_members.mp hown
  exact ⟨hstart, hid, beq_iff_eq.mp hk⟩

theorem effectiveRoot_eq (h : events.Reports rootId start) (he : e ∈ events)
    (hid : e.invocationId = some rootId) : e.effectiveRoot = some rootId := by
  rcases h.root e (mem_members.mpr ⟨he, hid⟩) with hr | hr
  · rw [Event.effectiveRoot, hr, hid, Option.none_or]
  · rw [Event.effectiveRoot, hr, Option.some_or]

theorem eq_start_of_opensRoot (h : events.Reports rootId start) (he : e ∈ events)
    (heff : e.effectiveRoot = some rootId) (hopens : e.opensRoot = true) : e = start := by
  simp only [Event.opensRoot, Bool.and_eq_true, beq_iff_eq, heff] at hopens
  obtain ⟨⟨hk, -⟩, hid⟩ := hopens
  have hmem : e ∈ (members Event.invocationId rootId events).filter
      (fun e => e.kind == .invocationStart) :=
    List.mem_filter.mpr ⟨mem_members.mpr ⟨he, hid⟩, beq_iff_eq.mpr hk⟩
  rw [h.starts] at hmem
  exact List.mem_singleton.mp hmem

/-- What the root collects before its start neither opens nor ends it. -/
theorem exists_before_start (h : events.Reports rootId start) : ∃ before rest,
    members Event.effectiveRoot rootId events = before ++ start :: rest ∧
      ∀ e ∈ before, e.opensRoot = false ∧ e.endsRoot rootId = false := by
  obtain ⟨hmem, hid, -⟩ := h.start_mem
  obtain ⟨before, rest, hsplit, hnew⟩ := List.eq_append_cons_of_mem
    (mem_members.mpr ⟨hmem, h.effectiveRoot_eq hmem hid⟩)
  have hsorted : ((before ++ start :: rest).map Event.line).Pairwise (· < ·) := by
    rw [← hsplit]
    exact h.lines.sublist (List.filter_sublist.map Event.line)
  rw [List.map_append, List.pairwise_append] at hsorted
  refine ⟨before, rest, hsplit, ?_⟩
  intro e he
  have hin : e ∈ events ∧ e.effectiveRoot = some rootId :=
    mem_members.mp (hsplit ▸ List.mem_append_left _ he)
  constructor
  · rw [Bool.eq_false_iff]
    intro hopens
    exact hnew (h.eq_start_of_opensRoot hin.1 hin.2 hopens ▸ he)
  · rw [Bool.eq_false_iff]
    intro hend
    have hgt : start.line < e.line := h.starts_first e hin.1 hend
    have hlt : e.line < start.line :=
      hsorted.2.2 e.line (List.mem_map_of_mem he) start.line (by simp)
    omega

end Log.Reports

theorem Index.root_of_reports (h : events.Reports rootId start)
    (hix : build rootId events = .ok ix) :
    ix.root.status = (Log.lastEnd? rootId events).bind Event.status ∧
      ix.root.elapsedMs = (Log.lastEnd? rootId events).bind Event.elapsedMs ∧
      Invocation.SameStart ix.root (Invocation.start { id := rootId } start) := by
  have hends : Log.lastEnd? rootId (members Event.invocationId rootId events) =
      Log.lastEnd? rootId events := by
    refine Log.lastEnd?_filter ?_
    intro e _ hend
    rw [(Event.endsRoot_iff.mp hend).1, beq_self_eq_true]
  have hstart : Log.lastStart? (members Event.invocationId rootId events) = some start := by
    rw [Log.lastStart?, h.starts]
    rfl
  have hsame := Invocation.sameStart_ofEvents rootId (members Event.invocationId rootId events)
  rw [hstart] at hsame
  have houtcome := @Invocation.outcome_settled rootId (members Event.invocationId rootId events)
    (h.lines.sublist (List.filter_sublist.map Event.line)) (fun e he => (mem_members.mp he).2)
    (fun e he => h.lastEnd e (hends ▸ he))
  rw [hends] at houtcome
  rw [root_of_build hix]
  exact ⟨houtcome.1, houtcome.2, (Invocation.sameStart_settled _).trans hsame⟩

namespace RootSummary

theorem lastEnd?_collected (h : events.Reports rootId start) :
    Log.lastEnd? rootId (members Event.effectiveRoot rootId events) =
      Log.lastEnd? rootId events := by
  refine Log.lastEnd?_filter ?_
  intro e he hend
  rw [h.effectiveRoot_eq he (Event.endsRoot_iff.mp hend).1, beq_self_eq_true]

/-- A root that starts once is summarised from its start on, and no end is missed. -/
theorem ofEvents?_of_reports (h : events.Reports rootId start) :
    ∃ rest, ofEvents? rootId (members Event.effectiveRoot rootId events) =
        some (rest.foldl record (opened rootId start)) ∧
      Log.lastEnd? rootId rest = Log.lastEnd? rootId events := by
  obtain ⟨hmem, hid, hk⟩ := h.start_mem
  obtain ⟨before, rest, hsplit, hbefore⟩ := h.exists_before_start
  refine ⟨rest, ?_, ?_⟩
  · have hopens : start.opensRoot = true := by
      simp [Event.opensRoot, hk, hid, h.effectiveRoot_eq hmem hid]
    rw [ofEvents?, hsplit, List.dropWhile_append_of_pos, List.dropWhile_cons_of_neg]
    · simp [hopens]
    · intro e he
      simp [(hbefore e he).1]
  · have hnone : before.filter (Event.endsRoot rootId) = [] :=
      List.filter_eq_nil_iff.mpr fun e he => by simp [(hbefore e he).2]
    have hstart : start.endsRoot rootId = false := by simp [Event.endsRoot, hk]
    rw [← lastEnd?_collected h, hsplit, Log.lastEnd?, Log.lastEnd?, List.filter_append, hnone,
      List.nil_append, List.filter_cons_of_neg (by simp [hstart])]

theorem summary_of_reports (h : events.Reports rootId start) :
    ∃ s, ofEvents? rootId (members Event.effectiveRoot rootId events) = some s ∧
      s.status = ((Log.lastEnd? rootId events).bind Event.status).getD Status.running ∧
      s.elapsedMs = (Log.lastEnd? rootId events).bind Event.elapsedMs ∧
      SameOpening s (opened rootId start) := by
  obtain ⟨rest, hs, hends⟩ := ofEvents?_of_reports h
  have hsaid : ∀ e, Log.lastEnd? rootId rest = some e →
      e.status.isSome = true ∧ e.elapsedMs.isSome = true := by
    intro e he
    obtain ⟨hstatus, helapsed, -⟩ := h.lastEnd e (hends ▸ he)
    exact ⟨hstatus, helapsed⟩
  refine ⟨_, hs, ?_, ?_, sameOpening_foldl _ _⟩
  · rw [status_foldl, ← hends]
    exact congrArg (Option.getD · Status.running)
      (getLast?_filterMap_of_isSome fun e he => (hsaid e he).1)
  · rw [elapsedMs_foldl, ← hends]
    exact Option.or_none.trans (getLast?_filterMap_of_isSome fun e he => (hsaid e he).2)

/-- A root that reports as it should has in the listing the start and the outcome that it has in
its index. -/
theorem start_and_outcome_agree (h : events.Reports rootId start)
    (hix : Index.build rootId events = .ok ix) :
    ∃ s, (collect events).find? (fun s => s.rootId == rootId) = some s ∧
      s.status = ix.root.status.getD Status.running ∧ s.elapsedMs = ix.root.elapsedMs ∧
      some s.startLine = ix.root.startLine ∧ s.startTs = ix.root.startTs ∧
      s.mode = ix.root.mode := by
  obtain ⟨s, hs, hstatus, helapsed, hopening⟩ := summary_of_reports h
  obtain ⟨hstatus', helapsed', hstart⟩ := Index.root_of_reports h hix
  refine ⟨s, (find?_collect rootId events).trans hs, ?_, ?_, ?_, ?_, ?_⟩
  · rw [hstatus, hstatus']
  · rw [helapsed, helapsed']
  · rw [hopening.startLine, hstart.startLine]
    rfl
  · rw [hopening.startTs, hstart.startTs]
    rfl
  · rw [hopening.mode, hstart.mode]
    rfl

end RootSummary

/-- The root and its child run twice each. The child's second run ends after the root's last. -/
def retriedLog : Log :=
  [{ line := 1, kind := .invocationStart, invocationId := some "r", mode := some .single },
   { line := 2, kind := .invocationStart, invocationId := some "c",
     rootInvocationId := some "r" },
   { line := 3, kind := .runEnd, invocationId := some "r", status := some "failure",
     elapsedMs := some 5 },
   { line := 4, kind := .runEnd, invocationId := some "c", rootInvocationId := some "r",
     depth := 1, status := some "failure" },
   { line := 5, kind := .runEnd, invocationId := some "r", rootInvocationId := some "r",
     status := some "success", elapsedMs := some 9 },
   { line := 6, kind := .runEnd, invocationId := some "c", rootInvocationId := some "r",
     depth := 1, status := some "success" }]

def retriedStart : Event :=
  { line := 1, kind := .invocationStart, invocationId := some "r", mode := some .single }

theorem start_and_outcome_agree_retriedLog :
    retriedLog.Reports "r" retriedStart ∧
      ∃ ix s, Index.build "r" retriedLog = .ok ix ∧
        (RootSummary.collect retriedLog).find? (fun s => s.rootId == "r") = some s ∧
        s.status = "success" ∧ s.elapsedMs = some 9 ∧ some s.startLine = ix.root.startLine ∧
        s.startTs = ix.root.startTs ∧ s.mode = ix.root.mode := by
  have hreports : retriedLog.Reports "r" retriedStart :=
    { lines := by decide
      root := by decide
      starts := by decide
      starts_first := by decide
      lastEnd := by
        intro e he
        obtain rfl := Option.some.inj he
        decide }
  have hbuilt : ∃ ix, Index.build "r" retriedLog = .ok ix ∧
      ix.root.status = some "success" ∧ ix.root.elapsedMs = some 9 := ⟨_, rfl, rfl, rfl⟩
  obtain ⟨ix, hix, hstatus, helapsed⟩ := hbuilt
  obtain ⟨s, hs, hagree⟩ := RootSummary.start_and_outcome_agree hreports hix
  rw [hstatus, helapsed] at hagree
  exact ⟨hreports, ix, s, hix, hs, hagree⟩

/-- Run ends in the scope of the root are those that the root collects, its own apart. -/
theorem Index.countP_runs_of_build (hix : build rootId events = .ok ix)
    (hnamed : ∀ e ∈ events, e.kind = .runEnd → e.rootInvocationId = some rootId →
      e.invocationId.isSome = true)
    (p : Run → Bool) (said : Event → Bool) (hp : ∀ id e, p (Run.ofEvent id e) = said e) :
    ix.runs.countP (fun r => r.invocationId != rootId && (r.isSpecialist && p r)) =
      (members Event.effectiveRoot rootId events).countP
        fun e => e.endsChildRun rootId && said e := by
  rw [(runs_perm_of_build hix).countP_eq, List.countP_filterMap, scope, List.countP_filter,
    members, List.countP_filter]
  apply List.countP_congr
  intro e he
  by_cases hk : e.kind = .runEnd
  · cases hid : e.invocationId with
    | none =>
      have hroot : e.rootInvocationId ≠ some rootId := by
        intro hr
        have hsome := hnamed e he hk hr
        rw [hid] at hsome
        cases hsome
      simp [Run.ofEvent?, hk, hid, Event.effectiveRoot, hroot]
    | some id =>
      have hrun : (Run.ofEvent id e).invocationId = id ∧
          (Run.ofEvent id e).isSpecialist = decide (0 < e.depth) := ⟨rfl, rfl⟩
      by_cases hown : id = rootId
      · subst hown
        simp [Run.ofEvent?, hrun.1, hk, hid, Event.endsChildRun]
      · -- Neither side is the root's own, so both go by the root that the event names.
        cases hr : e.rootInvocationId <;>
          simp [Run.ofEvent?, hrun, hp, hk, hid, hown, hr, Event.endsChildRun,
            Event.effectiveRoot, Event.belongsTo, and_comm]
  · have hnone : Run.ofEvent? e = none := by
      rw [Run.ofEvent?]
      split
      · exact absurd ‹e.kind = .runEnd› hk
      · rfl
    simp [hnone, Event.endsChildRun, hk]

namespace RootSummary

/-- In a root whose first event opens it, every end counts. -/
theorem ofEvents?_of_first (hfirst : events.find? (fun e => e.effectiveRoot == some rootId) =
      some first) (hopens : first.opensRoot = true) :
    ∃ s, ofEvents? rootId (members Event.effectiveRoot rootId events) = some s ∧
      s.childRuns = (members Event.effectiveRoot rootId events).countP
        (Event.endsChildRun rootId) ∧
      s.childFailures = (members Event.effectiveRoot rootId events).countP
        fun e => e.endsChildRun rootId && Status.isFailure e.status := by
  rw [← List.head?_filter, ← members, List.head?_eq_some_iff] at hfirst
  obtain ⟨rest, hrest⟩ := hfirst
  have hfirst' : first.endsChildRun rootId = false := by
    simp only [Event.opensRoot, Bool.and_eq_true, beq_iff_eq] at hopens
    simp [Event.endsChildRun, hopens.1.1]
  refine ⟨rest.foldl record (opened rootId first), ?_, ?_, ?_⟩
  · rw [hrest, ofEvents?, List.dropWhile_cons_of_neg]
    simp [hopens]
  · rw [childRuns_foldl, hrest, List.countP_cons_of_neg (by simp [hfirst'])]
    exact Nat.zero_add _
  · rw [childFailures_foldl, hrest, List.countP_cons_of_neg (by simp [hfirst'])]
    exact Nat.zero_add _

/-- A root that is opened first and names all its run ends has in the listing the counts of
delegated runs and failures that its index gives for the other invocations. -/
theorem child_counts_agree
    (hfirst : events.find? (fun e => e.effectiveRoot == some rootId) = some first)
    (hopens : first.opensRoot = true)
    (hnamed : ∀ e ∈ events, e.kind = .runEnd → e.rootInvocationId = some rootId →
      e.invocationId.isSome = true)
    (hix : Index.build rootId events = .ok ix) :
    ∃ s, (collect events).find? (fun s => s.rootId == rootId) = some s ∧
      s.childRuns =
        ix.runs.countP (fun r => r.invocationId != rootId && decide (1 ≤ r.depth)) ∧
      s.childFailures = ix.failures.countP fun r => r.invocationId != rootId := by
  obtain ⟨s, hs, hruns, hfailures⟩ := ofEvents?_of_first hfirst hopens
  refine ⟨s, (find?_collect rootId events).trans hs, ?_, ?_⟩
  · have hall := Index.countP_runs_of_build hix hnamed (fun _ => true) (fun _ => true)
      fun _ _ => rfl
    simp only [Bool.and_true] at hall
    rw [hruns, ← hall]
    rfl
  · have hfailed := Index.countP_runs_of_build hix hnamed Run.isFailure
      (fun e => Status.isFailure e.status) fun _ _ => rfl
    rw [hfailures, ← hfailed, Index.failures, Index.specialistRuns, List.filter_filter,
      List.countP_filter]
    apply List.countP_congr
    intro r _
    rw [Bool.and_comm r.isFailure]

end RootSummary

theorem child_counts_agree_retriedLog :
    retriedLog.find? (fun e => e.effectiveRoot == some "r") = some retriedStart ∧
      retriedStart.opensRoot = true ∧
      (∀ e ∈ retriedLog, e.kind = .runEnd → e.rootInvocationId = some "r" →
        e.invocationId.isSome = true) ∧
      ∃ ix s, Index.build "r" retriedLog = .ok ix ∧
        (RootSummary.collect retriedLog).find? (fun s => s.rootId == "r") = some s ∧
        s.childRuns = 2 ∧ s.childFailures = 1 ∧
        ix.runs.countP (fun r => r.invocationId != "r" && decide (1 ≤ r.depth)) = 2 ∧
        ix.failures.countP (fun r => r.invocationId != "r") = 1 := by
  have hfirst : retriedLog.find? (fun e => e.effectiveRoot == some "r") = some retriedStart := by
    decide
  have hopens : retriedStart.opensRoot = true := by decide
  have hnamed : ∀ e ∈ retriedLog, e.kind = .runEnd → e.rootInvocationId = some "r" →
      e.invocationId.isSome = true := by decide
  have hlisted : ∃ s, (RootSummary.collect retriedLog).find? (fun s => s.rootId == "r") = some s ∧
      s.childRuns = 2 ∧ s.childFailures = 1 := ⟨_, rfl, rfl, rfl⟩
  have hix : Index.build "r" retriedLog = .ok _ := rfl
  obtain ⟨s, hs, hruns, hfailures⟩ := RootSummary.child_counts_agree hfirst hopens hnamed hix
  obtain ⟨t, ht, hruns', hfailures'⟩ := hlisted
  obtain rfl : s = t := Option.some.inj (hs.symm.trans ht)
  rw [hruns'] at hruns
  rw [hfailures'] at hfailures
  exact ⟨hfirst, hopens, hnamed, _, s, hix, hs, hruns', hfailures', hruns.symm, hfailures.symm⟩

end InvocationTrace
