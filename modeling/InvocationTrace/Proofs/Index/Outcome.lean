import InvocationTrace.Proofs.Index.Contents
import InvocationTrace.Proofs.Index.Record

/-!
# Outcome of a root

A root that has not ended comes out as its latest run did, whatever its other runs told. A root that
has ended without a status does so only if none of its runs told a status either: a status that a run
has filled in passes for the root's own, and then the first word of its runs stays.
-/

namespace InvocationTrace

variable {rootId id : String} {events es : Log} {ix : Index} {e : Event}

/-- The end of a run on a higher line than the end of every other run. -/
structure Log.IsLatestRunEnd (es : Log) (e : Event) : Prop where
  mem : e ∈ es
  kind : e.kind = .runEnd
  line_lt : ∀ f ∈ es, f.kind = .runEnd → f ≠ e → f.line < e.line

theorem Log.IsLatestRunEnd.unique {f : Event} (he : es.IsLatestRunEnd e)
    (hf : es.IsLatestRunEnd f) : e = f := by
  by_contra hne
  have hlt : e.line < f.line := hf.line_lt e he.mem he.kind hne
  have hgt : f.line < e.line := he.line_lt f hf.mem hf.kind (Ne.symm hne)
  omega

theorem Run.exists_latest?_of_mem {runs : List Run} {s : Run} (h : s ∈ runs) :
    ∃ r, latest? runs = some r ∧ s.line ≤ r.line := by
  induction runs using List.reverseRecOn with
  | nil => cases h
  | append_singleton runs r ih =>
    rw [latest?_append_singleton]
    rcases List.mem_append.mp h with hs | hs
    · obtain ⟨b, hb, hle⟩ := ih hs
      rw [hb]
      by_cases hbr : b.line ≤ r.line
      · exact ⟨r, if_pos hbr, Nat.le_trans hle hbr⟩
      · exact ⟨b, if_neg hbr, hle⟩
    · obtain rfl := List.mem_singleton.mp hs
      cases latest? runs with
      | none => exact ⟨s, rfl, Nat.le_refl _⟩
      | some b =>
        by_cases hbs : b.line ≤ s.line
        · exact ⟨s, if_pos hbs, Nat.le_refl _⟩
        · exact ⟨b, if_neg hbs, by omega⟩

theorem Log.firstOf?_eq_none_iff {α : Type} {kind : Event.Kind} {said : Event → Option α} :
    firstOf? kind said es = none ↔ ∀ e ∈ es, e.kind = kind → said e = none := by
  simp [firstOf?]

theorem Log.lastOf?_eq_none_iff {α : Type} {kind : Event.Kind} {said : Event → Option α} :
    lastOf? kind said es = none ↔ ∀ e ∈ es, e.kind = kind → said e = none := by
  simp [lastOf?]

namespace Invocation

theorem mem_runs_ofEvents {r : Run} : r ∈ (ofEvents id es).runs ↔
    ∃ e ∈ es, e.kind = .runEnd ∧ Run.ofEvent id e = r := by
  simp only [runs_ofEvents, List.mem_map, List.mem_filter, beq_iff_eq, and_assoc]

/-- Of events on different lines one is the latest run, and it is the one that is found. -/
theorem exists_isLatestRunEnd (id : String) (hlines : (es.map Event.line).Nodup)
    (hrun : ∃ f ∈ es, f.kind = .runEnd) : ∃ e, es.IsLatestRunEnd e ∧
      Run.latest? (ofEvents id es).runs = some (Run.ofEvent id e) := by
  obtain ⟨f, hf, hfk⟩ := hrun
  obtain ⟨r, hr, -⟩ := Run.exists_latest?_of_mem (mem_runs_ofEvents.mpr ⟨f, hf, hfk, rfl⟩)
  obtain ⟨e, he, hek, rfl⟩ := mem_runs_ofEvents.mp (Run.mem_of_latest?_eq_some hr)
  refine ⟨e, ⟨he, hek, ?_⟩, hr⟩
  intro g hg hgk hne
  obtain ⟨r, hr', hle⟩ := Run.exists_latest?_of_mem (mem_runs_ofEvents.mpr ⟨g, hg, hgk, rfl⟩)
  obtain rfl := Option.some.inj (hr.symm.trans hr')
  have hline : g.line ≠ e.line := fun hge => hne (List.inj_on_of_nodup_map hlines hg he hge)
  exact Nat.lt_of_le_of_ne hle hline

theorem outcome_of_latest? {i : Invocation} {r : Run}
    (h : i.hasEnded = false ∨ i.status = none) (hr : Run.latest? i.runs = some r) :
    i.settled.status = r.status ∧ i.settled.elapsedMs = r.elapsedMs := by
  have hopen : (i.hasEnded && i.status.isSome) = false := by
    rcases h with h | h <;> simp [h]
  rw [settled, hopen, hr]
  exact ⟨rfl, rfl⟩

/-- Where no end tells a status, the first run that does settles it. -/
theorem outcome_of_silent_end (hend : ∃ f ∈ es, f.kind = .invocationEnd)
    (hsilent : ∀ f ∈ es, f.kind = .invocationEnd → f.status = none)
    (htold : ∃ f ∈ es, f.kind = .runEnd ∧ f.status ≠ none) :
    (ofEvents id es).settled.status = Log.firstOf? .runEnd Event.status es ∧
      (ofEvents id es).settled.elapsedMs =
        (Log.lastOf? .invocationEnd Event.elapsedMs es).or
          (Log.firstOf? .runEnd Event.elapsedMs es) := by
  have hstatus : (ofEvents id es).status = Log.firstOf? .runEnd Event.status es := by
    rw [status_ofEvents, Log.lastOf?_eq_none_iff.mpr hsilent, Option.none_or]
  have hended : (ofEvents id es).hasEnded = true := by
    obtain ⟨f, hf, hk⟩ := hend
    rw [hasEnded_ofEvents, List.any_eq_true]
    exact ⟨f, hf, beq_iff_eq.mpr hk⟩
  -- The status is a run's, but settling takes it for one that an end told and changes nothing.
  have hsome : (ofEvents id es).status.isSome = true := by
    obtain ⟨f, hf, hk, hs⟩ := htold
    rw [hstatus, Option.isSome_iff_ne_none]
    exact fun hnone => hs (Log.firstOf?_eq_none_iff.mp hnone f hf hk)
  rw [settled_of_ended_with_status hended hsome]
  exact ⟨hstatus, elapsedMs_ofEvents id es⟩

end Invocation

namespace Index

/-- A root that has not ended has the outcome of its latest run. -/
theorem outcome_of_open_root (hlines : (events.map Event.line).Nodup)
    (hrun : ∃ f ∈ events.own rootId, f.kind = .runEnd)
    (hopen : ∀ f ∈ events.own rootId, f.kind ≠ .invocationEnd)
    (h : build rootId events = .ok ix) :
    ∃ e, (events.own rootId).IsLatestRunEnd e ∧
      ix.root.status = e.status ∧ ix.root.elapsedMs = e.elapsedMs := by
  obtain ⟨e, he, hlatest⟩ :=
    Invocation.exists_isLatestRunEnd rootId (Log.lines_nodup_own hlines) hrun
  have hended : (Invocation.ofEvents rootId (events.own rootId)).hasEnded = false :=
    Invocation.hasEnded_ofEvents_eq_false hopen
  refine ⟨e, he, ?_⟩
  rw [root_of_build h]
  exact Invocation.outcome_of_latest? (.inl hended) hlatest

end Index

/-- A run that succeeds without telling its time. -/
def untimedRun : Event :=
  { line := 4, kind := .runEnd, invocationId := some "r", status := some "success" }

/-- The log gives the latest run first, and after it an earlier one that tells a time. -/
def untimedRunLog : Log :=
  [untimedRun,
   { line := 1, kind := .invocationStart, invocationId := some "r" },
   { line := 2, kind := .runEnd, invocationId := some "r", status := some "failure",
     elapsedMs := some 5 },
   { line := 3, kind := .runEnd, invocationId := some "c", rootInvocationId := some "r",
     depth := 1, status := some "failure", elapsedMs := some 7 }]

theorem outcome_of_open_root_untimedRunLog :
    ∃ ix, Index.build "r" untimedRunLog = .ok ix ∧
      ix.root.status = some "success" ∧ ix.root.elapsedMs = none := by
  have hbuild : Index.build "r" untimedRunLog = .ok _ := rfl
  have hlatest : (Log.own "r" untimedRunLog).IsLatestRunEnd untimedRun :=
    ⟨by decide, by decide, by decide⟩
  obtain ⟨e, he, hstatus, helapsed⟩ :=
    Index.outcome_of_open_root (by decide) (by decide) (by decide) hbuild
  obtain rfl := he.unique hlatest
  exact ⟨_, hbuild, hstatus, helapsed⟩

namespace Index

/-- A root that has ended without a status has the outcome of its latest run exactly if no run told
a status, or if the first status told is that of the latest run and so is the time: the last that an
end told, or else the first that a run told. -/
theorem outcome_of_silent_root_iff (hlines : (events.map Event.line).Nodup)
    (hrun : ∃ f ∈ events.own rootId, f.kind = .runEnd)
    (hend : ∃ f ∈ events.own rootId, f.kind = .invocationEnd)
    (hsilent : ∀ f ∈ events.own rootId, f.kind = .invocationEnd → f.status = none)
    (h : build rootId events = .ok ix) :
    ∃ e, (events.own rootId).IsLatestRunEnd e ∧
      ((ix.root.status = e.status ∧ ix.root.elapsedMs = e.elapsedMs) ↔
        (∀ f ∈ events.own rootId, f.kind = .runEnd → f.status = none) ∨
          (Log.firstOf? .runEnd Event.status (events.own rootId) = e.status ∧
            (Log.lastOf? .invocationEnd Event.elapsedMs (events.own rootId)).or
              (Log.firstOf? .runEnd Event.elapsedMs (events.own rootId)) = e.elapsedMs)) := by
  obtain ⟨e, he, hlatest⟩ :=
    Invocation.exists_isLatestRunEnd rootId (Log.lines_nodup_own hlines) hrun
  refine ⟨e, he, ?_⟩
  have hroot : ix.root = (Invocation.ofEvents rootId (events.own rootId)).settled :=
    root_of_build h
  by_cases hnone : ∀ f ∈ events.own rootId, f.kind = .runEnd → f.status = none
  · have hstatus : (Invocation.ofEvents rootId (events.own rootId)).status = none := by
      rw [Invocation.status_ofEvents, Log.lastOf?_eq_none_iff.mpr hsilent,
        Log.firstOf?_eq_none_iff.mpr hnone, Option.none_or]
    have hout := Invocation.outcome_of_latest? (.inr hstatus) hlatest
    rw [← hroot] at hout
    exact iff_of_true hout (.inl hnone)
  · have htold : ∃ f ∈ events.own rootId, f.kind = .runEnd ∧ f.status ≠ none := by
      simpa only [not_forall, exists_prop] using hnone
    obtain ⟨hstatus, helapsed⟩ := Invocation.outcome_of_silent_end hend hsilent htold
    rw [hroot, hstatus, helapsed, or_iff_right hnone]

end Index

/-- The second of two runs. -/
def secondRun (status : Option String) : Event :=
  { line := 3, kind := .runEnd, invocationId := some "r", status := status, elapsedMs := some 9 }

/-- A root that runs twice and then ends without a status. -/
def silentEndLog (first second : Option String) : Log :=
  [{ line := 1, kind := .invocationStart, invocationId := some "r" },
   { line := 2, kind := .runEnd, invocationId := some "r", status := first, elapsedMs := some 5 },
   secondRun second,
   { line := 4, kind := .invocationEnd, invocationId := some "r" }]

theorem silentEndLog_keeps_first_run :
    ∃ log ix, log = silentEndLog (some "failure") (some "success") ∧
      Index.build "r" log = .ok ix ∧ (log.map Event.line).Nodup ∧
      (∃ f ∈ log.own "r", f.kind = .invocationEnd) ∧
      (∀ f ∈ log.own "r", f.kind = .invocationEnd → f.status = none) ∧
      (log.own "r").IsLatestRunEnd (secondRun (some "success")) ∧
      ix.root.status = some "failure" ∧ ix.root.elapsedMs = some 5 :=
  ⟨_, _, rfl, rfl, by decide, by decide, by decide, ⟨by decide, by decide, by decide⟩, rfl, rfl⟩

theorem outcome_of_silent_root_iff_silentEndLog :
    ∃ ix, Index.build "r" (silentEndLog none none) = .ok ix ∧
      ix.root.status = none ∧ ix.root.elapsedMs = some 9 := by
  have hbuild : Index.build "r" (silentEndLog none none) = .ok _ := rfl
  have hlatest : (Log.own "r" (silentEndLog none none)).IsLatestRunEnd (secondRun none) :=
    ⟨by decide, by decide, by decide⟩
  have hquiet : ∀ f ∈ Log.own "r" (silentEndLog none none), f.kind = .runEnd → f.status = none := by
    decide
  obtain ⟨e, he, hiff⟩ := Index.outcome_of_silent_root_iff (by decide) (by decide) (by decide)
    (by decide) hbuild
  obtain rfl := he.unique hlatest
  obtain ⟨hstatus, helapsed⟩ := hiff.mpr (.inl hquiet)
  exact ⟨_, hbuild, hstatus, helapsed⟩

end InvocationTrace
