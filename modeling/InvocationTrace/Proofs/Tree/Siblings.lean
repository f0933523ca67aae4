import InvocationTrace.Proofs.Index.Fields
import InvocationTrace.Proofs.Tree.Subtree
import Mathlib.Data.List.Permutation
import Mathlib.Data.Prod.Lex
import Mathlib.Data.String.Basic
import Mathlib.Order.WithBot

/-!
# Siblings

Every invocation but the root stands in one group of siblings, that of its parent, whether the parent
was logged or not. Siblings come in the order of their starts. A start restates the parent and the
line, so groups and their order are those of the last starts, and nothing else in the log moves an
invocation.
-/

namespace InvocationTrace

/-- Where an invocation comes among its siblings: by the line of its start, which is past all lines
if it has not started, and then by its id. -/
def siblingPlace (startLine : Option Nat) (id : String) : WithTop Nat ×ₗ String :=
  toLex (startLine.elim ⊤ WithTop.some, id)

def Invocation.place (i : Invocation) : WithTop Nat ×ₗ String := siblingPlace i.startLine i.id

/-- The line of the last start of an invocation in the scope of a root. -/
def Log.startLineIn (events : Log) (rootId id : String) : Option Nat :=
  (((Index.scope rootId events).own id).last? .invocationStart).map Event.line

/-- Two logs in which the same invocations of a root say something and were last started by the same
events. -/
structure Log.SameStarts (rootId : String) (es es' : Log) : Prop where
  mentioned : ∀ id, (∃ e ∈ Index.scope rootId es, e.invocationId = some id) ↔
    ∃ e ∈ Index.scope rootId es', e.invocationId = some id
  lastStart : ∀ id, ((Index.scope rootId es).own id).last? .invocationStart =
    ((Index.scope rootId es').own id).last? .invocationStart

/-- Whatever is not a start may be moved about. -/
theorem Log.SameStarts.of_starts {rootId : String} {es es' : Log}
    (hkeys : Grouping.keys Event.invocationId (Index.scope rootId es) =
      Grouping.keys Event.invocationId (Index.scope rootId es'))
    (hstarts : ((Index.scope rootId es).filter fun e => e.kind == .invocationStart) =
      (Index.scope rootId es').filter fun e => e.kind == .invocationStart) :
    Log.SameStarts rootId es es' where
  mentioned := by
    intro id
    rw [← Grouping.mem_keys, ← Grouping.mem_keys, hkeys]
  lastStart := by
    intro id
    rw [Log.last?, Log.last?, Log.own, Log.own, ← Grouping.members_filter,
      ← Grouping.members_filter, hstarts]

theorem Invocation.startsBefore_iff {i j : Invocation} :
    i.startsBefore j = true ↔ i.place ≤ j.place := by
  rw [place, place, siblingPlace, siblingPlace, Prod.Lex.toLex_le_toLex, startsBefore]
  cases i.startLine with
  | none => cases j.startLine <;> simp
  | some m =>
    cases j.startLine with
    | none => simp
    | some n => by_cases hmn : m = n <;> simp [hmn]

theorem Invocation.startsBefore_trans (i j k : Invocation) (hij : i.startsBefore j = true)
    (hjk : j.startsBefore k = true) : i.startsBefore k = true := by
  rw [startsBefore_iff] at *
  exact hij.trans hjk

theorem Invocation.startsBefore_total (i j : Invocation) :
    (i.startsBefore j || j.startsBefore i) = true := by
  rw [Bool.or_eq_true, startsBefore_iff, startsBefore_iff]
  exact le_total i.place j.place

theorem Invocation.id_eq_of_place_eq {i j : Invocation} (h : i.place = j.place) : i.id = j.id :=
  congrArg (fun place => (ofLex place).2) h

namespace Index

variable {rootId group : String} {events events' : Log} {ix ix' : Index} {i : Invocation}

theorem Keyed.nodup_ids_childrenOf (h : ix.Keyed) (group : String) :
    ((ix.childrenOf group).map Invocation.id).Nodup := by
  refine (h.nodup_childrenOf group).map_on ?_
  intro c hc d hd hid
  exact h.eq_of_id (mem_childrenOf.mp hc).1 (mem_childrenOf.mp hd).1 hid

theorem Keyed.childrenOf_pairwise (h : ix.Keyed) (group : String) :
    (ix.childrenOf group).Pairwise fun c d => c.place < d.place := by
  have hsorted : (ix.childrenOf group).Pairwise fun c d => c.startsBefore d = true :=
    List.pairwise_mergeSort Invocation.startsBefore_trans Invocation.startsBefore_total _
  have hdistinct := List.pairwise_map.mp (h.nodup_ids_childrenOf group)
  refine (hsorted.and hdistinct).imp ?_
  intro c d hcd
  refine lt_of_le_of_ne (Invocation.startsBefore_iff.mp hcd.1) ?_
  exact fun hplace => hcd.2 (Invocation.id_eq_of_place_eq hplace)

/-- An invocation other than the root is in the group of its parent, once, and in no other group. -/
theorem Keyed.count_childrenOf (h : ix.Keyed) (hi : i ∈ ix.invocations) (hne : i.id ≠ ix.rootId)
    (group : String) : ((ix.childrenOf group).map Invocation.id).count i.id =
      if group = ix.parentOf i then 1 else 0 := by
  have hmem : i.id ∈ (ix.childrenOf group).map Invocation.id ↔ group = ix.parentOf i := by
    rw [List.mem_map]
    constructor
    · intro hid
      obtain ⟨c, hc, hid⟩ := hid
      obtain ⟨hcmem, -, hparent⟩ := mem_childrenOf.mp hc
      rw [← h.eq_of_id hcmem hi hid, hparent]
    · intro hparent
      exact ⟨i, mem_childrenOf.mpr ⟨hi, hne, hparent.symm⟩, rfl⟩
  rw [(h.nodup_ids_childrenOf group).count]
  simp only [hmem]

theorem startLine_of_build (h : build rootId events = .ok ix) (hi : i ∈ ix.invocations) :
    i.startLine = events.startLineIn rootId i.id := by
  obtain ⟨-, hinv, -, -⟩ := build_eq_ok_iff.mp h
  have htells := tells_recordOf rootId i.id ((scope rootId events).own i.id)
  have hrecord : i = recordOf rootId i.id ((scope rootId events).own i.id) :=
    (mem_recordsOf.mp (hinv ▸ hi)).2
  rw [← hrecord] at htells
  exact htells.startLine

/-- The places of a group, read off the log. -/
theorem mem_places_childrenOf (h : build rootId events = .ok ix) {place : WithTop Nat ×ₗ String} :
    place ∈ (ix.childrenOf group).map Invocation.place ↔
      ∃ id, (∃ e ∈ scope rootId events, e.invocationId = some id) ∧ id ≠ rootId ∧
        events.parentIn rootId id = group ∧
        siblingPlace (events.startLineIn rootId id) id = place := by
  rw [List.mem_map]
  constructor
  · intro hplace
    obtain ⟨c, hc, hplace⟩ := hplace
    obtain ⟨hmem, hne, hparent⟩ := (mem_childrenOf_of_build h).mp hc
    refine ⟨c.id, (exists_mem_invocations_of_build h).mp ⟨c, hmem, rfl⟩, hne, hparent, ?_⟩
    rw [← startLine_of_build h hmem, ← hplace, Invocation.place]
  · intro hplace
    obtain ⟨id, hmentioned, hne, hparent, hplace⟩ := hplace
    obtain ⟨c, hmem, rfl⟩ := (exists_mem_invocations_of_build h).mpr hmentioned
    refine ⟨c, (mem_childrenOf_of_build h).mpr ⟨hmem, hne, hparent⟩, ?_⟩
    rw [Invocation.place, startLine_of_build h hmem, hplace]

theorem ids_childrenOf_eq (h : build rootId events = .ok ix) (h' : build rootId events' = .ok ix')
    (hsame : Log.SameStarts rootId events events') (group : String) :
    (ix.childrenOf group).map Invocation.id = (ix'.childrenOf group).map Invocation.id := by
  have hplaces : (ix.childrenOf group).map Invocation.place =
      (ix'.childrenOf group).map Invocation.place := by
    refine (List.pairwise_map.mpr ((keyed_of_build h).childrenOf_pairwise group)).eq_of_mem_iff
      (List.pairwise_map.mpr ((keyed_of_build h').childrenOf_pairwise group)) ?_
    intro place
    have hline : ∀ id, events.startLineIn rootId id = events'.startLineIn rootId id := by
      intro id
      rw [Log.startLineIn, Log.startLineIn, hsame.lastStart]
    have hparent : ∀ id, events.parentIn rootId id = events'.parentIn rootId id := by
      intro id
      have hlast := hsame.lastStart id
      rw [← Log.lastStart?_eq_last?, ← Log.lastStart?_eq_last?] at hlast
      rw [Log.parentIn, Log.parentIn, ← Log.own, ← Log.own, hlast]
    simp only [mem_places_childrenOf h, mem_places_childrenOf h', hsame.mentioned, hline, hparent]
  have hids := congrArg (List.map fun place => (ofLex place).2) hplaces
  rwa [List.map_map, List.map_map] at hids

/-- The groups of siblings divide all invocations but the root among the parents, each in the order of
the last starts, whatever else the log says and wherever it says it. -/
theorem siblings_partition (h : build rootId events = .ok ix) :
    (∀ i ∈ ix.invocations, i.id ≠ rootId → ∀ group,
      ((ix.childrenOf group).map Invocation.id).count i.id =
        if group = i.parentInvocationId.getD rootId then 1 else 0) ∧
      (∀ group, ∀ c ∈ ix.childrenOf group, c ∈ ix.invocations ∧ c.id ≠ rootId) ∧
      (∀ group, (ix.childrenOf group).Pairwise fun c d => c.place < d.place) ∧
      (∀ i ∈ ix.invocations, i.startLine = events.startLineIn rootId i.id) ∧
      ∀ events' ix', build rootId events' = .ok ix' → Log.SameStarts rootId events events' →
        ∀ group, (ix.childrenOf group).map Invocation.id =
          (ix'.childrenOf group).map Invocation.id := by
  have hk : ix.Keyed := keyed_of_build h
  have hroot : ix.rootId = rootId := rootId_of_build h
  refine ⟨?_, ?_, hk.childrenOf_pairwise, fun i hi => startLine_of_build h hi, ?_⟩
  · intro i hi hne group
    rw [hk.count_childrenOf hi (by rwa [hroot]) group, parentOf, hroot]
  · intro group c hc
    obtain ⟨hmem, hne, -⟩ := mem_childrenOf.mp hc
    exact ⟨hmem, by rwa [hroot] at hne⟩
  · intro events' ix' h' hsame group
    exact ids_childrenOf_eq h h' hsame group

end Index

/-- An invocation that is started again under another parent, one under a parent that was never
logged, and the given events before and after all starts. -/
def familyLog (before after : Log) : Log :=
  before ++
  [{ line := 1, kind := .invocationStart, invocationId := some "r" },
   { line := 2, kind := .invocationStart, invocationId := some "alpha",
     rootInvocationId := some "r", parentInvocationId := some "gone" },
   { line := 3, kind := .invocationStart, invocationId := some "zeta",
     rootInvocationId := some "r" },
   { line := 4, kind := .invocationStart, invocationId := some "orphan",
     rootInvocationId := some "r", parentInvocationId := some "gone" },
   { line := 5, kind := .invocationStart, invocationId := some "alpha",
     rootInvocationId := some "r", parentInvocationId := some "r" }] ++ after

/-- What is said besides the starts; one invocation runs without ever having been started. -/
def familyEnds : Log :=
  [{ line := 6, kind := .invocationEnd, invocationId := some "alpha",
     rootInvocationId := some "r", status := some "success" },
   { line := 7, kind := .runEnd, invocationId := some "early", rootInvocationId := some "r",
     depth := 1 },
   { line := 8, kind := .invocationEnd, invocationId := some "zeta",
     rootInvocationId := some "r", status := some "success" }]

theorem siblings_partition_familyLog :
    ∃ ix ix', Index.build "r" (familyLog [] familyEnds) = .ok ix ∧
      Index.build "r" (familyLog familyEnds.reverse []) = .ok ix' ∧
      (ix.childrenOf "gone").map Invocation.id = ["orphan"] ∧
      ((ix.childrenOf "gone").map Invocation.id).count "alpha" = 0 ∧
      ((ix.childrenOf "r").map Invocation.id).count "alpha" = 1 ∧
      (ix'.childrenOf "r").map Invocation.id = ["zeta", "alpha", "early"] := by
  have hbuild : Index.build "r" (familyLog [] familyEnds) = .ok _ := rfl
  have hbuild' : Index.build "r" (familyLog familyEnds.reverse []) = .ok _ := rfl
  obtain ⟨hcount, -, -, -, hmoved⟩ := Index.siblings_partition hbuild
  have hsame : Log.SameStarts "r" (familyLog [] familyEnds) (familyLog familyEnds.reverse []) :=
    .of_starts (by decide) (by decide)
  have halpha := hcount _ List.mem_cons_self (by decide)
  refine ⟨_, _, hbuild, hbuild', by cbv, halpha "gone", halpha "r", ?_⟩
  rw [← hmoved _ _ hbuild' hsame]
  cbv

end InvocationTrace
