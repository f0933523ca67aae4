import InvocationTrace.Proofs.Report.Top
import InvocationTrace.Proofs.Root.Fields
import InvocationTrace.Proofs.Root.Growth

/-!
# Roots by recency

A root is listed by the line on which it was opened. In a log whose events stand on different lines
no two roots share that line, since an event opens one root only; so the order of a listing is strict
and its rows are determined. A limit cuts the listing off, and the latest root is what is in front of
every cut.
-/

namespace InvocationTrace

variable {events : Log} {agent : Option String} {limit : Option Nat}

namespace RootSummary

variable {s t : RootSummary}

/-- Opened on a later line. -/
def OpenedAfter (s t : RootSummary) : Prop := t.startLine < s.startLine

theorem OpenedAfter.asymm (s t : RootSummary) (h : s.OpenedAfter t) : ¬t.OpenedAfter s :=
  Nat.lt_asymm h

theorem nodup_rootIds_collect (events : Log) : ((collect events).map rootId).Nodup := by
  refine List.pairwise_map.mpr ((collect_pairwise events).imp ?_)
  intro s t hst heq
  exact String.lt_irrefl t.rootId (heq ▸ hst)

/-- The event that opens a root has it as its effective root, so it opens no other. -/
theorem eq_of_startLine (hlines : (events.map Event.line).Nodup) (hs : s ∈ collect events)
    (ht : t ∈ collect events) (hline : s.startLine = t.startLine) : s = t := by
  obtain ⟨e, he, -, hroot, hopening⟩ := exists_opening_of_mem_collect hs
  obtain ⟨f, hf, -, hroot', hopening'⟩ := exists_opening_of_mem_collect ht
  have heq : e = f := by
    refine List.inj_on_of_nodup_map hlines he hf ?_
    exact hopening.startLine.symm.trans (hline.trans hopening'.startLine)
  subst heq
  have hid : s.rootId = t.rootId := Option.some.inj (hroot.symm.trans hroot')
  exact List.inj_on_of_nodup_map (nodup_rootIds_collect events) hs ht hid

end RootSummary

namespace RootListing

open RootSummary

theorem matching_perm (agent : Option String) (roots : List RootSummary) :
    (matching agent roots).Perm (roots.filter (matchesAgent agent)) :=
  List.mergeSort_perm _ _

theorem nodup_rootIds_matching (agent : Option String) (events : Log) :
    ((matching agent (collect events)).map rootId).Nodup := by
  rw [((matching_perm agent (collect events)).map rootId).nodup_iff]
  exact (nodup_rootIds_collect events).sublist (List.filter_sublist.map rootId)

theorem matching_pairwise_openedAfter (hlines : (events.map Event.line).Nodup)
    (agent : Option String) : (matching agent (collect events)).Pairwise OpenedAfter := by
  have hdistinct : (matching agent (collect events)).Nodup :=
    (nodup_rootIds_matching agent events).of_map
  refine ((matching_pairwise agent (collect events)).and hdistinct).imp_of_mem ?_
  intro s t hs ht hst
  refine Nat.lt_of_le_of_ne hst.1 ?_
  intro hline
  exact hst.2 (eq_of_startLine hlines (mem_matching.mp hs).1 (mem_matching.mp ht).1 hline.symm)

theorem accepted_eq (roots : List RootSummary) (agent : Option String) (limit : Option Nat) :
    (ofRoots roots agent limit).accepted = roots.countP (matchesAgent agent) := by
  rw [List.countP_eq_length_filter]
  exact (matching_perm agent roots).length_eq

theorem rows_eq_take (roots : List RootSummary) (agent : Option String) (limit : Option Nat) :
    (ofRoots roots agent limit).rows =
      (matching agent roots).take (limit.getD (roots.countP (matchesAgent agent))) := by
  cases limit with
  | none =>
    have hlength := accepted_eq roots agent none
    exact (List.take_of_length_le (Nat.le_of_eq hlength)).symm
  | some limit => rfl

theorem rows_prefix (roots : List RootSummary) (agent : Option String) {m : Nat}
    (hle : ∀ n ∈ limit, m ≤ n) :
    (ofRoots roots agent (some m)).rows <+: (ofRoots roots agent limit).rows := by
  cases limit with
  | none => exact List.take_prefix m _
  | some n => exact List.take_prefix_take_left (hle n rfl)

theorem head?_rows (roots : List RootSummary) (agent : Option String) (hlimit : limit ≠ some 0) :
    (ofRoots roots agent limit).rows.head? = (matching agent roots).head? := by
  cases limit with
  | none => rfl
  | some n =>
    have hn : n ≠ 0 := fun h => hlimit (congrArg some h)
    rw [ofRoots, List.head?_take, if_neg hn]

theorem latest_eq (roots : List RootSummary) (agent : Option String) : latest roots agent =
    match (matching agent roots).head? with
    | none => .error .noMatchingRoots
    | some root => .ok root := by
  rw [latest, ofRoots]
  cases matching agent roots <;> rfl

theorem rows_isTop (hlines : (events.map Event.line).Nodup) (agent : Option String)
    (limit : Option Nat) :
    IsTop OpenedAfter (limit.getD ((collect events).countP (matchesAgent agent)))
      ((collect events).filter (matchesAgent agent))
      (ofRoots (collect events) agent limit).rows := by
  rw [rows_eq_take]
  exact isTop_take (matching_perm agent _) (matching_pairwise_openedAfter hlines agent) _

/-- A listing counts the roots that the filter accepts and shows the first of them, the one opened
last in front. A limit decides how many are shown and nothing else, and the latest root is the first
one shown. -/
theorem rows_by_recency (hlines : (events.map Event.line).Nodup) (agent : Option String) :
    (∀ limit, (ofRoots (collect events) agent limit).accepted =
        (collect events).countP (matchesAgent agent)) ∧
      (∀ limit listed, listed = (ofRoots (collect events) agent limit).rows ↔
        IsTop OpenedAfter (limit.getD ((collect events).countP (matchesAgent agent)))
          ((collect events).filter (matchesAgent agent)) listed) ∧
      (∀ limit, ((ofRoots (collect events) agent limit).rows.map rootId).Nodup) ∧
      (∀ m limit, (∀ n ∈ limit, m ≤ n) → (ofRoots (collect events) agent (some m)).rows <+:
        (ofRoots (collect events) agent limit).rows) ∧
      (∀ root, latest (collect events) agent = .ok root ↔
        ∀ limit, limit ≠ some 0 →
          (ofRoots (collect events) agent limit).rows.head? = some root) ∧
      (latest (collect events) agent = .error .noMatchingRoots ↔
        ∀ limit, (ofRoots (collect events) agent limit).accepted = 0) := by
  refine ⟨accepted_eq _ agent, ?_, ?_, fun m limit hle => rows_prefix _ agent hle, ?_, ?_⟩
  · intro limit listed
    exact (rows_isTop hlines agent limit).eq_iff OpenedAfter.asymm
  · intro limit
    rw [rows_eq_take]
    exact (nodup_rootIds_matching agent events).sublist ((List.take_sublist _ _).map rootId)
  · intro root
    have hfirst : latest (collect events) agent = .ok root ↔
        (matching agent (collect events)).head? = some root := by
      rw [latest_eq]
      cases (matching agent (collect events)).head? <;> simp
    rw [hfirst]
    constructor
    · intro hhead limit hlimit
      rw [head?_rows _ agent hlimit, hhead]
    · intro hhead
      exact hhead none nofun
  · have hnone : latest (collect events) agent = .error .noMatchingRoots ↔
        matching agent (collect events) = [] := by
      rw [latest_eq]
      cases matching agent (collect events) <;> simp
    rw [hnone, ← List.length_eq_zero_iff]
    exact ⟨fun h _ => h, fun h => h none⟩

end RootListing

def earlierStart : Event :=
  { line := 3, kind := .invocationStart, invocationId := some "a", agent := some "Planner" }

def laterStart : Event :=
  { line := 7, kind := .invocationStart, invocationId := some "b", agent := some "planner" }

/-- Two roots of one agent and one of another, not in the order of their lines. The root that was
started first is started again on the last line. -/
def scrambledLog : Log :=
  [laterStart, earlierStart,
   { line := 5, kind := .invocationStart, invocationId := some "c", agent := some "scout" },
   { line := 9, kind := .invocationStart, invocationId := some "a", agent := some "scout" }]

theorem rows_by_recency_scrambledLog :
    (scrambledLog.map Event.line).Nodup ∧
      (∀ limit, (RootListing.ofRoots (RootSummary.collect scrambledLog) (some "PLAN")
        limit).accepted = 2) ∧
      (RootListing.ofRoots (RootSummary.collect scrambledLog) (some "PLAN") (some 5)).rows =
        [RootSummary.opened "b" laterStart, RootSummary.opened "a" earlierStart] ∧
      RootListing.latest (RootSummary.collect scrambledLog) (some "PLAN") =
        .ok (RootSummary.opened "b" laterStart) := by
  have hlines : (scrambledLog.map Event.line).Nodup := by decide
  obtain ⟨haccepted, hrows, -, hprefix, hlatest, -⟩ :=
    RootListing.rows_by_recency hlines (some "PLAN")
  have hcandidates : (RootSummary.collect scrambledLog).filter
      (RootSummary.matchesAgent (some "PLAN")) =
        [RootSummary.opened "a" earlierStart, RootSummary.opened "b" laterStart] := rfl
  have hperm : [RootSummary.opened "b" laterStart, RootSummary.opened "a" earlierStart].Perm
      ((RootSummary.collect scrambledLog).filter (RootSummary.matchesAgent (some "PLAN"))) := by
    rw [hcandidates]
    exact .swap _ _ []
  have hranked : [RootSummary.opened "b" laterStart,
      RootSummary.opened "a" earlierStart].Pairwise RootSummary.OpenedAfter := by
    simp [RootSummary.OpenedAfter, RootSummary.opened, earlierStart, laterStart]
  have hshown : ∀ n, (RootListing.ofRoots (RootSummary.collect scrambledLog) (some "PLAN")
      (some n)).rows =
        [RootSummary.opened "b" laterStart, RootSummary.opened "a" earlierStart].take n := by
    intro n
    exact ((hrows (some n) _).mpr (isTop_take hperm hranked n)).symm
  refine ⟨hlines, ?_, hshown 5, (hlatest _).mpr ?_⟩
  · intro limit
    rw [haccepted, List.countP_eq_length_filter, hcandidates]
    rfl
  · intro limit hlimit
    have hpositive : ∀ n ∈ limit, 1 ≤ n := by
      intro n hn
      refine Nat.one_le_iff_ne_zero.mpr ?_
      rintro rfl
      exact hlimit hn
    obtain ⟨rest, hrest⟩ := hprefix 1 limit hpositive
    rw [← hrest, hshown 1]
    rfl

end InvocationTrace
