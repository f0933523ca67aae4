import InvocationTrace.Proofs.Tree.Descent

/-!
# What a tree shows

A tree shows exactly the invocations from which parents lead to the root, each in one row, and with
runs all their runs but the root's own of depth 0. Cycles and unknown parents are cut off from the
root, so that visiting children by children comes to an end without a record of what was visited.
-/

namespace InvocationTrace

namespace Index

variable {ix : Index} {withRuns : Bool} {i : Invocation} {n : Nat}

/-- Parents lead from the invocation to the root, through invocations of the index. -/
inductive Reaches (ix : Index) : Invocation → Prop
  | root : ix.Reaches ix.root
  | under {i p : Invocation} :
      p ∈ ix.invocations → ix.parentOf i = p.id → ix.Reaches p → ix.Reaches i

/-- The invocations of the rows, the root's own row first. -/
def drawnInvocations (ix : Index) (withRuns : Bool) : List Invocation :=
  ix.root :: ((ix.treeRows withRuns).map Forest.Row.item).filterMap TreeItem.invocation?

def drawnRuns (ix : Index) (withRuns : Bool) : List Run :=
  ((ix.treeRows withRuns).map Forest.Row.item).filterMap TreeItem.run?

theorem drawnInvocations_eq (ix : Index) (withRuns : Bool) :
    ix.drawnInvocations withRuns = ix.root :: (ix.forest withRuns).invocations := by
  rw [drawnInvocations, treeRows, Forest.rows, Forest.rowsUnder_items]
  rfl

theorem drawnRuns_eq (ix : Index) (withRuns : Bool) :
    ix.drawnRuns withRuns = (ix.forest withRuns).runs := by
  rw [drawnRuns, treeRows, Forest.rows, Forest.rowsUnder_items]
  rfl

theorem Descends.reaches (hk : ix.Keyed) (h : ix.Descends n ix.root i) : ix.Reaches i := by
  induction n generalizing i with
  | zero =>
    cases h
    exact .root
  | succ n ih =>
    cases h with
    | step hp hc =>
      exact .under (hp.mem_invocations hk.root_mem) (mem_childrenOf.mp hc).2.2 (ih hp)

theorem Reaches.exists_descends (hk : ix.Keyed) (h : ix.Reaches i) (hi : i ∈ ix.invocations) :
    ∃ n, ix.Descends n ix.root i := by
  induction h with
  | root => exact ⟨0, .here ix.root⟩
  | @under i p hp hparent _ ih =>
    by_cases hroot : i.id = ix.rootId
    · obtain rfl := hk.eq_of_id hi hk.root_mem hroot
      exact ⟨0, .here ix.root⟩
    · obtain ⟨n, hn⟩ := ih hp
      exact ⟨n + 1, .step hn (mem_childrenOf.mpr ⟨hi, hroot, hparent⟩)⟩

theorem mem_drawnInvocations_iff_root_or (hk : ix.Keyed) :
    i ∈ ix.drawnInvocations withRuns ↔ i = ix.root ∨ ∃ n, ix.Descends (n + 1) ix.root i := by
  rw [drawnInvocations_eq, List.mem_cons, (Unfolds.root hk).mem_invocations_iff]

theorem mem_drawnInvocations_iff_descends (hk : ix.Keyed) :
    i ∈ ix.drawnInvocations withRuns ↔ ∃ n, ix.Descends n ix.root i := by
  rw [mem_drawnInvocations_iff_root_or hk]
  constructor
  · intro h
    rcases h with rfl | ⟨n, hn⟩
    · exact ⟨0, .here ix.root⟩
    · exact ⟨n + 1, hn⟩
  · intro h
    obtain ⟨n, hn⟩ := h
    cases n with
    | zero =>
      cases hn
      exact .inl rfl
    | succ n => exact .inr ⟨n, hn⟩

theorem mem_drawnInvocations (hk : ix.Keyed) :
    i ∈ ix.drawnInvocations withRuns ↔ i ∈ ix.invocations ∧ ix.Reaches i := by
  rw [mem_drawnInvocations_iff_descends hk]
  constructor
  · intro h
    obtain ⟨n, hn⟩ := h
    exact ⟨hn.mem_invocations hk.root_mem, hn.reaches hk⟩
  · intro h
    exact h.2.exists_descends hk h.1

theorem nodup_drawnInvocations (hk : ix.Keyed) : (ix.drawnInvocations withRuns).Nodup := by
  have hu : ix.Unfolds withRuns ix.root (ix.forest withRuns) := .root hk
  rw [drawnInvocations_eq, List.nodup_cons]
  refine ⟨?_, hu.nodup_invocations hk (.here ix.root)⟩
  intro hmem
  obtain ⟨n, hn⟩ := hu.mem_invocations_iff.mp hmem
  have := hn.level_unique hk (.here ix.root)
  omega

theorem nodup_ids_drawnInvocations (hk : ix.Keyed) :
    ((ix.drawnInvocations withRuns).map Invocation.id).Nodup := by
  refine (nodup_drawnInvocations hk).map_on ?_
  intro i hi j hj hid
  exact hk.eq_of_id ((mem_drawnInvocations hk).mp hi).1 ((mem_drawnInvocations hk).mp hj).1 hid

theorem drawnRuns_perm (hk : ix.Keyed) :
    (ix.drawnRuns true).Perm ((ix.drawnInvocations true).flatMap fun i =>
      i.runs.filter fun r => !(i.id == ix.rootId && r.depth == 0)) := by
  rw [drawnRuns_eq, drawnInvocations_eq]
  refine (Unfolds.root hk).runs_perm.trans (List.Perm.flatMap_left _ ?_)
  intro i _
  exact List.mergeSort_perm _ _

end Index

/-- A root that names a parent, a child that is started twice, an invocation that is its own parent,
two that are each other's, and one under a parent that was never logged. -/
def tangledLog : Log :=
  [{ line := 1, kind := .invocationStart, invocationId := some "r",
     parentInvocationId := some "a" },
   { line := 2, kind := .invocationStart, invocationId := some "a",
     rootInvocationId := some "r", parentInvocationId := some "x" },
   { line := 3, kind := .invocationStart, invocationId := some "b",
     rootInvocationId := some "r", parentInvocationId := some "a" },
   { line := 4, kind := .invocationStart, invocationId := some "s",
     rootInvocationId := some "r", parentInvocationId := some "s" },
   { line := 5, kind := .invocationStart, invocationId := some "x",
     rootInvocationId := some "r", parentInvocationId := some "y" },
   { line := 6, kind := .invocationStart, invocationId := some "y",
     rootInvocationId := some "r", parentInvocationId := some "x" },
   { line := 7, kind := .invocationStart, invocationId := some "o",
     rootInvocationId := some "r", parentInvocationId := some "gone" },
   { line := 8, kind := .invocationStart, invocationId := some "a",
     rootInvocationId := some "r" },
   { line := 9, kind := .runEnd, invocationId := some "a", rootInvocationId := some "r",
     depth := 1 },
   { line := 10, kind := .runEnd, invocationId := some "r", depth := 1 },
   { line := 11, kind := .runEnd, invocationId := some "r" },
   { line := 12, kind := .runEnd, invocationId := some "x", rootInvocationId := some "r",
     depth := 1 }]

end InvocationTrace
