import InvocationTrace.Proofs.Ranking
import InvocationTrace.Proofs.Tree.Paths
import InvocationTrace.Proofs.Tree.Siblings

/-!
# The drawing of a tree

The rows of a tree are its items in preorder, under each invocation its runs by line and then its
children as siblings, and what stands in front of a row follows from the row's path. So a pipe always
leads to a row further down, and the row under which a row stands can be found by looking up.
-/

namespace InvocationTrace.Index

open Forest

variable {rootId : String} {events : Log} {ix : Index} {withRuns : Bool} {i : Invocation}
  {f : Forest TreeItem}

/-- What stands directly under an item: nothing under a run, and under an invocation its runs, if
they are shown, and then its children. -/
def itemsUnder (ix : Index) (withRuns : Bool) : TreeItem → List TreeItem
  | .run _ => []
  | .invocation i =>
      (if withRuns then (ix.shownRuns i).map TreeItem.run else []) ++
        (ix.childrenOf i.id).map TreeItem.invocation

theorem Unfolds.grows (h : ix.Unfolds withRuns i f) :
    Grows (ix.itemsUnder withRuns) (ix.itemsUnder withRuns (.invocation i)) f := by
  induction h with
  | visit i sub _ ih =>
    have hitems : ix.itemsUnder withRuns (.invocation i) =
        ((if withRuns then (ix.shownRuns i).map fun r => (TreeItem.run r, Forest.nil) else []) ++
          (ix.childrenOf i.id).map fun c => (TreeItem.invocation c, sub c)).map Prod.fst := by
      cases withRuns <;> simp [itemsUnder, Function.comp_def]
    rw [hitems]
    refine grows_ofList ?_
    intro tree htree
    rcases List.mem_append.mp htree with hrun | hchild
    · cases withRuns with
      | false => cases hrun
      | true =>
        obtain ⟨r, -, rfl⟩ := List.mem_map.mp hrun
        exact .nil
    · obtain ⟨c, hc, rfl⟩ := List.mem_map.mp hchild
      exact ih c hc

theorem shownRuns_pairwise (ix : Index) (i : Invocation) :
    (ix.shownRuns i).Pairwise fun r s => r.line ≤ s.line := by
  refine (List.pairwise_mergeSort Run.byLine_trans Run.byLine_total _).imp ?_
  intro r s hrs
  exact Run.byLine_iff.mp hrs

theorem inPreorder_forest (hk : ix.Keyed) (withRuns : Bool) :
    InPreorder (ix.itemsUnder withRuns) (.invocation ix.root)
      ([] :: (ix.forest withRuns).pathsFrom 0) where
  sorted := by
    refine List.pairwise_cons.mpr ⟨?_, pathsFrom_pairwise _ 0⟩
    intro path hpath
    obtain ⟨n, rest, rfl, -⟩ := exists_cons_of_mem_pathsFrom hpath
    exact List.nil_lt_cons n rest
  complete := by
    intro path
    have hmem : path ∈ (ix.forest withRuns).pathsFrom 0 ↔ _ :=
      mem_pathsFrom_iff (Unfolds.root hk).grows (List.nil_append _).symm
    rw [List.mem_cons, hmem]
    cases path with
    | nil => simp [itemAt?]
    | cons n rest => simp

/-- The rows of a tree are those of its paths in preorder. -/
theorem exists_lines_treeText (hk : ix.Keyed) (withRuns : Bool) :
    ∃ lines, ix.treeText withRuns = rowsText lines ∧
      List.Forall₂ (fun line path => ∃ item,
        itemAt? (ix.itemsUnder withRuns) (.invocation ix.root) path = some item ∧
          line = String.join (segmentsAt (ix.itemsUnder withRuns) (.invocation ix.root) path) ++
            item.text)
        lines ([] :: (ix.forest withRuns).pathsFrom 0) := by
  refine ⟨_, rfl, .cons ⟨.invocation ix.root, rfl, ?_⟩ ?_⟩
  · exact (String.empty_append).symm
  · rw [List.forall₂_map_left_iff]
    refine (forall₂_rowsUnder (Unfolds.root hk).grows (List.nil_append _).symm []).imp ?_
    intro row path hrow
    refine ⟨row.item, hrow.1, ?_⟩
    rw [Row.draw, front_of_lastsAt hrow.2]

/-- A tree is drawn in preorder: every item below what it stands under, an invocation's runs by line
and its children as siblings, and each row behind the segments that its path says. So above its own
level a row shows a pipe exactly if the drawing goes on there with a later sibling, and the row that
it stands under is the nearest one before it that is one level further out. -/
theorem tree_drawn_in_preorder (h : build rootId events = .ok ix) (withRuns : Bool) :
    (∀ i, (ix.shownRuns i).Perm (i.runs.filter fun r => !(i.id == rootId && r.depth == 0)) ∧
      ((ix.shownRuns i).Pairwise fun r s => r.line ≤ s.line) ∧
      (ix.childrenOf i.id).Pairwise fun c d => c.place < d.place) ∧
    ∃ paths lines, InPreorder (ix.itemsUnder withRuns) (.invocation ix.root) paths ∧
      ix.treeText withRuns = rowsText lines ∧
      List.Forall₂ (fun line path => ∃ item,
        itemAt? (ix.itemsUnder withRuns) (.invocation ix.root) path = some item ∧
          line = String.join (segmentsAt (ix.itemsUnder withRuns) (.invocation ix.root) path) ++
            item.text) lines paths ∧
      ∀ before path after, paths = before ++ path :: after → path ≠ [] →
        (∀ k, k + 1 < path.length →
          ((segmentsAt (ix.itemsUnder withRuns) (.invocation ix.root) path)[k]? = some "│  " ↔
            ∃ later ∈ after, LaterSibling (path.take (k + 1)) later)) ∧
        ∃ above between, before = above ++ path.dropLast :: between ∧
          ∀ row ∈ between, path.length ≤ row.length := by
  have hk : ix.Keyed := keyed_of_build h
  have hpreorder := inPreorder_forest hk withRuns
  obtain ⟨lines, htext, hlines⟩ := exists_lines_treeText hk withRuns
  constructor
  · intro i
    rw [← rootId_of_build h]
    exact ⟨List.mergeSort_perm _ _, ix.shownRuns_pairwise i, hk.childrenOf_pairwise i.id⟩
  · refine ⟨_, lines, hpreorder, htext, hlines, ?_⟩
    intro before path after hsplit hne
    rw [hsplit] at hpreorder
    refine ⟨?_, hpreorder.exists_parent hne⟩
    intro k hlevel
    rw [segmentsAt_eq_pipe_iff hlevel, hpreorder.isLastAt_eq_false_iff (Nat.lt_of_succ_lt hlevel)]

end InvocationTrace.Index

namespace InvocationTrace

/-- A root with a run that is shown and one that is not, and two children, the first of which has a
run and a child. -/
def nestedLog : Log :=
  [{ line := 1, kind := .invocationStart, invocationId := some "r" },
   { line := 2, kind := .invocationStart, invocationId := some "a",
     rootInvocationId := some "r" },
   { line := 3, kind := .invocationStart, invocationId := some "g",
     rootInvocationId := some "r", parentInvocationId := some "a" },
   { line := 4, kind := .runEnd, invocationId := some "a", rootInvocationId := some "r",
     depth := 1 },
   { line := 5, kind := .invocationStart, invocationId := some "b",
     rootInvocationId := some "r", parentInvocationId := some "r" },
   { line := 6, kind := .runEnd, invocationId := some "r", depth := 1 },
   { line := 7, kind := .runEnd, invocationId := some "r" }]

open Forest in
/-- The grandchild is the last under its parent, which is not the last under the root. -/
theorem tree_drawn_in_preorder_nestedLog :
    ∃ ix before after, Index.build "r" nestedLog = .ok ix ∧
      InPreorder (ix.itemsUnder true) (.invocation ix.root) (before ++ [1, 1] :: after) ∧
      segmentsAt (ix.itemsUnder true) (.invocation ix.root) [1, 1] = ["│  ", "└─ "] ∧
      (∃ later ∈ after, LaterSibling [1] later) ∧
      ∃ above between, before = above ++ [1] :: between ∧ ∀ row ∈ between, 2 ≤ row.length := by
  have hbuild : Index.build "r" nestedLog = .ok _ := rfl
  obtain ⟨-, paths, lines, hpreorder, -, -, hrows⟩ := Index.tree_drawn_in_preorder hbuild true
  have hmem : [1, 1] ∈ paths := (hpreorder.complete _).mpr (by cbv)
  obtain ⟨before, after, rfl⟩ := List.mem_iff_append.mp hmem
  obtain ⟨hpipe, hparent⟩ := hrows before [1, 1] after rfl (by decide)
  exact ⟨_, before, after, hbuild, hpreorder, by cbv, (hpipe 0 (by decide)).mp (by cbv), hparent⟩

end InvocationTrace
