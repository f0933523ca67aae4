import InvocationTrace.Proofs.Tree.Descent

/-!
# Trees without runs

Runs stand in front of the invocations under the same parent, so they never decide which of these is
the last. A tree without runs is therefore the tree with runs from which the rows of runs are
deleted: what is left keeps its connectors, its indentation and its text.
-/

namespace InvocationTrace

namespace Forest

variable {α : Type}

theorem isEmpty_ofList (trees : List (α × Forest α)) : (ofList trees).isEmpty = trees.isEmpty := by
  cases trees <;> rfl

theorem rowsUnder_ofList_cons (above : List Bool) (item : α) (below : Forest α)
    (trees : List (α × Forest α)) : (ofList ((item, below) :: trees)).rowsUnder above =
      ⟨above, trees.isEmpty, item⟩ ::
        (below.rowsUnder (above ++ [trees.isEmpty]) ++ (ofList trees).rowsUnder above) := by
  rw [ofList, rowsUnder, isEmpty_ofList]

end Forest

def TreeItem.isInvocation (item : TreeItem) : Bool := item.invocation?.isSome

namespace Index

open Forest

variable {ix : Index}

/-- The rows of invocations among the rows of a tree. -/
def invocationRows (rows : List (Row TreeItem)) : List (Row TreeItem) :=
  rows.filter fun row => row.item.isInvocation

private theorem invocationRows_runs_append (above : List Bool) (runs : List Run)
    (trees : List (TreeItem × Forest TreeItem)) :
    invocationRows ((ofList (runs.map (fun r => (.run r, .nil)) ++ trees)).rowsUnder above) =
      invocationRows ((ofList trees).rowsUnder above) := by
  induction runs with
  | nil => rfl
  | cons r runs ih =>
    rw [List.map_cons, List.cons_append, rowsUnder_ofList_cons, invocationRows,
      List.filter_cons_of_neg (by simp [TreeItem.isInvocation, TreeItem.invocation?]), rowsUnder,
      List.nil_append]
    exact ih

/-- Children keep their rows if what stands under each of them does. -/
private theorem invocationRows_children {children : List Invocation}
    {sub sub' : Invocation → Forest TreeItem}
    (h : ∀ child above,
      invocationRows ((sub child).rowsUnder above) = (sub' child).rowsUnder above)
    (above : List Bool) :
    invocationRows ((ofList (children.map fun c => (.invocation c, sub c))).rowsUnder above) =
      (ofList (children.map fun c => (.invocation c, sub' c))).rowsUnder above := by
  induction children with
  | nil => rfl
  | cons child children ih =>
    have hlast : (children.map fun c => (TreeItem.invocation c, sub c)).isEmpty =
        (children.map fun c => (TreeItem.invocation c, sub' c)).isEmpty := by
      rw [List.isEmpty_map, List.isEmpty_map]
    rw [List.map_cons, List.map_cons, rowsUnder_ofList_cons, rowsUnder_ofList_cons, invocationRows,
      List.filter_cons_of_pos rfl, List.filter_append, ← invocationRows, ← invocationRows, h, ih,
      hlast]

/-- At every depth and behind every indentation, deleting the rows of runs leaves the rows that are
drawn without runs. -/
theorem invocationRows_below (ix : Index) (levels : Nat) (i : Invocation) (above : List Bool) :
    invocationRows ((ix.below true levels i).rowsUnder above) =
      (ix.below false levels i).rowsUnder above := by
  induction levels generalizing i above with
  | zero => rfl
  | succ levels ih =>
    rw [below, below, if_pos rfl, if_neg Bool.false_ne_true, List.nil_append,
      invocationRows_runs_append]
    exact invocationRows_children (fun child above => ih child above) above

/-- A tree without runs has the rows of the tree with runs, the rows of runs deleted: the text of
every invocation, its connector and what is in front of it are the same in both. -/
theorem treeRows_without_runs (ix : Index) :
    ix.treeRows false = invocationRows (ix.treeRows true) ∧
      ix.treeText true =
        rowsText (ix.root.row :: (ix.treeRows true).map (Row.draw TreeItem.text)) ∧
      ix.treeText false = rowsText (ix.root.row ::
        (invocationRows (ix.treeRows true)).map (Row.draw TreeItem.text)) := by
  have hrows : ix.treeRows false = invocationRows (ix.treeRows true) :=
    (invocationRows_below ix ix.invocations.length ix.root []).symm
  refine ⟨hrows, rfl, ?_⟩
  rw [treeText, hrows]

end Index

end InvocationTrace
