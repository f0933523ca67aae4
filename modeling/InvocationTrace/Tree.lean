import InvocationTrace.Forest
import InvocationTrace.Index

/-!
# Tree of a root

The invocations that can be reached from a root, each under its parent, with the runs of each in
front of the invocations under it. Parents come from the log and may form cycles or name unknown
invocations; the root is under nothing, so what cannot be reached from it is not in the tree, and a
path from it never meets an invocation twice.
-/

namespace InvocationTrace

inductive TreeItem where
  | run (r : Run)
  | invocation (i : Invocation)
  deriving DecidableEq

def TreeItem.text : TreeItem → String
  | .run r => r.label
  | .invocation i => i.row

namespace Index

/-- The runs shown under an invocation. The root's own runs of depth 0 are not shown. -/
def shownRuns (ix : Index) (i : Invocation) : List Run :=
  (i.runs.filter fun r => !(i.id == ix.rootId && r.depth == 0)).mergeSort Run.byLine

/-- What stands under an invocation, at most `levels` levels deep. -/
def below (ix : Index) (withRuns : Bool) : (levels : Nat) → Invocation → Forest TreeItem
  | 0, _ => .nil
  | levels + 1, i =>
      .ofList
        ((if withRuns then (ix.shownRuns i).map fun r => (.run r, .nil) else []) ++
          (ix.childrenOf i.id).map fun child => (.invocation child, ix.below withRuns levels child))

/-- What stands under the root. A path has at most one level for each invocation. -/
def forest (ix : Index) (withRuns : Bool) : Forest TreeItem :=
  ix.below withRuns ix.invocations.length ix.root

def treeRows (ix : Index) (withRuns : Bool) : List (Forest.Row TreeItem) :=
  (ix.forest withRuns).rows

end Index

/-- Rows as a text, one a line. -/
def rowsText (rows : List String) : String := String.join (rows.map (· ++ "\n"))

/-- The tree: the root, and below it what stands under it. -/
def Index.treeText (ix : Index) (withRuns : Bool) : String :=
  rowsText (ix.root.row :: (ix.treeRows withRuns).map (Forest.Row.draw TreeItem.text))

end InvocationTrace
