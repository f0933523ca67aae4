import InvocationTrace.Proofs.Index.Renumbering
import InvocationTrace.Report.Text

/-!
# Texts after renumbering

Siblings, runs and rankings compare lines and never compute with them. So lines that are renumbered
in their order leave the tree as it was, and a report differs in the lines that it prints only.
-/

namespace InvocationTrace

variable {number : Nat → Nat}

namespace Forest

variable {α β : Type}

def map (f : α → β) : Forest α → Forest β
  | .nil => .nil
  | .cons item below rest => .cons (f item) (below.map f) (rest.map f)

def Row.map (f : α → β) (row : Row α) : Row β := ⟨row.above, row.isLast, f row.item⟩

theorem map_ofList (f : α → β) (trees : List (α × Forest α)) :
    (ofList trees).map f = ofList (trees.map fun (item, below) => (f item, below.map f)) := by
  induction trees with
  | nil => rfl
  | cons tree trees ih => rw [List.map_cons, ofList, ofList, map, ih]

theorem rowsUnder_map (f : α → β) (above : List Bool) (t : Forest α) :
    (t.map f).rowsUnder above = (t.rowsUnder above).map (Row.map f) := by
  induction t generalizing above with
  | nil => rfl
  | cons item below rest ihb ihr =>
    have hlast : (rest.map f).isEmpty = rest.isEmpty := by cases rest <;> rfl
    rw [map, rowsUnder, rowsUnder, ihb, ihr, hlast, List.map_cons, List.map_append]
    rfl

end Forest

def TreeItem.renumber (number : Nat → Nat) : TreeItem → TreeItem
  | .run r => .run (r.renumber number)
  | .invocation i => .invocation (i.renumber number)

theorem TreeItem.text_renumber (item : TreeItem) : (item.renumber number).text = item.text := by
  cases item <;> rfl

def Overhead.renumber (number : Nat → Nat) (o : Overhead) : Overhead :=
  { o with run := o.run.renumber number }

def Report.renumber (number : Nat → Nat) (report : Report) : Report :=
  { report with
    failures := report.failures.map (Run.renumber number)
    slowest := report.slowest.map (Run.renumber number)
    overheads := report.overheads.map (Overhead.renumber number)
    slowTools := report.slowTools.map (ToolCall.renumber number) }

theorem Run.byLine_renumber (h : StrictMono number) (r s : Run) :
    byLine (r.renumber number) (s.renumber number) = byLine r s := by
  simp only [byLine, renumber, h.le_iff_le]

theorem Overhead.ranksBefore_renumber (h : StrictMono number) (a b : Overhead) :
    (a.renumber number).ranksBefore (b.renumber number) = a.ranksBefore b := by
  have hline : decide (number a.run.line ≤ number b.run.line) = decide (a.run.line ≤ b.run.line) :=
    decide_eq_decide.mpr h.le_iff_le
  rw [ranksBefore, ranksBefore, ← hline]
  rfl

theorem ToolCall.ranksBefore_renumber (h : StrictMono number) (a b : ToolCall) :
    (a.renumber number).ranksBefore (b.renumber number) = a.ranksBefore b := by
  have hline : decide (number a.line ≤ number b.line) = decide (a.line ≤ b.line) :=
    decide_eq_decide.mpr h.le_iff_le
  rw [ranksBefore, ranksBefore, ← hline]
  rfl

namespace Index

theorem runs_renumber (h : StrictMono number) (ix : Index) :
    (ix.renumber number).runs = ix.runs.map (Run.renumber number) := by
  rw [runs, runs, List.map_mergeSort fun r _ s _ => (Run.byLine_renumber h r s).symm,
    List.map_flatMap, renumber, List.flatMap_map]
  rfl

theorem childrenOf_renumber (h : StrictMono number) (ix : Index) (id : String) :
    (ix.renumber number).childrenOf id =
      (ix.childrenOf id).map (Invocation.renumber number) := by
  rw [childrenOf, childrenOf,
    List.map_mergeSort fun i _ j _ => (Invocation.startsBefore_renumber h i j).symm, renumber,
    List.filter_map]
  rfl

theorem shownRuns_renumber (h : StrictMono number) (ix : Index) (i : Invocation) :
    (ix.renumber number).shownRuns (i.renumber number) =
      (ix.shownRuns i).map (Run.renumber number) := by
  rw [shownRuns, shownRuns, List.map_mergeSort fun r _ s _ => (Run.byLine_renumber h r s).symm,
    Invocation.renumber, List.filter_map]
  rfl

theorem below_renumber (h : StrictMono number) (ix : Index) (withRuns : Bool) (levels : Nat)
    (i : Invocation) :
    (ix.renumber number).below withRuns levels (i.renumber number) =
      (ix.below withRuns levels i).map (TreeItem.renumber number) := by
  induction levels generalizing i with
  | zero => rfl
  | succ levels ih =>
    rw [below, below, Forest.map_ofList, List.map_append, shownRuns_renumber h,
      Invocation.id_renumber, childrenOf_renumber h]
    simp only [List.map_map, Function.comp_def, ih, apply_ite (List.map _), List.map_nil]
    rfl

/-- The tree does not depend on the numbers of the lines. -/
theorem treeText_renumber (h : StrictMono number) (ix : Index) (withRuns : Bool) :
    (ix.renumber number).treeText withRuns = ix.treeText withRuns := by
  have hforest : (ix.renumber number).forest withRuns =
      (ix.forest withRuns).map (TreeItem.renumber number) := by
    rw [forest, forest, ← below_renumber h, renumber, List.length_map]
  have hdraw : Forest.Row.draw TreeItem.text ∘ Forest.Row.map (TreeItem.renumber number) =
      Forest.Row.draw TreeItem.text := by
    funext row
    simp only [Function.comp_apply, Forest.Row.draw, Forest.Row.map, TreeItem.text_renumber]
    rfl
  rw [treeText, treeText, treeRows, treeRows, Forest.rows, Forest.rows, hforest,
    Forest.rowsUnder_map, List.map_map, hdraw]
  rfl

theorem specialistRuns_renumber (h : StrictMono number) (ix : Index) :
    (ix.renumber number).specialistRuns = ix.specialistRuns.map (Run.renumber number) := by
  rw [specialistRuns, specialistRuns, runs_renumber h, List.filter_map]
  rfl

theorem failures_renumber (h : StrictMono number) (ix : Index) :
    (ix.renumber number).failures = ix.failures.map (Run.renumber number) := by
  rw [failures, failures, specialistRuns_renumber h, List.filter_map]
  rfl

theorem successes_renumber (h : StrictMono number) (ix : Index) :
    (ix.renumber number).successes = ix.successes.map (Run.renumber number) := by
  rw [successes, successes, specialistRuns_renumber h, List.filter_map]
  rfl

theorem slowest_renumber (h : StrictMono number) (ix : Index) (limit : Nat) :
    (ix.renumber number).slowest limit = (ix.slowest limit).map (Run.renumber number) := by
  have hlonger : ∀ r s : Run,
      Run.longerFirst r s = Run.longerFirst (r.renumber number) (s.renumber number) :=
    fun _ _ => rfl
  rw [slowest, slowest, successes_renumber h, List.map_take,
    List.map_mergeSort fun r _ s _ => hlonger r s]

theorem agentTotals?_renumber (h : StrictMono number) (ix : Index) :
    (ix.renumber number).agentTotals? = ix.agentTotals? := by
  rw [agentTotals?, agentTotals?, specialistRuns_renumber h, Grouping.groups_map, List.mapM_map]
  simp only [Function.comp_def, List.map_map]
  rfl

theorem overheadOf?_renumber (ix : Index) (r : Run) :
    (ix.renumber number).overheadOf? (r.renumber number) =
      (ix.overheadOf? r).map (Overhead.renumber number) := by
  rw [overheadOf?, overheadOf?, Option.map_map]
  rfl

private theorem mapM_map_some {α β γ : Type} (f : α → Option β) (g : β → γ) (xs : List α) :
    (xs.mapM fun x => (f x).map g) = (xs.mapM f).map (List.map g) := by
  induction xs with
  | nil => rfl
  | cons x xs ih =>
    rw [List.mapM_cons, List.mapM_cons, ih]
    cases f x with
    | none => rfl
    | some y => cases xs.mapM f <;> rfl

theorem overheads?_renumber (h : StrictMono number) (ix : Index) (limit : Nat) :
    (ix.renumber number).overheads? limit =
      (ix.overheads? limit).map (List.map (Overhead.renumber number)) := by
  rw [overheads?, overheads?, successes_renumber h, List.mapM_map]
  simp only [Function.comp_def, overheadOf?_renumber, mapM_map_some, Option.map_map]
  congr 1
  funext rows
  simp only [List.map_take,
    List.map_mergeSort fun a _ b _ => (Overhead.ranksBefore_renumber h a b).symm]

theorem slowTools_renumber (h : StrictMono number) (ix : Index) (threshold : Int) (limit : Nat) :
    (ix.renumber number).slowTools threshold limit =
      (ix.slowTools threshold limit).map (ToolCall.renumber number) := by
  rw [slowTools, slowTools, renumber, List.map_take,
    List.map_mergeSort fun a _ b _ => (ToolCall.ranksBefore_renumber h a b).symm,
    List.filter_map]
  rfl

end Index

/-- A report differs in the numbers of the lines it names, and in nothing else. -/
theorem Report.build_renumber (h : StrictMono number) (ix : Index) (threshold : Int)
    (limit : Nat) :
    build (ix.renumber number) threshold limit =
      (build ix threshold limit).map (renumber number) := by
  rw [build, build, Index.agentTotals?_renumber h, Index.overheads?_renumber h]
  cases ix.agentTotals? with
  | none => rfl
  | some totals =>
    cases ix.overheads? limit with
    | none => rfl
    | some overheads =>
      simp only [Option.map_some, Index.failures_renumber h, Index.slowest_renumber h,
        Index.slowTools_renumber h, Except.map, renumber]

end InvocationTrace
