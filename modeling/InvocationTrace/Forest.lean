/-!
# Forests

Ordered trees of any branching, and their drawing with connectors. A row shows where it stands by
what is in front of it: a pipe for every level above at which siblings are still to come, and a
connector that tells whether the row is the last of its own siblings.
-/

namespace InvocationTrace

/-- Trees side by side: the first one's item, what is below it, and the trees after it. -/
inductive Forest (α : Type) where
  | nil
  | cons (item : α) (below rest : Forest α)
  deriving DecidableEq

namespace Forest

variable {α : Type}

/-- The trees of a list, each given as an item and what is below it. -/
def ofList : List (α × Forest α) → Forest α
  | [] => .nil
  | (item, below) :: trees => .cons item below (ofList trees)

def isEmpty : Forest α → Bool
  | .nil => true
  | .cons .. => false

/-- The items in the order in which they are drawn, each above what is below it. -/
def items : Forest α → List α
  | .nil => []
  | .cons item below rest => item :: (below.items ++ rest.items)

def height : Forest α → Nat
  | .nil => 0
  | .cons _ below rest => max (below.height + 1) rest.height

/-- An item with its place in the drawing: for each level above, whether the row's ancestor there is
the last of its siblings, and whether the row itself is. -/
structure Row (α : Type) where
  above : List Bool
  isLast : Bool
  item : α
  deriving DecidableEq

/-- The rows, where the levels above are those given and the forest's own. -/
def rowsUnder (above : List Bool) : Forest α → List (Row α)
  | .nil => []
  | .cons item below rest =>
      ⟨above, rest.isEmpty, item⟩ ::
        (rowsUnder (above ++ [rest.isEmpty]) below ++ rowsUnder above rest)

/-- The rows of a forest that stands by itself. -/
def rows (f : Forest α) : List (Row α) := f.rowsUnder []

/-- In front of a row, at its own level. -/
def connector (isLast : Bool) : String := if isLast then "└─ " else "├─ "

/-- In front of a row, at a level above its own. -/
def indent (isLast : Bool) : String := if isLast then "   " else "│  "

def Row.front (row : Row α) : String :=
  String.join (row.above.map indent) ++ connector row.isLast

def Row.draw (text : α → String) (row : Row α) : String := row.front ++ text row.item

theorem rowsUnder_items (above : List Bool) (f : Forest α) :
    (f.rowsUnder above).map Row.item = f.items := by
  induction f generalizing above with
  | nil => rfl
  | cons item below rest ihb ihr => simp [rowsUnder, items, ihb, ihr]

end Forest

end InvocationTrace
