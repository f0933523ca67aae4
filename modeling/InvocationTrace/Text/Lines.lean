/-!
# Lines of a text

A text is cut at every line feed. The part after the last line feed is a line too, possibly
empty, so there is always one line more than there are line feeds.
-/

namespace InvocationTrace.Text

/-- Puts one more element in front of a list of pieces: a mark opens a new piece, anything else
joins the first one. -/
def cut {α : Type} [DecidableEq α] (mark c : α) : List (List α) → List (List α)
  | [] => if c = mark then [[], []] else [[c]]
  | piece :: pieces => if c = mark then [] :: piece :: pieces else (c :: piece) :: pieces

/-- The pieces of a list between the occurrences of `mark`. -/
def splitAt {α : Type} [DecidableEq α] (mark : α) (cs : List α) : List (List α) :=
  cs.foldr (cut mark) [[]]

/-- The lines of a text, without their line feeds. -/
def lines (cs : List Char) : List (List Char) := splitAt '\n' cs

theorem cut_append {α : Type} [DecidableEq α] (mark c : α) {pieces : List (List α)}
    (more : List (List α)) (h : pieces ≠ []) :
    cut mark c (pieces ++ more) = cut mark c pieces ++ more := by
  cases pieces with
  | nil => exact absurd rfl h
  | cons piece pieces => simp only [List.cons_append, cut]; split <;> rfl

theorem splitAt_ne_nil {α : Type} [DecidableEq α] (mark : α) (cs : List α) :
    splitAt mark cs ≠ [] := by
  cases cs with
  | nil => simp [splitAt]
  | cons c cs =>
    rw [splitAt, List.foldr_cons]
    cases cs.foldr (cut mark) [[]] <;> simp only [cut] <;> split <;> simp

/-- A mark closes the piece before it, whatever stands after it. -/
theorem splitAt_append_mark {α : Type} [DecidableEq α] (mark : α) (xs ys : List α) :
    splitAt mark (xs ++ mark :: ys) = splitAt mark xs ++ splitAt mark ys := by
  induction xs with
  | nil =>
    cases h : splitAt mark ys with
    | nil => exact absurd h (splitAt_ne_nil mark ys)
    | cons piece pieces =>
      simp only [splitAt] at h
      simp [splitAt, cut, h]
  | cons c cs ih =>
    simp only [splitAt, List.cons_append, List.foldr_cons] at ih ⊢
    rw [ih]
    exact cut_append _ _ _ (splitAt_ne_nil mark cs)

end InvocationTrace.Text
