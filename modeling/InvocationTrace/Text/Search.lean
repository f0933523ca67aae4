/-!
# Search for a text within a text
-/

namespace InvocationTrace.Text

/-- Whether `needle` stands somewhere in a text as a run of consecutive characters. -/
def contains (needle : List Char) : List Char → Bool
  | [] => needle.isEmpty
  | c :: cs => needle.isPrefixOf (c :: cs) || contains needle cs

theorem contains_eq_true_iff {needle cs : List Char} :
    contains needle cs = true ↔ needle <:+: cs := by
  induction cs with
  | nil => simp [contains]
  | cons c cs ih => simp [contains, ih, List.infix_cons_iff]

end InvocationTrace.Text
