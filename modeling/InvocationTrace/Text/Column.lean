/-!
# Table columns

Fixed-width cells, measured in characters.
-/

namespace InvocationTrace.Text

/-- A text followed by as many spaces as bring it to `width` characters. -/
def padRight (width : Nat) (s : String) : String :=
  String.ofList (s.toList ++ List.replicate (width - s.length) ' ')

/-- A text preceded by as many spaces as bring it to `width` characters. -/
def padLeft (width : Nat) (s : String) : String :=
  String.ofList (List.replicate (width - s.length) ' ' ++ s.toList)

/-- A cell of exactly `width` characters: what does not fit is cut off. -/
def cell (width : Nat) (s : String) : String :=
  padRight width (String.ofList (s.toList.take width))

theorem length_cell (width : Nat) (s : String) : (cell width s).length = width := by
  simp only [cell, padRight, String.length_ofList, String.toList_ofList, List.length_append,
    List.length_replicate, List.length_take]
  omega

end InvocationTrace.Text
