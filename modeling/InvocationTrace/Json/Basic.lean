/-!
# JSON values

A number that is written as an integer and fits 64 bits, signed or unsigned, is kept as that
integer; any other number is kept as the floating-point value that it is read as.
-/

namespace InvocationTrace

inductive Json.Number where
  | integer (n : Int)
  | floating (q : Rat)
  deriving DecidableEq

inductive Json where
  | null
  | bool (b : Bool)
  | number (n : Json.Number)
  | string (s : String)
  | array (items : List Json)
  | object (fields : List (String × Json))

namespace Json

/-- The integer part, toward zero. -/
def Number.truncate : Number → Int
  | .integer n => n
  | .floating q => q.num.tdiv q.den

/-- The last value that a list of fields gives to a name. -/
def lastField? (name : String) (fields : List (String × Json)) : Option Json :=
  (fields.filter fun field => field.1 == name).getLast?.map (·.2)

end Json

end InvocationTrace
