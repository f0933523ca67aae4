/-!
# Signed 64-bit range

Times and counts are integers that fit 64 bits. Sums and differences are computed exactly and fail
where the result does not fit.
-/

namespace InvocationTrace.Signed64

def least : Int := -9223372036854775808

def greatest : Int := 9223372036854775807

def Fits (n : Int) : Prop := least ≤ n ∧ n ≤ greatest

instance (n : Int) : Decidable (Fits n) := inferInstanceAs (Decidable (_ ∧ _))

def clamp (n : Int) : Int := max least (min n greatest)

def check (n : Int) : Option Int := if Fits n then some n else none

/-- The sum, taken from the left; absent as soon as a partial sum does not fit. -/
def sum? (ns : List Int) : Option Int := ns.foldlM (fun total n => check (total + n)) 0

theorem clamp_fits (n : Int) : Fits (clamp n) := by
  simp only [Fits, clamp, least, greatest]
  omega

theorem clamp_of_fits {n : Int} (h : Fits n) : clamp n = n := by
  simp only [Fits, clamp, least, greatest] at *
  omega

theorem check_eq_some_iff {n m : Int} : check n = some m ↔ Fits n ∧ n = m := by
  simp [check]

end InvocationTrace.Signed64
