/-!
# Binary64

Rounding of non-negative rationals to the binary floating-point format of 64 bits: 53 significant
bits, steps no finer than 2⁻¹⁰⁷⁴, values below 2¹⁰²⁴. A floating-point number is kept as the
rational that it denotes, and an operation is the exact operation followed by one rounding.
-/

namespace InvocationTrace.Binary64

/-- The nearest integer; halfway between two, the even one. -/
def roundEven (q : Rat) : Int :=
  let n := q.floor
  let rest := q - n
  if 2 * rest < 1 then n
  else if 1 < 2 * rest then n + 1
  else if n % 2 = 0 then n
  else n + 1

/-- The `e` with `2 ^ e ≤ q < 2 ^ (e + 1)`, for positive `q`. -/
def binaryExponent (q : Rat) : Int :=
  let e : Int := (q.num.toNat.log2 : Int) - (q.den.log2 : Int)
  if q < (2 : Rat) ^ e then e - 1 else e

/-- The distance between the floating-point numbers around `q`. -/
def step (q : Rat) : Rat := (2 : Rat) ^ max (binaryExponent q - 52) (-1074)

/-- The nearest multiple of the step at `q`, a tie going to the even multiple. -/
def nearest (q : Rat) : Rat := roundEven (q / step q) * step q

/-- The rounded value, unless it lies above every finite floating-point number. -/
def finite? (q : Rat) : Option Rat :=
  if nearest q < (2 : Rat) ^ (1024 : Int) then some (nearest q) else none

/-- The floating-point number that stands for a power of ten. -/
def powerOfTen (k : Nat) : Rat := nearest ((10 : Rat) ^ (k : Int))

/-- Repeated division by the greatest power of ten, until nothing is left. -/
def shrink : Nat → Rat → Rat
  | 0, f => f
  | k + 1, f => if f = 0 then 0 else shrink k (nearest (f / powerOfTen 308))

/-- A floating-point number times a power of ten, in steps of at most 308 places; absent if it is
too large. -/
def scale? (f : Rat) : Int → Option Rat
  | .ofNat k =>
      if k ≤ 308 then finite? (f * powerOfTen k)
      else if f = 0 then some 0
      else none
  | .negSucc k =>
      some (nearest (shrink (k / 308) f / powerOfTen (k + 1 - 308 * (k / 308))))

end InvocationTrace.Binary64
