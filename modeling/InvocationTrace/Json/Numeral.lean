import InvocationTrace.Binary64
import InvocationTrace.Json.Basic
import InvocationTrace.Text.Numeral

/-!
# JSON numerals

The written form of a number and the value that it is read as. The digits of a numeral are gathered
into a significand for as long as it fits 64 bits; later digits of the whole part count only by
their number, and later digits of the fraction not at all. The significand is rounded once, and
once more when it is scaled by its power of ten, so a long numeral need not be read as the nearest
floating-point number.
-/

namespace InvocationTrace.Json

/-- A numeral by its parts; `whole` and `fraction` hold digits. -/
structure Numeral where
  negative : Bool
  whole : List Char
  fraction : Option (List Char)
  exponent : Option Int
  deriving DecidableEq

/-- Appends digits to a significand until it would no longer fit 64 bits; with the digits left. -/
def absorb (significand : Nat) : List Char → Nat × List Char
  | [] => (significand, [])
  | d :: ds =>
      if 10 * significand + Text.digitValue d ≤ 18446744073709551615 then
        absorb (10 * significand + Text.digitValue d) ds
      else (significand, d :: ds)

/-- The value of a numeral without fraction and exponent whose digits fit 64 bits. Zero and what
lies below the signed range keep their sign only as floating-point numbers. -/
def integerValue (negative : Bool) (significand : Nat) : Number :=
  if negative then
    if significand = 0 ∨ 9223372036854775808 < significand then
      .floating (-Binary64.nearest significand)
    else .integer (-(significand : Int))
  else .integer significand

/-- The value of a numeral; absent if it is beyond every finite floating-point number. -/
def Numeral.value? (n : Numeral) : Option Number :=
  let (head, beyond) := absorb 0 n.whole
  if n.fraction = none ∧ n.exponent = none ∧ beyond = [] then
    some (integerValue n.negative head)
  else
    let places := n.fraction.getD []
    let (significand, ignored) := absorb head places
    let exponent : Int :=
      n.exponent.getD 0 + beyond.length - (places.length - ignored.length : Nat)
    (Binary64.scale? (Binary64.nearest significand) exponent).map fun q =>
      .floating (if n.negative then -q else q)

def spanDigits (cs : List Char) : List Char × List Char :=
  (cs.takeWhile Text.isDigit, cs.dropWhile Text.isDigit)

/-- The whole part: one zero, or digits of which the first is not zero. -/
def wholePart? (cs : List Char) : Option (List Char × List Char) :=
  match spanDigits cs with
  | ([], _) => none
  | ('0' :: _ :: _, _) => none
  | (ds, rest) => some (ds, rest)

/-- The fraction, if a point follows: at least one digit. -/
def fractionPart? : List Char → Option (Option (List Char) × List Char)
  | '.' :: cs =>
      match spanDigits cs with
      | ([], _) => none
      | (ds, rest) => some (some ds, rest)
  | cs => some (none, cs)

/-- A signed exponent after its letter: at least one digit. -/
def exponentDigits? (negative : Bool) (cs : List Char) : Option (Option Int × List Char) :=
  match spanDigits cs with
  | ([], _) => none
  | (ds, rest) =>
      let n : Int := Text.digitsValue ds
      some (some (if negative then -n else n), rest)

def exponentPart? : List Char → Option (Option Int × List Char)
  | c :: cs =>
      if c = 'e' ∨ c = 'E' then
        match cs with
        | '+' :: cs => exponentDigits? false cs
        | '-' :: cs => exponentDigits? true cs
        | cs => exponentDigits? false cs
      else some (none, c :: cs)
  | [] => some (none, [])

/-- A numeral without its sign in front of a text, and what follows it. -/
def unsignedNumeral? (negative : Bool) (cs : List Char) : Option (Numeral × List Char) := do
  let (whole, cs) ← wholePart? cs
  let (fraction, cs) ← fractionPart? cs
  let (exponent, cs) ← exponentPart? cs
  return (⟨negative, whole, fraction, exponent⟩, cs)

/-- A numeral in front of a text, and what follows it. -/
def numeral? : List Char → Option (Numeral × List Char)
  | '-' :: cs => unsignedNumeral? true cs
  | cs => unsignedNumeral? false cs

end InvocationTrace.Json
