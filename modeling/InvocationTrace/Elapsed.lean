import InvocationTrace.Binary64

/-!
# Elapsed times

How a time in milliseconds is shown: below a second as it is, above that in seconds, minutes or
hours with one decimal. The larger units are computed in floating point, one division after the
other.
-/

namespace InvocationTrace

/-- A time in the unit in which it is shown; the larger units in tenths. -/
inductive Elapsed where
  | milliseconds (n : Int)
  | seconds (tenths : Nat)
  | minutes (tenths : Nat)
  | hours (tenths : Nat)
  deriving DecidableEq

namespace Elapsed

/-- A quantity to the nearest tenth, a tie going to the even one. -/
def tenths (q : Rat) : Nat := (Binary64.roundEven (10 * q)).toNat

/-- Each unit serves up to sixty of it, hours without end. -/
def ofMilliseconds (ms : Int) : Elapsed :=
  if ms < 1000 then .milliseconds ms
  else
    let seconds := Binary64.nearest (Binary64.nearest ms / 1000)
    if seconds < 60 then .seconds (tenths seconds)
    else
      let minutes := Binary64.nearest (seconds / 60)
      if minutes < 60 then .minutes (tenths minutes)
      else .hours (tenths (Binary64.nearest (minutes / 60)))

def decimal (tenths : Nat) : String := toString (tenths / 10) ++ "." ++ toString (tenths % 10)

def text : Elapsed → String
  | .milliseconds n => toString n ++ "ms"
  | .seconds t => decimal t ++ "s"
  | .minutes t => decimal t ++ "m"
  | .hours t => decimal t ++ "h"

end Elapsed

def elapsedText (ms : Int) : String := (Elapsed.ofMilliseconds ms).text

def elapsedText? : Option Int → String
  | none => "-"
  | some ms => elapsedText ms

end InvocationTrace
