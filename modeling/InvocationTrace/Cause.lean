import InvocationTrace.Text.Lowercase
import InvocationTrace.Text.Search

/-!
# Causes of failure

A failed run may leave an excerpt of its error output. Some known messages tell the cause; they are
looked for in a fixed order and without regard to letter case.
-/

namespace InvocationTrace

inductive Cause where
  | missingKey
  | lockHeld
  | fetchFailed
  | unknownTool
  | unrecognised
  deriving DecidableEq

namespace Cause

def label : Cause → String
  | .missingKey => "No API key found"
  | .lockHeld => "Lock file already held"
  | .fetchFailed => "fetch failed"
  | .unknownTool => "unknown tool"
  | .unrecognised => "error"

/-- The messages with the causes they tell, most telling first. -/
def messages : List (String × Cause) :=
  [("no api key found", .missingKey),
   ("lock file is already being held", .lockHeld),
   ("fetch failed", .fetchFailed),
   ("unknown tool", .unknownTool)]

def ofLowercase (cs : List Char) : Cause :=
  match messages.find? fun message => Text.contains message.1.toList cs with
  | some message => message.2
  | none => .unrecognised

/-- The cause that an excerpt tells; without an excerpt there is none. -/
def ofExcerpt? : Option String → Option Cause
  | none => none
  | some excerpt =>
      match Text.lowercase excerpt.toList with
      | [] => none
      | cs => some (ofLowercase cs)

end Cause

end InvocationTrace
