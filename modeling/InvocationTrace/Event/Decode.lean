import InvocationTrace.Event
import InvocationTrace.Json.Basic
import InvocationTrace.Signed64
import InvocationTrace.Text.Blank
import InvocationTrace.Text.Numeral

/-!
# Decoding of events

An event is read from any JSON object. A field of the wrong type counts as missing, and so does an
empty text.
-/

namespace InvocationTrace

namespace Json

def nonemptyText? : Json → Option String
  | .string s => if s = "" then none else some s
  | _ => none

/-- An integer given as a number or as text. A number loses its fraction and is brought into the
64-bit range; a text must write an integer that fits, apart from blanks around it. -/
def lenientInteger? : Json → Option Int
  | .number n => some (Signed64.clamp n.truncate)
  | .string s => (Text.readInteger? (Text.trim s.toList)).bind Signed64.check
  | _ => none

def texts : Json → List String
  | .array items => items.filterMap nonemptyText?
  | _ => []

end Json

def Event.ofFields (line : Nat) (fields : List (String × Json)) : Event :=
  let text (name : String) := (Json.lastField? name fields).bind Json.nonemptyText?
  let number (name : String) := (Json.lastField? name fields).bind Json.lenientInteger?
  { line
    kind := ((text "event").map Event.Kind.ofName).getD .other
    invocationId := text "invocationId"
    rootInvocationId := text "rootInvocationId"
    parentInvocationId := text "parentInvocationId"
    parentRunId := text "parentRunId"
    runId := text "runId"
    agent := text "agent"
    requestedAgents := ((Json.lastField? "requestedAgents" fields).map Json.texts).getD []
    mode := (text "mode").map Mode.ofName
    depth := ((number "depth").getD 0).toNat
    status := text "status"
    elapsedMs := number "elapsedMs"
    timestamp := text "timestamp"
    taskCount := number "taskCount"
    successCount := number "successCount"
    toolName := text "toolName"
    toolSummary := text "toolSummary"
    stderrTail := text "stderrTail" }

/-- Only objects describe events. -/
def Event.ofJson? (line : Nat) : Json → Option Event
  | .object fields => some (Event.ofFields line fields)
  | _ => none

end InvocationTrace
