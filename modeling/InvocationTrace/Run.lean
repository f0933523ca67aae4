import InvocationTrace.Cause
import InvocationTrace.Elapsed
import InvocationTrace.Event
import InvocationTrace.Status

/-!
# Runs and tool calls

A run is one attempt of an agent at its task; an attempt that is repeated, even under the same run
id, is a run of its own. Depth 0 belongs to the root, everything deeper is delegated work.
-/

namespace InvocationTrace

/-- A run that has ended. -/
structure Run where
  line : Nat
  timestamp : Option String
  invocationId : String
  runId : Option String
  agent : Option String
  status : Option String
  elapsedMs : Option Int
  depth : Nat
  stderrTail : Option String
  deriving DecidableEq

structure ToolCall where
  line : Nat
  invocationId : String
  runId : Option String
  agent : Option String
  elapsedMs : Int
  toolName : Option String
  toolSummary : Option String
  deriving DecidableEq

namespace Run

def ofEvent (invocationId : String) (e : Event) : Run where
  line := e.line
  timestamp := e.timestamp
  invocationId := invocationId
  runId := e.runId
  agent := e.agent
  status := e.status
  elapsedMs := e.elapsedMs
  depth := e.depth
  stderrTail := e.stderrTail

/-- Whether the run is delegated work. -/
def isSpecialist (r : Run) : Bool := 1 ≤ r.depth

def isSuccess (r : Run) : Bool := Status.isSuccess r.status

def isFailure (r : Run) : Bool := Status.isFailure r.status

def elapsed (r : Run) : Int := r.elapsedMs.getD 0

def agentName (r : Run) : String := r.agent.getD "-"

def cause? (r : Run) : Option Cause := Cause.ofExcerpt? r.stderrTail

def byLine (r s : Run) : Bool := r.line ≤ s.line

def causeSuffix (r : Run) : String :=
  match r.cause? with
  | none => ""
  | some cause => " (" ++ cause.label ++ ")"

def outcomeText (r : Run) : String :=
  r.agentName ++ " [" ++ r.status.getD Status.running ++ ", " ++ elapsedText? r.elapsedMs ++ "]"

/-- The run as a row of the tree; only a success hides the cause. -/
def label (r : Run) : String :=
  "run " ++ r.outcomeText ++ if r.isSuccess then "" else r.causeSuffix

/-- The run on the highest line; of several on that line, the last. -/
def latest? (runs : List Run) : Option Run :=
  runs.foldl (fun best r =>
    match best with
    | none => some r
    | some b => if b.line ≤ r.line then some r else some b) none

end Run

/-- The delegated tool call whose end an event reports. -/
def ToolCall.ofEvent? (e : Event) : Option ToolCall :=
  match e.kind, e.invocationId with
  | .toolEnd, some invocationId =>
      if 1 ≤ e.depth then
        some {
          line := e.line
          invocationId := invocationId
          runId := e.runId
          agent := e.agent
          elapsedMs := e.elapsed
          toolName := e.toolName
          toolSummary := e.toolSummary }
      else none
  | _, _ => none

end InvocationTrace
