import InvocationTrace.Event
import InvocationTrace.Grouping
import InvocationTrace.Status

/-!
# Root summaries

One summary for each root that a log opens, made from the events whose effective root it is. Events
of a root that come before the one that opens it do not count.
-/

namespace InvocationTrace

structure RootSummary where
  rootId : String
  startLine : Nat
  startTs : Option String
  mode : Option Mode
  agent : String
  status : String
  elapsedMs : Option Int
  endLine : Option Nat
  endTs : Option String
  childInvocations : Nat
  childRuns : Nat
  childFailures : Nat
  deriving DecidableEq

namespace RootSummary

/-- The summary of a root that has just been opened. -/
def opened (rootId : String) (e : Event) : RootSummary where
  rootId := rootId
  startLine := e.line
  startTs := e.timestamp
  mode := e.mode
  agent := (e.requestedAgents.head?.or e.agent).getD "-"
  status := Status.running
  elapsedMs := none
  endLine := none
  endTs := none
  childInvocations := 0
  childRuns := 0
  childFailures := 0

/-- The end of the root itself or of one of its own runs. -/
def finish (s : RootSummary) (e : Event) : RootSummary :=
  { s with
    status := e.status.getD s.status
    elapsedMs := e.elapsedMs.or s.elapsedMs
    endLine := some e.line
    endTs := e.timestamp }

/-- The end of a run within the root. Only delegated runs count. -/
def countRun (s : RootSummary) (e : Event) : RootSummary :=
  if 0 < e.depth then
    { s with
      childRuns := s.childRuns + 1
      childFailures := s.childFailures + if Status.isFailure e.status then 1 else 0 }
  else s

/-- One event of the root: its own ends set the outcome, the others' events are counted. -/
def record (s : RootSummary) (e : Event) : RootSummary :=
  if e.invocationId = some s.rootId then
    match e.kind with
    | .runEnd | .invocationEnd => s.finish e
    | _ => s
  else
    match e.kind with
    | .invocationStart => { s with childInvocations := s.childInvocations + 1 }
    | .runEnd => s.countRun e
    | _ => s

/-- The summary of a root from its events, if one of them opens it. -/
def ofEvents? (rootId : String) (es : List Event) : Option RootSummary :=
  match es.dropWhile fun e => !e.opensRoot with
  | [] => none
  | first :: rest => some (rest.foldl record (opened rootId first))

/-- The summaries of all roots in the order of their ids. -/
def collect (events : Log) : List RootSummary :=
  (Grouping.groups Event.effectiveRoot events).filterMap fun (rootId, es) => ofEvents? rootId es

end RootSummary

end InvocationTrace
