import InvocationTrace.Run

/-!
# Invocations

What the events of one invocation say about it, taken together. A start restates everything that a
start says. An end overrides what runs have said, and runs only fill in what is still unknown.
-/

namespace InvocationTrace

structure Invocation where
  id : String
  startLine : Option Nat := none
  startTs : Option String := none
  mode : Option Mode := none
  depth : Option Nat := none
  parentInvocationId : Option String := none
  parentRunId : Option String := none
  requestedAgents : List String := []
  agent : Option String := none
  parallelTaskCount : Option Int := none
  status : Option String := none
  elapsedMs : Option Int := none
  endLine : Option Nat := none
  endTs : Option String := none
  taskCount : Option Int := none
  successCount : Option Int := none
  runs : List Run := []
  deriving DecidableEq

namespace Invocation

def isParallel (i : Invocation) : Bool := i.mode == some .parallel

def hasEnded (i : Invocation) : Bool := i.endLine.isSome

/-- The number of tasks: as counted at the end, or else as announced. -/
def effectiveTaskCount (i : Invocation) : Option Int := i.taskCount.or i.parallelTaskCount

/-- A start. In single mode the first requested agent is the agent, unless one is known. -/
def start (i : Invocation) (e : Event) : Invocation :=
  { i with
    startLine := some e.line
    startTs := e.timestamp
    mode := e.mode
    depth := some e.depth
    parentInvocationId := e.parentInvocationId
    parentRunId := e.parentRunId
    requestedAgents := e.requestedAgents
    agent := if e.mode = some .single then i.agent.or e.requestedAgents.head? else i.agent }

def finish (i : Invocation) (e : Event) : Invocation :=
  { i with
    status := e.status.or i.status
    elapsedMs := e.elapsedMs.or i.elapsedMs
    endLine := some e.line
    endTs := e.timestamp
    taskCount := e.taskCount.or i.taskCount
    successCount := e.successCount.or i.successCount
    agent := i.agent.or e.agent }

def addRun (i : Invocation) (e : Event) : Invocation :=
  { i with
    runs := i.runs ++ [Run.ofEvent i.id e]
    status := i.status.or e.status
    elapsedMs := i.elapsedMs.or e.elapsedMs
    agent := i.agent.or e.agent }

def record (i : Invocation) (e : Event) : Invocation :=
  match e.kind with
  | .invocationStart => i.start e
  | .singleStart => { i with agent := e.agent.or i.agent }
  | .parallelStart => { i with parallelTaskCount := e.taskCount }
  | .invocationEnd => i.finish e
  | .runEnd => i.addRun e
  | .toolEnd | .other => i

def ofEvents (id : String) (es : List Event) : Invocation := es.foldl record { id := id }

/-- An invocation that has not ended, or ended without a status, with status and time of its latest
run. -/
def settled (i : Invocation) : Invocation :=
  if i.hasEnded && i.status.isSome then i
  else
    match Run.latest? i.runs with
    | none => i
    | some run => { i with status := run.status, elapsedMs := run.elapsedMs }

@[simp] theorem id_record (i : Invocation) (e : Event) : (i.record e).id = i.id := by
  unfold record
  split <;> rfl

@[simp] theorem id_ofEvents (id : String) (es : List Event) : (ofEvents id es).id = id := by
  have h : ∀ i : Invocation, (es.foldl record i).id = i.id := by
    induction es with
    | nil => exact fun _ => rfl
    | cons e es ih => exact fun i => by rw [List.foldl_cons, ih, id_record]
  exact h _

@[simp] theorem id_settled (i : Invocation) : i.settled.id = i.id := by
  unfold settled
  split
  · rfl
  · split <;> rfl

/-- Siblings come in the order of their starts and then of their ids; those without a start come
last. -/
def startsBefore (i j : Invocation) : Bool :=
  match i.startLine, j.startLine with
  | some m, some n => if m = n then i.id ≤ j.id else m < n
  | some _, none => true
  | none, some _ => false
  | none, none => i.id ≤ j.id

/-- Who does the work: several agents, the one agent, or those that were asked for. -/
def agentText (i : Invocation) : String :=
  if i.isParallel then "parallel"
  else
    match i.agent with
    | some agent => agent
    | none => if i.requestedAgents.isEmpty then "-" else String.intercalate "," i.requestedAgents

/-- How many tasks of a parallel invocation succeeded, if it is known. -/
def successText (i : Invocation) : String :=
  match i.successCount, i.effectiveTaskCount with
  | some successes, some tasks =>
      if i.isParallel then ", success " ++ toString successes ++ "/" ++ toString tasks else ""
  | _, _ => ""

def label (i : Invocation) : String :=
  i.agentText ++ " [" ++ (i.mode.map Mode.name).getD "?" ++ ", " ++ i.status.getD Status.running ++
    ", " ++ elapsedText? i.elapsedMs ++ i.successText ++ "]"

def row (i : Invocation) : String := i.id ++ " " ++ i.label

end Invocation

end InvocationTrace
