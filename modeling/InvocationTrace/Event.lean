/-!
# Events

One line of a trace log. Agents report when an invocation starts and ends, when one of its runs
ends, and when a tool call ends. What a line does not say, or says in the wrong form, is absent.
-/

namespace InvocationTrace

inductive Event.Kind where
  | invocationStart
  | singleStart
  | parallelStart
  | invocationEnd
  | runEnd
  | toolEnd
  | other
  deriving DecidableEq

def Event.Kind.ofName : String → Event.Kind
  | "subagent_invocation_start" => .invocationStart
  | "subagent_single_start" => .singleStart
  | "subagent_parallel_start" => .parallelStart
  | "subagent_invocation_end" => .invocationEnd
  | "subagent_run_end" => .runEnd
  | "subagent_tool_end" => .toolEnd
  | _ => .other

/-- How an invocation hands out its work: to one agent, to several at once, or in a way of some
other name. -/
inductive Mode where
  | single
  | parallel
  | other (name : String)
  deriving DecidableEq

def Mode.ofName : String → Mode
  | "single" => .single
  | "parallel" => .parallel
  | name => .other name

def Mode.name : Mode → String
  | .single => "single"
  | .parallel => "parallel"
  | .other name => name

@[simp] theorem Mode.name_ofName (name : String) : (ofName name).name = name := by
  unfold ofName
  split <;> rfl

/-- One decoded line. Lines are numbered from 1. -/
structure Event where
  line : Nat
  kind : Event.Kind := .other
  invocationId : Option String := none
  rootInvocationId : Option String := none
  parentInvocationId : Option String := none
  parentRunId : Option String := none
  runId : Option String := none
  agent : Option String := none
  requestedAgents : List String := []
  mode : Option Mode := none
  depth : Nat := 0
  status : Option String := none
  elapsedMs : Option Int := none
  timestamp : Option String := none
  taskCount : Option Int := none
  successCount : Option Int := none
  toolName : Option String := none
  toolSummary : Option String := none
  stderrTail : Option String := none
  deriving DecidableEq

namespace Event

/-- The root that an event names, or else its own invocation. -/
def effectiveRoot (e : Event) : Option String := e.rootInvocationId.or e.invocationId

/-- Whether the event starts an invocation that is its own root. -/
def opensRoot (e : Event) : Bool :=
  e.kind == .invocationStart && e.invocationId.isSome && e.invocationId == e.effectiveRoot

/-- The elapsed time, where an absent one counts as nothing. -/
def elapsed (e : Event) : Int := e.elapsedMs.getD 0

end Event

/-- The events of a log in the order in which it gives them. -/
abbrev Log := List Event

end InvocationTrace
