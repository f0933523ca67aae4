import InvocationTrace.Fault
import InvocationTrace.Grouping
import InvocationTrace.Invocation
import InvocationTrace.Signed64

/-!
# Index of a root

Everything that belongs to one root: its invocations in the order of their ids, the time that runs
spent in tools, and the delegated tool calls. The root need not be the root of a log: for any
invocation the index holds at least what that invocation said itself.
-/

namespace InvocationTrace

/-- Whether an event names the root as its root or is the root's own. -/
def Event.belongsTo (rootId : String) (e : Event) : Bool :=
  e.rootInvocationId == some rootId || e.invocationId == some rootId

/-- The run to whose tool time an event adds. -/
def Event.timedRun (e : Event) : Option String :=
  match e.kind with
  | .toolEnd => e.runId
  | _ => none

structure Index where
  root : Invocation
  invocations : List Invocation
  toolTimes : List (String × Int)
  toolCalls : List ToolCall
  deriving DecidableEq

namespace Index

/-- The events that the index of a root is made from. -/
def scope (rootId : String) (events : Log) : Log :=
  events.filter fun e => e.belongsTo rootId && e.invocationId.isSome

/-- The time spent in tools by run id, if every sum fits 64 bits. -/
def toolTimes? (events : Log) : Option (List (String × Int)) :=
  (Grouping.groups Event.timedRun events).mapM fun (runId, es) =>
    (Signed64.sum? (es.map Event.elapsed)).map fun total => (runId, total)

/-- The record of an invocation; the root's is settled. -/
def recordOf (rootId id : String) (es : List Event) : Invocation :=
  let i := Invocation.ofEvents id es
  if id = rootId then i.settled else i

def recordsOf (rootId : String) (events : Log) : List Invocation :=
  (Grouping.groups Event.invocationId events).map fun (id, es) => recordOf rootId id es

/-- The index of a root; an event of the root itself is needed. -/
def build (rootId : String) (events : Log) : Except Fault Index :=
  let own := scope rootId events
  match toolTimes? own with
  | none => .error .sumOverflow
  | some toolTimes =>
      let invocations := recordsOf rootId own
      match invocations.find? (·.id == rootId) with
      | none => .error (.rootNotFound rootId)
      | some root =>
          .ok {
            root := root
            invocations := invocations
            toolTimes := toolTimes
            toolCalls := own.filterMap ToolCall.ofEvent? }

def rootId (ix : Index) : String := ix.root.id

def invocation? (ix : Index) (id : String) : Option Invocation :=
  ix.invocations.find? (·.id == id)

/-- All runs by line; on one line, in the order of their invocations. -/
def runs (ix : Index) : List Run := (ix.invocations.flatMap (·.runs)).mergeSort Run.byLine

def toolTime (ix : Index) (runId : Option String) : Int :=
  (runId.bind fun id => ix.toolTimes.lookup id).getD 0

/-- The invocation under which another one stands; without a parent it stands under the root. -/
def parentOf (ix : Index) (i : Invocation) : String := i.parentInvocationId.getD ix.rootId

/-- The invocations under a given one, as siblings in order. The root stands under none. -/
def childrenOf (ix : Index) (id : String) : List Invocation :=
  (ix.invocations.filter fun i => i.id != ix.rootId && ix.parentOf i == id).mergeSort
    Invocation.startsBefore

end Index

end InvocationTrace
