import InvocationTrace.Index

/-!
# Report on a root

Failures and bottlenecks of the delegated runs of a root: which failed, which took longest, how much
time each agent took, how much of a run was not spent in tools, and which tool calls were slow. Runs
of depth 0 are left out everywhere.
-/

namespace InvocationTrace

/-- The time that an agent's runs took together. -/
structure AgentTotal where
  agent : String
  totalMs : Int
  deriving DecidableEq

/-- The part of a run that was not spent in tools. -/
structure Overhead where
  run : Run
  elapsedMs : Int
  toolMs : Int
  overheadMs : Int
  deriving DecidableEq

/-- The greatest overhead first, then the longest time, then the earlier line. -/
def Overhead.ranksBefore (a b : Overhead) : Bool :=
  if a.overheadMs = b.overheadMs then
    if a.elapsedMs = b.elapsedMs then a.run.line ≤ b.run.line else b.elapsedMs < a.elapsedMs
  else b.overheadMs < a.overheadMs

/-- The longest time first, then the earlier line. -/
def ToolCall.ranksBefore (a b : ToolCall) : Bool :=
  if a.elapsedMs = b.elapsedMs then a.line ≤ b.line else b.elapsedMs < a.elapsedMs

def Run.longerFirst (a b : Run) : Bool := b.elapsed ≤ a.elapsed

def AgentTotal.greaterFirst (a b : AgentTotal) : Bool := b.totalMs ≤ a.totalMs

namespace Index

/-- The delegated runs by line. -/
def specialistRuns (ix : Index) : List Run := ix.runs.filter Run.isSpecialist

def failures (ix : Index) : List Run := ix.specialistRuns.filter Run.isFailure

def successes (ix : Index) : List Run := ix.specialistRuns.filter Run.isSuccess

def slowest (ix : Index) (limit : Nat) : List Run :=
  (ix.successes.mergeSort Run.longerFirst).take limit

/-- The time by agent, if every sum fits 64 bits; of equal totals, the lesser name first. -/
def agentTotals? (ix : Index) : Option (List AgentTotal) :=
  let totals? := (Grouping.groups (fun r : Run => some r.agentName) ix.specialistRuns).mapM
    fun (agent, runs) => (Signed64.sum? (runs.map Run.elapsed)).map (AgentTotal.mk agent)
  totals?.map fun totals => totals.mergeSort AgentTotal.greaterFirst

def overheadOf? (ix : Index) (r : Run) : Option Overhead :=
  (Signed64.check (r.elapsed - ix.toolTime r.runId)).map
    (Overhead.mk r r.elapsed (ix.toolTime r.runId))

/-- The greatest overheads of the successful runs, if every difference fits 64 bits. -/
def overheads? (ix : Index) (limit : Nat) : Option (List Overhead) :=
  (ix.successes.mapM ix.overheadOf?).map fun rows =>
    (rows.mergeSort Overhead.ranksBefore).take limit

/-- The slowest tool calls among those that took at least `threshold`. -/
def slowTools (ix : Index) (threshold : Int) (limit : Nat) : List ToolCall :=
  ((ix.toolCalls.filter fun call => threshold ≤ call.elapsedMs).mergeSort
    ToolCall.ranksBefore).take limit

end Index

structure Report where
  failures : List Run
  slowest : List Run
  agentTotals : List AgentTotal
  overheads : List Overhead
  slowTools : List ToolCall
  threshold : Int
  deriving DecidableEq

def Report.rankingLength : Nat := 5

/-- From what time on a tool call is slow, unless another threshold is given. -/
def Report.defaultThreshold : Int := 500

/-- The report on an index. Totals are taken before overheads, which decides what is reported if
both overflow. -/
def Report.build (ix : Index) (threshold : Int) (limit : Nat) : Except Fault Report :=
  match ix.agentTotals? with
  | none => .error .sumOverflow
  | some agentTotals =>
      match ix.overheads? limit with
      | none => .error .differenceOverflow
      | some overheads =>
          .ok {
            failures := ix.failures
            slowest := ix.slowest limit
            agentTotals := agentTotals
            overheads := overheads
            slowTools := ix.slowTools threshold limit
            threshold := threshold }

end InvocationTrace
