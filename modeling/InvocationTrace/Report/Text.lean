import InvocationTrace.Report
import InvocationTrace.Tree

/-!
# Text of a report

The report follows the tree with runs, in five sections of one row for each finding.
-/

namespace InvocationTrace

/-- A heading after an empty line, and its rows; a section without rows says so. -/
def sectionText (heading : String) (rows : List String) : String :=
  "\n" ++ heading ++ "\n" ++ if rows.isEmpty then "- none\n" else rowsText (rows.map ("- " ++ ·))

namespace Report

def failureRow (r : Run) : String := toString r.line ++ ": " ++ r.outcomeText ++ r.causeSuffix

def slowestRow (r : Run) : String :=
  r.agentName ++ ": " ++ elapsedText? r.elapsedMs ++ " (invocation " ++ r.invocationId ++ ")"

def totalRow (total : AgentTotal) : String := total.agent ++ ": " ++ elapsedText total.totalMs

def overheadRow (o : Overhead) : String :=
  o.run.agentName ++ ": non-tool " ++ elapsedText o.overheadMs ++ " (elapsed " ++
    elapsedText o.elapsedMs ++ ", tools " ++ elapsedText o.toolMs ++ ")"

def toolRow (call : ToolCall) : String :=
  toString call.line ++ ": " ++ call.agent.getD "-" ++ " " ++ call.toolName.getD "-" ++ " [" ++
    elapsedText call.elapsedMs ++ "]" ++
    match call.toolSummary with
    | none => ""
    | some summary => " " ++ summary

def text (report : Report) : String :=
  sectionText "Failures" (report.failures.map failureRow) ++
    sectionText "Slowest specialist attempts" (report.slowest.map slowestRow) ++
    sectionText "Cumulative by specialist" (report.agentTotals.map totalRow) ++
    sectionText "Run overhead (elapsed - tool time)" (report.overheads.map overheadRow) ++
    sectionText ("Slow tools (>= " ++ toString report.threshold ++ "ms)")
      (report.slowTools.map toolRow)

end Report

def Index.debugText (ix : Index) (threshold : Int) : Except Fault String :=
  (Report.build ix threshold Report.rankingLength).map fun report =>
    ix.treeText true ++ report.text

end InvocationTrace
