import InvocationTrace.Cli.Command
import InvocationTrace.FileTree
import InvocationTrace.Location
import InvocationTrace.Log
import InvocationTrace.Report.Text
import InvocationTrace.Root.Record
import InvocationTrace.Root.Text

/-!
# Outcomes

What a command prints about a log, and how the program ends.
-/

namespace InvocationTrace.Cli

def Command.output (events : Log) : Command → Except Fault String
  | .roots limit agent json =>
      let listing := RootListing.ofRoots (RootSummary.collect events) agent (some limit)
      .ok (if json then RootSummary.rowsJsonText listing.rows ++ "\n" else listing.text)
  | .latest agent form =>
      (RootListing.latest (RootSummary.collect events) agent).map fun root =>
        match form with
        | .text => root.text
        | .idOnly => root.rootId ++ "\n"
        | .json => root.jsonText ++ "\n"
  | .tree rootId withRuns => (Index.build rootId events).map fun ix => ix.treeText withRuns
  | .debug rootId threshold => (Index.build rootId events).bind fun ix => ix.debugText threshold

/-- How the program ends: with a misused command line, with its output, or with a fault. -/
inductive Outcome where
  | misused
  | printed (text : String)
  | failed (fault : Fault)
  deriving DecidableEq

namespace Outcome

def ofExcept : Except Fault String → Outcome
  | .ok text => .printed text
  | .error fault => .failed fault

def exitCode : Outcome → Nat
  | .misused => 2
  | .printed _ => 0
  | .failed fault => if fault.isOverflow then 101 else 1

def output : Outcome → String
  | .printed text => text
  | _ => ""

def complaint : Outcome → String
  | .misused => "usage: subtrace [--trace FILE] roots|latest|tree ROOT|debug ROOT\n"
  | .printed _ => ""
  | .failed fault => "error: " ++ fault.message ++ "\n"

end Outcome

def versionText : String := "subtrace 0.1.0\n"

/-- The place of the trace file, which is asked for only if the command line does not name one. -/
def traceFile (home : String) (agentDir : Option String) (named : Option String) : String :=
  named.getD (Location.traceFile (Location.agentRoot home agentDir))

/-- The outcome of a request, given the content of the trace file or the reason for its lack. -/
def Command.outcome (content : Except Fault (List UInt8)) (command : Command) : Outcome :=
  .ofExcept (content.bind fun bytes => command.output (Log.ofBytes bytes))

/-- The outcome of a command line among given files. -/
def outcomeAmong (files : FileTree) (home : String) (agentDir : Option String)
    (args : List String) : Outcome :=
  match request? args with
  | none => .misused
  | some .version => .printed versionText
  | some (.answer named command) => command.outcome (files.read (traceFile home agentDir named))

end InvocationTrace.Cli
