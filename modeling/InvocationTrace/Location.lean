/-!
# Location of the trace file

Agents keep their log in a fixed place under their own directory, which is set by the environment or
else lies in the home directory.
-/

namespace InvocationTrace.Location

/-- A relative path under a base path. A base that is empty or ends in a slash needs no slash. -/
def join (base path : String) : String :=
  match base.toList.getLast? with
  | none => path
  | some c => if c = '/' then base ++ path else base ++ "/" ++ path

/-- The agents' directory: a given one that is not empty, or else the usual one. -/
def agentRoot (home : String) (agentDir : Option String) : String :=
  match agentDir with
  | none => join home ".pi/agent"
  | some dir => if dir = "" then join home ".pi/agent" else dir

def traceFile (agentRoot : String) : String :=
  join (join agentRoot "logs") "subagent-trace.jsonl"

end InvocationTrace.Location
