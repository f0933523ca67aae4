import InvocationTrace.Cli.Arguments
import InvocationTrace.Report
import InvocationTrace.Root.Listing
import InvocationTrace.Text.Numeral

/-!
# Commands

What the command line asks for: a listing of roots, the latest root, the tree of a root, or the tree
with a report. The trace file may be named before and after the command, and the later name counts.
-/

namespace InvocationTrace.Cli

inductive LatestForm where
  | text
  | idOnly
  | json
  deriving DecidableEq

inductive Command where
  | roots (limit : Nat) (agent : Option String) (json : Bool)
  | latest (agent : Option String) (form : LatestForm)
  | tree (rootId : String) (withRuns : Bool)
  | debug (rootId : String) (threshold : Int)
  deriving DecidableEq

/-- A number of rows: a natural number that fits 64 bits. -/
def limit? (text : String) : Option Nat :=
  (Text.readNatural? text.toList).bind fun n => if n ≤ 18446744073709551615 then some n else none

/-- A time in milliseconds. -/
def threshold? (text : String) : Option Int :=
  (Text.readInteger? text.toList).bind Signed64.check

/-- The value of an option brought to its type, or the default if it was not given. -/
def Given.valueOr? {α : Type} (g : Given) (name : String) (read? : String → Option α)
    (default : α) : Option α :=
  match g.value? name with
  | none => some default
  | some text => read? text

def Given.single? (g : Given) : Option String :=
  match g.positionals with
  | [text] => some text
  | _ => none

/-- What a command accepts, by its name. -/
def grammar? : String → Option Grammar
  | "roots" => some ⟨["json"], ["trace", "limit", "agent"], 0⟩
  | "latest" => some ⟨["id-only", "json"], ["trace", "agent"], 0⟩
  | "tree" => some ⟨["runs"], ["trace"], 1⟩
  | "debug" => some ⟨[], ["trace", "min-tool-ms"], 1⟩
  | _ => none

/-- The latest root's form; an id alone is not JSON. -/
def Given.latestForm? (g : Given) : Option LatestForm :=
  match g.hasFlag "id-only", g.hasFlag "json" with
  | true, true => none
  | true, false => some .idOnly
  | false, true => some .json
  | false, false => some .text

def command? (name : String) (g : Given) : Option Command :=
  match name with
  | "roots" => do
      let limit ← g.valueOr? "limit" limit? RootListing.defaultLimit
      return .roots limit (g.value? "agent") (g.hasFlag "json")
  | "latest" => g.latestForm?.map (Command.latest (g.value? "agent"))
  | "tree" => g.single?.map fun rootId => .tree rootId (g.hasFlag "runs")
  | "debug" => do
      let rootId ← g.single?
      let threshold ← g.valueOr? "min-tool-ms" threshold? Report.defaultThreshold
      return .debug rootId threshold
  | _ => none

inductive Request where
  | version
  | answer (trace : Option String) (command : Command)
  deriving DecidableEq

/-- The trace file's name, if given, is not empty. -/
def namedFile (name : Option String) : Bool := name != some ""

/-- The command and its arguments, the trace file having been named before it or not. -/
def commandRequest? (trace : Option String) (name : String) (args : List String) :
    Option Request := do
  let grammar ← grammar? name
  let g ← grammar.read? {} args
  let command ← command? name g
  if namedFile (g.value? "trace") then
    return .answer ((g.value? "trace").or trace) command
  else none

/-- Reads what stands before the command, where the trace file may be named once. -/
def requestFrom? (trace : Option String) : List String → Option Request
  | [] => none
  | arg :: args =>
      match Argument.ofString arg with
      | .plain name => commandRequest? trace name args
      | .letters ('V' :: _) => some .version
      | .option "version" none => some .version
      | .option "trace" (some file) =>
          if trace.isNone && file != "" then requestFrom? (some file) args else none
      | .option "trace" none =>
          match args with
          | [] => none
          | next :: args =>
              match Argument.ofString next with
              | .plain file =>
                  if trace.isNone && file != "" then requestFrom? (some file) args else none
              | _ => none
      | _ => none

/-- The request that a command line makes; absent if it is not a proper one. -/
def request? (args : List String) : Option Request := requestFrom? none args

end InvocationTrace.Cli
