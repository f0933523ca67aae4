import InvocationTrace.Elapsed
import InvocationTrace.Root.Listing
import InvocationTrace.Text.Column

/-!
# Text of root listings and summaries
-/

namespace InvocationTrace

/-- The columns of a listing. A start time may be longer than its column, agent and status are cut
to theirs. -/
def RootSummary.tableRow (s : RootSummary) : String :=
  Text.padRight 24 (s.startTs.getD "-") ++ " " ++ Text.cell 15 s.agent ++ " " ++
    Text.cell 16 s.status ++ " " ++ Text.padRight 8 (elapsedText? s.elapsedMs) ++ " " ++
    toString s.childFailures ++ "/" ++ Text.padLeft 7 (toString s.childRuns) ++ " " ++ s.rootId

def RootSummary.text (s : RootSummary) : String :=
  "root:    " ++ s.rootId ++ "\n" ++
    "agent:   " ++ s.agent ++ "\n" ++
    "status:  " ++ s.status ++ "\n" ++
    "elapsed: " ++ elapsedText? s.elapsedMs ++ "\n" ++
    "start:   " ++ s.startTs.getD "-" ++ "\n" ++
    "failures:" ++ toString s.childFailures ++ "/" ++ toString s.childRuns ++ " child runs\n"

namespace RootListing

def heading : String :=
  "START (UTC)               AGENT           STATUS            ELAPSED   FAIL/RUNS  ROOT"

/-- The listing as a table. It is empty only if the filter accepts nothing: a limit of no rows still
leaves the heading. -/
def text (listing : RootListing) : String :=
  if listing.accepted = 0 then Fault.noMatchingRoots.message ++ "\n"
  else String.join ((heading :: listing.rows.map RootSummary.tableRow).map (· ++ "\n"))

end RootListing

end InvocationTrace
