import InvocationTrace.Fault
import InvocationTrace.Root.Summary
import InvocationTrace.Text.Lowercase
import InvocationTrace.Text.Search

/-!
# Listing of roots

The roots whose agent a filter accepts, the one started last first.
-/

namespace InvocationTrace

/-- Whether the agent's name contains the given text, without regard to letter case. Name and text
are brought to lowercase each on its own. -/
def RootSummary.matchesAgent (needle : Option String) (s : RootSummary) : Bool :=
  match needle with
  | none => true
  | some needle =>
      Text.contains (Text.lowercase needle.toList) (Text.lowercase s.agent.toList)

def RootSummary.laterFirst (s t : RootSummary) : Bool := t.startLine ≤ s.startLine

structure RootListing where
  /-- How many roots the filter accepts, shown or not. -/
  accepted : Nat
  rows : List RootSummary
  deriving DecidableEq

namespace RootListing

def matching (agent : Option String) (roots : List RootSummary) : List RootSummary :=
  (roots.filter (RootSummary.matchesAgent agent)).mergeSort RootSummary.laterFirst

/-- The listing with at most `limit` rows. -/
def ofRoots (roots : List RootSummary) (agent : Option String) (limit : Option Nat) :
    RootListing where
  accepted := (matching agent roots).length
  rows :=
    match limit with
    | none => matching agent roots
    | some limit => (matching agent roots).take limit

/-- The accepted root that was started last. -/
def latest (roots : List RootSummary) (agent : Option String) : Except Fault RootSummary :=
  match (ofRoots roots agent (some 1)).rows with
  | [] => .error .noMatchingRoots
  | root :: _ => .ok root

def defaultLimit : Nat := 10

end RootListing

end InvocationTrace
