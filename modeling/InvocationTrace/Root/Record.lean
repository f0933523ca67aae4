import InvocationTrace.Json.Record
import InvocationTrace.Root.Summary

/-!
# Root summaries as records
-/

namespace InvocationTrace

namespace Json.Atom

def ofNat (n : Nat) : Atom := .integer n

def ofOption {α : Type} (f : α → Atom) : Option α → Atom
  | none => .null
  | some a => f a

end Json.Atom

def RootSummary.toRecord (s : RootSummary) : Json.Record :=
  [("rootId", .text s.rootId),
   ("startLine", .ofNat s.startLine),
   ("startTs", .ofOption .text s.startTs),
   ("mode", .ofOption (fun mode => .text mode.name) s.mode),
   ("agent", .text s.agent),
   ("status", .text s.status),
   ("elapsedMs", .ofOption .integer s.elapsedMs),
   ("endLine", .ofOption .ofNat s.endLine),
   ("endTs", .ofOption .text s.endTs),
   ("childInvocations", .ofNat s.childInvocations),
   ("childRuns", .ofNat s.childRuns),
   ("childFailures", .ofNat s.childFailures)]

def RootSummary.jsonText (s : RootSummary) : String := s.toRecord.text

def RootSummary.rowsJsonText (rows : List RootSummary) : String :=
  Json.recordsText (rows.map RootSummary.toRecord)

end InvocationTrace
