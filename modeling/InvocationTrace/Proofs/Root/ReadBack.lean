import InvocationTrace.Proofs.Json.Record
import InvocationTrace.Proofs.Log.Decoding
import InvocationTrace.Proofs.Root.Fields
import InvocationTrace.Proofs.Root.Listing
import InvocationTrace.Root.Record

/-!
# Listings read back

The JSON text of a listing is read back as what was listed. No text is altered on the way, since
every escape is undone, and neither is a number: times are signed 64-bit integers, and lines and
counts do not exceed the number of the log's lines. A mode is written as its name, which stands for
the same mode in whatever comes from a log.
-/

namespace InvocationTrace

open Grouping

namespace Json

def ofOption {α : Type} (f : α → Json) : Option α → Json
  | none => .null
  | some a => f a

def text? : Json → Option String
  | .string s => some s
  | _ => none

def integer? : Json → Option Int
  | .number (.integer n) => some n
  | _ => none

def natural? (j : Json) : Option Nat := j.integer?.bind Int.toNat?

/-- A value that may be null. -/
def optional? {α : Type} (read? : Json → Option α) : Json → Option (Option α)
  | .null => some none
  | j => (read? j).map some

def field? {α : Type} (read? : Json → Option α) (name : String)
    (fields : List (String × Json)) : Option α :=
  (lastField? name fields).bind read?

theorem optional?_ofOption {α : Type} {read? : Json → Option α} {f : α → Json}
    (h : ∀ a, optional? read? (f a) = some (some a)) (o : Option α) :
    optional? read? (ofOption f o) = some o := by
  cases o with
  | none => rfl
  | some a => exact h a

theorem Atom.toJson_ofOption {α : Type} (f : α → Atom) (o : Option α) :
    (Atom.ofOption f o).toJson = Json.ofOption (fun a => (f a).toJson) o := by
  cases o <;> rfl

theorem Atom.isExact_ofOption {α : Type} {f : α → Atom} {o : Option α}
    (h : ∀ a ∈ o, (f a).IsExact) : (Atom.ofOption f o).IsExact := by
  cases o with
  | none => trivial
  | some a => exact h a rfl

end Json

namespace RootSummary

variable {s : RootSummary} {rows : List RootSummary} {events : Log} {count : Nat}

/-- A summary as the events of a log of `count` lines may give it. -/
structure FromLines (count : Nat) (s : RootSummary) : Prop where
  startLine : s.startLine ≤ count
  mode : ∀ mode ∈ s.mode, Mode.ofName mode.name = mode
  elapsedMs : ∀ ms ∈ s.elapsedMs, Signed64.Fits ms
  endLine : ∀ line ∈ s.endLine, line ≤ count
  childInvocations : s.childInvocations ≤ count
  childRuns : s.childRuns ≤ count
  childFailures : s.childFailures ≤ count

theorem fromLines_of_mem_collect (hevents : ∀ e ∈ events, e.FromLines count)
    (hlength : events.length ≤ count) (hs : s ∈ collect events) : s.FromLines count := by
  obtain ⟨before, first, rest, hsplit, -, -, htells⟩ := exists_tells_of_mem_collect hs
  -- Whatever is told of a root, its own events tell, and those are events of the log.
  have hsub : (first :: rest).Sublist events := by
    have hmembers : (members Event.effectiveRoot s.rootId events).Sublist events :=
      List.filter_sublist
    rw [hsplit] at hmembers
    exact (List.sublist_append_right before _).trans hmembers
  have hown : ∀ e ∈ first :: rest, e.FromLines count := fun e he => hevents e (hsub.subset he)
  have hfirst : first.FromLines count := hown first List.mem_cons_self
  have hcounts : ∀ p : Event → Bool, (first :: rest).countP p ≤ count := fun p =>
    List.countP_le_length.trans (hsub.length_le.trans hlength)
  constructor
  case startLine => exact htells.startLine ▸ hfirst.line
  case mode => exact htells.mode ▸ hfirst.mode
  case elapsedMs =>
    intro ms hms
    rw [htells.elapsedMs] at hms
    obtain ⟨e, he, htold⟩ := List.mem_filterMap.mp (List.mem_of_getLast? hms)
    exact (hown e (List.mem_of_mem_filter he)).elapsedMs ms htold
  case endLine =>
    intro line hline
    rw [htells.endLine] at hline
    obtain ⟨e, he, rfl⟩ := Option.map_eq_some_iff.mp hline
    exact (hown e (List.mem_of_mem_filter (List.mem_of_getLast? he))).line
  case childInvocations => exact htells.childInvocations ▸ hcounts _
  case childRuns => exact htells.childRuns ▸ hcounts _
  case childFailures => exact htells.childFailures ▸ hcounts _

/-- Lines and counts that a word holds are written exactly, and times always are. -/
theorem FromLines.isExact_toRecord (h : s.FromLines count) (hcount : count < 2 ^ 64) :
    ∀ field ∈ s.toRecord, field.2.IsExact := by
  have htext : ∀ t : String, (Json.Atom.text t).IsExact := fun _ => trivial
  have hnatural : ∀ n : Nat, n ≤ count → (Json.Atom.ofNat n).IsExact := by
    intro n hn
    simp only [Json.Atom.ofNat, Json.Atom.IsExact, Json.IsWord]
    omega
  have helapsed : ∀ ms ∈ s.elapsedMs, (Json.Atom.integer ms).IsExact := by
    intro ms hms
    have hfits := h.elapsedMs ms hms
    simp only [Signed64.Fits, Signed64.least, Signed64.greatest] at hfits
    simp only [Json.Atom.IsExact, Json.IsWord]
    omega
  simp only [toRecord, List.forall_mem_cons]
  refine ⟨htext _, hnatural _ h.startLine, ?_, ?_, htext _, htext _, ?_, ?_, ?_,
    hnatural _ h.childInvocations, hnatural _ h.childRuns, hnatural _ h.childFailures,
    List.forall_mem_nil _⟩
  · exact Json.Atom.isExact_ofOption fun t _ => htext t
  · exact Json.Atom.isExact_ofOption fun mode _ => htext mode.name
  · exact Json.Atom.isExact_ofOption helapsed
  · exact Json.Atom.isExact_ofOption fun line hline => hnatural line (h.endLine line hline)
  · exact Json.Atom.isExact_ofOption fun t _ => htext t

/-- The object that shows a summary. -/
def toJson (s : RootSummary) : Json :=
  .object
    [("rootId", .string s.rootId),
     ("startLine", .ofInt s.startLine),
     ("startTs", .ofOption .string s.startTs),
     ("mode", .ofOption (fun mode => .string mode.name) s.mode),
     ("agent", .string s.agent),
     ("status", .string s.status),
     ("elapsedMs", .ofOption .ofInt s.elapsedMs),
     ("endLine", .ofOption (fun line : Nat => .ofInt line) s.endLine),
     ("endTs", .ofOption .string s.endTs),
     ("childInvocations", .ofInt s.childInvocations),
     ("childRuns", .ofInt s.childRuns),
     ("childFailures", .ofInt s.childFailures)]

theorem toJson_toRecord (s : RootSummary) : s.toRecord.toJson = s.toJson := by
  simp only [toRecord, Json.Record.toJson, List.map_cons, List.map_nil, Json.Atom.toJson_ofOption]
  rfl

open Json in
/-- Reads a summary from the object that shows it. -/
def ofJson? : Json → Option RootSummary
  | .object fields => do
      return {
        rootId := ← field? text? "rootId" fields
        startLine := ← field? natural? "startLine" fields
        startTs := ← field? (optional? text?) "startTs" fields
        mode := (← field? (optional? text?) "mode" fields).map Mode.ofName
        agent := ← field? text? "agent" fields
        status := ← field? text? "status" fields
        elapsedMs := ← field? (optional? integer?) "elapsedMs" fields
        endLine := ← field? (optional? natural?) "endLine" fields
        endTs := ← field? (optional? text?) "endTs" fields
        childInvocations := ← field? natural? "childInvocations" fields
        childRuns := ← field? natural? "childRuns" fields
        childFailures := ← field? natural? "childFailures" fields }
  | _ => none

theorem ofJson?_toJson (h : ∀ mode ∈ s.mode, Mode.ofName mode.name = mode) :
    ofJson? s.toJson = some s := by
  have htext : ∀ t, Json.text? (.string t) = some t := fun _ => rfl
  have hnatural : ∀ n : Nat, Json.natural? (.ofInt n) = some n := fun _ => rfl
  have htexts : ∀ o, Json.optional? Json.text? (.ofOption .string o) = some o :=
    Json.optional?_ofOption fun _ => rfl
  have htimes : ∀ o, Json.optional? Json.integer? (.ofOption .ofInt o) = some o :=
    Json.optional?_ofOption fun _ => rfl
  have hlines : ∀ o, Json.optional? Json.natural? (.ofOption (fun n : Nat => .ofInt n) o) =
      some o := Json.optional?_ofOption fun _ => rfl
  have hnames : Json.optional? Json.text? (.ofOption (fun mode => .string mode.name) s.mode) =
      some (s.mode.map Mode.name) := by
    cases s.mode <;> rfl
  have hmode : (s.mode.map Mode.name).map Mode.ofName = s.mode := by
    cases hs : s.mode with
    | none => rfl
    | some mode => simp [h mode hs]
  simp [ofJson?, toJson, Json.field?, Json.lastField?, htext, hnatural, htexts, htimes, hlines,
    hnames, hmode]

def rowsOfJson? : Json → Option (List RootSummary)
  | .array items => items.mapM ofJson?
  | _ => none

theorem rowsOfJson?_array (h : ∀ s ∈ rows, ∀ mode ∈ s.mode, Mode.ofName mode.name = mode) :
    rowsOfJson? (.array (rows.map toJson)) = some rows := by
  rw [rowsOfJson?, List.mapM_map]
  induction rows with
  | nil => rfl
  | cons s rows ih =>
    have hfirst := ofJson?_toJson (h s List.mem_cons_self)
    have hothers := ih fun t ht => h t (List.mem_cons_of_mem s ht)
    simp [List.mapM_cons, hfirst, hothers]

theorem parse?_jsonText (h : s.FromLines count) (hcount : count < 2 ^ 64) :
    Json.parse? s.jsonText.toList = some s.toJson := by
  rw [jsonText, Json.parse?_text (h.isExact_toRecord hcount), toJson_toRecord]

theorem parse?_rowsJsonText (h : ∀ s ∈ rows, s.FromLines count) (hcount : count < 2 ^ 64) :
    Json.parse? (rowsJsonText rows).toList = some (.array (rows.map toJson)) := by
  have hexact : ∀ record ∈ rows.map toRecord, ∀ field ∈ record, field.2.IsExact := by
    intro record hrecord
    obtain ⟨s, hs, rfl⟩ := List.mem_map.mp hrecord
    exact (h s hs).isExact_toRecord hcount
  rw [rowsJsonText, Json.parse?_recordsText hexact, List.map_map]
  simp only [Function.comp_def, toJson_toRecord]

end RootSummary

namespace RootListing

open RootSummary

variable {cs : List Char} {agent : Option String} {limit : Option Nat}

/-- The rows that the text of a log gives under a filter. -/
def rowsOfText (cs : List Char) (agent : Option String) (limit : Option Nat) :
    List RootSummary :=
  (ofRoots (collect (Log.ofText cs)) agent limit).rows

theorem fromLines_of_mem_rowsOfText {s : RootSummary} (h : s ∈ rowsOfText cs agent limit) :
    s.FromLines (Text.lines cs).length := by
  have hs : s ∈ matching agent (collect (Log.ofText cs)) := by
    cases limit with
    | none => exact h
    | some limit => exact List.mem_of_mem_take h
  exact fromLines_of_mem_collect (fun _ => Log.fromLines_of_mem_ofText) (Log.length_ofText_le cs)
    (mem_matching.mp hs).1

/-- What is written for the rows of a log is one JSON document, and what is read from it is an array
with an object for each row, from which the rows can be taken back as they were. So it is for the
text of one row. The lines of the log are counted in 64 bits. -/
theorem rows_read_back (hlines : (Text.lines cs).length < 2 ^ 64) (agent : Option String)
    (limit : Option Nat) :
    Json.parse? (rowsJsonText (rowsOfText cs agent limit)).toList =
        some (.array ((rowsOfText cs agent limit).map toJson)) ∧
      (Json.parse? (rowsJsonText (rowsOfText cs agent limit)).toList).bind rowsOfJson? =
        some (rowsOfText cs agent limit) ∧
      ∀ s ∈ rowsOfText cs agent limit, Json.parse? s.jsonText.toList = some s.toJson ∧
        ∀ mode ∈ s.mode, Mode.ofName mode.name = mode := by
  have hrows : ∀ s ∈ rowsOfText cs agent limit, s.FromLines (Text.lines cs).length :=
    fun _ => fromLines_of_mem_rowsOfText
  have hread := parse?_rowsJsonText hrows hlines
  refine ⟨hread, ?_, fun s hs => ⟨parse?_jsonText (hrows s hs) hlines, (hrows s hs).mode⟩⟩
  rw [hread, Option.bind_some, rowsOfJson?_array fun s hs => (hrows s hs).mode]

/-- A root whose id holds a quote, a backslash, control characters and an accent, and whose time is
below every 64-bit integer. The first line is empty. -/
def awkwardText : List Char :=
  ["\n\x7b\"event\":\"subagent_invocation_start\"", ",\"invocationId\":\"a\\\"b\\\\\\u0001\\né\"",
    ",\"mode\":\"fan-out\",\"agent\":\"lead\"\x7d\n", "\x7b\"event\":\"subagent_run_end\"",
    ",\"invocationId\":\"a\\\"b\\\\\\u0001\\né\"", ",\"elapsedMs\":-1e30\x7d"].flatMap String.toList

def awkwardRow : RootSummary where
  rootId := "a\"b\\\x01\né"
  startLine := 2
  startTs := none
  mode := some (.other "fan-out")
  agent := "lead"
  status := "running"
  elapsedMs := some Signed64.least
  endLine := some 3
  endTs := none
  childInvocations := 0
  childRuns := 0
  childFailures := 0

theorem rows_read_back_awkwardText :
    (Text.lines awkwardText).length < 2 ^ 64 ∧
      rowsOfText awkwardText (some "LEAD") (some 5) = [awkwardRow] ∧
      Json.parse? (rowsJsonText [awkwardRow]).toList = some (.array [awkwardRow.toJson]) ∧
      (Json.parse? (rowsJsonText [awkwardRow]).toList).bind rowsOfJson? = some [awkwardRow] ∧
      Json.parse? awkwardRow.jsonText.toList = some awkwardRow.toJson := by
  have hlines : (Text.lines awkwardText).length < 2 ^ 64 := by decide +kernel
  have hrows : rowsOfText awkwardText (some "LEAD") (some 5) = [awkwardRow] := by decide +kernel
  obtain ⟨hread, htaken, hsingle⟩ := rows_read_back hlines (some "LEAD") (some 5)
  rw [hrows] at hread htaken hsingle
  exact ⟨hlines, hrows, hread, htaken, (hsingle awkwardRow List.mem_cons_self).1⟩

end RootListing

end InvocationTrace
