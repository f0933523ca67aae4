import InvocationTrace.Cli.Outcome
import InvocationTrace.Proofs.Log.Chunks
import InvocationTrace.Proofs.Report.Renumbering
import InvocationTrace.Proofs.Root.Summary

/-!
# Noise in a log

Many roots share a log, and lines without an event may stand anywhere between theirs. Such lines
push the lines of a root to higher numbers and leave their order and their content as they are, so a
root's answers do not show them.
-/

namespace InvocationTrace

open Grouping

variable {number : Nat → Nat} {rootId : String}

def RootSummary.renumber (number : Nat → Nat) (s : RootSummary) : RootSummary :=
  { s with startLine := number s.startLine, endLine := s.endLine.map number }

namespace RootSummary

theorem record_renumber (s : RootSummary) (e : Event) :
    (s.renumber number).record (e.renumber number) = (s.record e).renumber number := by
  have hkind : (e.renumber number).kind = e.kind := rfl
  have hown : (e.renumber number).invocationId = some (s.renumber number).rootId ↔
      e.invocationId = some s.rootId := Iff.rfl
  rw [record, record, hkind]
  by_cases h : e.invocationId = some s.rootId
  · rw [if_pos h, if_pos (hown.mpr h)]
    cases e.kind <;> rfl
  · rw [if_neg h, if_neg (mt hown.mp h)]
    cases e.kind with
    | runEnd =>
      have hdepth : (e.renumber number).depth = e.depth := rfl
      simp only [countRun, hdepth]
      split <;> rfl
    | invocationStart | singleStart | parallelStart | invocationEnd | toolEnd | other => rfl

theorem foldl_record_renumber (s : RootSummary) (es : List Event) :
    (es.map (Event.renumber number)).foldl record (s.renumber number) =
      (es.foldl record s).renumber number := by
  induction es generalizing s with
  | nil => rfl
  | cons e es ih => rw [List.map_cons, List.foldl_cons, List.foldl_cons, record_renumber, ih]

theorem ofEvents?_renumber (rootId : String) (es : List Event) :
    ofEvents? rootId (es.map (Event.renumber number)) =
      (ofEvents? rootId es).map (renumber number) := by
  have hopens : (fun e => !e.opensRoot) ∘ Event.renumber number = fun e => !e.opensRoot := rfl
  rw [ofEvents?, ofEvents?, List.dropWhile_map, hopens]
  cases es.dropWhile fun e => !e.opensRoot with
  | nil => rfl
  | cons first rest => exact congrArg some (foldl_record_renumber (opened rootId first) rest)

end RootSummary

namespace Log

/-- A chunk of bytes that holds no event, or one that has nothing to do with the root. -/
def IsNoise (rootId : String) (chunk : List UInt8) : Prop :=
  ∀ line e, eventOfChunk? line chunk = some e → e.belongsTo rootId = false

/-- The chunks of a log, and the same chunks with noise before, between and behind them. -/
inductive WithNoise (rootId : String) : List (List UInt8) → List (List UInt8) → Prop
  | nil : WithNoise rootId [] []
  | keep {xs ys : List (List UInt8)} (chunk : List UInt8) (h : WithNoise rootId xs ys) :
      WithNoise rootId (chunk :: xs) (chunk :: ys)
  | insert {xs ys : List (List UInt8)} {chunk : List UInt8} (hnoise : IsNoise rootId chunk)
      (h : WithNoise rootId xs ys) : WithNoise rootId xs (chunk :: ys)

/-- The events that have to do with a root. -/
def about (rootId : String) (events : Log) : Log := events.filter (Event.belongsTo rootId)

theorem about_renumber (number : Nat → Nat) (rootId : String) (events : Log) :
    about rootId (events.map (Event.renumber number)) =
      (about rootId events).map (Event.renumber number) :=
  List.filter_map

theorem about_ofChunks_cons (rootId : String) (first : Nat) (chunk : List UInt8)
    (chunks : List (List UInt8)) :
    about rootId (ofChunks first (chunk :: chunks)) =
      about rootId (eventOfChunk? first chunk).toList ++
        about rootId (ofChunks (first + 1) chunks) := by
  simp only [ofChunks, List.zipIdx_cons, List.filterMap_cons]
  cases eventOfChunk? first chunk with
  | none => rfl
  | some e => exact List.filter_append [e] _

theorem eventOfChunk?_renumber (number : Nat → Nat) (line : Nat) (chunk : List UInt8) :
    eventOfChunk? (number line) chunk =
      (eventOfChunk? line chunk).map (Event.renumber number) := by
  rw [eventOfChunk?, eventOfChunk?]
  split <;> rfl

/-- Whether a chunk is noise does not depend on the line on which it stands. -/
theorem isNoise_iff {chunk : List UInt8} : IsNoise rootId chunk ↔
    (eventOfChunk? 1 chunk).all (fun e => !e.belongsTo rootId) = true := by
  have hline : ∀ line, eventOfChunk? line chunk =
      (eventOfChunk? 1 chunk).map (Event.renumber fun _ => line) :=
    fun line => eventOfChunk?_renumber (fun _ => line) 1 chunk
  rw [Option.all_eq_true]
  constructor
  · intro h e he
    rw [h 1 e he]
    rfl
  · intro h line e he
    rw [hline] at he
    obtain ⟨e', he', heq⟩ := Option.map_eq_some_iff.mp he
    have hsame : (e'.renumber fun _ => line).belongsTo rootId = e'.belongsTo rootId := rfl
    rw [← heq, hsame]
    simpa using h e' he'

instance (rootId : String) (chunk : List UInt8) : Decidable (IsNoise rootId chunk) :=
  decidable_of_iff _ isNoise_iff.symm

theorem first_le_of_mem_ofChunks {first : Nat} {chunks : List (List UInt8)} {e : Event}
    (h : e ∈ ofChunks first chunks) : first ≤ e.line := by
  obtain ⟨z, hz, he⟩ := List.mem_filterMap.mp h
  rw [line_of_eventOfChunk? he]
  exact List.le_snd_of_mem_zipIdx hz

theorem about_of_noise {chunk : List UInt8} (h : IsNoise rootId chunk) (line : Nat) :
    about rootId (eventOfChunk? line chunk).toList = [] := by
  cases he : eventOfChunk? line chunk with
  | none => rfl
  | some e =>
    refine List.filter_eq_nil_iff.mpr ?_
    intro e' he'
    rw [Option.toList_some, List.mem_singleton] at he'
    simp [he', h line e he]

/-- Lines up to `line` keep their distance to one another, and `line` itself becomes `line'`; those
behind it follow `later`. -/
def shiftUpTo (line line' : Nat) (later : Nat → Nat) (n : Nat) : Nat :=
  if n ≤ line then n + (line' - line) else later n

theorem shiftUpTo_strictMono {line line' : Nat} {later : Nat → Nat} (hle : line ≤ line')
    (h : StrictMono later) (hlater : line' + 1 ≤ later (line + 1)) :
    StrictMono (shiftUpTo line line' later) := by
  intro m n hmn
  rw [shiftUpTo, shiftUpTo]
  by_cases hn : n ≤ line
  · rw [if_pos hn, if_pos (by omega)]
    omega
  · rw [if_neg hn]
    have hbehind : later (line + 1) ≤ later n := h.monotone (by omega)
    split
    · omega
    · exact h hmn

/-- What a log with noise says about the root is what the log without it says, on later lines in the
same order. -/
theorem WithNoise.exists_renumber {xs ys : List (List UInt8)} (h : WithNoise rootId xs ys) :
    ∀ first first' : Nat, first ≤ first' → ∃ number, StrictMono number ∧ first' ≤ number first ∧
      about rootId (ofChunks first' ys) =
        (about rootId (ofChunks first xs)).map (Event.renumber number) := by
  induction h with
  | nil =>
    intro first first' hle
    have hmono : StrictMono fun n : Nat => n + (first' - first) :=
      fun m n hmn => Nat.add_lt_add_right hmn _
    exact ⟨_, hmono, (Nat.add_sub_cancel' hle).ge, rfl⟩
  | insert hnoise h ih =>
    intro first first' hle
    obtain ⟨number, hmono, hfirst, habout⟩ := ih first (first' + 1) (by omega)
    refine ⟨number, hmono, by omega, ?_⟩
    rw [about_ofChunks_cons, about_of_noise hnoise, List.nil_append, habout]
  | @keep xs ys chunk h ih =>
    -- What is left may already have moved, so the lines before it follow only as far as this one.
    intro first first' hle
    obtain ⟨later, hmono, hfirst, habout⟩ := ih (first + 1) (first' + 1) (by omega)
    have hhere : shiftUpTo first first' later first = first' := by
      rw [shiftUpTo, if_pos (Nat.le_refl first), Nat.add_sub_cancel' hle]
    refine ⟨shiftUpTo first first' later, shiftUpTo_strictMono hle hmono hfirst, hhere.ge, ?_⟩
    have hchunk : (eventOfChunk? first' chunk).toList =
        (eventOfChunk? first chunk).toList.map
          (Event.renumber (shiftUpTo first first' later)) := by
      rw [← Option.toList_map, ← eventOfChunk?_renumber, hhere]
    have hrest : about rootId (ofChunks (first' + 1) ys) =
        (about rootId (ofChunks (first + 1) xs)).map
          (Event.renumber (shiftUpTo first first' later)) := by
      rw [habout]
      apply List.map_congr_left
      intro e he
      have hline : first + 1 ≤ e.line := first_le_of_mem_ofChunks (List.mem_of_mem_filter he)
      rw [Event.renumber, Event.renumber, shiftUpTo, if_neg (by omega)]
    rw [about_ofChunks_cons, about_ofChunks_cons, List.map_append, hchunk, about_renumber, hrest]

theorem scope_about (rootId : String) (events : Log) :
    Index.scope rootId (about rootId events) = Index.scope rootId events := by
  rw [Index.scope, Index.scope, about, List.filter_filter]
  apply List.filter_congr
  intro e _
  cases e.belongsTo rootId <;> simp

theorem members_effectiveRoot_about (rootId : String) (events : Log) :
    members Event.effectiveRoot rootId (about rootId events) =
      members Event.effectiveRoot rootId events := by
  rw [about, members_filter]
  refine List.filter_eq_self.mpr ?_
  intro e he
  have hroot : e.rootInvocationId.or e.invocationId = some rootId := (mem_members.mp he).2
  rcases Option.or_eq_some_iff.mp hroot with h | ⟨-, h⟩
  · simp [Event.belongsTo, h]
  · simp [Event.belongsTo, h]

end Log

/-- The text of the tree and the report, with other numbers for the lines that the report names. -/
def Index.debugTextOnLines (number : Nat → Nat) (ix : Index) (threshold : Int) :
    Except Fault String :=
  (Report.build ix threshold Report.rankingLength).map fun report =>
    ix.treeText true ++ (report.renumber number).text

theorem Index.debugText_renumber (h : StrictMono number) (ix : Index) (threshold : Int) :
    (ix.renumber number).debugText threshold = ix.debugTextOnLines number threshold := by
  rw [debugText, debugTextOnLines, Report.build_renumber h, treeText_renumber h]
  cases Report.build ix threshold Report.rankingLength <;> rfl

/-- Noise moves the lines of a root and keeps their order. None of the root's answers shows anything
else: its tree is the same, and its report and its summary name other lines. -/
theorem Log.noise_moves_lines_only {bytes noisy : List UInt8}
    (h : WithNoise rootId (bytes.splitOn 0x0A) (noisy.splitOn 0x0A)) :
    ∃ number, StrictMono number ∧
      about rootId (ofBytes noisy) =
        (about rootId (ofBytes bytes)).map (Event.renumber number) ∧
      (∀ withRuns, Cli.Command.output (ofBytes noisy) (.tree rootId withRuns) =
        Cli.Command.output (ofBytes bytes) (.tree rootId withRuns)) ∧
      (∀ threshold, Cli.Command.output (ofBytes noisy) (.debug rootId threshold) =
        (Index.build rootId (ofBytes bytes)).bind fun ix =>
          ix.debugTextOnLines number threshold) ∧
      (RootSummary.collect (ofBytes noisy)).find? (fun s => s.rootId == rootId) =
        ((RootSummary.collect (ofBytes bytes)).find? fun s => s.rootId == rootId).map
          (RootSummary.renumber number) := by
  obtain ⟨number, hmono, -, habout⟩ := h.exists_renumber 1 1 (Nat.le_refl 1)
  rw [← ofBytes_eq_ofChunks, ← ofBytes_eq_ofChunks] at habout
  have hbuild : Index.build rootId (ofBytes noisy) =
      (Index.build rootId (ofBytes bytes)).map (Index.renumber number) := by
    have hscope : Index.scope rootId (ofBytes noisy) =
        Index.scope rootId ((ofBytes bytes).map (Event.renumber number)) := by
      rw [← scope_about, habout, Index.scope_renumber, scope_about, Index.scope_renumber]
    rw [← Index.build_renumber hmono, Index.build, Index.build, hscope]
  refine ⟨number, hmono, habout, ?_, ?_, ?_⟩
  · intro withRuns
    rw [Cli.Command.output, Cli.Command.output, hbuild]
    cases Index.build rootId (ofBytes bytes) with
    | error fault => rfl
    | ok ix => exact congrArg Except.ok (Index.treeText_renumber hmono ix withRuns)
  · intro threshold
    rw [Cli.Command.output, hbuild]
    cases Index.build rootId (ofBytes bytes) with
    | error fault => rfl
    | ok ix => exact Index.debugText_renumber hmono ix threshold
  · have hmembers : members Event.effectiveRoot rootId (ofBytes noisy) =
        (members Event.effectiveRoot rootId (ofBytes bytes)).map (Event.renumber number) := by
      rw [← members_effectiveRoot_about, habout,
        ← members_effectiveRoot_about rootId (ofBytes bytes)]
      exact List.filter_map
    rw [RootSummary.find?_collect, RootSummary.find?_collect, hmembers,
      RootSummary.ofEvents?_renumber]

def rootChunk : List UInt8 := "\x7b\"invocationId\":\"r\"\x7d".toUTF8.toList

def childChunk : List UInt8 :=
  "\x7b\"invocationId\":\"c\",\"rootInvocationId\":\"r\"\x7d".toUTF8.toList

def quietChunks : List (List UInt8) := [rootChunk, childChunk]

/-- Before a root and its child, a line of another root; between them, an empty and a torn line. -/
def noisyChunks : List (List UInt8) :=
  ["\x7b\"invocationId\":\"x\"\x7d".toUTF8.toList, rootChunk, [], rootChunk.take 9, childChunk]

theorem Log.noise_moves_lines_only_noisyChunks :
    (ofBytes ([0x0A].intercalate quietChunks)).map Event.line = [1, 2] ∧
      (ofBytes ([0x0A].intercalate noisyChunks)).map Event.line = [1, 2, 5] ∧
      ∀ withRuns,
        Cli.Command.output (ofBytes ([0x0A].intercalate noisyChunks)) (.tree "r" withRuns) =
          Cli.Command.output (ofBytes ([0x0A].intercalate quietChunks)) (.tree "r" withRuns) := by
  have hquiet : ([0x0A].intercalate quietChunks).splitOn 0x0A = quietChunks :=
    List.splitOn_intercalate 0x0A (by decide +kernel) nofun
  have hnoisy : ([0x0A].intercalate noisyChunks).splitOn 0x0A = noisyChunks :=
    List.splitOn_intercalate 0x0A (by decide +kernel) nofun
  have hnoise : WithNoise "r" (([0x0A].intercalate quietChunks).splitOn 0x0A)
      (([0x0A].intercalate noisyChunks).splitOn 0x0A) := by
    rw [hquiet, hnoisy]
    refine .insert ?_ (.keep _ (.insert ?_ (.insert ?_ (.keep _ .nil))))
    · decide +kernel
    · decide +kernel
    · decide +kernel
  obtain ⟨number, -, -, htree, -⟩ := noise_moves_lines_only hnoise
  exact ⟨by decide +kernel, by decide +kernel, htree⟩

end InvocationTrace
