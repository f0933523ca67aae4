import InvocationTrace.Log
import InvocationTrace.Proofs.Text.Utf8
import Mathlib.Data.List.Sort

/-!
# Chunks of a file

A file is decoded as a whole and cut into lines afterwards. The events are the same as if every
chunk between two line feed bytes had been decoded on its own, so bytes that are no text spoil no
more than the line on which they stand, and a file that grows keeps the events of its finished
lines.
-/

namespace InvocationTrace.Log

/-- The event of one chunk of bytes, which must hold one JSON object apart from blanks around it. -/
def eventOfChunk? (line : Nat) (chunk : List UInt8) : Option Event :=
  match Json.parse? (Text.trim (Text.decodeUtf8 chunk)) with
  | some (.object fields) => some (Event.ofFields line fields)
  | _ => none

/-- The events of chunks whose first stands on the line `first`. -/
def ofChunks (first : Nat) (chunks : List (List UInt8)) : Log :=
  (chunks.zipIdx first).filterMap fun (chunk, line) => eventOfChunk? line chunk

variable {first line : Nat} {chunk : List UInt8} {e : Event}

theorem line_of_eventOfChunk? (h : eventOfChunk? line chunk = some e) : e.line = line := by
  unfold eventOfChunk? at h
  split at h
  · rw [← Option.some.inj h]
    rfl
  · cases h

theorem eventOfLine?_decodeUtf8 (line : Nat) (chunk : List UInt8) :
    eventOfLine? line (Text.decodeUtf8 chunk) = eventOfChunk? line chunk := by
  rw [eventOfLine?, eventOfChunk?]
  cases Json.parse? (Text.trim (Text.decodeUtf8 chunk)) with
  | none => rfl
  | some value => cases value <;> rfl

theorem ofBytes_eq_ofChunks (bytes : List UInt8) :
    ofBytes bytes = ofChunks 1 (bytes.splitOn 0x0A) := by
  simp only [ofBytes, ofText, Text.lines_decodeUtf8, ofLines, ofChunks, List.zipIdx_map,
    List.filterMap_map, Function.comp_def, Prod.map, id_eq, eventOfLine?_decodeUtf8]

private theorem zipIdx_pairwise {α : Type} (xs : List α) (first : Nat) :
    (xs.zipIdx first).Pairwise fun a b => a.2 < b.2 := by
  induction xs generalizing first with
  | nil => exact .nil
  | cons x xs ih =>
    refine List.pairwise_cons.mpr ⟨?_, ih (first + 1)⟩
    intro z hz
    exact List.le_snd_of_mem_zipIdx hz

theorem lines_ofChunks_pairwise (first : Nat) (chunks : List (List UInt8)) :
    ((ofChunks first chunks).map Event.line).Pairwise (· < ·) := by
  rw [List.pairwise_map, ofChunks, List.pairwise_filterMap]
  refine (zipIdx_pairwise chunks first).imp ?_
  intro a b hab e he e' he'
  rw [line_of_eventOfChunk? he, line_of_eventOfChunk? he']
  exact hab

private theorem filter_zipIdx_congr {α : Type} {p : Nat → Bool} {xs ys : List α}
    (h : ∀ i, p (first + i) = true → xs[i]? = ys[i]?) :
    (xs.zipIdx first).filter (fun z => p z.2) = (ys.zipIdx first).filter (fun z => p z.2) := by
  refine ((zipIdx_pairwise xs first).filter _).eq_of_mem_iff
    ((zipIdx_pairwise ys first).filter _) ?_
  intro (x, n)
  simp only [List.mem_filter, List.mk_mem_zipIdx_iff_le_and_getElem?_sub]
  refine and_congr_left fun hp => and_congr_right fun hle => ?_
  rw [h (n - first) (by rwa [Nat.add_sub_cancel' hle])]

/-- The events of some of the lines depend on the chunks of these lines only. -/
theorem filter_ofChunks_congr {p : Nat → Bool} {xs ys : List (List UInt8)}
    (h : ∀ i, p (first + i) = true → xs[i]? = ys[i]?) :
    (ofChunks first xs).filter (fun e => p e.line) =
      (ofChunks first ys).filter (fun e => p e.line) := by
  have hfilter : ∀ zs, (ofChunks first zs).filter (fun e => p e.line) =
      ((zs.zipIdx first).filter fun z => p z.2).filterMap fun (chunk, line) =>
        eventOfChunk? line chunk := by
    intro zs
    rw [ofChunks, List.filter_filterMap, List.filterMap_filter]
    apply List.filterMap_congr
    intro (chunk, line) _
    cases he : eventOfChunk? line chunk with
    | none => simp only [he, Option.filter_none, ite_self]
    | some e => simp only [he, Option.filter_some, line_of_eventOfChunk? he]
  rw [hfilter, hfilter, filter_zipIdx_congr h]

private theorem getElem?_splitOn_append {xs : List UInt8} {mark : UInt8} {i : Nat}
    (h : i < xs.count mark) (ys : List UInt8) :
    ((xs ++ ys).splitOn mark)[i]? = (xs.splitOn mark)[i]? := by
  induction xs generalizing i with
  | nil => simp at h
  | cons x xs ih =>
    rw [List.cons_append, List.splitOn_cons_eq_if_modifyHead, List.splitOn_cons_eq_if_modifyHead]
    by_cases hx : x = mark
    · rw [if_pos (beq_iff_eq.mpr hx), if_pos (beq_iff_eq.mpr hx)]
      cases i with
      | zero => rfl
      | succ i =>
        rw [hx, List.count_cons_self] at h
        exact ih (by omega)
    · rw [if_neg (by simpa using hx), if_neg (by simpa using hx)]
      rw [List.count_cons_of_ne hx] at h
      simp only [List.getElem?_modifyHead, ih h]

/-- The bytes with another chunk in place of the one at a given position. -/
def replaceChunk (bytes : List UInt8) (i : Nat) (chunk : List UInt8) : List UInt8 :=
  [0x0A].intercalate ((bytes.splitOn 0x0A).set i chunk)

theorem splitOn_replaceChunk (bytes : List UInt8) (i : Nat) (h : 0x0A ∉ chunk) :
    (replaceChunk bytes i chunk).splitOn 0x0A = (bytes.splitOn 0x0A).set i chunk := by
  refine List.splitOn_intercalate 0x0A ?_ ?_
  · intro piece hpiece
    rcases List.mem_or_eq_of_mem_set hpiece with hmem | heq
    · exact Text.notMem_of_mem_splitOn hmem
    · rwa [heq]
  · simp

/-- Each chunk gives the event of its own line or none, whatever stands in the others. So with
another chunk in a file only the event on its line can change, and with more bytes behind a file only
those on the lines that are not yet finished. -/
theorem ofBytes_isolates_chunks (bytes : List UInt8) :
    ofBytes bytes = ofChunks 1 (bytes.splitOn 0x0A) ∧
      ((ofBytes bytes).map Event.line).Pairwise (· < ·) ∧
      (∀ i chunk, 0x0A ∉ chunk →
        (ofBytes (replaceChunk bytes i chunk)).filter (fun e => e.line ≠ i + 1) =
          (ofBytes bytes).filter fun e => e.line ≠ i + 1) ∧
      ∀ more, (ofBytes (bytes ++ more)).filter (fun e => e.line ≤ bytes.count 0x0A) =
        (ofBytes bytes).filter fun e => e.line ≤ bytes.count 0x0A := by
  refine ⟨ofBytes_eq_ofChunks bytes, ?_, ?_, ?_⟩
  · rw [ofBytes_eq_ofChunks]
    exact lines_ofChunks_pairwise 1 _
  · intro i chunk hchunk
    rw [ofBytes_eq_ofChunks, ofBytes_eq_ofChunks, splitOn_replaceChunk bytes i hchunk]
    refine @filter_ofChunks_congr 1 (fun line => line ≠ i + 1) _ _ ?_
    intro j hj
    have hne : i ≠ j := by simp only [decide_eq_true_eq] at hj; omega
    exact List.getElem?_set_ne hne
  · intro more
    rw [ofBytes_eq_ofChunks, ofBytes_eq_ofChunks]
    refine @filter_ofChunks_congr 1 (fun line => line ≤ bytes.count 0x0A) _ _ ?_
    intro i hi
    have hlt : i < bytes.count 0x0A := by simp only [decide_eq_true_eq] at hi; omega
    exact getElem?_splitOn_append hlt more

/-- Two objects on lines of their own, and between them a character cut short. -/
def tornBytes : List UInt8 := [0x7B, 0x7D, 0x0A, 0xE2, 0x82, 0x0A, 0x7B, 0x7D]

theorem ofBytes_isolates_chunks_tornBytes :
    0x0A ∉ ([0x7B, 0x7D] : List UInt8) ∧ (ofBytes tornBytes).map Event.line = [1, 3] ∧
      (ofBytes (replaceChunk tornBytes 1 [0x7B, 0x7D])).map Event.line = [1, 2, 3] ∧
      (ofBytes (replaceChunk tornBytes 1 [0x7B, 0x7D])).filter (fun e => e.line ≠ 2) =
        (ofBytes tornBytes).filter fun e => e.line ≠ 2 :=
  ⟨by decide, rfl, rfl,
    (ofBytes_isolates_chunks tornBytes).2.2.1 1 [0x7B, 0x7D] (by decide)⟩

end InvocationTrace.Log
