import InvocationTrace.Text.Lines
import InvocationTrace.Text.Utf8

/-!
# Lines of decoded bytes

A line feed byte is a line feed wherever it stands, even where it cuts a longer character short, and
no other byte decodes to one. So the lines of decoded bytes are the pieces between the line feed
bytes, each decoded on its own.
-/

namespace InvocationTrace.Text

theorem splitAt_eq_splitOn {α : Type} [DecidableEq α] (mark : α) (cs : List α) :
    splitAt mark cs = cs.splitOn mark := by
  induction cs with
  | nil => rfl
  | cons c cs ih =>
    rw [List.splitOn_cons_eq_if_modifyHead, ← ih]
    change cut mark c (splitAt mark cs) = _
    cases hp : splitAt mark cs with
    | nil => exact absurd hp (splitAt_ne_nil mark cs)
    | cons piece pieces =>
      by_cases hc : c = mark
      · simp [cut, hc]
      · simp [cut, hc]

theorem notMem_of_mem_splitOn {α : Type} [DecidableEq α] {mark : α} {cs piece : List α}
    (h : piece ∈ cs.splitOn mark) : mark ∉ piece := by
  induction cs generalizing piece with
  | nil => simp_all
  | cons c cs ih =>
    rw [List.splitOn_cons_eq_if_modifyHead] at h
    by_cases hc : c = mark
    · rw [if_pos (beq_iff_eq.mpr hc)] at h
      rcases List.mem_cons.mp h with hfirst | hrest
      · simp [hfirst]
      · exact ih hrest
    · rw [if_neg (by simpa using hc)] at h
      cases hp : cs.splitOn mark with
      | nil => exact absurd hp (List.splitOn_ne_nil mark cs)
      | cons first rest =>
        rw [hp] at h ih
        rcases List.mem_cons.mp h with hfirst | hrest
        · rw [hfirst, List.mem_cons, not_or]
          exact ⟨Ne.symm hc, ih (List.mem_cons_self ..)⟩
        · exact ih (List.mem_cons_of_mem first hrest)

private theorem toNat_sub_pos {a b : UInt8} (h : a < b) : 1 ≤ (b - a).toNat := by
  rw [UInt8.toNat_sub_of_le b a (UInt8.le_of_lt h)]
  have hlt : a.toNat < b.toNat := UInt8.lt_iff_toNat_lt.mp h
  omega

private theorem ofNat_ne_lineFeed {n : Nat} (h : n ≠ 10) : Char.ofNat n ≠ '\n' := by
  by_cases hv : n.isValidChar
  · intro he
    rw [Char.ofNat, dif_pos hv] at he
    exact h (congrArg Char.toNat he)
  · rw [Char.ofNat, dif_neg hv]
    decide

namespace Utf8State

/-- The characters of a sequence of bytes, read from a given state on. -/
def decode : Utf8State → List UInt8 → List Char
  | state, [] => state.finish
  | state, b :: bs => (state.step b).1 ++ decode (state.step b).2 bs

/-- What holds of every state that is reached. No ASCII byte continues a character; and some bit of
the character is set beyond the six of its last byte, or the next byte will set one. -/
def Sound : Utf8State → Prop
  | .start => True
  | .inside bits more low _ => 0x80 ≤ low ∧ (1 ≤ bits ∨ 1 ≤ more ∧ 0x90 ≤ low)

theorem sound_of_ofLead {b : UInt8} {state : Utf8State} (h : ofLead b = some state) :
    state.Sound := by
  unfold ofLead at h
  split at h
  · cases h
  split at h
  · cases h
    exact ⟨by decide, .inl (toNat_sub_pos (by grind))⟩
  split at h
  · cases h
    exact ⟨by decide, .inr ⟨by decide, by decide⟩⟩
  split at h
  · cases h
    exact ⟨by decide, .inl (by decide)⟩
  split at h
  · cases h
    exact ⟨by decide, .inl (toNat_sub_pos (by grind))⟩
  split at h
  · cases h
    exact ⟨by decide, .inr ⟨by decide, by decide⟩⟩
  split at h
  · cases h
    exact ⟨by decide, .inl (toNat_sub_pos (by grind))⟩
  split at h
  · cases h
    exact ⟨by decide, .inl (by decide)⟩
  · cases h

theorem sound_begin (b : UInt8) : (begin b).2.Sound := by
  unfold begin
  split
  · trivial
  split
  · rename_i state hlead
    exact sound_of_ofLead hlead
  · trivial

theorem sound_step {state : Utf8State} (h : state.Sound) (b : UInt8) :
    (state.step b).2.Sound := by
  cases state with
  | start => exact sound_begin b
  | inside bits more low high =>
    by_cases hb : low ≤ b ∧ b ≤ high
    · cases more with
      | zero =>
        simp only [step, if_pos hb]
        trivial
      | succ more =>
        simp only [step, if_pos hb]
        refine ⟨by decide, .inl ?_⟩
        rcases h.2 with hbits | ⟨-, hlow⟩
        · omega
        · have hnext : 1 ≤ (b - 0x80).toNat := toNat_sub_pos (by grind)
          omega
    · simp only [step, if_neg hb]
      exact sound_begin b

theorem decode_append_lineFeed {state : Utf8State} (h : state.Sound) (xs ys : List UInt8) :
    state.decode (xs ++ 0x0A :: ys) = state.decode xs ++ '\n' :: decode .start ys := by
  induction xs generalizing state with
  | nil =>
    have hlow : ∀ bits more low high, state = .inside bits more low high → 0x80 ≤ low := by
      intro bits more low high hstate
      subst hstate
      exact h.1
    have hstep : state.step 0x0A = (state.finish ++ ['\n'], .start) :=
      step_ascii state (by decide) hlow
    simp [decode, hstep]
  | cons b xs ih => simp [decode, ih (sound_step h b)]

theorem lineFeed_notMem_begin {b : UInt8} (hb : b ≠ 0x0A) : '\n' ∉ (begin b).1 := by
  unfold begin
  split
  · have hn : b.toNat ≠ 10 := fun h => hb (UInt8.toNat_inj.mp h)
    rw [List.mem_singleton]
    exact (ofNat_ne_lineFeed hn).symm
  split
  · simp
  · simp [replacement]

theorem lineFeed_notMem_step {state : Utf8State} {b : UInt8} (h : state.Sound) (hb : b ≠ 0x0A) :
    '\n' ∉ (state.step b).1 := by
  cases state with
  | start => exact lineFeed_notMem_begin hb
  | inside bits more low high =>
    by_cases hc : low ≤ b ∧ b ≤ high
    · cases more with
      | zero =>
        -- The last byte: a bit above its six makes the character more than any ASCII control.
        have hbits : 1 ≤ bits := by
          rcases h.2 with hbits | ⟨hmore, -⟩
          · exact hbits
          · omega
        simp only [step, if_pos hc]
        rw [List.mem_singleton]
        exact (ofNat_ne_lineFeed (by omega)).symm
      | succ more => simp [step, if_pos hc]
    · simp only [step, if_neg hc, List.mem_cons, not_or]
      exact ⟨by decide, lineFeed_notMem_begin hb⟩

theorem lineFeed_notMem_decode {state : Utf8State} (h : state.Sound) {bs : List UInt8}
    (hbs : 0x0A ∉ bs) : '\n' ∉ state.decode bs := by
  induction bs generalizing state with
  | nil => cases state <;> simp [decode, finish, replacement]
  | cons b bs ih =>
    have hb : b ≠ 0x0A := fun hb => hbs (by simp [hb])
    have hrest : 0x0A ∉ bs := fun hmem => hbs (List.mem_cons_of_mem b hmem)
    rw [decode, List.mem_append, not_or]
    exact ⟨lineFeed_notMem_step h hb, ih (sound_step h b) hrest⟩

end Utf8State

theorem decodeUtf8_eq_decode (bytes : List UInt8) :
    decodeUtf8 bytes = Utf8State.start.decode bytes := by
  have hfrom : ∀ d : Utf8Decoder, (bytes.foldl Utf8Decoder.feed d).close =
      d.emitted.toList ++ d.state.decode bytes := by
    induction bytes with
    | nil => simp [Utf8Decoder.close, Utf8State.decode]
    | cons b bytes ih => simp [ih, Utf8Decoder.feed, Utf8State.decode]
  rw [decodeUtf8, hfrom]
  rfl

theorem decodeUtf8_append_lineFeed (xs ys : List UInt8) :
    decodeUtf8 (xs ++ 0x0A :: ys) = decodeUtf8 xs ++ '\n' :: decodeUtf8 ys := by
  have hstart : Utf8State.start.Sound := trivial
  simp only [decodeUtf8_eq_decode, Utf8State.decode_append_lineFeed hstart]

theorem lineFeed_notMem_decodeUtf8 {bytes : List UInt8} (h : 0x0A ∉ bytes) :
    '\n' ∉ decodeUtf8 bytes := by
  rw [decodeUtf8_eq_decode]
  have hstart : Utf8State.start.Sound := trivial
  exact Utf8State.lineFeed_notMem_decode hstart h

private theorem decodeUtf8_intercalate (chunks : List (List UInt8)) :
    decodeUtf8 ([0x0A].intercalate chunks) = ['\n'].intercalate (chunks.map decodeUtf8) := by
  induction chunks with
  | nil => rfl
  | cons chunk chunks ih =>
    cases chunks with
    | nil => simp
    | cons next chunks =>
      rw [List.intercalate_cons_cons, List.append_assoc, List.singleton_append,
        decodeUtf8_append_lineFeed, ih]
      simp [List.intercalate_cons_cons]

theorem lines_decodeUtf8 (bytes : List UInt8) :
    lines (decodeUtf8 bytes) = (bytes.splitOn 0x0A).map decodeUtf8 := by
  have hlines : decodeUtf8 bytes = ['\n'].intercalate ((bytes.splitOn 0x0A).map decodeUtf8) := by
    rw [← decodeUtf8_intercalate, List.intercalate_splitOn]
  rw [lines, splitAt_eq_splitOn, hlines]
  refine List.splitOn_intercalate '\n' ?_ ?_
  · intro line hline
    obtain ⟨chunk, hchunk, hdecoded⟩ := List.mem_map.mp hline
    subst hdecoded
    exact lineFeed_notMem_decodeUtf8 (notMem_of_mem_splitOn hchunk)
  · simp

end InvocationTrace.Text
