/-!
# UTF-8 with replacement

Decoding of arbitrary bytes. Each maximal ill-formed subpart (the longest run of bytes that could
have begun a character, or else a single byte) becomes one replacement character, so decoding
never fails and never looks past a byte that cannot continue what came before it.
-/

namespace InvocationTrace.Text

/-- Where a decoder stands between two bytes: at the start of a character, or inside one with the
bits `bits` read, `more + 1` bytes to come and the next of them between `low` and `high`. -/
inductive Utf8State where
  | start
  | inside (bits : Nat) (more : Nat) (low high : UInt8)

/-- Stands for a run of bytes that encodes no character. -/
def replacement : Char := '\uFFFD'

/-- The state after a first byte of a longer character, and nothing for a byte that begins none.
The bounds shut out overlong forms, surrogates and values above U+10FFFF. -/
def Utf8State.ofLead (b : UInt8) : Option Utf8State :=
  if b < 0xC2 then none
  else if b < 0xE0 then some (.inside (b - 0xC0).toNat 0 0x80 0xBF)
  else if b = 0xE0 then some (.inside 0 1 0xA0 0xBF)
  else if b = 0xED then some (.inside 13 1 0x80 0x9F)
  else if b < 0xF0 then some (.inside (b - 0xE0).toNat 1 0x80 0xBF)
  else if b = 0xF0 then some (.inside 0 2 0x90 0xBF)
  else if b < 0xF4 then some (.inside (b - 0xF0).toNat 2 0x80 0xBF)
  else if b = 0xF4 then some (.inside 4 2 0x80 0x8F)
  else none

/-- A byte at the start of a character: what it emits, and the state after it. -/
def Utf8State.begin (b : UInt8) : List Char × Utf8State :=
  if b < 0x80 then ([Char.ofNat b.toNat], .start)
  else
    match Utf8State.ofLead b with
    | some state => ([], state)
    | none => ([replacement], .start)

/-- One byte. A byte that cannot continue a character ends it with a replacement and is then read
as a first byte. -/
def Utf8State.step : Utf8State → UInt8 → List Char × Utf8State
  | .start, b => Utf8State.begin b
  | .inside bits more low high, b =>
      if low ≤ b ∧ b ≤ high then
        let bits := bits * 64 + (b - 0x80).toNat
        match more with
        | 0 => ([Char.ofNat bits], .start)
        | more + 1 => ([], .inside bits more 0x80 0xBF)
      else
        (replacement :: (Utf8State.begin b).1, (Utf8State.begin b).2)

/-- What is left to emit where the bytes end. -/
def Utf8State.finish : Utf8State → List Char
  | .start => []
  | .inside .. => [replacement]

/-- A decoder at work: the characters emitted so far and the state reached. -/
structure Utf8Decoder where
  emitted : Array Char
  state : Utf8State

def Utf8Decoder.feed (d : Utf8Decoder) (b : UInt8) : Utf8Decoder :=
  ⟨d.emitted ++ (d.state.step b).1, (d.state.step b).2⟩

def Utf8Decoder.close (d : Utf8Decoder) : List Char := (d.emitted ++ d.state.finish).toList

def decodeUtf8 (bytes : List UInt8) : List Char :=
  (bytes.foldl Utf8Decoder.feed ⟨#[], .start⟩).close

/-- An ASCII byte after the start or inside a character leaves the decoder at the start, having
emitted what was pending and then itself. -/
theorem Utf8State.step_ascii (state : Utf8State) {b : UInt8} (hb : b < 0x80)
    (hlow : ∀ bits more low high, state = .inside bits more low high → 0x80 ≤ low) :
    state.step b = (state.finish ++ [Char.ofNat b.toNat], .start) := by
  cases state with
  | start => simp [step, begin, finish, hb]
  | inside bits more low high =>
    have hl := hlow bits more low high rfl
    have hn : ¬ (low ≤ b ∧ b ≤ high) := fun h => by
      have := UInt8.le_iff_toNat_le.mp hl
      have := UInt8.le_iff_toNat_le.mp h.1
      have := UInt8.lt_iff_toNat_lt.mp hb
      omega
    simp [step, begin, finish, hb, hn]

end InvocationTrace.Text
