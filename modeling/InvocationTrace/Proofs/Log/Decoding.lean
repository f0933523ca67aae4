import InvocationTrace.Log

/-!
# Decoded events

What every event of a log's text keeps to, whatever the text says: its line is one of the log's, its
time is a signed 64-bit integer, and its mode is the one that the mode's name stands for.
-/

namespace InvocationTrace

variable {count : Nat}

theorem Json.fits_of_lenientInteger? {j : Json} {n : Int} (h : j.lenientInteger? = some n) :
    Signed64.Fits n := by
  cases j with
  | number m =>
    obtain rfl := Option.some.inj h
    exact Signed64.clamp_fits _
  | string s =>
    obtain ⟨m, -, hm⟩ := Option.bind_eq_some_iff.mp h
    obtain ⟨hfits, rfl⟩ := Signed64.check_eq_some_iff.mp hm
    exact hfits
  | null | bool _ | array _ | object _ => cases h

/-- An event as decoding may give it in a log of `count` lines. -/
structure Event.FromLines (count : Nat) (e : Event) : Prop where
  line : e.line ≤ count
  elapsedMs : ∀ ms ∈ e.elapsedMs, Signed64.Fits ms
  mode : ∀ mode ∈ e.mode, Mode.ofName mode.name = mode

theorem Event.fromLines_ofFields {line : Nat} (h : line ≤ count) (fields : List (String × Json)) :
    (Event.ofFields line fields).FromLines count where
  line := h
  elapsedMs := by
    intro ms hms
    obtain ⟨j, -, hj⟩ := Option.bind_eq_some_iff.mp hms
    exact Json.fits_of_lenientInteger? hj
  mode := by
    intro mode hmode
    obtain ⟨name, -, rfl⟩ := Option.map_eq_some_iff.mp hmode
    rw [Mode.name_ofName]

namespace Log

variable {cs : List Char} {e : Event}

theorem fromLines_of_mem_ofText (h : e ∈ ofText cs) : e.FromLines (Text.lines cs).length := by
  obtain ⟨⟨line, number⟩, hmem, he⟩ := List.mem_filterMap.mp h
  obtain ⟨j, -, hj⟩ := Option.bind_eq_some_iff.mp he
  cases j with
  | object fields =>
    have hnumber := List.snd_lt_of_mem_zipIdx hmem
    obtain rfl := Option.some.inj hj
    exact Event.fromLines_ofFields (by omega) fields
  | null | bool _ | number _ | string _ | array _ => cases hj

theorem length_ofText_le (cs : List Char) : (ofText cs).length ≤ (Text.lines cs).length :=
  calc
    (ofText cs).length ≤ ((Text.lines cs).zipIdx 1).length := List.length_filterMap_le _ _
    _ = (Text.lines cs).length := List.length_zipIdx

end Log

end InvocationTrace
