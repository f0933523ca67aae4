import InvocationTrace.Event.Decode
import InvocationTrace.Proofs.Json.Literal

/-!
# Lenient integers

An integer is taken as a number or as text. A number of any size is brought into the signed range,
even where its digits were rounded on the way; a text counts only if it spells an integer of the
range.
-/

namespace InvocationTrace.Json

open Signed64

theorem le_truncate {n : Int} {q : Rat} (hn : 0 ≤ n) (h : n ≤ q) :
    n ≤ (Number.floating q).truncate := by
  have hcast : (0 : Rat) ≤ n := by exact_mod_cast hn
  have hnum : 0 ≤ q.num := Rat.num_nonneg.mpr (hcast.trans h)
  rw [Number.truncate, Int.tdiv_eq_ediv_of_nonneg hnum, ← Rat.floor_def']
  exact Rat.le_floor_iff.mpr h

theorem truncate_neg (q : Rat) :
    (Number.floating (-q)).truncate = -(Number.floating q).truncate := by
  rw [Number.truncate, Number.truncate, Rat.neg_num, Rat.neg_den, Int.neg_tdiv]

theorem clamp_signed_of_le {n : Int} (h : 2 ^ 63 ≤ n) (negative : Bool) :
    clamp (if negative then -n else n) = if negative then least else greatest := by
  cases negative <;> simp only [clamp, least, greatest, Bool.false_eq_true, if_true, if_false] <;>
    omega

/-- From 2⁶³ on the size of a number does not matter. -/
theorem clamp_truncate_of_le {q : Rat} (h : 2 ^ 63 ≤ q) (negative : Bool) :
    clamp (Number.floating (if negative then -q else q)).truncate =
      if negative then least else greatest := by
  have htruncate : 2 ^ 63 ≤ (Number.floating q).truncate :=
    le_truncate (by decide) (by exact_mod_cast h)
  rw [← clamp_signed_of_le htruncate negative]
  cases negative with
  | true => rw [if_pos rfl, if_pos rfl, truncate_neg]
  | false => rfl

theorem two_pow_le_nearest {n : Nat} (h : 2 ^ 63 ≤ n) : 2 ^ 63 ≤ Binary64.nearest n := by
  have hcast : (2 : Rat) ^ (63 : Int) ≤ n := by exact_mod_cast h
  exact_mod_cast Binary64.zpow_le_nearest (by decide) hcast

theorem clamp_truncate_integerValue (negative : Bool) (n : Nat) :
    clamp (integerValue negative n).truncate = clamp (if negative then -(n : Int) else n) := by
  rw [integerValue]
  split_ifs with hnegative hrange
  · rcases hrange with rfl | hlarge
    · rw [Nat.cast_zero, Binary64.nearest_zero]
      rfl
    · have hfloating := clamp_truncate_of_le (two_pow_le_nearest hlarge.le) true
      have hexact := clamp_signed_of_le (n := n) (by omega) true
      exact hfloating.trans hexact.symm
  · rfl
  · rfl

/-- The conversion of a number through its representations: what is an integer of the signed range
stays, and anything else is taken as a floating-point number and brought into the range. -/
def Number.saturated : Number → Int
  | .integer n =>
      if Fits n then n
      else
        clamp (Number.floating
          (if n < 0 then -Binary64.nearest n.natAbs else Binary64.nearest n.natAbs)).truncate
  | .floating q => clamp (Number.floating q).truncate

theorem lenientInteger?_number (n : Number) :
    (Json.number n).lenientInteger? = some n.saturated := by
  cases n with
  | floating q => rfl
  | integer n =>
    rw [lenientInteger?, Number.saturated]
    by_cases hfits : Fits n
    · rw [if_pos hfits, Number.truncate, clamp_of_fits hfits]
    · have hlarge : 2 ^ 63 ≤ n.natAbs := by
        simp only [Fits, least, greatest] at hfits
        omega
      have hfloating := clamp_truncate_of_le (two_pow_le_nearest hlarge) (n < 0)
      have hexact := clamp_signed_of_le (n := n.natAbs) (by exact_mod_cast hlarge) (n < 0)
      have hsigned : (if n < 0 then -(n.natAbs : Int) else n.natAbs) = n := by
        split_ifs <;> omega
      simp only [decide_eq_true_eq, hsigned] at hfloating hexact
      rw [if_neg hfits, hfloating, Number.truncate, hexact]

theorem lenientInteger?_string_eq_some_iff {s : String} {n : Int} :
    (Json.string s).lenientInteger? = some n ↔
      Fits n ∧ ∃ pre core post, s.toList = pre ++ (core ++ post) ∧
        (∀ c ∈ pre, Text.isBlank c = true) ∧ (∀ c ∈ post, Text.isBlank c = true) ∧
        Text.Spells core n := by
  rw [lenientInteger?, Option.bind_eq_some_iff]
  simp only [Text.readInteger?_trim_eq_some_iff, check_eq_some_iff]
  constructor
  · rintro ⟨m, hspells, hfits, rfl⟩
    exact ⟨hfits, hspells⟩
  · rintro ⟨hfits, hspells⟩
    exact ⟨n, hspells, hfits, rfl⟩

namespace IntegerLiteral

variable (l : IntegerLiteral)

theorem two_pow_le_scaled {l : IntegerLiteral} (h : l.dropped ≠ []) : 2 ^ 63 ≤ l.scaled := by
  have hleast : 2 ^ 63 ≤ Binary64.scaled 1844674407370955161 1 := by decide +kernel
  exact hleast.trans (Binary64.scaled_mono (by decide) (le_kept h) (List.length_pos_iff.mpr h))

theorem two_pow_le_magnitude {l : IntegerLiteral} (h : l.dropped ≠ []) :
    2 ^ 63 ≤ l.magnitude :=
  calc 2 ^ 63 ≤ l.kept * 10 := by have := le_kept h; omega
    _ ≤ l.kept * 10 ^ l.dropped.length :=
      Nat.mul_le_mul_left _ (Nat.le_self_pow (List.length_pos_iff.mpr h).ne' 10)
    _ ≤ l.magnitude := l.kept_mul_le

theorem clamp_truncate_of_value? {n : Number} (h : l.numeral.value? = some n) :
    clamp n.truncate = clamp l.value := by
  by_cases hdropped : l.dropped = []
  · rw [numeral_value?, if_pos hdropped] at h
    obtain rfl := Option.some.inj h
    rw [clamp_truncate_integerValue, value, magnitude_of_dropped_eq_nil hdropped]
  · rw [numeral_value?_of_dropped_ne_nil hdropped, Option.ite_none_right_eq_some] at h
    obtain rfl := Option.some.inj h.2
    -- Rounding leaves the number beyond the range, on the side that the sign tells.
    have hfloating := clamp_truncate_of_le (two_pow_le_scaled hdropped) l.negative
    have hexact := clamp_signed_of_le (n := l.magnitude)
      (by exact_mod_cast two_pow_le_magnitude hdropped) l.negative
    exact hfloating.trans hexact.symm

theorem spells_value : Text.Spells l.chars l.value := by
  rw [chars, value]
  cases l.negative with
  | true => exact .minus l.ne_nil l.all_digits
  | false => exact .unsigned l.ne_nil l.all_digits

theorem lenientInteger?_string :
    (Json.string (String.ofList l.chars)).lenientInteger? = check l.value := by
  have hread : Text.readInteger? (Text.trim l.chars) = some l.value :=
    Text.readInteger?_trim_eq_some_iff.mpr
      ⟨[], l.chars, [], by simp, nofun, nofun, l.spells_value⟩
  rw [lenientInteger?, String.toList_ofList, hread, Option.bind_some]

theorem lenientInteger?_parse? (h : l.magnitude < tooLarge) :
    (parse? l.chars).bind lenientInteger? = some (clamp l.value) := by
  obtain ⟨n, hn⟩ := l.exists_value?_iff.mpr (l.scaled_lt_iff.mpr h)
  rw [parse?_chars, hn, Option.map_some, Option.bind_some, lenientInteger?,
    l.clamp_truncate_of_value? hn]

theorem exists_value?_append_iff (hrest : EndsNumeral rest) (fuel room : Nat) :
    (∃ j, value? (fuel + 1) room (l.chars ++ rest) = some (j, rest)) ↔
      l.scaled < 2 ^ 1024 := by
  rw [← l.exists_value?_iff, l.value?_append hrest]
  simp

theorem lenientInteger?_of_value?_append (hrest : EndsNumeral rest) {fuel room : Nat} {j : Json}
    {after : List Char} (h : value? (fuel + 1) room (l.chars ++ rest) = some (j, after)) :
    after = rest ∧ j.lenientInteger? = some (clamp l.value) := by
  rw [l.value?_append hrest, Option.map_eq_some_iff] at h
  obtain ⟨n, hn, hread⟩ := h
  obtain ⟨rfl, rfl⟩ := Prod.mk.inj hread
  exact ⟨rfl, congrArg some (l.clamp_truncate_of_value? hn)⟩

theorem magnitude_lt_of_fits {l : IntegerLiteral} (h : Fits l.value) :
    l.magnitude < tooLarge := by
  have hmagnitude : l.magnitude ≤ 2 ^ 63 := by
    simp only [value, Fits, least, greatest] at h
    split_ifs at h <;> omega
  exact hmagnitude.trans_lt (by decide +kernel)

theorem clamp_value_of_not_fits (h : ¬Fits l.value) :
    clamp l.value = if l.negative then least else greatest := by
  have hlarge : (2 : Int) ^ 63 ≤ l.magnitude := by
    simp only [value, Fits, least, greatest] at h
    split_ifs at h <;> omega
  exact clamp_signed_of_le hlarge l.negative

end IntegerLiteral

/-- An integer of any length is read wherever it stands, unless it is beyond every floating-point
number, and it is then brought into the signed range, even by way of a floating-point number. A text
is taken exactly if it spells an integer of the range, apart from blanks around it. So number and
text agree on the range, and outside it only the number counts. -/
theorem lenientInteger?_clamps_or_refuses :
    (∀ (l : IntegerLiteral) (fuel room : Nat) (rest : List Char), EndsNumeral rest →
      ((∃ j, value? (fuel + 1) room (l.chars ++ rest) = some (j, rest)) ↔ l.scaled < 2 ^ 1024) ∧
        ∀ j after, value? (fuel + 1) room (l.chars ++ rest) = some (j, after) →
          after = rest ∧ j.lenientInteger? = some (clamp l.value)) ∧
      (∀ l : IntegerLiteral, l.scaled < 2 ^ 1024 ↔ l.magnitude < tooLarge) ∧
      (∀ n : Number, (Json.number n).lenientInteger? = some n.saturated) ∧
      (∀ (s : String) (n : Int), (Json.string s).lenientInteger? = some n ↔
        Fits n ∧ ∃ pre core post, s.toList = pre ++ (core ++ post) ∧
          (∀ c ∈ pre, Text.isBlank c = true) ∧ (∀ c ∈ post, Text.isBlank c = true) ∧
          Text.Spells core n) ∧
      (∀ l : IntegerLiteral, Fits l.value →
        (parse? l.chars).bind lenientInteger? = some l.value ∧
          (Json.string (String.ofList l.chars)).lenientInteger? = some l.value) ∧
      ∀ l : IntegerLiteral, ¬Fits l.value →
        (l.magnitude < tooLarge → (parse? l.chars).bind lenientInteger? =
          some (if l.negative then least else greatest)) ∧
        (Json.string (String.ofList l.chars)).lenientInteger? = none := by
  refine ⟨?_, IntegerLiteral.scaled_lt_iff, lenientInteger?_number,
    fun _ _ => lenientInteger?_string_eq_some_iff, ?_, ?_⟩
  · intro l fuel room rest hrest
    exact ⟨l.exists_value?_append_iff hrest fuel room,
      fun _ _ => l.lenientInteger?_of_value?_append hrest⟩
  · intro l hfits
    have hnumber := l.lenientInteger?_parse? (IntegerLiteral.magnitude_lt_of_fits hfits)
    rw [clamp_of_fits hfits] at hnumber
    exact ⟨hnumber, l.lenientInteger?_string.trans (if_pos hfits)⟩
  · intro l hfits
    refine ⟨?_, l.lenientInteger?_string.trans (if_neg hfits)⟩
    intro hread
    rw [l.lenientInteger?_parse? hread, l.clamp_value_of_not_fits hfits]

/-- An integer far below the signed range; its last digit is not kept. -/
def belowRange : IntegerLiteral where
  negative := true
  digits := "18446744073709551616".toList
  ne_nil := by decide
  all_digits := by decide
  no_leading_zero := by decide

def minusZero : IntegerLiteral where
  negative := true
  digits := ['0']
  ne_nil := by decide
  all_digits := by decide
  no_leading_zero := by decide

theorem lenientInteger?_clamps_or_refuses_belowRange :
    ¬Fits belowRange.value ∧ belowRange.magnitude < tooLarge ∧ Fits minusZero.value ∧
      EndsNumeral [','] ∧
      (∃ j, value? 1 0 (belowRange.chars ++ [',']) = some (j, [',']) ∧
        j.lenientInteger? = some least) ∧
      (Json.string (String.ofList belowRange.chars)).lenientInteger? = none ∧
      (parse? minusZero.chars).bind lenientInteger? = some 0 ∧
      (Json.string (String.ofList minusZero.chars)).lenientInteger? = some 0 := by
  have hfits : ¬Fits belowRange.value := by decide +kernel
  have hread : belowRange.magnitude < tooLarge := by decide +kernel
  have hzero : Fits minusZero.value := by decide
  have hends : EndsNumeral [','] := by
    rintro _ ⟨⟩
    decide
  obtain ⟨hnumber, hfinite, -, -, hinside, houtside⟩ := lenientInteger?_clamps_or_refuses
  obtain ⟨hparsed, hclamped⟩ := hnumber belowRange 0 0 [','] hends
  obtain ⟨j, hj⟩ := hparsed.mpr ((hfinite belowRange).mpr hread)
  refine ⟨hfits, hread, hzero, hends, ⟨j, hj, (hclamped j _ hj).2.trans ?_⟩,
    (houtside belowRange hfits).2, hinside minusZero hzero⟩
  decide +kernel

end InvocationTrace.Json
