import InvocationTrace.Json.Parser
import InvocationTrace.Proofs.Rounding
import InvocationTrace.Proofs.Text.Numeral

/-!
# Integer literals

What an integer written in JSON is read as. The digits that fit 64 bits are kept; if more digits
follow, the kept ones are rounded and scaled by the places that are left, which goes well up to a
bound a little below the greatest floating-point number.
-/

namespace InvocationTrace.Json

variable {rest : List Char}

/-- An integer as JSON writes it: digits without needless zeros in front, and a minus sign if it is
negative. -/
structure IntegerLiteral where
  negative : Bool
  digits : List Char
  ne_nil : digits ≠ []
  all_digits : digits.all Text.isDigit = true
  no_leading_zero : digits.head? = some '0' → digits = ['0']

/-- What stands behind a numeral without being a part of it. -/
def EndsNumeral (rest : List Char) : Prop :=
  ∀ c ∈ rest.head?, Text.isDigit c = false ∧ c ≠ '.' ∧ c ≠ 'e' ∧ c ≠ 'E'

theorem endsNumeral_nil : EndsNumeral [] := nofun

theorem spanDigits_append {ds : List Char} (hds : ds.all Text.isDigit = true)
    (hrest : EndsNumeral rest) : spanDigits (ds ++ rest) = (ds, rest) := by
  have hdigits := List.all_eq_true.mp hds
  rw [spanDigits, List.takeWhile_append_of_pos hdigits, List.dropWhile_append_of_pos hdigits]
  cases rest with
  | nil => simp
  | cons c cs => simp [(hrest c rfl).1]

theorem fractionPart?_of_ends (h : EndsNumeral rest) : fractionPart? rest = some (none, rest) := by
  cases rest with
  | nil => rfl
  | cons c cs => rw [fractionPart?.eq_2 _ (by simp [(h c rfl).2.1])]

theorem exponentPart?_of_ends (h : EndsNumeral rest) : exponentPart? rest = some (none, rest) := by
  cases rest with
  | nil => rfl
  | cons c cs => simp [exponentPart?, (h c rfl).2.2.1, (h c rfl).2.2.2]

/-- A sign or a digit begins no other kind of value. -/
theorem value?_of_numeral_head {c : Char} (h : c = '-' ∨ Text.isDigit c = true) (fuel room : Nat)
    (cs : List Char) : value? (fuel + 1) room (c :: cs) = number? (c :: cs) := by
  have hothers : [' ', '\n', '\t', '\r', 'n', 't', 'f', '"', '[', '{'].all
      (fun d => !(d == '-' || Text.isDigit d)) = true := by decide
  have hne : ∀ d ∈ [' ', '\n', '\t', '\r', 'n', 't', 'f', '"', '[', '{'], c ≠ d := by
    rintro d hd rfl
    exact absurd h (by simpa using List.all_eq_true.mp hothers c hd)
  simp only [List.forall_mem_cons] at hne
  have hspace : skipSpace (c :: cs) = c :: cs := by simp [skipSpace, isSpace, hne]
  rw [value?, hspace]
  split <;> simp_all

namespace IntegerLiteral

variable (l : IntegerLiteral)

def chars : List Char := if l.negative then '-' :: l.digits else l.digits

def magnitude : Nat := Text.digitsValue l.digits

def value : Int := if l.negative then -(l.magnitude : Int) else l.magnitude

def numeral : Numeral := ⟨l.negative, l.digits, none, none⟩

theorem exists_digits_eq_cons : ∃ d ds, l.digits = d :: ds ∧ Text.isDigit d = true := by
  obtain ⟨d, ds, hdigits⟩ := List.exists_cons_of_ne_nil l.ne_nil
  have hall := l.all_digits
  rw [hdigits, List.all_cons, Bool.and_eq_true] at hall
  exact ⟨d, ds, hdigits, hall.1⟩

theorem wholePart?_append (hrest : EndsNumeral rest) :
    wholePart? (l.digits ++ rest) = some (l.digits, rest) := by
  rw [wholePart?, spanDigits_append l.all_digits hrest]
  split
  · next heq => exact absurd (congrArg Prod.fst heq) l.ne_nil
  · next heq =>
    obtain ⟨hdigits, -⟩ := Prod.mk.inj heq
    have hzero := l.no_leading_zero (by rw [hdigits]; rfl)
    simp [hdigits] at hzero
  · next heq => rw [heq]

theorem unsignedNumeral?_append (hrest : EndsNumeral rest) :
    unsignedNumeral? l.negative (l.digits ++ rest) = some (l.numeral, rest) := by
  simp [unsignedNumeral?, l.wholePart?_append hrest, fractionPart?_of_ends hrest,
    exponentPart?_of_ends hrest, numeral]

theorem numeral?_append (hrest : EndsNumeral rest) :
    numeral? (l.chars ++ rest) = some (l.numeral, rest) := by
  rw [← l.unsignedNumeral?_append hrest, chars]
  cases hnegative : l.negative with
  | true => rfl
  | false =>
    obtain ⟨d, ds, hdigits, hdigit⟩ := l.exists_digits_eq_cons
    have hminus : d ≠ '-' := by
      rintro rfl
      exact absurd hdigit (by decide)
    rw [if_neg Bool.false_ne_true, hdigits, List.cons_append, numeral?.eq_2 _ (by simp [hminus])]

theorem exists_chars_eq_cons :
    ∃ c cs, l.chars = c :: cs ∧ (c = '-' ∨ Text.isDigit c = true) := by
  rw [chars]
  cases l.negative with
  | true => exact ⟨'-', l.digits, rfl, .inl rfl⟩
  | false =>
    obtain ⟨d, ds, hdigits, hdigit⟩ := l.exists_digits_eq_cons
    exact ⟨d, ds, hdigits, .inr hdigit⟩

/-- A literal is read as the value of its numeral, whatever ends it. -/
theorem value?_append (hrest : EndsNumeral rest) (fuel room : Nat) :
    value? (fuel + 1) room (l.chars ++ rest) =
      l.numeral.value?.map fun n => (.number n, rest) := by
  obtain ⟨c, cs, hchars, hhead⟩ := l.exists_chars_eq_cons
  rw [hchars, List.cons_append, value?_of_numeral_head hhead, ← List.cons_append, ← hchars, number?,
    l.numeral?_append hrest]
  cases hvalue : l.numeral.value? with
  | none => simp [hvalue]
  | some n => simp [hvalue]

theorem parse?_chars : parse? l.chars = l.numeral.value?.map .number := by
  have hread := l.value?_append endsNumeral_nil (2 * l.chars.length + 1) maxNesting
  rw [List.append_nil] at hread
  rw [parse?, hread]
  cases l.numeral.value? with
  | none => rfl
  | some n => rfl

/-- The digits for which there is room in 64 bits, as a number. -/
def kept : Nat := (absorb 0 l.digits).1

/-- The digits from the first one for which there is no room. -/
def dropped : List Char := (absorb 0 l.digits).2

end IntegerLiteral

theorem absorb_append (significand : Nat) (ds : List Char) :
    ∃ taken, ds = taken ++ (absorb significand ds).2 ∧
      (absorb significand ds).1 = Nat.ofDigitChars 10 taken significand := by
  fun_induction absorb significand ds with
  | case1 => exact ⟨[], rfl, rfl⟩
  | case2 significand d ds _ ih =>
    obtain ⟨taken, hds, hvalue⟩ := ih
    exact ⟨d :: taken, congrArg (d :: ·) hds, hvalue⟩
  | case3 => exact ⟨[], rfl, rfl⟩

theorem absorb_le {significand : Nat} (h : significand ≤ 18446744073709551615) (ds : List Char) :
    (absorb significand ds).1 ≤ 18446744073709551615 := by
  fun_induction absorb significand ds with
  | case1 => exact h
  | case2 _ _ _ hfits ih => exact ih hfits
  | case3 => exact h

theorem absorb_full (significand : Nat) (ds : List Char) :
    ∀ d ∈ (absorb significand ds).2.head?,
      18446744073709551615 < 10 * (absorb significand ds).1 + Text.digitValue d := by
  fun_induction absorb significand ds with
  | case1 => exact nofun
  | case2 _ _ _ _ ih => exact ih
  | case3 significand d ds hfull =>
    rintro _ ⟨⟩
    omega

namespace IntegerLiteral

variable (l : IntegerLiteral)

theorem magnitude_eq :
    l.magnitude = l.kept * 10 ^ l.dropped.length + Text.digitsValue l.dropped := by
  obtain ⟨taken, hdigits, hkept⟩ := absorb_append 0 l.digits
  have hkept' : l.kept = Text.digitsValue taken := hkept
  rw [magnitude, hdigits, Text.digitsValue_append, hkept']
  rfl

theorem all_dropped : l.dropped.all Text.isDigit = true := by
  obtain ⟨taken, hdigits, -⟩ := absorb_append 0 l.digits
  have hall := l.all_digits
  rw [hdigits, List.all_append, Bool.and_eq_true] at hall
  exact hall.2

theorem kept_lt : l.kept < 2 ^ 64 := Nat.lt_succ_of_le (absorb_le (Nat.zero_le _) l.digits)

theorem le_kept {l : IntegerLiteral} (h : l.dropped ≠ []) : 1844674407370955161 ≤ l.kept := by
  obtain ⟨d, ds, hdropped⟩ := List.exists_cons_of_ne_nil h
  have hdigit := l.all_dropped
  rw [hdropped, List.all_cons, Bool.and_eq_true] at hdigit
  -- The next digit, nine at most, would not have fitted.
  have hnine := Text.digitValue_le_nine hdigit.1
  have hfull : 18446744073709551615 < 10 * l.kept + Text.digitValue d :=
    absorb_full 0 l.digits d (by rw [← dropped, hdropped]; rfl)
  omega

theorem magnitude_of_dropped_eq_nil {l : IntegerLiteral} (h : l.dropped = []) :
    l.magnitude = l.kept := by
  rw [magnitude_eq, h, List.length_nil, pow_zero, Nat.mul_one]
  rfl

theorem kept_mul_le : l.kept * 10 ^ l.dropped.length ≤ l.magnitude :=
  l.magnitude_eq ▸ Nat.le_add_right _ _

theorem magnitude_lt : l.magnitude < (l.kept + 1) * 10 ^ l.dropped.length := by
  rw [magnitude_eq, Nat.add_mul, Nat.one_mul]
  exact Nat.add_lt_add_left (Text.digitsValue_lt l.all_dropped) _

theorem numeral_value? :
    l.numeral.value? =
      if l.dropped = [] then some (integerValue l.negative l.kept)
      else (Binary64.scale? (Binary64.nearest l.kept) l.dropped.length).map fun q =>
        .floating (if l.negative then -q else q) := by
  have habsorb : absorb 0 l.digits = (l.kept, l.dropped) := rfl
  have hexponent : (none : Option Int).getD 0 + l.dropped.length -
      (([] : List Char).length - ([] : List Char).length : Nat) = l.dropped.length := by simp
  simp only [Numeral.value?, numeral, habsorb, true_and, Option.getD_none, absorb] at hexponent ⊢
  rw [hexponent]
  rfl

/-- The literal as a floating-point number, without its sign: the digits kept, scaled by the places
that are left. -/
def scaled : Rat := Binary64.scaled l.kept l.dropped.length

theorem numeral_value?_of_dropped_ne_nil {l : IntegerLiteral} (h : l.dropped ≠ []) :
    l.numeral.value? =
      if l.dropped.length ≤ 308 ∧ l.scaled < 2 ^ 1024 then
        some (.floating (if l.negative then -l.scaled else l.scaled))
      else none := by
  have hkept := le_kept h
  have hzero : Binary64.nearest l.kept ≠ 0 := by
    have hcast : ((1 : Nat) : Rat) ≤ l.kept := by exact_mod_cast (by omega : 1 ≤ l.kept)
    have hone := Binary64.natCast_le_nearest (by decide) (by decide) hcast
    rw [Nat.cast_one] at hone
    linarith
  have hscale : Binary64.scale? (Binary64.nearest l.kept) l.dropped.length =
      if l.dropped.length ≤ 308 then
        if l.scaled < 2 ^ 1024 then some l.scaled else none
      else if Binary64.nearest l.kept = 0 then some 0 else none := rfl
  rw [numeral_value?, if_neg h, hscale, if_neg hzero]
  by_cases hplaces : l.dropped.length ≤ 308
  · by_cases hfinite : l.scaled < 2 ^ 1024
    · rw [if_pos hplaces, if_pos hfinite, if_pos ⟨hplaces, hfinite⟩, Option.map_some]
    · rw [if_pos hplaces, if_neg hfinite, if_neg (fun h => hfinite h.2), Option.map_none]
  · rw [if_neg hplaces, if_neg (fun h => hplaces h.1), Option.map_none]

end IntegerLiteral

/-- The least integer that is too large to be read. The digits kept and the power of ten are rounded
each on its own, so it lies a little below the greatest floating-point number. -/
def tooLarge : Nat := 17976931348623156225 * 10 ^ 289

/-- The two greatest floating-point numbers stand around it. -/
theorem tooLarge_bounds : 2 ^ 1024 - 2 ^ 972 < tooLarge ∧ tooLarge < 2 ^ 1024 - 2 ^ 971 := by
  decide +kernel

namespace IntegerLiteral

variable (l : IntegerLiteral)

theorem magnitude_lt_of_places_le (h : l.dropped.length ≤ 288) : l.magnitude < tooLarge :=
  calc l.magnitude < (l.kept + 1) * 10 ^ l.dropped.length := l.magnitude_lt
    _ ≤ 2 ^ 64 * 10 ^ 288 :=
      Nat.mul_le_mul l.kept_lt (Nat.pow_le_pow_right (by decide) h)
    _ < tooLarge := by decide +kernel

theorem magnitude_lt_iff_of_places_eq (h : l.dropped.length = 289) :
    l.magnitude < tooLarge ↔ l.kept < 17976931348623156225 := by
  have hlow := l.kept_mul_le
  have hhigh := l.magnitude_lt
  rw [h] at hlow hhigh
  rw [tooLarge]
  constructor
  · intro hlt
    exact Nat.lt_of_mul_lt_mul_right (hlow.trans_lt hlt)
  · intro hlt
    exact hhigh.trans_le (Nat.mul_le_mul_right _ hlt)

theorem tooLarge_le_of_le_places {l : IntegerLiteral} (h : 290 ≤ l.dropped.length) :
    tooLarge ≤ l.magnitude := by
  have hkept := le_kept (l := l) (List.ne_nil_of_length_pos (by omega))
  calc tooLarge ≤ 1844674407370955161 * 10 ^ 290 := by decide +kernel
    _ ≤ l.kept * 10 ^ l.dropped.length :=
      Nat.mul_le_mul hkept (Nat.pow_le_pow_right (by decide) h)
    _ ≤ l.magnitude := l.kept_mul_le

/-- Up to 288 places every number is finite and from 290 on none; between them the digits kept
decide. -/
theorem scaled_lt_iff : l.scaled < 2 ^ 1024 ↔ l.magnitude < tooLarge := by
  have hkept := l.kept_lt
  rcases Nat.lt_trichotomy l.dropped.length 289 with hplaces | hplaces | hplaces
  · -- The greatest digits at the most places give a bound for all.
    refine iff_of_true ?_ (l.magnitude_lt_of_places_le (by omega))
    have hgreatest : Binary64.scaled (2 ^ 64) 288 < 2 ^ 1024 := by decide +kernel
    rcases Nat.eq_zero_or_pos l.kept with hzero | hpos
    · rw [scaled, hzero, Binary64.scaled_zero]
      positivity
    · exact (Binary64.scaled_mono hpos hkept.le (by omega)).trans_lt hgreatest
  · -- Scaling keeps the order, so the two neighbours of the bound tell all others.
    rw [l.magnitude_lt_iff_of_places_eq hplaces]
    constructor
    · intro hfinite
      by_contra hlarge
      have hleast : 2 ^ 1024 ≤ Binary64.scaled 17976931348623156225 289 := by decide +kernel
      have hscaled := Binary64.scaled_mono (by decide) (not_lt.mp hlarge) hplaces.ge
      exact absurd (hleast.trans hscaled) hfinite.not_ge
    · intro hsmall
      have hgreatest : Binary64.scaled 17976931348623156224 289 < 2 ^ 1024 := by decide +kernel
      have hleast := le_kept (l := l) (List.ne_nil_of_length_pos (by omega))
      exact (Binary64.scaled_mono (by omega) (by omega) hplaces.le).trans_lt hgreatest
  · have hleast := le_kept (l := l) (List.ne_nil_of_length_pos (by omega))
    refine iff_of_false ?_ (tooLarge_le_of_le_places hplaces).not_gt
    have hlarge : 2 ^ 1024 ≤ Binary64.scaled 1844674407370955161 290 := by decide +kernel
    exact (hlarge.trans (Binary64.scaled_mono (by decide) hleast hplaces)).not_gt

theorem exists_value?_iff : (∃ n, l.numeral.value? = some n) ↔ l.scaled < 2 ^ 1024 := by
  by_cases hdropped : l.dropped = []
  · rw [numeral_value?, if_pos hdropped]
    refine iff_of_true ⟨_, rfl⟩ (l.scaled_lt_iff.mpr (l.magnitude_lt_of_places_le ?_))
    simp [hdropped]
  · rw [numeral_value?_of_dropped_ne_nil hdropped]
    constructor
    · rintro ⟨n, hn⟩
      exact (Option.ite_none_right_eq_some.mp hn).1.2
    · intro hfinite
      have hplaces : l.dropped.length ≤ 308 := by
        by_contra hlarge
        have hmagnitude := l.scaled_lt_iff.mp hfinite
        exact hmagnitude.not_ge (tooLarge_le_of_le_places (by omega))
      exact ⟨_, if_pos ⟨hplaces, hfinite⟩⟩

end IntegerLiteral

end InvocationTrace.Json
