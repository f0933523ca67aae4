import InvocationTrace.Elapsed
import InvocationTrace.Proofs.Rounding

/-!
# Elapsed times as shown

The unit of a time is decided and its digits are computed in floating point, by up to four roundings.
The unit is nevertheless the one that the exact bounds tell, a longer time never shows fewer tenths
of the same unit, and below 2⁵³ milliseconds what is shown is off by hardly more than half a tenth.
-/

namespace InvocationTrace

open Binary64

/-- The units above the millisecond. -/
inductive TimeUnit where
  | second
  | minute
  | hour
  deriving DecidableEq

namespace TimeUnit

def suffix : TimeUnit → String
  | .second => "s"
  | .minute => "m"
  | .hour => "h"

def milliseconds : TimeUnit → Int
  | .second => 1000
  | .minute => 60000
  | .hour => 3600000

/-- The times that are shown in the unit: from one of it up to one of the next. -/
def Serves : TimeUnit → Int → Prop
  | .second, ms => 1000 ≤ ms ∧ ms < 60000
  | .minute, ms => 60000 ≤ ms ∧ ms < 3600000
  | .hour, ms => 3600000 ≤ ms

/-- The text is a number with one decimal digit and the unit, the number being so many tenths. -/
def Shows (unit : TimeUnit) (text : String) (tenths : Nat) : Prop :=
  ∃ whole digit : Nat, digit < 10 ∧ tenths = 10 * whole + digit ∧
    text = toString whole ++ "." ++ toString digit ++ unit.suffix

theorem milliseconds_le_of_serves {unit : TimeUnit} {ms : Int} (h : unit.Serves ms) :
    unit.milliseconds ≤ ms := by
  cases unit <;> simp only [Serves, milliseconds] at h ⊢ <;> omega

theorem thousand_le_milliseconds (unit : TimeUnit) : 1000 ≤ unit.milliseconds := by
  cases unit <;> decide

/-- A time in the unit as it is computed, by one division after the other. -/
def rounded : TimeUnit → Int → Rat
  | .second, ms => nearest (nearest ms / 1000)
  | .minute, ms => nearest (nearest (nearest ms / 1000) / 60)
  | .hour, ms => nearest (nearest (nearest (nearest ms / 1000) / 60) / 60)

theorem rounded_minute (ms : Int) :
    rounded .minute ms = nearest (rounded .second ms / 60) := rfl

theorem rounded_hour (ms : Int) : rounded .hour ms = nearest (rounded .minute ms / 60) := rfl

theorem shows_decimal (unit : TimeUnit) (t : Nat) :
    unit.Shows (Elapsed.decimal t ++ unit.suffix) t :=
  ⟨t / 10, t % 10, by omega, by omega, rfl⟩

theorem Shows.unique {unit : TimeUnit} {text : String} {t t' : Nat} (h : unit.Shows text t)
    (h' : unit.Shows text t') : t = t' := by
  obtain ⟨whole, digit, hdigit, rfl, htext⟩ := h
  obtain ⟨whole', digit', hdigit', rfl, htext'⟩ := h'
  have hchars := congrArg String.toList (htext.symm.trans htext')
  simp only [String.toList_append, List.append_cancel_right_eq, Nat.toString_eq_repr,
    Nat.toList_repr, Nat.toDigits_of_lt_base hdigit, Nat.toDigits_of_lt_base hdigit'] at hchars
  obtain ⟨hchars, hlast⟩ := List.append_inj' hchars rfl
  obtain ⟨hfront, -⟩ := List.append_inj' hchars rfl
  have hwhole := congrArg (fun ds => Nat.ofDigitChars 10 ds 0) hfront
  simp only [Nat.ofDigitChars_ten_toDigits] at hwhole
  have hvalues := congrArg (fun ds => Nat.ofDigitChars 10 ds 0) hlast
  simp only [Nat.ofDigitChars_cons_digitChar_of_lt_ten hdigit, Nat.ofDigitChars_nil,
    Nat.ofDigitChars_cons_digitChar_of_lt_ten hdigit'] at hvalues
  omega

variable {ms ms' : Int}

theorem le_rounded_second {n : Nat} (hpos : 0 < n) (hn : 1000 * n < 2 ^ 53) (h : 1000 * n ≤ ms) :
    n ≤ rounded .second ms := by
  have hms : ((1000 * n : Nat) : Rat) ≤ nearest ms := by
    refine natCast_le_nearest (by omega) hn ?_
    exact_mod_cast h
  refine natCast_le_nearest hpos (by omega) ?_
  push_cast at hms
  linarith

theorem le_rounded_minute {n : Nat} (hpos : 0 < n) (hn : 60000 * n < 2 ^ 53)
    (h : 60000 * n ≤ ms) : n ≤ rounded .minute ms := by
  have hseconds : ((60 * n : Nat) : Rat) ≤ rounded .second ms :=
    le_rounded_second (by omega) (by omega) (by push_cast; omega)
  rw [rounded_minute]
  refine natCast_le_nearest hpos (by omega) ?_
  push_cast at hseconds
  linarith

private theorem nearest_div_mono {p q d : Rat} (hp : 0 < p) (hd : 0 < d) (h : p ≤ q) :
    nearest (p / d) ≤ nearest (q / d) :=
  nearest_mono (div_pos hp hd) (div_le_div_of_nonneg_right h hd.le)

theorem one_le_rounded {unit : TimeUnit} (h : unit.milliseconds ≤ ms) : 1 ≤ unit.rounded ms := by
  cases unit with
  | second => exact_mod_cast le_rounded_second (n := 1) (by decide) (by decide) h
  | minute => exact_mod_cast le_rounded_minute (n := 1) (by decide) (by decide) h
  | hour =>
    have hminute : ((60 : Nat) : Rat) ≤ rounded .minute ms :=
      le_rounded_minute (by decide) (by decide) h
    have hone : ((1 : Nat) : Rat) ≤ rounded .minute ms / 60 := by
      push_cast at hminute ⊢
      linarith
    exact_mod_cast natCast_le_nearest (by decide) (by decide) hone

theorem rounded_mono {unit : TimeUnit} (h : unit.milliseconds ≤ ms) (hle : ms ≤ ms') :
    unit.rounded ms ≤ unit.rounded ms' := by
  have hpos : 1000 ≤ ms := unit.thousand_le_milliseconds.trans h
  have hms : ((1000 : Nat) : Rat) ≤ nearest ms :=
    natCast_le_nearest (by decide) (by decide) (by exact_mod_cast hpos)
  have hms' : nearest ms ≤ nearest ms' :=
    nearest_mono (by exact_mod_cast (by omega : 0 < ms)) (by exact_mod_cast hle)
  have hsecond : rounded .second ms ≤ rounded .second ms' :=
    nearest_div_mono (lt_of_lt_of_le (by norm_num) hms) (by norm_num) hms'
  have hone : 1 ≤ rounded .second ms := one_le_rounded hpos
  have hminute : rounded .minute ms ≤ rounded .minute ms' :=
    nearest_div_mono (one_pos.trans_le hone) (by norm_num) hsecond
  cases unit with
  | second => exact hsecond
  | minute => exact hminute
  | hour =>
    have hone : 1 ≤ rounded .minute ms := one_le_rounded (by simp only [milliseconds] at h ⊢; omega)
    exact nearest_div_mono (one_pos.trans_le hone) (by norm_num) hminute

theorem rounded_second_error {k : Int} (h : 1000 ≤ ms) (h' : ms < 2 ^ 53) (hk : -1021 ≤ k)
    (hlt : (ms : Rat) / 1000 < 2 ^ k) : |rounded .second ms - ms / 1000| ≤ 2 ^ (k - 54) := by
  have hms : (1000 : Rat) ≤ ms := by exact_mod_cast h
  rw [rounded, nearest_intCast (by omega) h']
  exact nearest_error_of_lt (by linarith) hk hlt

theorem rounded_minute_error (h : 1000 ≤ ms) (h' : ms < 3600000) :
    |rounded .minute ms - ms / 60000| ≤ 1 / 10 ^ 6 := by
  have hms : (1000 : Rat) ≤ ms := by exact_mod_cast h
  have hms' : (ms : Rat) < 3600000 := by exact_mod_cast h'
  have hsecond := rounded_second_error (k := 12) h (by omega) (by decide) (by norm_num; linarith)
  norm_num [abs_le] at hsecond
  have hminute := nearest_error_of_lt (q := rounded .second ms / 60) (k := 6) (by linarith)
    (by decide) (by norm_num; linarith)
  rw [← rounded_minute] at hminute
  norm_num [abs_le] at hminute ⊢
  constructor <;> linarith

theorem rounded_hour_error (h : 60000 ≤ ms) (h' : ms < 2 ^ 53) :
    |rounded .hour ms - ms / 3600000| ≤ 1 / 10 ^ 6 := by
  have hms : (60000 : Rat) ≤ ms := by exact_mod_cast h
  have hms' : (ms : Rat) < 2 ^ 53 := by exact_mod_cast h'
  norm_num at hms'
  have hsecond := rounded_second_error (k := 44) (by omega) h' (by decide) (by norm_num; linarith)
  norm_num [abs_le] at hsecond
  have hminute := nearest_error_of_lt (q := rounded .second ms / 60) (k := 38) (by linarith)
    (by decide) (by norm_num; linarith)
  rw [← rounded_minute] at hminute
  norm_num [abs_le] at hminute
  have hhour := nearest_error_of_lt (q := rounded .minute ms / 60) (k := 32) (by linarith)
    (by decide) (by norm_num; linarith)
  rw [← rounded_hour] at hhour
  norm_num [abs_le] at hhour ⊢
  constructor <;> linarith

theorem rounded_second_lt_iff (h : 1000 ≤ ms) : rounded .second ms < 60 ↔ ms < 60000 := by
  constructor
  · intro hlt
    by_contra hge
    have hsixty : ((60 : Nat) : Rat) ≤ rounded .second ms :=
      le_rounded_second (by decide) (by decide) (by push_cast; omega)
    push_cast at hsixty
    linarith
  · intro hlt
    have hms : (ms : Rat) ≤ 59999 := by exact_mod_cast Int.le_of_lt_add_one hlt
    have herror := rounded_second_error (k := 6) h (by omega) (by decide) (by norm_num; linarith)
    norm_num [abs_le] at herror
    linarith

theorem rounded_minute_lt_iff (h : 1000 ≤ ms) : rounded .minute ms < 60 ↔ ms < 3600000 := by
  constructor
  · intro hlt
    by_contra hge
    have hsixty : ((60 : Nat) : Rat) ≤ rounded .minute ms :=
      le_rounded_minute (by decide) (by decide) (by push_cast; omega)
    push_cast at hsixty
    linarith
  · intro hlt
    have hms : (ms : Rat) ≤ 3599999 := by exact_mod_cast Int.le_of_lt_add_one hlt
    have herror := rounded_minute_error h hlt
    norm_num [abs_le] at herror
    linarith

theorem rounded_error {unit : TimeUnit} (h : unit.Serves ms) (h' : ms < 2 ^ 53) :
    |unit.rounded ms - ms / unit.milliseconds| ≤ 1 / 10 ^ 6 := by
  cases unit with
  | second =>
    obtain ⟨hlow, hhigh⟩ := h
    have hms : (ms : Rat) < 60000 := by exact_mod_cast hhigh
    refine (rounded_second_error (k := 6) hlow h' (by decide) (by norm_num; linarith)).trans ?_
    norm_num
  | minute => exact rounded_minute_error (by have := h.1; omega) h.2
  | hour => exact rounded_hour_error (by have : 3600000 ≤ ms := h; omega) h'

/-- The unit is the one that the exact bounds tell. -/
theorem elapsedText_of_serves {unit : TimeUnit} (h : unit.Serves ms) :
    elapsedText ms = Elapsed.decimal (Elapsed.tenths (unit.rounded ms)) ++ unit.suffix := by
  have hms : 1000 ≤ ms := unit.thousand_le_milliseconds.trans (milliseconds_le_of_serves h)
  have hsecond := rounded_second_lt_iff hms
  have hminute := rounded_minute_lt_iff hms
  simp only [rounded] at hsecond hminute
  simp only [elapsedText, Elapsed.ofMilliseconds, hsecond, hminute]
  cases unit with
  | second =>
    obtain ⟨hlow, hhigh⟩ := h
    rw [if_neg (by omega), if_pos hhigh]
    rfl
  | minute =>
    obtain ⟨hlow, hhigh⟩ := h
    rw [if_neg (by omega), if_neg (by omega), if_pos hhigh]
    rfl
  | hour =>
    simp only [Serves] at h
    rw [if_neg (by omega), if_neg (by omega), if_neg (by omega)]
    rfl

end TimeUnit

namespace Elapsed

theorem tenths_mono {p q : Rat} (h : p ≤ q) : tenths p ≤ tenths q := by
  have hround : roundEven (10 * p) ≤ roundEven (10 * q) := roundEven_mono (by linarith)
  rw [tenths, tenths]
  omega

theorem tenths_error {q : Rat} (h : 0 ≤ q) : |(tenths q : Rat) / 10 - q| ≤ 1 / 20 := by
  have hround : 0 ≤ roundEven (10 * q) := by
    rw [← roundEven_intCast 0]
    exact roundEven_mono (by push_cast; linarith)
  have hcast : (tenths q : Rat) = roundEven (10 * q) := by
    rw [tenths]
    exact_mod_cast Int.toNat_of_nonneg hround
  have herror := abs_le.mp (roundEven_error (10 * q))
  rw [hcast, abs_le]
  constructor <;> linarith

end Elapsed

/-- Times below a second are shown as they are. Any longer time is shown with one decimal digit in
the unit that the exact bounds tell; within a unit the number shown grows with the time, and it is
off by at most half a tenth and a millionth where the time is below 2⁵³ milliseconds. -/
theorem elapsedText_by_unit :
    (∀ ms < 1000, elapsedText ms = toString ms ++ "ms") ∧
      (∀ (unit : TimeUnit) (ms : Int), unit.Serves ms → ∃ t, unit.Shows (elapsedText ms) t ∧
        (ms < 2 ^ 53 → |(t : Rat) / 10 - ms / unit.milliseconds| ≤ 1 / 20 + 1 / 10 ^ 6)) ∧
      (∀ (unit : TimeUnit) (ms ms' : Int) (t t' : Nat), unit.Serves ms → unit.Serves ms' →
        ms ≤ ms' → unit.Shows (elapsedText ms) t → unit.Shows (elapsedText ms') t' → t ≤ t') := by
  refine ⟨?_, ?_, ?_⟩
  · intro ms hms
    simp only [elapsedText, Elapsed.ofMilliseconds, if_pos hms, Elapsed.text]
  · intro unit ms h
    refine ⟨Elapsed.tenths (unit.rounded ms), ?_, ?_⟩
    · rw [TimeUnit.elapsedText_of_serves h]
      exact unit.shows_decimal _
    · intro hms
      have hone := TimeUnit.one_le_rounded (TimeUnit.milliseconds_le_of_serves h)
      have hshown := Elapsed.tenths_error (zero_le_one.trans hone)
      have hcomputed := TimeUnit.rounded_error h hms
      exact (abs_sub_le _ (unit.rounded ms) _).trans (add_le_add hshown hcomputed)
  · intro unit ms ms' t t' h h' hle ht ht'
    rw [TimeUnit.elapsedText_of_serves h] at ht
    rw [TimeUnit.elapsedText_of_serves h'] at ht'
    rw [ht.unique (unit.shows_decimal _), ht'.unique (unit.shows_decimal _)]
    exact Elapsed.tenths_mono (TimeUnit.rounded_mono (TimeUnit.milliseconds_le_of_serves h) hle)

/-- The last millisecond below the hour is shown as sixty minutes, never as one hour. -/
theorem elapsedText_by_unit_lastMinute :
    TimeUnit.minute.Serves 3540000 ∧ TimeUnit.minute.Serves 3599999 ∧
      ∃ t t', TimeUnit.minute.Shows (elapsedText 3540000) t ∧
        TimeUnit.minute.Shows (elapsedText 3599999) t' ∧ t ≤ t' ∧
        |(t' : Rat) / 10 - (3599999 : Int) / TimeUnit.minute.milliseconds| ≤
          1 / 20 + 1 / 10 ^ 6 := by
  have hfirst : TimeUnit.minute.Serves 3540000 := ⟨by decide, by decide⟩
  have hlast : TimeUnit.minute.Serves 3599999 := ⟨by decide, by decide⟩
  obtain ⟨-, hshown, hmono⟩ := elapsedText_by_unit
  obtain ⟨t, ht, -⟩ := hshown .minute 3540000 hfirst
  obtain ⟨t', ht', herror⟩ := hshown .minute 3599999 hlast
  exact ⟨hfirst, hlast, t, t', ht, ht', hmono _ _ _ _ _ hfirst hlast (by decide) ht ht',
    herror (by decide)⟩

example : elapsedText 59999 = "60.0s" := by decide +kernel

end InvocationTrace
