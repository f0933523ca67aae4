import InvocationTrace.Binary64
import Mathlib.Algebra.Order.Field.Power
import Mathlib.Data.Int.Log
import Mathlib.Data.Rat.Floor
import Mathlib.Tactic.Linarith
import Mathlib.Tactic.NormNum
import Mathlib.Tactic.Positivity

/-!
# Rounding to binary64

Rounding keeps the order of numbers, leaves powers of two and small integers as they are, and is
off by at most half the distance between the floating-point numbers around.
-/

namespace InvocationTrace.Binary64

theorem roundEven_intCast (n : Int) : roundEven n = n := by
  simp [roundEven, Rat.floor_intCast]

theorem roundEven_error (q : Rat) : |(roundEven q : Rat) - q| ≤ 1 / 2 := by
  have hlo := Rat.floor_le q
  have hhi := Rat.lt_floor_add_one q
  push_cast at hhi
  rw [abs_le]
  simp only [roundEven]
  split_ifs <;> push_cast <;> constructor <;> linarith

theorem floor_le_roundEven (q : Rat) : q.floor ≤ roundEven q := by
  simp only [roundEven]
  split_ifs <;> omega

theorem roundEven_le_floor_add_one (q : Rat) : roundEven q ≤ q.floor + 1 := by
  simp only [roundEven]
  split_ifs <;> omega

theorem roundEven_mono {p q : Rat} (h : p ≤ q) : roundEven p ≤ roundEven q := by
  rcases (Rat.floor_monotone h).eq_or_lt with hfloor | hfloor
  · -- Between the same two integers the larger number is the nearer to the upper one.
    simp only [roundEven, hfloor]
    split_ifs <;> first | omega | linarith
  · have hp := roundEven_le_floor_add_one p
    have hq := floor_le_roundEven q
    omega

/-- Numerator and denominator leave the exponent open by one. -/
private theorem zpow_log2_bounds {q : Rat} (hq : 0 < q) :
    (2 : Rat) ^ ((q.num.toNat.log2 : Int) - q.den.log2 - 1) ≤ q ∧
      q < (2 : Rat) ^ ((q.num.toNat.log2 : Int) - q.den.log2 + 1) := by
  have hnum : q.num.toNat ≠ 0 := by
    have hpos := Rat.num_pos.mpr hq
    omega
  have hcast : (q.num.toNat : Rat) = q * q.den := by
    rw [Rat.mul_den_eq_num]
    exact_mod_cast Int.toNat_of_nonneg (Rat.num_nonneg.mpr hq.le)
  have hnumLow : (2 : Rat) ^ (q.num.toNat.log2 : Int) ≤ q * q.den := by
    rw [← hcast]
    exact_mod_cast Nat.log2_self_le hnum
  have hnumHigh : q * q.den < (2 : Rat) ^ ((q.num.toNat.log2 : Int) + 1) := by
    rw [← hcast]
    exact_mod_cast Nat.lt_log2_self (n := q.num.toNat)
  have hdenLow : (2 : Rat) ^ (q.den.log2 : Int) ≤ q.den := by
    exact_mod_cast Nat.log2_self_le q.den_nz
  have hdenHigh : (q.den : Rat) ≤ 2 ^ ((q.den.log2 : Int) + 1) := by
    exact_mod_cast (Nat.lt_log2_self (n := q.den)).le
  constructor
  · refine le_of_mul_le_mul_right ?_ (zpow_pos two_pos ((q.den.log2 : Int) + 1))
    calc (2 : Rat) ^ ((q.num.toNat.log2 : Int) - q.den.log2 - 1) * 2 ^ ((q.den.log2 : Int) + 1)
        = 2 ^ (q.num.toNat.log2 : Int) := by rw [← zpow_add₀ two_ne_zero]; congr 1; omega
      _ ≤ q * q.den := hnumLow
      _ ≤ q * 2 ^ ((q.den.log2 : Int) + 1) := mul_le_mul_of_nonneg_left hdenHigh hq.le
  · refine lt_of_mul_lt_mul_right ?_ (zpow_pos two_pos (q.den.log2 : Int)).le
    calc q * (2 : Rat) ^ (q.den.log2 : Int)
        ≤ q * q.den := mul_le_mul_of_nonneg_left hdenLow hq.le
      _ < 2 ^ ((q.num.toNat.log2 : Int) + 1) := hnumHigh
      _ = 2 ^ ((q.num.toNat.log2 : Int) - q.den.log2 + 1) * 2 ^ (q.den.log2 : Int) := by
          rw [← zpow_add₀ two_ne_zero]; congr 1; omega

theorem binaryExponent_eq_log {q : Rat} (hq : 0 < q) : binaryExponent q = Int.log 2 q := by
  obtain ⟨hlow, hhigh⟩ := zpow_log2_bounds hq
  have hlow' := (Int.zpow_le_iff_le_log one_lt_two hq).mp hlow
  have hhigh' := (Int.lt_zpow_iff_log_lt one_lt_two hq).mp hhigh
  simp only [binaryExponent]
  split_ifs with h
  · have hlog := (Int.lt_zpow_iff_log_lt one_lt_two hq).mp h
    omega
  · have hlog := (Int.zpow_le_iff_le_log one_lt_two hq).mp (not_lt.mp h)
    omega

theorem step_pos (q : Rat) : 0 < step q := by
  rw [step]
  positivity

/-- A power of two is a multiple of every step that is no greater. -/
theorem exists_eq_mul_step {q : Rat} {k : Int} (h : max (binaryExponent q - 52) (-1074) ≤ k) :
    ∃ m : Int, (2 : Rat) ^ k = m * step q := by
  refine ⟨2 ^ (k - max (binaryExponent q - 52) (-1074)).toNat, ?_⟩
  push_cast
  rw [step, ← zpow_natCast, Int.toNat_of_nonneg (by omega), ← zpow_add₀ two_ne_zero]
  congr 1
  omega

theorem nearest_le {q : Rat} {m : Int} (h : q ≤ m * step q) : nearest q ≤ m * step q := by
  have hscaled : q / step q ≤ m := (div_le_iff₀ (step_pos q)).mpr h
  have hround : roundEven (q / step q) ≤ m := by
    rw [← roundEven_intCast m]
    exact roundEven_mono hscaled
  exact mul_le_mul_of_nonneg_right (by exact_mod_cast hround) (step_pos q).le

theorem le_nearest {q : Rat} {m : Int} (h : m * step q ≤ q) : m * step q ≤ nearest q := by
  have hscaled : m ≤ q / step q := (le_div_iff₀ (step_pos q)).mpr h
  have hround : m ≤ roundEven (q / step q) := by
    rw [← roundEven_intCast m]
    exact roundEven_mono hscaled
  exact mul_le_mul_of_nonneg_right (by exact_mod_cast hround) (step_pos q).le

theorem nearest_eq_self {q : Rat} {m k : Int} (hq : q = m * 2 ^ k)
    (h : max (binaryExponent q - 52) (-1074) ≤ k) : nearest q = q := by
  obtain ⟨n, hn⟩ := exists_eq_mul_step h
  have hmultiple : q = (m * n : Int) * step q := by
    push_cast
    rw [mul_assoc, ← hn]
    exact hq
  refine le_antisymm ?_ ?_
  · exact (nearest_le hmultiple.le).trans hmultiple.ge
  · exact hmultiple.le.trans (le_nearest hmultiple.ge)

theorem nearest_le_zpow {q : Rat} {k : Int} (hq : 0 < q) (hk : -1074 ≤ k) (h : q ≤ 2 ^ k) :
    nearest q ≤ 2 ^ k := by
  have hlog : binaryExponent q ≤ k := by
    rw [binaryExponent_eq_log hq, ← zpow_le_zpow_iff_right₀ (one_lt_two (α := Rat))]
    exact (Int.zpow_log_le_self one_lt_two hq).trans h
  obtain ⟨m, hm⟩ := exists_eq_mul_step (q := q) (k := k) (by omega)
  rw [hm] at h ⊢
  exact nearest_le h

theorem zpow_le_nearest {q : Rat} {k : Int} (hk : -1074 ≤ k) (h : 2 ^ k ≤ q) :
    2 ^ k ≤ nearest q := by
  have hq : 0 < q := (zpow_pos two_pos k).trans_le h
  have hlog : k ≤ binaryExponent q := by
    rw [binaryExponent_eq_log hq]
    exact (Int.zpow_le_iff_le_log one_lt_two hq).mp h
  obtain ⟨m, hm⟩ := exists_eq_mul_step (q := q) (k := binaryExponent q) (by omega)
  calc (2 : Rat) ^ k ≤ 2 ^ binaryExponent q := zpow_le_zpow_right₀ one_le_two hlog
    _ = m * step q := hm
    _ ≤ nearest q := by
      refine le_nearest ?_
      rw [← hm, binaryExponent_eq_log hq]
      exact Int.zpow_log_le_self one_lt_two hq

theorem nearest_zpow {k : Int} (hk : -1074 ≤ k) : nearest ((2 : Rat) ^ k) = 2 ^ k :=
  le_antisymm (nearest_le_zpow (zpow_pos two_pos k) hk le_rfl) (zpow_le_nearest hk le_rfl)

theorem nearest_zero : nearest 0 = 0 := by
  have hround : roundEven 0 = 0 := by exact_mod_cast roundEven_intCast 0
  rw [nearest, zero_div, hround, Int.cast_zero, zero_mul]

/-- Integers of up to 53 bits are floating-point numbers. -/
theorem nearest_natCast {n : Nat} (h : n < 2 ^ 53) : nearest n = n := by
  rcases Nat.eq_zero_or_pos n with rfl | hpos
  · exact nearest_zero
  have hcast : (0 : Rat) < n := by exact_mod_cast hpos
  have hlog : binaryExponent n < 53 := by
    rw [binaryExponent_eq_log hcast, ← Int.lt_zpow_iff_log_lt one_lt_two hcast]
    exact_mod_cast h
  refine nearest_eq_self (m := n) (k := 0) ?_ (by omega)
  simp

theorem nearest_intCast {n : Int} (h : 0 ≤ n) (h' : n < 2 ^ 53) : nearest n = n := by
  obtain ⟨n, rfl⟩ := Int.eq_ofNat_of_zero_le h
  exact_mod_cast nearest_natCast (n := n) (by omega)

theorem nearest_mono {p q : Rat} (hp : 0 < p) (h : p ≤ q) : nearest p ≤ nearest q := by
  have hq : 0 < q := hp.trans_le h
  by_cases hstep : step p = step q
  · have hscaled : p / step p ≤ q / step q := by
      rw [hstep]
      exact div_le_div_of_nonneg_right h (step_pos q).le
    rw [nearest, nearest, hstep]
    rw [hstep] at hscaled
    exact mul_le_mul_of_nonneg_right (by exact_mod_cast roundEven_mono hscaled) (step_pos q).le
  · -- A power of two stands between them, and rounding moves neither across it.
    have hlog : binaryExponent p ≤ binaryExponent q := by
      rw [binaryExponent_eq_log hp, binaryExponent_eq_log hq]
      exact Int.log_mono_right hp h
    have hexponents : max (binaryExponent p - 52) (-1074) ≠ max (binaryExponent q - 52) (-1074) :=
      fun heq => hstep (by rw [step, step, heq])
    have hpower : p ≤ 2 ^ binaryExponent q := by
      refine ((Int.lt_zpow_iff_log_lt one_lt_two hp).mpr ?_).le
      rw [← binaryExponent_eq_log hp]
      omega
    have hpower' : 2 ^ binaryExponent q ≤ q := by
      rw [binaryExponent_eq_log hq]
      exact Int.zpow_log_le_self one_lt_two hq
    calc nearest p ≤ 2 ^ binaryExponent q := nearest_le_zpow hp (by omega) hpower
      _ ≤ nearest q := zpow_le_nearest (by omega) hpower'

theorem natCast_le_nearest {n : Nat} {q : Rat} (hpos : 0 < n) (hn : n < 2 ^ 53) (h : n ≤ q) :
    n ≤ nearest q := by
  rw [← nearest_natCast hn]
  exact nearest_mono (by exact_mod_cast hpos) h

theorem nearest_error (q : Rat) : |nearest q - q| ≤ step q / 2 := by
  have hscaled := roundEven_error (q / step q)
  have hq : q / step q * step q = q := div_mul_cancel₀ q (step_pos q).ne'
  calc |nearest q - q| = |(roundEven (q / step q) : Rat) - q / step q| * step q := by
        rw [← abs_of_pos (step_pos q), ← abs_mul, abs_of_pos (step_pos q), sub_mul, hq, nearest]
    _ ≤ 1 / 2 * step q := mul_le_mul_of_nonneg_right hscaled (step_pos q).le
    _ = step q / 2 := by ring

theorem nearest_error_of_lt {q : Rat} {k : Int} (hq : 0 < q) (hk : -1021 ≤ k) (h : q < 2 ^ k) :
    |nearest q - q| ≤ 2 ^ (k - 54) := by
  have hlog : binaryExponent q < k := by
    rw [binaryExponent_eq_log hq]
    exact (Int.lt_zpow_iff_log_lt one_lt_two hq).mp h
  calc |nearest q - q| ≤ step q / 2 := nearest_error q
    _ ≤ 2 ^ (k - 53) / 2 := by
      refine div_le_div_of_nonneg_right ?_ two_pos.le
      exact zpow_le_zpow_right₀ one_le_two (by omega)
    _ = 2 ^ (k - 54) := by
      rw [div_eq_iff two_ne_zero, ← zpow_add_one₀ two_ne_zero]
      congr 1
      omega

theorem powerOfTen_mono {k k' : Nat} (h : k ≤ k') : powerOfTen k ≤ powerOfTen k' :=
  nearest_mono (by positivity) (zpow_le_zpow_right₀ (by norm_num) (by exact_mod_cast h))

theorem one_le_powerOfTen (k : Nat) : 1 ≤ powerOfTen k := by
  have hzero : powerOfTen 0 = 1 := nearest_zpow (k := 0) (by decide)
  exact hzero.ge.trans (powerOfTen_mono k.zero_le)

/-- A number times a power of ten, where the number, the power and the product are rounded. -/
def scaled (m k : Nat) : Rat := nearest (nearest m * powerOfTen k)

theorem scaled_zero (k : Nat) : scaled 0 k = 0 := by
  rw [scaled, Nat.cast_zero, nearest_zero, zero_mul, nearest_zero]

theorem scaled_mono {m m' k k' : Nat} (hpos : 0 < m) (hm : m ≤ m') (hk : k ≤ k') :
    scaled m k ≤ scaled m' k' := by
  have hone : (1 : Rat) ≤ nearest m := by
    have hcast : ((1 : Nat) : Rat) ≤ m := by exact_mod_cast hpos
    exact_mod_cast natCast_le_nearest (by decide) (by decide) hcast
  have hsignificands : nearest m ≤ nearest m' :=
    nearest_mono (by exact_mod_cast hpos) (by exact_mod_cast hm)
  refine nearest_mono ?_ ?_
  · exact mul_pos (by linarith) (by linarith [one_le_powerOfTen k])
  · exact mul_le_mul hsignificands (powerOfTen_mono hk) (by linarith [one_le_powerOfTen k])
      (by linarith)

end InvocationTrace.Binary64
