import InvocationTrace.Text.Blank
import InvocationTrace.Text.Numeral
import Mathlib.Algebra.Group.Nat.Defs
import Mathlib.Data.List.TakeWhile

/-!
# Integers in text

What counts as the text of an integer, apart from blanks around it, and the value of a sequence of
digits.
-/

namespace InvocationTrace.Text

variable {cs ds : List Char} {n : Int}

theorem isDigit_eq_true_iff {c : Char} :
    isDigit c = true ↔ '0'.toNat ≤ c.toNat ∧ c.toNat ≤ '9'.toNat := by
  simp only [isDigit, Bool.and_eq_true, decide_eq_true_eq, Char.le_def, UInt32.le_iff_toNat_le]
  rfl

theorem digitValue_le_nine {c : Char} (h : isDigit c = true) : digitValue c ≤ 9 :=
  Nat.sub_le_sub_right (isDigit_eq_true_iff.mp h).2 _

theorem isBlank_of_isDigit {c : Char} (h : isDigit c = true) : isBlank c = false := by
  have hlow : 48 ≤ c.toNat := (isDigit_eq_true_iff.mp h).1
  have hhigh : c.toNat ≤ 57 := (isDigit_eq_true_iff.mp h).2
  simp only [isBlank, Bool.or_eq_false_iff, Bool.and_eq_false_iff, decide_eq_false_iff_not,
    beq_eq_false_iff_ne]
  omega

/-- More digits move what stands before them to the left. -/
theorem digitsValue_append (cs ds : List Char) :
    digitsValue (cs ++ ds) = digitsValue cs * 10 ^ ds.length + digitsValue ds := by
  have hshift : Nat.ofDigitChars 10 ds (digitsValue cs) =
      10 ^ ds.length * digitsValue cs + Nat.ofDigitChars 10 ds 0 :=
    Nat.ofDigitChars_eq_ofDigitChars_zero
  have happend := Nat.ofDigitChars_append (b := 10) (l := cs) (m := ds) 0
  calc digitsValue (cs ++ ds) = Nat.ofDigitChars 10 ds (digitsValue cs) := happend
    _ = 10 ^ ds.length * digitsValue cs + digitsValue ds := hshift
    _ = digitsValue cs * 10 ^ ds.length + digitsValue ds := by rw [Nat.mul_comm]

theorem digitsValue_lt (h : ds.all isDigit = true) : digitsValue ds < 10 ^ ds.length := by
  induction ds with
  | nil => decide
  | cons d ds ih =>
    rw [List.all_cons, Bool.and_eq_true] at h
    have hhead : digitsValue [d] ≤ 9 := by
      rw [show digitsValue [d] = digitValue d by simp [digitsValue]]
      exact digitValue_le_nine h.1
    have htail := ih h.2
    calc digitsValue (d :: ds) = digitsValue [d] * 10 ^ ds.length + digitsValue ds :=
          digitsValue_append [d] ds
      _ < digitsValue [d] * 10 ^ ds.length + 10 ^ ds.length := by omega
      _ = (digitsValue [d] + 1) * 10 ^ ds.length := by rw [Nat.add_mul, Nat.one_mul]
      _ ≤ 10 * 10 ^ ds.length := Nat.mul_le_mul_right _ (by omega)
      _ = 10 ^ (d :: ds).length := by rw [List.length_cons, Nat.pow_succ, Nat.mul_comm]

/-- At least one digit after at most one sign, and the integer that this denotes. -/
inductive Spells : List Char → Int → Prop
  | unsigned {ds : List Char} (h : ds ≠ []) (hdigits : ds.all isDigit = true) :
      Spells ds (digitsValue ds)
  | plus {ds : List Char} (h : ds ≠ []) (hdigits : ds.all isDigit = true) :
      Spells ('+' :: ds) (digitsValue ds)
  | minus {ds : List Char} (h : ds ≠ []) (hdigits : ds.all isDigit = true) :
      Spells ('-' :: ds) (-(digitsValue ds : Int))

theorem map_readDigits?_eq_some_iff {f : Int → Int} :
    (do return ((← readDigits? ds) : Int)).map f = some n ↔
      (ds ≠ [] ∧ ds.all isDigit = true) ∧ f (digitsValue ds) = n := by
  rw [readDigits?]
  split_ifs with h
  · exact ⟨fun hread => ⟨h, Option.some.inj hread⟩, fun hvalue => congrArg some hvalue.2⟩
  · exact ⟨nofun, fun hvalue => absurd hvalue.1 h⟩

theorem spells_of_readInteger? : readInteger? cs = some n → Spells cs n := by
  fun_cases readInteger? cs with
  | case1 ds =>
    intro h
    obtain ⟨⟨hne, hdigits⟩, rfl⟩ := map_readDigits?_eq_some_iff.mp h
    exact .minus hne hdigits
  | case2 =>
    fun_cases readNatural? cs with
    | case1 ds =>
      intro h
      obtain ⟨⟨hne, hdigits⟩, rfl⟩ := map_readDigits?_eq_some_iff.mp h
      exact .plus hne hdigits
    | case2 =>
      intro h
      obtain ⟨⟨hne, hdigits⟩, rfl⟩ := map_readDigits?_eq_some_iff.mp h
      exact .unsigned hne hdigits

theorem readInteger?_of_spells (h : Spells cs n) : readInteger? cs = some n := by
  cases h with
  | unsigned h hdigits =>
    have hread := map_readDigits?_eq_some_iff (f := fun n => n).mpr ⟨⟨h, hdigits⟩, rfl⟩
    obtain ⟨c, cs, rfl⟩ := List.exists_cons_of_ne_nil h
    rw [List.all_cons, Bool.and_eq_true] at hdigits
    have hminus : c ≠ '-' := by
      rintro rfl
      exact absurd hdigits.1 (by decide)
    have hplus : c ≠ '+' := by
      rintro rfl
      exact absurd hdigits.1 (by decide)
    rwa [readInteger?.eq_2 _ (by simp [hminus]), readNatural?.eq_2 _ (by simp [hplus])]
  | plus h hdigits => exact map_readDigits?_eq_some_iff.mpr ⟨⟨h, hdigits⟩, rfl⟩
  | minus h hdigits => exact map_readDigits?_eq_some_iff.mpr ⟨⟨h, hdigits⟩, rfl⟩

theorem readInteger?_eq_some_iff : readInteger? cs = some n ↔ Spells cs n :=
  ⟨spells_of_readInteger?, readInteger?_of_spells⟩

theorem Spells.ne_nil (h : Spells cs n) : cs ≠ [] := by
  cases h with
  | unsigned h => exact h
  | plus => exact List.cons_ne_nil _ _
  | minus => exact List.cons_ne_nil _ _

theorem Spells.not_blank (h : Spells cs n) : ∀ c ∈ cs, isBlank c = false := by
  have hdigit : ∀ {ds : List Char}, ds.all isDigit = true → ∀ c ∈ ds, isBlank c = false :=
    fun hdigits c hc => isBlank_of_isDigit (List.all_eq_true.mp hdigits c hc)
  cases h with
  | unsigned _ hdigits => exact hdigit hdigits
  | plus _ hdigits => exact List.forall_mem_cons.mpr ⟨by decide, hdigit hdigits⟩
  | minus _ hdigits => exact List.forall_mem_cons.mpr ⟨by decide, hdigit hdigits⟩

theorem dropWhile_isBlank_append {pre : List Char} (hpre : ∀ c ∈ pre, isBlank c = true)
    (h : cs ≠ []) (hcs : ∀ c ∈ cs, isBlank c = false) (post : List Char) :
    (pre ++ (cs ++ post)).dropWhile isBlank = cs ++ post := by
  obtain ⟨c, cs, rfl⟩ := List.exists_cons_of_ne_nil h
  rw [List.dropWhile_append_of_pos hpre, List.cons_append,
    List.dropWhile_cons_of_neg (by simp [hcs c (.head _)])]

theorem trim_eq_of_blanks {pre post : List Char} (hpre : ∀ c ∈ pre, isBlank c = true)
    (hpost : ∀ c ∈ post, isBlank c = true) (h : cs ≠ []) (hcs : ∀ c ∈ cs, isBlank c = false) :
    trim (pre ++ (cs ++ post)) = cs := by
  have hback : (post.reverse ++ (cs.reverse ++ [])).dropWhile isBlank = cs.reverse ++ [] :=
    dropWhile_isBlank_append (by simpa using hpost) (by simpa using h) (by simpa using hcs) []
  rw [List.append_nil, ← List.reverse_append] at hback
  rw [trim, dropWhile_isBlank_append hpre h hcs, hback, List.reverse_reverse]

/-- A text is what is left of it by trimming, with blanks around. -/
theorem exists_blanks_trim (cs : List Char) :
    ∃ pre post, (∀ c ∈ pre, isBlank c = true) ∧ (∀ c ∈ post, isBlank c = true) ∧
      cs = pre ++ (trim cs ++ post) := by
  let rest := cs.dropWhile isBlank
  refine ⟨cs.takeWhile isBlank, (rest.reverse.takeWhile isBlank).reverse,
    fun c => List.mem_takeWhile_imp, ?_, ?_⟩
  · intro c hc
    exact List.mem_takeWhile_imp (List.mem_reverse.mp hc)
  · have hrest : rest = trim cs ++ (rest.reverse.takeWhile isBlank).reverse := by
      rw [trim, ← List.reverse_append, List.takeWhile_append_dropWhile, List.reverse_reverse]
    rw [← hrest, List.takeWhile_append_dropWhile]

theorem readInteger?_trim_eq_some_iff :
    readInteger? (trim cs) = some n ↔
      ∃ pre core post, cs = pre ++ (core ++ post) ∧ (∀ c ∈ pre, isBlank c = true) ∧
        (∀ c ∈ post, isBlank c = true) ∧ Spells core n := by
  rw [readInteger?_eq_some_iff]
  constructor
  · intro h
    obtain ⟨pre, post, hpre, hpost, hcs⟩ := exists_blanks_trim cs
    exact ⟨pre, trim cs, post, hcs, hpre, hpost, h⟩
  · rintro ⟨pre, core, post, rfl, hpre, hpost, h⟩
    rwa [trim_eq_of_blanks hpre hpost h.ne_nil h.not_blank]

end InvocationTrace.Text
