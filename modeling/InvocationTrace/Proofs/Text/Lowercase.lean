import InvocationTrace.Text.Lowercase
import InvocationTrace.Text.Search

/-!
# Lowercase of a part of a text

The lowercase of a text is made up of the lowercase of its parts, each where it stands. Surroundings
decide nothing but the form of capital sigmas, and all that counts of them is whether the nearest
character on either side that is not case-ignorable is a cased one. The case of ASCII letters does not
count.
-/

namespace InvocationTrace.Text

variable {before before' after after' : List Char}

theorem casedFirst_cons (c : Char) (cs : List Char) :
    casedFirst (c :: cs) = if isCaseIgnorable c = true then casedFirst cs else isCased c := by
  by_cases h : isCaseIgnorable c = true <;> simp [casedFirst, h]

theorem casedFirst_append (xs ys : List Char) : casedFirst (xs ++ ys) =
    if xs.all isCaseIgnorable = true then casedFirst ys else casedFirst xs := by
  induction xs with
  | nil => rfl
  | cons c cs ih =>
    by_cases h : isCaseIgnorable c = true
    · simp only [List.cons_append, casedFirst_cons, List.all_cons, h, if_true, Bool.true_and, ih]
    · simp [casedFirst_cons, h]

theorem casedFirst_of_all {cs : List Char} (h : cs.all isCaseIgnorable = true) :
    casedFirst cs = false := by
  have happend := casedFirst_append cs []
  rw [List.append_nil, if_pos h] at happend
  exact happend

theorem lowercaseAt_congr (hbefore : casedFirst before = casedFirst before')
    (hafter : casedFirst after = casedFirst after') (c : Char) :
    lowercaseAt before c after = lowercaseAt before' c after' := by
  rw [lowercaseAt, lowercaseAt, hbefore, hafter]

/-- The lowercase form of a text between the text before it, nearest character first, and the text
after it. -/
def lowercaseWithin (before : List Char) : List Char → List Char → List Char
  | [], _ => []
  | c :: cs, after => lowercaseAt before c (cs ++ after) ++ lowercaseWithin (c :: before) cs after

theorem lowercaseAfter_eq (before cs : List Char) :
    lowercaseAfter before cs = lowercaseWithin before cs [] := by
  induction cs generalizing before with
  | nil => rfl
  | cons c cs ih => rw [lowercaseAfter, lowercaseWithin, List.append_nil, ih]

theorem lowercaseWithin_append (before xs ys after : List Char) :
    lowercaseWithin before (xs ++ ys) after =
      lowercaseWithin before xs (ys ++ after) ++
        lowercaseWithin (xs.reverse ++ before) ys after := by
  induction xs generalizing before with
  | nil => rfl
  | cons c cs ih => simp [lowercaseWithin, ih]

theorem lowercaseWithin_congr (hbefore : casedFirst before = casedFirst before')
    (hafter : casedFirst after = casedFirst after') (cs : List Char) :
    lowercaseWithin before cs after = lowercaseWithin before' cs after' := by
  induction cs generalizing before before' with
  | nil => rfl
  | cons c cs ih =>
    have hrest : casedFirst (cs ++ after) = casedFirst (cs ++ after') := by
      rw [casedFirst_append, casedFirst_append, hafter]
    have hnext : casedFirst (c :: before) = casedFirst (c :: before') := by
      rw [casedFirst_cons, casedFirst_cons, hbefore]
    rw [lowercaseWithin, lowercaseWithin, lowercaseAt_congr hbefore hrest, ih hnext]

/-- A part of a text is found, in the lowercase form that it has there, in the lowercase of the
text. -/
theorem lowercaseWithin_infix (p s q : List Char) :
    lowercaseWithin p.reverse s q <:+: lowercase (p ++ s ++ q) := by
  rw [lowercase, lowercaseAfter_eq, List.append_assoc, lowercaseWithin_append,
    lowercaseWithin_append]
  simp only [List.append_nil]
  exact ⟨_, _, List.append_assoc ..⟩

theorem lowercaseAt_of_ne {c : Char} (h : c ≠ 'Σ') (before after : List Char) :
    lowercaseAt before c after = lowercaseChar c := by
  rw [lowercaseAt, if_neg (fun hc => h hc.1)]

theorem lowercaseWithin_of_notMem {cs : List Char} (h : 'Σ' ∉ cs) (before after : List Char) :
    lowercaseWithin before cs after = cs.flatMap lowercaseChar := by
  induction cs generalizing before with
  | nil => rfl
  | cons c cs ih =>
    rw [List.mem_cons, not_or] at h
    rw [lowercaseWithin, lowercaseAt_of_ne (Ne.symm h.1), ih h.2, List.flatMap_cons]

/-- A text with the medial form in place of every final sigma. -/
def withMedialSigma (cs : List Char) : List Char := cs.map fun c => if c = 'ς' then 'σ' else c

theorem withMedialSigma_lowercaseAt (before : List Char) (c : Char) (after : List Char) :
    withMedialSigma (lowercaseAt before c after) = withMedialSigma (lowercaseChar c) := by
  by_cases hc : c = 'Σ'
  · subst hc
    rw [lowercaseAt]
    split <;> rfl
  · rw [lowercaseAt_of_ne hc]

/-- Surroundings decide nothing but the form of sigmas. -/
theorem withMedialSigma_lowercaseWithin (before cs after : List Char) :
    withMedialSigma (lowercaseWithin before cs after) =
      withMedialSigma (cs.flatMap lowercaseChar) := by
  induction cs generalizing before with
  | nil => rfl
  | cons c cs ih =>
    have hhead := withMedialSigma_lowercaseAt before c (cs ++ after)
    have htail := ih (c :: before)
    simp only [withMedialSigma] at hhead htail ⊢
    rw [lowercaseWithin, List.map_append, hhead, htail, List.flatMap_cons, List.map_append]

theorem withMedialSigma_of_notMem {cs : List Char} (h : 'ς' ∉ cs) : withMedialSigma cs = cs := by
  refine (List.map_congr_left ?_).trans (List.map_id cs)
  intro c hc
  refine if_neg ?_
  rintro rfl
  exact h hc

/-- The forms of the sigmas in a text do not count in the search for a text without sigmas. -/
theorem infix_withMedialSigma_iff {needle cs : List Char} (hmedial : 'σ' ∉ needle)
    (hfinal : 'ς' ∉ needle) : needle <:+: withMedialSigma cs ↔ needle <:+: cs := by
  constructor
  · rintro ⟨u, v, huv⟩
    obtain ⟨front, rest, rfl, hfront, -⟩ := List.map_eq_append_iff.mp huv.symm
    obtain ⟨skipped, found, rfl, -, hfound⟩ := List.map_eq_append_iff.mp hfront
    have hsigma : 'ς' ∉ found := by
      intro hmem
      refine hmedial ?_
      rw [← hfound]
      exact List.mem_map.mpr ⟨'ς', hmem, rfl⟩
    have heq : needle = found := by
      rw [← hfound]
      exact withMedialSigma_of_notMem hsigma
    rw [heq]
    exact ⟨skipped, rest, rfl⟩
  · intro hinfix
    rw [← withMedialSigma_of_notMem hfinal]
    exact hinfix.map _

/-- The code points of the ASCII letters. -/
def IsLetterCode (n : Nat) : Prop := 0x41 ≤ n ∧ n ≤ 0x5A ∨ 0x61 ≤ n ∧ n ≤ 0x7A

theorem inRanges_casedRanges_of_letter {n : Nat} (h : IsLetterCode n) :
    inRanges casedRanges n = true := by
  rw [inRanges, List.any_eq_true]
  rcases h with ⟨hlow, hhigh⟩ | ⟨hlow, hhigh⟩
  · exact ⟨(0x41, 0x5A), .head _, by simp [hlow, hhigh]⟩
  · exact ⟨(0x61, 0x7A), .tail _ (.head _), by simp [hlow, hhigh]⟩

private theorem caseIgnorableRanges_apart : ∀ r ∈ caseIgnorableRanges,
    r.2 < 0x41 ∨ 0x5A < r.1 ∧ r.2 < 0x61 ∨ 0x7A < r.1 := by
  decide +kernel

theorem inRanges_caseIgnorableRanges_of_letter {n : Nat} (h : IsLetterCode n) :
    inRanges caseIgnorableRanges n = false := by
  rw [inRanges, List.any_eq_false]
  intro r hr
  have hapart := caseIgnorableRanges_apart r hr
  rw [IsLetterCode] at h
  simp only [Bool.and_eq_true, decide_eq_true_eq]
  omega

theorem toLower_cases (c : Char) : c.toLower = c ∨
    (0x41 ≤ c.toNat ∧ c.toNat ≤ 0x5A) ∧ c.toLower.toNat = c.toNat + 32 := by
  by_cases h : c.val ≥ 'A'.val ∧ c.val ≤ 'Z'.val
  · have hlow : 0x41 ≤ c.val.toNat := UInt32.le_iff_toNat_le.mp h.1
    have hhigh : c.val.toNat ≤ 0x5A := UInt32.le_iff_toNat_le.mp h.2
    refine .inr ⟨⟨hlow, hhigh⟩, ?_⟩
    have hlower : c.toLower.val = c.val + ('a'.val - 'A'.val) := congrArg Char.val (dif_pos h)
    change c.toLower.val.toNat = c.val.toNat + 32
    rw [hlower, UInt32.toNat_add, show ('a'.val - 'A'.val).toNat = 32 from rfl]
    omega
  · exact .inl (dif_neg h)

theorem isCased_toLower (c : Char) : isCased c.toLower = isCased c := by
  rcases toLower_cases c with h | ⟨hc, hlower⟩
  · rw [h]
  · rw [isCased, isCased, inRanges_casedRanges_of_letter (.inl hc),
      inRanges_casedRanges_of_letter (.inr (by omega))]

theorem isCaseIgnorable_toLower (c : Char) : isCaseIgnorable c.toLower = isCaseIgnorable c := by
  rcases toLower_cases c with h | ⟨hc, hlower⟩
  · rw [h]
  · rw [isCaseIgnorable, isCaseIgnorable, inRanges_caseIgnorableRanges_of_letter (.inl hc),
      inRanges_caseIgnorableRanges_of_letter (.inr (by omega))]

theorem casedFirst_map_toLower (cs : List Char) :
    casedFirst (cs.map Char.toLower) = casedFirst cs := by
  induction cs with
  | nil => rfl
  | cons c cs ih =>
    rw [List.map_cons, casedFirst_cons, casedFirst_cons, ih, isCased_toLower,
      isCaseIgnorable_toLower]

theorem lowercaseAt_toLower (before : List Char) (c : Char) (after : List Char) :
    lowercaseAt before c.toLower after = lowercaseAt before c after := by
  rcases toLower_cases c with h | ⟨hc, hlower⟩
  · rw [h]
  · have hne : c ≠ 'Σ' := by
      rintro rfl
      exact absurd hc.2 (by decide)
    have hne' : c.toLower ≠ 'Σ' := by
      intro heq
      rw [heq, show 'Σ'.toNat = 0x3A3 from rfl] at hlower
      omega
    have hagain : c.toLower.toLower = c.toLower := by
      rcases toLower_cases c.toLower with h | ⟨hc', -⟩
      · exact h
      · omega
    rw [lowercaseAt_of_ne hne, lowercaseAt_of_ne hne', lowercaseChar, lowercaseChar,
      if_pos (by omega), if_pos (by omega), hagain]

private theorem lowercaseAfter_map_toLower (before cs : List Char) :
    lowercaseAfter (before.map Char.toLower) (cs.map Char.toLower) = lowercaseAfter before cs := by
  induction cs generalizing before with
  | nil => rfl
  | cons c cs ih =>
    have hhead : lowercaseAt (before.map Char.toLower) c.toLower (cs.map Char.toLower) =
        lowercaseAt before c cs := by
      rw [lowercaseAt_toLower]
      exact lowercaseAt_congr (casedFirst_map_toLower before) (casedFirst_map_toLower cs) c
    rw [List.map_cons, lowercaseAfter, lowercaseAfter, hhead, ← ih (c :: before), List.map_cons]

/-- The case of ASCII letters does not count. -/
theorem lowercase_map_toLower (cs : List Char) :
    lowercase (cs.map Char.toLower) = lowercase cs :=
  lowercaseAfter_map_toLower [] cs

end InvocationTrace.Text
