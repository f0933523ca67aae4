import InvocationTrace.Text.Cased
import InvocationTrace.Text.Lowercase.Table

/-!
# Lowercase

Unicode's full lowercase mapping. Every character has a lowercase form of its own, with one
exception: capital sigma becomes the final form at the end of a word and the medial form
elsewhere, so the lowercase of a text is not the concatenation of its characters' lowercase.
-/

namespace InvocationTrace.Text

/-- The lowercase form of a character wherever it stands; of capital sigma, the medial one. -/
def lowercaseChar (c : Char) : List Char :=
  if c.toNat < 0x80 then [c.toLower]
  else if c = 'İ' then ['i', '\u0307']
  else if c = 'Σ' then ['σ']
  else
    match lowercaseRuns.find? (·.covers c.toNat) with
    | some run => [Char.ofNat (c.toNat + run.offset).toNat]
    | none => [c]

/-- Whether the first character that is not case-ignorable is a cased one. -/
def casedFirst (cs : List Char) : Bool :=
  match cs.dropWhile isCaseIgnorable with
  | [] => false
  | c :: _ => isCased c

/-- The lowercase form of a character between the text before it, nearest character first, and
the text after it. -/
def lowercaseAt (before : List Char) (c : Char) (after : List Char) : List Char :=
  if c = 'Σ' ∧ casedFirst before = true ∧ casedFirst after = false then ['ς']
  else lowercaseChar c

def lowercaseAfter (before : List Char) : List Char → List Char
  | [] => []
  | c :: cs => lowercaseAt before c cs ++ lowercaseAfter (c :: before) cs

def lowercase (cs : List Char) : List Char := lowercaseAfter [] cs

theorem lowercaseChar_ne_nil (c : Char) : lowercaseChar c ≠ [] := by
  rw [lowercaseChar]
  split
  · simp
  split
  · simp
  split
  · simp
  split <;> simp

theorem lowercase_eq_nil_iff {cs : List Char} : lowercase cs = [] ↔ cs = [] := by
  cases cs with
  | nil => simp [lowercase, lowercaseAfter]
  | cons c cs =>
    have h : lowercaseAt [] c cs ≠ [] := by
      rw [lowercaseAt]
      split
      · simp
      · exact lowercaseChar_ne_nil c
    simp [lowercase, lowercaseAfter, h]

end InvocationTrace.Text
