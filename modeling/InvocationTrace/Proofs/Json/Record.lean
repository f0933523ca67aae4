import InvocationTrace.Json.Record
import InvocationTrace.Proofs.Json.Literal
import Mathlib.Data.List.DropRight
import Mathlib.Data.List.Forall2

/-!
# Reading back records

What is written for records is one document, which is read as the array of their objects: an escape
as the character that it was written for, a numeral as its integer, as long as 64 bits hold it, and
the items between two brackets one after the other, wherever the brackets stand.
-/

namespace InvocationTrace.Json

variable {fuel room level : Nat} {cs ds rest after : List Char} {texts : List (List Char)}
variable {j : Json}

theorem hexValue?_hexDigit {n : Nat} (h : n < 16) : hexValue? (hexDigit n) = some n := by
  revert n
  decide

/-- The four digits that are written for a control character. -/
theorem unit?_of_control {n : Nat} (h : n < 0x20) :
    unit? '0' '0' (hexDigit (n / 16)) (hexDigit (n % 16)) = some n := by
  have hzero : hexValue? '0' = some 0 := rfl
  have hhigh : hexValue? (hexDigit (n / 16)) = some (n / 16) := hexValue?_hexDigit (by omega)
  have hlow : hexValue? (hexDigit (n % 16)) = some (n % 16) := hexValue?_hexDigit (by omega)
  simp only [unit?, hzero, hhigh, hlow, Option.bind_eq_bind, Option.bind_some, Option.pure_def,
    Option.some.injEq]
  omega

theorem stringBody?_escape {c e : Char} (h : escape? e = some c) (rest : List Char) :
    stringBody? ('\\' :: e :: rest) = (stringBody? rest).map fun (s, after) => (c :: s, after) := by
  have hunit : e ≠ 'u' := by
    rintro rfl
    cases h
  rw [stringBody?.eq_def]
  simp [h, hunit]

theorem stringBody?_control {c : Char} (h : c.toNat < 0x20) (rest : List Char) :
    stringBody?
        (['\\', 'u', '0', '0', hexDigit (c.toNat / 16), hexDigit (c.toNat % 16)] ++ rest) =
      (stringBody? rest).map fun (s, after) => (c :: s, after) := by
  have hlow : isLowSurrogate c.toNat = false := by
    simp only [isLowSurrogate, Bool.and_eq_false_iff, decide_eq_false_iff_not]
    omega
  have hhigh : isHighSurrogate c.toNat = false := by
    simp only [isHighSurrogate, Bool.and_eq_false_iff, decide_eq_false_iff_not]
    omega
  simp [stringBody?, unit?_of_control h, hlow, hhigh, Char.ofNat_toNat]

theorem stringBody?_plain {c : Char} (hquote : c ≠ '"') (hbackslash : c ≠ '\\')
    (h : ¬c.toNat < 0x20) (rest : List Char) :
    stringBody? (c :: rest) = (stringBody? rest).map fun (s, after) => (c :: s, after) := by
  rw [stringBody?.eq_def]
  simp [hbackslash, h]

theorem stringBody?_escaped (c : Char) (rest : List Char) : stringBody? (escaped c ++ rest) =
    (stringBody? rest).map fun (s, after) => (c :: s, after) := by
  rw [escaped]
  split_ifs with hquote hbackslash hbackspace htab hlineFeed hformFeed hreturn hcontrol
  · subst hquote; exact stringBody?_escape rfl rest
  · subst hbackslash; exact stringBody?_escape rfl rest
  · subst hbackspace; exact stringBody?_escape rfl rest
  · subst htab; exact stringBody?_escape rfl rest
  · subst hlineFeed; exact stringBody?_escape rfl rest
  · subst hformFeed; exact stringBody?_escape rfl rest
  · subst hreturn; exact stringBody?_escape rfl rest
  · exact stringBody?_control hcontrol rest
  · exact stringBody?_plain hquote hbackslash hcontrol rest

theorem stringBody?_flatMap_escaped (cs rest : List Char) :
    stringBody? (cs.flatMap escaped ++ '"' :: rest) = some (cs, rest) := by
  induction cs with
  | nil => rfl
  | cons c cs ih =>
    rw [List.flatMap_cons, List.append_assoc, stringBody?_escaped, ih, Option.map_some]

theorem quoted_append (s : String) (rest : List Char) :
    quoted s ++ rest = '"' :: (s.toList.flatMap escaped ++ '"' :: rest) := by
  simp [quoted]

theorem head?_toDigits_ne_zero {n : Nat} (h : 0 < n) : (Nat.toDigits 10 n).head? ≠ some '0' := by
  induction n using Nat.strong_induction_on with
  | _ n ih =>
    rcases Nat.lt_or_ge n 10 with hdigit | hlarge
    · have hdigits : ∀ n < 10, 0 < n → [n.digitChar].head? ≠ some '0' := by decide
      rw [Nat.toDigits_of_lt_base hdigit]
      exact hdigits n hdigit h
    · rw [Nat.toDigits_of_base_le (by decide) hlarge,
        List.head?_append_of_ne_nil _ Nat.toDigits_ne_nil]
      exact ih (n / 10) (by omega) (by omega)

def ofInt (n : Int) : Json := .number (.integer n)

/-- Whether 64 bits, signed or unsigned, hold an integer. -/
def IsWord (n : Int) : Prop := -2 ^ 63 ≤ n ∧ n < 2 ^ 64

namespace IntegerLiteral

/-- Digits are left over only where 64 bits cannot hold the number. -/
theorem dropped_eq_nil {l : IntegerLiteral} (h : l.magnitude < 2 ^ 64) : l.dropped = [] := by
  by_contra hdropped
  obtain ⟨d, ds, hcons⟩ := List.exists_cons_of_ne_nil hdropped
  have hfull : 18446744073709551615 < 10 * l.kept + Text.digitValue d :=
    absorb_full 0 l.digits d (by rw [← dropped, hcons]; rfl)
  have hhead : Text.digitsValue [d] = Text.digitValue d := by simp [Text.digitsValue]
  have hvalue : l.magnitude =
      (10 * l.kept + Text.digitValue d) * 10 ^ ds.length + Text.digitsValue ds := by
    rw [l.magnitude_eq, hcons, ← List.singleton_append, Text.digitsValue_append, hhead,
      List.length_append, List.length_singleton, Nat.pow_add]
    ring
  have hle := Nat.le_mul_of_pos_right (10 * l.kept + Text.digitValue d)
    (Nat.pow_pos (n := ds.length) (show 0 < 10 by decide))
  omega

/-- The literal that is written for an integer. -/
def ofInt (n : Int) : IntegerLiteral where
  negative := decide (n < 0)
  digits := Nat.toDigits 10 n.natAbs
  ne_nil := Nat.toDigits_ne_nil
  all_digits := by
    rw [List.all_eq_true]
    intro c hc
    exact Nat.isDigit_of_mem_toDigits (by decide) (by decide) hc
  no_leading_zero := by
    intro hhead
    rcases Nat.eq_zero_or_pos n.natAbs with hzero | hpos
    · rw [hzero, Nat.toDigits_zero]
    · exact absurd hhead (head?_toDigits_ne_zero hpos)

theorem chars_ofInt (n : Int) : (ofInt n).chars = (toString n).toList := by
  rw [Int.toString_eq_repr, chars]
  cases n with
  | ofNat m => simp [ofInt, Int.repr]
  | negSucc m => simp [ofInt, Int.repr]

theorem magnitude_ofInt (n : Int) : (ofInt n).magnitude = n.natAbs := Nat.ofDigitChars_ten_toDigits

theorem numeral_ofInt_value? {n : Int} (h : IsWord n) :
    (ofInt n).numeral.value? = some (.integer n) := by
  obtain ⟨hleast, hgreatest⟩ := h
  have hdropped : (ofInt n).dropped = [] := dropped_eq_nil (by rw [magnitude_ofInt]; omega)
  have hkept : (ofInt n).kept = n.natAbs := by
    rw [← magnitude_of_dropped_eq_nil hdropped, magnitude_ofInt]
  rw [numeral_value?, if_pos hdropped, hkept, integerValue]
  by_cases hnegative : n < 0
  · have hsign : (ofInt n).negative = true := decide_eq_true hnegative
    have hsize : (n.natAbs : Int) = -n := by omega
    rw [if_pos hsign, if_neg (by omega), hsize, neg_neg]
  · have hsign : (ofInt n).negative = false := decide_eq_false hnegative
    have hsize : (n.natAbs : Int) = n := by omega
    rw [hsign, if_neg Bool.false_ne_true, hsize]

end IntegerLiteral

theorem skipSpace_newLine_append (level : Nat) (cs : List Char) :
    skipSpace (newLine level ++ cs) = skipSpace cs := by
  apply List.dropWhile_append_of_pos
  intro c hc
  rcases List.mem_cons.mp hc with rfl | hc
  · rfl
  · rw [List.eq_of_mem_replicate hc]
    rfl

theorem skipSpace_skipSpace (cs : List Char) : skipSpace (skipSpace cs) = skipSpace cs :=
  List.dropWhile_idempotent _ cs

theorem skipSpace_cons {c : Char} (h : isSpace c = false) (cs : List Char) :
    skipSpace (c :: cs) = c :: cs := List.dropWhile_cons_of_neg (by simp [h])

theorem endsNumeral_newLine (level : Nat) (cs : List Char) : EndsNumeral (newLine level ++ cs) := by
  rintro _ ⟨⟩
  decide

theorem endsNumeral_comma (cs : List Char) : EndsNumeral (',' :: cs) := by
  rintro _ ⟨⟩
  decide

theorem value?_congr (h : skipSpace cs = skipSpace ds) :
    value? fuel room cs = value? fuel room ds := by
  cases fuel with
  | zero => rfl
  | succ fuel => rw [value?, value?, h]

theorem items?_congr (h : skipSpace cs = skipSpace ds) :
    items? fuel room cs = items? fuel room ds := by
  cases fuel with
  | zero => rfl
  | succ fuel => rw [items?, items?, value?_congr h]

theorem fields?_congr (h : skipSpace cs = skipSpace ds) :
    fields? fuel room cs = fields? fuel room ds := by
  cases fuel with
  | zero => rfl
  | succ fuel => rw [fields?, fields?, h]

theorem value?_eq_none_of_bracket (h : skipSpace cs = ']' :: rest) :
    value? fuel room cs = none := by
  have hnumber : number? (']' :: rest) = none := rfl
  cases fuel with
  | zero => rfl
  | succ fuel => simp [value?, h, hnumber]

/-- What can be read as items is no closing bracket, so an array that holds it is not empty. -/
theorem value?_array {items : List Json} (h : items? fuel room cs = some (items, rest)) :
    value? (fuel + 1) (room + 1) ('[' :: cs) = some (.array items, rest) := by
  simp only [value?, skipSpace_cons (c := '[') rfl]
  split
  · next hclose =>
    cases fuel with
    | zero => cases h
    | succ fuel =>
      rw [items?, value?_eq_none_of_bracket hclose] at h
      cases h
  · rw [items?_congr (skipSpace_skipSpace cs), h, Option.map_some]

theorem value?_object {fields : List (String × Json)}
    (h : fields? fuel room cs = some (fields, rest)) :
    value? (fuel + 1) (room + 1) ('{' :: cs) = some (.object fields, rest) := by
  simp only [value?, skipSpace_cons (c := '{') rfl]
  split
  · next hclose =>
    cases fuel with
    | zero => cases h
    | succ fuel => simp [fields?, hclose] at h
  · rw [fields?_congr (skipSpace_skipSpace cs), h, Option.map_some]

/-- A text that is read as a value wherever it stands with `room` for arrays and objects in it,
provided that what follows does not go on with a numeral. -/
def IsTextOf (room : Nat) (cs : List Char) (j : Json) : Prop :=
  ∀ fuel rest, cs.length ≤ fuel → EndsNumeral rest →
    value? (fuel + 1) room (cs ++ rest) = some (j, rest)

theorem parse?_of_isTextOf (h : IsTextOf maxNesting cs j) : parse? cs = some j := by
  have hread := h (2 * cs.length + 1) [] (by omega) endsNumeral_nil
  rw [List.append_nil] at hread
  rw [parse?, hread]
  rfl

theorem IsTextOf.newLine (h : IsTextOf room cs j) (level : Nat) :
    IsTextOf room (newLine level ++ cs) j := by
  intro fuel rest hfuel hrest
  rw [List.length_append] at hfuel
  rw [List.append_assoc, value?_congr (skipSpace_newLine_append level (cs ++ rest))]
  exact h fuel rest (by omega) hrest

theorem isTextOf_null (room : Nat) : IsTextOf room ['n', 'u', 'l', 'l'] .null := by
  intro fuel rest _ _
  simp [value?, skipSpace, isSpace, afterWord?]

theorem isTextOf_toString (room : Nat) {n : Int} (h : IsWord n) :
    IsTextOf room (toString n).toList (.ofInt n) := by
  intro fuel rest _ hrest
  rw [← IntegerLiteral.chars_ofInt, IntegerLiteral.value?_append _ hrest,
    IntegerLiteral.numeral_ofInt_value? h, Option.map_some, ofInt]

theorem isTextOf_quoted (room : Nat) (s : String) : IsTextOf room (quoted s) (.string s) := by
  intro fuel rest _ _
  simp only [quoted_append, value?, skipSpace_cons (c := '"') rfl, stringBody?_flatMap_escaped,
    Option.map_some, String.ofList_toList]

/-- A text that is read as a field of an object. -/
def IsFieldText (room : Nat) (cs : List Char) (field : String × Json) : Prop :=
  ∃ ds, cs = quoted field.1 ++ [':', ' '] ++ ds ∧ IsTextOf room ds field.2

/-- How a reader of what stands between brackets deals with an item on a line of its own, behind
which the items are closed or a comma announces more of them. -/
structure ReadsItems {α : Type} (read? : Nat → List Char → Option (List α × List Char))
    (closing : Char) (IsText : List Char → α → Prop) : Prop where
  closing_not_space : isSpace closing = false
  last : ∀ {fuel level cs a rest after}, IsText cs a → (newLine level ++ cs).length ≤ fuel →
    EndsNumeral rest → skipSpace rest = closing :: after →
      read? (fuel + 2) (newLine level ++ cs ++ rest) = some ([a], after)
  more : ∀ {fuel level cs a rest after}, IsText cs a → (newLine level ++ cs).length ≤ fuel →
    EndsNumeral rest → skipSpace rest = ',' :: after →
      read? (fuel + 2) (newLine level ++ cs ++ rest) =
        (read? (fuel + 1) after).map fun (as, after) => (a :: as, after)

theorem readsItems_items? (room : Nat) :
    ReadsItems (fun fuel => items? fuel room) ']' (IsTextOf room) where
  closing_not_space := rfl
  last h hfuel hrest hclose := by
    simp only [items?, h.newLine _ _ _ hfuel hrest, hclose]
  more h hfuel hrest hcomma := by
    simp only [items?, h.newLine _ _ _ hfuel hrest, hcomma]

/-- A field on a line of its own, behind which the object is closed or a comma stands. -/
theorem fields?_field {field : String × Json} (h : IsFieldText room cs field)
    (hfuel : (newLine level ++ cs).length ≤ fuel) (hrest : EndsNumeral rest) :
    (skipSpace rest = '}' :: after →
        fields? (fuel + 2) room (newLine level ++ cs ++ rest) = some ([field], after)) ∧
      (skipSpace rest = ',' :: after →
        fields? (fuel + 2) room (newLine level ++ cs ++ rest) =
          (fields? (fuel + 1) room after).map fun (fields, after) => (field :: fields, after)) := by
  obtain ⟨name, value⟩ := field
  obtain ⟨ds, rfl, hvalue⟩ := h
  simp only [List.length_append] at hfuel
  have hread : value? (fuel + 1) room (' ' :: (ds ++ rest)) = some (value, rest) := by
    rw [← hvalue fuel rest (by omega) hrest]
    exact value?_congr rfl
  rw [List.append_assoc, fields?_congr (skipSpace_newLine_append level _)]
  simp only [List.append_assoc, List.cons_append, List.nil_append, quoted_append, fields?,
    skipSpace_cons (c := '"') rfl, skipSpace_cons (c := ':') rfl, stringBody?_flatMap_escaped,
    hread, String.ofList_toList]
  constructor
  · intro hclose
    simp only [hclose]
  · intro hcomma
    simp only [hcomma]

theorem readsItems_fields? (room : Nat) :
    ReadsItems (fun fuel => fields? fuel room) '}' (IsFieldText room) where
  closing_not_space := rfl
  last h hfuel hrest hclose := (fields?_field h hfuel hrest).1 hclose
  more h hfuel hrest hcomma := (fields?_field h hfuel hrest).2 hcomma

/-- Texts on lines of their own, with commas between them. -/
def separated (level : Nat) (texts : List (List Char)) : List Char :=
  [','].intercalate (texts.map (newLine level ++ ·))

theorem separated_singleton (level : Nat) (cs : List Char) :
    separated level [cs] = newLine level ++ cs := by
  simp [separated]

theorem separated_cons_cons (level : Nat) (cs ds : List Char) (texts : List (List Char)) :
    separated level (cs :: ds :: texts) =
      newLine level ++ cs ++ ',' :: separated level (ds :: texts) := by
  simp [separated]

theorem block_of_ne_nil (h : texts ≠ []) (opening closing : Char) (level : Nat) :
    block opening closing level texts =
      opening :: (separated (level + 1) texts ++ newLine level ++ [closing]) := by
  simp [block, separated, h]

namespace ReadsItems

variable {α : Type} {read? : Nat → List Char → Option (List α × List Char)} {closing : Char}
variable {IsText : List Char → α → Prop} {as : List α}

theorem read?_separated (h : ReadsItems read? closing IsText)
    (htexts : List.Forall₂ IsText texts as) (hne : texts ≠ [])
    (hfuel : (separated level texts).length ≤ fuel) (hrest : EndsNumeral rest)
    (hclose : skipSpace rest = closing :: after) :
    read? (fuel + 2) (separated level texts ++ rest) = some (as, after) := by
  induction htexts generalizing fuel with
  | nil => exact absurd rfl hne
  | cons hfirst hothers ih =>
    cases hothers with
    | nil =>
      rw [separated_singleton] at hfuel ⊢
      exact h.last hfirst hfuel hrest hclose
    | @cons ds b texts bs _ _ =>
      -- The comma is behind the first item, so the others can do with less fuel.
      rw [separated_cons_cons, List.length_append, List.length_cons] at hfuel
      have hmore : read? (fuel + 1) (separated level (ds :: texts) ++ rest) =
          some (b :: bs, after) := by
        obtain ⟨fuel, rfl⟩ := Nat.exists_eq_add_of_le' (show 1 ≤ fuel by omega)
        exact ih (List.cons_ne_nil ds texts) (by omega)
      have hcomma := skipSpace_cons (c := ',') rfl (separated level (ds :: texts) ++ rest)
      rw [separated_cons_cons, List.append_assoc, List.cons_append,
        h.more hfirst (by omega) (endsNumeral_comma _) hcomma, hmore, Option.map_some]

theorem exists_block_append (h : ReadsItems read? closing IsText)
    (htexts : List.Forall₂ IsText texts as) (hne : texts ≠ []) {opening : Char}
    (hfuel : (block opening closing level texts).length ≤ fuel) (rest : List Char) :
    ∃ inner, block opening closing level texts ++ rest = opening :: inner ∧
      read? fuel inner = some (as, rest) := by
  rw [block_of_ne_nil hne] at hfuel ⊢
  simp only [List.length_cons, List.length_append, List.length_nil] at hfuel
  have hclose : skipSpace (newLine level ++ closing :: rest) = closing :: rest := by
    rw [skipSpace_newLine_append, skipSpace_cons h.closing_not_space]
  obtain ⟨fuel, rfl⟩ := Nat.exists_eq_add_of_le' (show 2 ≤ fuel by omega)
  refine ⟨separated (level + 1) texts ++ (newLine level ++ closing :: rest), by simp, ?_⟩
  exact h.read?_separated htexts hne (by omega) (endsNumeral_newLine level _) hclose

end ReadsItems

theorem IsTextOf.array {items : List Json} (h : List.Forall₂ (IsTextOf room) texts items)
    (level : Nat) : IsTextOf (room + 1) (block '[' ']' level texts) (.array items) := by
  intro fuel rest hfuel _
  rcases eq_or_ne texts [] with rfl | hne
  · obtain rfl := List.forall₂_nil_left_iff.mp h
    simp [block, value?, skipSpace, isSpace]
  · obtain ⟨inner, htext, hitems⟩ := (readsItems_items? room).exists_block_append h hne hfuel rest
    rw [htext]
    exact value?_array hitems

theorem IsTextOf.object {fields : List (String × Json)}
    (h : List.Forall₂ (IsFieldText room) texts fields) (level : Nat) :
    IsTextOf (room + 1) (block '{' '}' level texts) (.object fields) := by
  intro fuel rest hfuel _
  rcases eq_or_ne texts [] with rfl | hne
  · obtain rfl := List.forall₂_nil_left_iff.mp h
    simp [block, value?, skipSpace, isSpace]
  · obtain ⟨inner, htext, hfields⟩ := (readsItems_fields? room).exists_block_append h hne hfuel rest
    rw [htext]
    exact value?_object hfields

/-- Whether an atom can be read back as what it is, which an integer is only within 64 bits. -/
def Atom.IsExact : Atom → Prop
  | .integer n => IsWord n
  | .null | .text _ => True

def Atom.toJson : Atom → Json
  | .null => .null
  | .integer n => .ofInt n
  | .text s => .string s

def Record.toJson (record : Record) : Json :=
  .object (record.map fun field => (field.1, field.2.toJson))

theorem Atom.isTextOf_chars (room : Nat) {atom : Atom} (h : atom.IsExact) :
    IsTextOf room atom.chars atom.toJson := by
  cases atom with
  | null => exact isTextOf_null room
  | integer n => exact isTextOf_toString room h
  | text s => exact isTextOf_quoted room s

theorem Record.isTextOf_chars (room level : Nat) {record : Record}
    (h : ∀ field ∈ record, field.2.IsExact) :
    IsTextOf (room + 1) (record.chars level) record.toJson := by
  apply IsTextOf.object
  rw [List.forall₂_map_left_iff, List.forall₂_map_right_iff, List.forall₂_same]
  intro field hfield
  exact ⟨field.2.chars, rfl, Atom.isTextOf_chars room (h field hfield)⟩

theorem parse?_text {record : Record} (h : ∀ field ∈ record, field.2.IsExact) :
    parse? record.text.toList = some record.toJson := by
  rw [Record.text, String.toList_ofList]
  exact parse?_of_isTextOf (Record.isTextOf_chars 126 0 h)

theorem parse?_recordsText {records : List Record}
    (h : ∀ record ∈ records, ∀ field ∈ record, field.2.IsExact) :
    parse? (recordsText records).toList = some (.array (records.map Record.toJson)) := by
  rw [recordsText, String.toList_ofList]
  apply parse?_of_isTextOf
  apply IsTextOf.array
  rw [List.forall₂_map_left_iff, List.forall₂_map_right_iff, List.forall₂_same]
  intro record hrecord
  exact Record.isTextOf_chars 125 1 (h record hrecord)

end InvocationTrace.Json
