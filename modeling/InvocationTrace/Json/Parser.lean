import InvocationTrace.Json.Numeral

/-!
# JSON parser

A strict parser: no trailing commas or comments, no control characters inside strings, escaped
surrogates only in pairs, numbers of the JSON grammar that have a finite value, and at most 127
arrays and objects within one another. The parts of the grammar take a text and give back what they
read together with the text that follows it.
-/

namespace InvocationTrace.Json

/-- Insignificant white space between tokens. -/
def isSpace (c : Char) : Bool := c == ' ' || c == '\n' || c == '\t' || c == '\r'

def skipSpace (cs : List Char) : List Char := cs.dropWhile isSpace

def hexValue? (c : Char) : Option Nat :=
  if '0' ≤ c ∧ c ≤ '9' then some (c.toNat - '0'.toNat)
  else if 'a' ≤ c ∧ c ≤ 'f' then some (c.toNat - 'a'.toNat + 10)
  else if 'A' ≤ c ∧ c ≤ 'F' then some (c.toNat - 'A'.toNat + 10)
  else none

/-- The 16-bit unit that four hexadecimal digits write. -/
def unit? (a b c d : Char) : Option Nat := do
  return 4096 * (← hexValue? a) + 256 * (← hexValue? b) + 16 * (← hexValue? c) + (← hexValue? d)

/-- The character that a one-letter escape stands for. -/
def escape? : Char → Option Char
  | '"' => some '"'
  | '\\' => some '\\'
  | '/' => some '/'
  | 'b' => some '\x08'
  | 'f' => some '\x0C'
  | 'n' => some '\n'
  | 'r' => some '\r'
  | 't' => some '\t'
  | _ => none

def isHighSurrogate (u : Nat) : Bool := 0xD800 ≤ u && u ≤ 0xDBFF

def isLowSurrogate (u : Nat) : Bool := 0xDC00 ≤ u && u ≤ 0xDFFF

/-- The character that a pair of surrogates encodes. -/
def ofSurrogates (high low : Nat) : Char :=
  Char.ofNat (0x10000 + 1024 * (high - 0xD800) + (low - 0xDC00))

/-- The characters of a string up to its closing quote, and what follows the quote. -/
def stringBody? : List Char → Option (List Char × List Char)
  | [] => none
  | '"' :: cs => some ([], cs)
  | '\\' :: 'u' :: a :: b :: c :: d :: cs =>
      match unit? a b c d with
      | none => none
      | some u =>
          if isLowSurrogate u then none
          else if isHighSurrogate u then
            match cs with
            | '\\' :: 'u' :: e :: f :: g :: h :: cs =>
                match unit? e f g h with
                | none => none
                | some v =>
                    if isLowSurrogate v then
                      (stringBody? cs).map fun (s, rest) => (ofSurrogates u v :: s, rest)
                    else none
            | _ => none
          else (stringBody? cs).map fun (s, rest) => (Char.ofNat u :: s, rest)
  | '\\' :: c :: cs =>
      match escape? c with
      | none => none
      | some e => (stringBody? cs).map fun (s, rest) => (e :: s, rest)
  | c :: cs =>
      if c = '\\' ∨ c.toNat < 0x20 then none
      else (stringBody? cs).map fun (s, rest) => (c :: s, rest)

def afterWord? (word : List Char) (cs : List Char) : Option (List Char) :=
  if word.isPrefixOf cs then some (cs.drop word.length) else none

def number? (cs : List Char) : Option (Json × List Char) := do
  let (n, rest) ← numeral? cs
  return (.number (← n.value?), rest)

mutual

/-- A value in front of a text. At most `room` arrays and objects may be open within it. -/
def value? : (fuel room : Nat) → List Char → Option (Json × List Char)
  | 0, _, _ => none
  | fuel + 1, room, cs =>
      match skipSpace cs with
      | 'n' :: cs => (afterWord? ['u', 'l', 'l'] cs).map fun rest => (.null, rest)
      | 't' :: cs => (afterWord? ['r', 'u', 'e'] cs).map fun rest => (.bool true, rest)
      | 'f' :: cs => (afterWord? ['a', 'l', 's', 'e'] cs).map fun rest => (.bool false, rest)
      | '"' :: cs => (stringBody? cs).map fun (s, rest) => (.string (String.ofList s), rest)
      | '[' :: cs =>
          match room with
          | 0 => none
          | room + 1 =>
              match skipSpace cs with
              | ']' :: rest => some (.array [], rest)
              | cs => (items? fuel room cs).map fun (items, rest) => (.array items, rest)
      | '{' :: cs =>
          match room with
          | 0 => none
          | room + 1 =>
              match skipSpace cs with
              | '}' :: rest => some (.object [], rest)
              | cs => (fields? fuel room cs).map fun (fields, rest) => (.object fields, rest)
      | cs => number? cs

/-- The items of an array, separated by commas, up to the closing bracket. -/
def items? : (fuel room : Nat) → List Char → Option (List Json × List Char)
  | 0, _, _ => none
  | fuel + 1, room, cs =>
      match value? fuel room cs with
      | none => none
      | some (item, cs) =>
          match skipSpace cs with
          | ']' :: rest => some ([item], rest)
          | ',' :: cs => (items? fuel room cs).map fun (items, rest) => (item :: items, rest)
          | _ => none

/-- The fields of an object, separated by commas, up to the closing brace. -/
def fields? : (fuel room : Nat) → List Char → Option (List (String × Json) × List Char)
  | 0, _, _ => none
  | fuel + 1, room, cs =>
      match skipSpace cs with
      | '"' :: cs =>
          match stringBody? cs with
          | none => none
          | some (name, cs) =>
              match skipSpace cs with
              | ':' :: cs =>
                  match value? fuel room cs with
                  | none => none
                  | some (value, cs) =>
                      let field := (String.ofList name, value)
                      match skipSpace cs with
                      | '}' :: rest => some ([field], rest)
                      | ',' :: cs =>
                          (fields? fuel room cs).map fun (fields, rest) => (field :: fields, rest)
                      | _ => none
              | _ => none
      | _ => none

end

/-- How many arrays and objects may be open at once. -/
def maxNesting : Nat := 127

/-- The value of a text that holds one value and nothing else. Every step of the descent has taken
a character from the text at the latest with its second call, which bounds the steps. -/
def parse? (cs : List Char) : Option Json :=
  match value? (2 * cs.length + 2) maxNesting cs with
  | some (value, rest) => if skipSpace rest = [] then some value else none
  | none => none

end InvocationTrace.Json
