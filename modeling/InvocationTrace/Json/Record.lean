/-!
# Records in JSON

Flat records with named fields, and their JSON text: two spaces for each level, one field a line, a
space after the colon. In strings only quotes, backslashes and the control characters of ASCII are
escaped.
-/

namespace InvocationTrace.Json

inductive Atom where
  | null
  | integer (n : Int)
  | text (s : String)
  deriving DecidableEq

abbrev Record := List (String × Atom)

def hexDigit (n : Nat) : Char :=
  if n < 10 then Char.ofNat ('0'.toNat + n) else Char.ofNat ('a'.toNat + (n - 10))

def escaped (c : Char) : List Char :=
  if c = '"' then ['\\', '"']
  else if c = '\\' then ['\\', '\\']
  else if c = '\x08' then ['\\', 'b']
  else if c = '\t' then ['\\', 't']
  else if c = '\n' then ['\\', 'n']
  else if c = '\x0C' then ['\\', 'f']
  else if c = '\r' then ['\\', 'r']
  else if c.toNat < 0x20 then
    ['\\', 'u', '0', '0', hexDigit (c.toNat / 16), hexDigit (c.toNat % 16)]
  else [c]

def quoted (s : String) : List Char := '"' :: (s.toList.flatMap escaped ++ ['"'])

def Atom.chars : Atom → List Char
  | .null => ['n', 'u', 'l', 'l']
  | .integer n => (toString n).toList
  | .text s => quoted s

def newLine (level : Nat) : List Char := '\n' :: List.replicate (2 * level) ' '

/-- Items on lines of their own between brackets; nothing between the brackets without items. -/
def block (opening closing : Char) (level : Nat) (items : List (List Char)) : List Char :=
  if items.isEmpty then [opening, closing]
  else
    opening :: (List.intercalate [','] (items.map (newLine (level + 1) ++ ·)) ++
      newLine level ++ [closing])

def fieldChars (field : String × Atom) : List Char :=
  quoted field.1 ++ [':', ' '] ++ field.2.chars

def Record.chars (level : Nat) (record : Record) : List Char :=
  block '{' '}' level (record.map fieldChars)

def Record.text (record : Record) : String := String.ofList (record.chars 0)

def recordsText (records : List Record) : String :=
  String.ofList (block '[' ']' 0 (records.map (Record.chars 1)))

end InvocationTrace.Json
