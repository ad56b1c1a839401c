/-!
# JSON values

The values that reports are made of, and their written form: members in the order of their keys, two
spaces of indentation for every level, and nothing between the brackets of an empty list or object.
-/

namespace TapeGrammar.Report

/-- A JSON value.  Reports hold no other numbers than sizes. -/
inductive Json where
  | bool (value : Bool)
  | number (value : Nat)
  | string (value : String)
  | array (items : List Json)
  | object (members : List (String × Json))

namespace Json

/-! ## 1. Strings -/

/-- The four hexadecimal digits of a number below 2^16. -/
def fourDigits (n : Nat) : List Char :=
  [n / 4096, n / 256, n / 16, n].map fun k => Nat.digitChar (k % 16)

/-- How one character is written inside a string.  Control characters are escaped, and so are the
quotation mark and the backslash. -/
def escapedChar (c : Char) : List Char :=
  if c = '"' then ['\\', '"']
  else if c = '\\' then ['\\', '\\']
  else if c = '\n' then ['\\', 'n']
  else if c = '\r' then ['\\', 'r']
  else if c = '\t' then ['\\', 't']
  else if c.toNat = 8 then ['\\', 'b']
  else if c.toNat = 12 then ['\\', 'f']
  else if c.toNat < 32 then ['\\', 'u'] ++ fourDigits c.toNat
  else [c]

/-- A string in its written form. -/
def escaped (s : String) : String :=
  String.ofList (['"'] ++ s.toList.flatMap escapedChar ++ ['"'])

/-! ## 2. Values -/

/-- The order of members. -/
def byKey (a b : String × Json) : Bool := a.1 < b.1 || a.1 = b.1

/-- A line break with the indentation of a level. -/
def newLine (level : Nat) : String := "\n" ++ String.ofList (List.replicate (2 * level) ' ')

/-- The items of a list or an object between its brackets, each on a line of its own. -/
def bracketed (opening closing : String) (level : Nat) (items : List String) : String :=
  if items.isEmpty then opening ++ closing
  else
    opening ++ newLine (level + 1) ++ ("," ++ newLine (level + 1)).intercalate items
      ++ newLine level ++ closing

mutual

/-- The written form of a value that stands at a level of indentation. -/
def textAt (level : Nat) : Json → String
  | .bool value => if value then "true" else "false"
  | .number value => toString value
  | .string value => escaped value
  | .array items => bracketed "[" "]" level (itemTexts (level + 1) items)
  | .object members => bracketed "\x7b" "\x7d" level (memberTexts (level + 1) members)

/-- The written forms of the items of a list. -/
def itemTexts (level : Nat) : List Json → List String
  | [] => []
  | item :: items => textAt level item :: itemTexts level items

/-- The written forms of the members of an object. -/
def memberTexts (level : Nat) : List (String × Json) → List String
  | [] => []
  | (key, value) :: members =>
    (escaped key ++ ": " ++ textAt level value) :: memberTexts level members

end

/-- The written form of a value. -/
def text (value : Json) : String := textAt 0 value

/-- An object with its members in the order of their keys. -/
def ofMembers (members : List (String × Json)) : Json := .object (members.mergeSort byKey)

/-- A list of strings. -/
def strings (values : List String) : Json := .array (values.map .string)

end Json

end TapeGrammar.Report
