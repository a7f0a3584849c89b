import TypeUnfolding.Json.Number

/-!
# Writing JSON text

Values are written on one line without blanks (`Layout.compact`), or with a line for each item and member, indented by
two spaces a level (`Layout.indented`). Quotes, backslashes and control characters are escaped and all else is written
as it is.
-/

namespace TypeUnfolding.Json

/-- The blanks in written JSON. -/
structure Layout where
  /-- In front of an item, a member or a closing bracket at the given depth. -/
  lineBreak : Nat → List Char
  /-- Behind a colon. -/
  afterColon : List Char

/-- No blanks at all. -/
def Layout.compact : Layout where
  lineBreak := fun _ => []
  afterColon := []

/-- A line for each item and member. -/
def Layout.indented : Layout where
  lineBreak := fun depth => '\n' :: List.replicate (2 * depth) ' '
  afterColon := [' ']

/-- One digit in base sixteen. -/
def hexDigit (n : Nat) : Char :=
  if n < 10 then Char.ofNat ('0'.toNat + n) else Char.ofNat ('a'.toNat + (n - 10))

/-- How one character is written in a string. -/
def escapeChar (c : Char) : List Char :=
  if c = '\x22' then ['\\', '\x22']
  else if c = '\\' then ['\\', '\\']
  else if c = '\x08' then ['\\', 'b']
  else if c = '\t' then ['\\', 't']
  else if c = '\n' then ['\\', 'n']
  else if c = '\x0c' then ['\\', 'f']
  else if c = '\r' then ['\\', 'r']
  else if c.toNat < 0x20 then ['\\', 'u', '0', '0', hexDigit (c.toNat / 16), hexDigit (c.toNat % 16)]
  else [c]

/-- A string in quotes. -/
def stringChars (s : String) : List Char :=
  '\x22' :: s.toList.flatMap escapeChar ++ ['\x22']

/-- The name of `null`. -/
def nullChars : List Char := ['n', 'u', 'l', 'l']

mutual

/-- The text of a value that stands at the given depth. What has no text is written as `null`. -/
def chars (layout : Layout) (depth : Nat) : Json → List Char
  | .null => nullChars
  | .bool true => ['t', 'r', 'u', 'e']
  | .bool false => ['f', 'a', 'l', 's', 'e']
  | .number n => n.text?.getD nullChars
  | .string s => stringChars s
  | .array [] => ['[', ']']
  | .array (item :: items) =>
    '[' :: layout.lineBreak (depth + 1) ++ chars layout (depth + 1) item ++ itemsChars layout (depth + 1) items ++
      layout.lineBreak depth ++ [']']
  | .object [] => ['\x7b', '\x7d']
  | .object ((key, value) :: members) =>
    '\x7b' :: layout.lineBreak (depth + 1) ++ stringChars key ++ ':' :: layout.afterColon ++
      chars layout (depth + 1) value ++ membersChars layout (depth + 1) members ++ layout.lineBreak depth ++ ['\x7d']
  | .unreadable => nullChars

/-- The items behind the first one. -/
def itemsChars (layout : Layout) (depth : Nat) : List Json → List Char
  | [] => []
  | item :: items =>
    ',' :: layout.lineBreak depth ++ chars layout depth item ++ itemsChars layout depth items

/-- The members behind the first one. -/
def membersChars (layout : Layout) (depth : Nat) : List (String × Json) → List Char
  | [] => []
  | (key, value) :: members =>
    ',' :: layout.lineBreak depth ++ stringChars key ++ ':' :: layout.afterColon ++ chars layout depth value ++
      membersChars layout depth members

end

/-- The text of a value in the given layout. -/
def write (layout : Layout) (value : Json) : String :=
  String.ofList (value.chars layout 0)

end TypeUnfolding.Json
