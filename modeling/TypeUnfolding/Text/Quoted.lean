import TypeUnfolding.Text.Hidden

/-!
# Quoted text

Text between double quotes: quotes, backslashes, line ends, tabs and the null character are written with a backslash,
other characters without a mark of their own by their code point, and all else as it is (`quote`).
-/

namespace TypeUnfolding.Text

/-- How one character is written between double quotes. -/
def quoteChar (c : Char) : List Char :=
  if c = '\x22' then ['\\', '\x22']
  else if c = '\\' then ['\\', '\\']
  else if c = '\n' then ['\\', 'n']
  else if c = '\r' then ['\\', 'r']
  else if c = '\t' then ['\\', 't']
  else if c = '\x00' then ['\\', '0']
  else if isHidden c then '\\' :: 'u' :: '\x7b' :: Nat.toDigits 16 c.toNat ++ ['\x7d']
  else [c]

/-- The text in double quotes. -/
def quote (s : String) : String :=
  String.ofList ('\x22' :: s.toList.flatMap quoteChar ++ ['\x22'])

end TypeUnfolding.Text
