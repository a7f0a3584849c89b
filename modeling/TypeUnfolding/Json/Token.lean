import TypeUnfolding.Json.Number

/-!
# Tokens of JSON text

A machine that sees one character at a time (`Scanner.step`) cuts a text into brackets, commas, colons, strings, and
words: runs of letters, digits, signs and points, each of which is a number or one of `null`, `true` and `false`. Two
values in a row are never grammatical, so a word may be as long as possible. A string may escape the two halves of a
character; a half without its other half belongs to no string.
-/

namespace TypeUnfolding.Json

/-- A token of JSON text. -/
inductive Token
  | openArray
  | closeArray
  | openObject
  | closeObject
  | comma
  | colon
  /-- A string, or nothing where its escapes make no text. -/
  | text (content : Option String)
  /-- A number, a truth value or `null`. -/
  | scalar (value : Json)
deriving Repr, Inhabited

/-! ## The inside of strings -/

/-- What stands between the quotes: characters, and escaped units of sixteen bits. -/
inductive Piece
  | char (c : Char)
  | unit (n : Nat)
deriving DecidableEq, Repr

/-- The characters of the pieces: two halves in a row make one character. -/
def Piece.join : List Piece → Option (List Char)
  | [] => some []
  | .char c :: rest => (join rest).map (c :: ·)
  | .unit n :: rest =>
    if 0xD800 ≤ n ∧ n < 0xDC00 then
      match rest with
      | .unit m :: rest =>
        if 0xDC00 ≤ m ∧ m < 0xE000 then
          (join rest).map (Char.ofNat (0x10000 + (n - 0xD800) * 0x400 + (m - 0xDC00)) :: ·)
        else none
      | _ => none
    else if 0xDC00 ≤ n ∧ n < 0xE000 then none
    else (join rest).map (Char.ofNat n :: ·)

/-- The value of a digit in base sixteen. -/
def hexDigit? (c : Char) : Option Nat :=
  if '0' ≤ c ∧ c ≤ '9' then some (c.toNat - '0'.toNat)
  else if 'a' ≤ c ∧ c ≤ 'f' then some (c.toNat - 'a'.toNat + 10)
  else if 'A' ≤ c ∧ c ≤ 'F' then some (c.toNat - 'A'.toNat + 10)
  else none

/-- The character that a letter behind a backslash stands for. -/
def escaped? (c : Char) : Option Char :=
  match c with
  | '\x22' => some '\x22'
  | '\\' => some '\\'
  | '/' => some '/'
  | 'b' => some '\x08'
  | 'f' => some '\x0c'
  | 'n' => some '\n'
  | 'r' => some '\r'
  | 't' => some '\t'
  | _ => none

/-! ## The machine -/

/-- Where the machine stands. Pieces and letters are kept last first. -/
inductive Place
  /-- Between two tokens. -/
  | gap
  /-- In a word. -/
  | word (letters : List Char)
  /-- Between the quotes of a string. -/
  | string (pieces : List Piece)
  /-- Behind a backslash. -/
  | escape (pieces : List Piece)
  /-- In an escaped unit of which the given number of digits is still to come. -/
  | unit (pieces : List Piece) (missing : Nat) (value : Nat)
deriving Repr

/-- The place of the machine, and the tokens behind it, last first. -/
structure Scanner where
  place : Place := .gap
  tokens : List Token := []
deriving Repr

/-- What a word stands for. -/
def word? (letters : List Char) : Option Json :=
  if letters = ['n', 'u', 'l', 'l'] then some .null
  else if letters = ['t', 'r', 'u', 'e'] then some (.bool true)
  else if letters = ['f', 'a', 'l', 's', 'e'] then some (.bool false)
  else Number.read letters

/-- Whether a character can stand in a word. -/
def isWordChar (c : Char) : Bool :=
  c.isAlphanum || c = '-' || c = '+' || c = '.'

/-- The blanks between tokens. -/
def isBlank (c : Char) : Bool :=
  c = ' ' || c = '\n' || c = '\t' || c = '\r'

/-- The token that a single character is. -/
def mark? (c : Char) : Option Token :=
  match c with
  | '[' => some .openArray
  | ']' => some .closeArray
  | '\x7b' => some .openObject
  | '\x7d' => some .closeObject
  | ',' => some .comma
  | ':' => some .colon
  | _ => none

namespace Scanner

/-- A character between two tokens. -/
def stepGap (tokens : List Token) (c : Char) : Option Scanner :=
  if isBlank c then some ⟨.gap, tokens⟩
  else if c = '\x22' then some ⟨.string [], tokens⟩
  else if isWordChar c then some ⟨.word [c], tokens⟩
  else (mark? c).map fun token => ⟨.gap, token :: tokens⟩

/-- The machine after one more character. Strings hold no control characters. -/
def step (s : Scanner) (c : Char) : Option Scanner :=
  match s.place with
  | .gap => stepGap s.tokens c
  | .word letters =>
    if isWordChar c then some { s with place := .word (c :: letters) }
    else (word? letters.reverse).bind fun value => stepGap (.scalar value :: s.tokens) c
  | .string pieces =>
    if c = '\x22' then some ⟨.gap, .text ((Piece.join pieces.reverse).map String.ofList) :: s.tokens⟩
    else if c = '\\' then some { s with place := .escape pieces }
    else if c.toNat < 0x20 then none
    else some { s with place := .string (.char c :: pieces) }
  | .escape pieces =>
    if c = 'u' then some { s with place := .unit pieces 4 0 }
    else (escaped? c).map fun c => { s with place := .string (.char c :: pieces) }
  | .unit pieces missing value =>
    (hexDigit? c).map fun digit =>
      let value := 16 * value + digit
      if missing ≤ 1 then { s with place := .string (.unit value :: pieces) }
      else { s with place := .unit pieces (missing - 1) value }

/-- The tokens when the text ends here. -/
def finish? (s : Scanner) : Option (List Token) :=
  match s.place with
  | .gap => some s.tokens.reverse
  | .word letters => (word? letters.reverse).map fun value => (.scalar value :: s.tokens).reverse
  | _ => none

end Scanner

/-- The tokens of a text. -/
def tokens? (cs : List Char) : Option (List Token) :=
  (cs.foldlM Scanner.step {}).bind Scanner.finish?

end TypeUnfolding.Json
