/-!
# JSON values

Objects keep the order and the repetitions of their members. A text can follow the grammar and still denote no value:
it is read as `unreadable`, and no decoder accepts that. Whoever skips a value does not look at it, so such a text may
stand where nothing reads it.
-/

namespace TypeUnfolding

/-- A JSON number: integers between `-2 ^ 63` and `2 ^ 64` are exact. -/
inductive Number
  | integer (value : Int)
  | float (value : Float)
deriving DecidableEq, Repr

/-- A JSON value, or a text without one. -/
inductive Json
  | null
  | bool (value : Bool)
  | number (value : Number)
  | string (value : String)
  | array (items : List Json)
  | object (members : List (String × Json))
  /-- A text that follows the grammar and denotes no value. -/
  | unreadable
deriving Repr, Inhabited

namespace Json

/-- A whole number. -/
def natural (n : Nat) : Json :=
  .number (.integer n)

/-- An absent value is written `null`. -/
def nullable {α : Type} (encode : α → Json) : Option α → Json
  | none => .null
  | some a => encode a

/-! ## How deep a value nests -/

mutual

/-- The number of arrays and objects around the innermost value. -/
def depth : Json → Nat
  | .array items => itemsDepth items + 1
  | .object members => membersDepth members + 1
  | _ => 0

/-- The depth of the deepest item. -/
def itemsDepth : List Json → Nat
  | [] => 0
  | item :: items => max item.depth (itemsDepth items)

/-- The depth of the deepest member. -/
def membersDepth : List (String × Json) → Nat
  | [] => 0
  | (_, value) :: members => max value.depth (membersDepth members)

end

/-! ## Values that can be read throughout -/

mutual

/-- Whether every part of the value can be read. -/
def isReadable : Json → Bool
  | .array items => itemsReadable items
  | .object members => membersReadable members
  | .unreadable => false
  | _ => true

/-- Whether every item can be read. -/
def itemsReadable : List Json → Bool
  | [] => true
  | item :: items => item.isReadable && itemsReadable items

/-- Whether every member can be read. -/
def membersReadable : List (String × Json) → Bool
  | [] => true
  | (_, value) :: members => value.isReadable && membersReadable members

end

end Json

end TypeUnfolding
