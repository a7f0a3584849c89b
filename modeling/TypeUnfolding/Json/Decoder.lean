import TypeUnfolding.Json.Reader

/-!
# Decoding JSON values

A decoder is a function `Json → Option α`. Records are given by the names of their fields or as a list of the fields
in order (`Record`); what a record does not name is skipped unread, and a field may not be repeated. A record with a
`kind` is held back as a whole until its kind is known, so all of it has to be readable (`tagged?`).
-/

namespace TypeUnfolding.Json

/-! ## Plain values -/

/-- A string. -/
def string? : Json → Option String
  | .string s => some s
  | _ => none

/-- A truth value. -/
def bool? : Json → Option Bool
  | .bool b => some b
  | _ => none

/-- A double; integers count as well. -/
def float? : Json → Option Float
  | .number (.float x) => some x
  | .number (.integer n) => some (Number.signed (n < 0) n.natAbs.toUInt64.toFloat)
  | _ => none

/-- A natural number below the given bound, written without fraction and exponent. -/
def below? (bound : Nat) : Json → Option Nat
  | .number (.integer n) => if 0 ≤ n ∧ n < bound then some n.toNat else none
  | _ => none

/-- A number of 32 bits. -/
def uint32? (value : Json) : Option UInt32 :=
  (value.below? (Nat.pow 2 32)).map UInt32.ofNat

/-- An array of values of one type. -/
def list? {α : Type} (decode : Json → Option α) : Json → Option (List α)
  | .array items => items.mapM decode
  | _ => none

/-- A value or `null`. -/
def orNull? {α : Type} (decode : Json → Option α) : Json → Option (Option α)
  | .null => some none
  | value => (decode value).map some

/-! ## Names of a fixed set -/

/-- Whether a value is decoded as it is read, or was held back until the kind of a record around it was known. -/
inductive Stage
  | direct
  | held
deriving DecidableEq, Repr

/-- One of the given names: as a string, or as the only key of an object with nothing under it. -/
def oneOf? {α : Type} (stage : Stage) (table : List (String × α)) : Json → Option α
  | .string name => table.lookup name
  | .object [(name, .null)] => table.lookup name
  | .object [(name, .object [])] => if stage = .held then table.lookup name else none
  | _ => none

/-- The name of a kind. In a value that was held back its place among the names will do. -/
def kind? (stage : Stage) (names : List String) : Json → Option String
  | .string name => if name ∈ names then some name else none
  | .number (.integer (.ofNat n)) => if stage = .held then names[n]? else none
  | _ => none

/-! ## Records -/

/-- What is left of a record: its members by name, or the fields not yet taken. -/
inductive Fields
  | named (members : List (String × Json))
  | listed (items : List Json)
deriving Repr

/-- A decoder that takes the fields of a record one after the other. -/
abbrev Record (α : Type) := StateT Fields Option α

namespace Record

/-- The value of the next field, if it is present. -/
def field (name : String) : Record (Option Json) := fun fields =>
  match fields with
  | .named members =>
    match members.filter (·.1 = name) with
    | [] => some (none, fields)
    | [(_, value)] => some (some value, fields)
    | _ => none
  | .listed [] => some (none, fields)
  | .listed (item :: items) => some (some item, .listed items)

/-- Whether the members of the record are named. -/
def isNamed : Record Bool := fun fields =>
  match fields with
  | .named _ => some (true, fields)
  | .listed _ => some (false, fields)

/-- A field that has to be present. -/
def required {α : Type} (name : String) (decode : Json → Option α) : Record α := do
  match ← field name with
  | some value => decode value
  | none => failure

/-- A field that may be left out for a given value. -/
def defaulted {α : Type} (name : String) (default : α) (decode : Json → Option α) : Record α := do
  match ← field name with
  | some value => decode value
  | none => pure default

/-- A field that may be `null`, and where members are named also left out. -/
def optional {α : Type} (name : String) (decode : Json → Option α) : Record (Option α) := do
  match ← field name with
  | some value => orNull? decode value
  | none => if ← isNamed then pure none else failure

/-- A field that says what the others mean: under its name it is one of a fixed set, in a list it is a kind. -/
def tag {α : Type} (name : String) (stage : Stage) (table : List (String × α)) : Record α := do
  if ← isNamed then required name (oneOf? stage table)
  else table.lookup (← required name (kind? stage (table.map Prod.fst)))

/-- The value of a record all of whose listed fields were taken. -/
def finish? {α : Type} (record : Record α) (fields : Fields) : Option α :=
  match record fields with
  | some (_, .listed (_ :: _)) => none
  | some (value, _) => some value
  | none => none

end Record

/-- A record without a kind. -/
def record? {α : Type} (record : Record α) : Json → Option α
  | .object members => record.finish? (.named members)
  | .array items => record.finish? (.listed items)
  | _ => none

/-- The kind of a record, under the key `kind` or in front of its fields, and the other fields. -/
def tagged? (value : Json) : Option (Json × Fields) :=
  if value.isReadable then
    match value with
    | .object members =>
      match members.filter (·.1 = "kind") with
      | [(_, tag)] => some (tag, .named (members.filter (·.1 ≠ "kind")))
      | _ => none
    | .array (tag :: items) => some (tag, .listed items)
    | _ => none
  else none

end TypeUnfolding.Json
