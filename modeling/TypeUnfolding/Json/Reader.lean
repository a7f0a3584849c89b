import TypeUnfolding.Json.Token

/-!
# Reading JSON text

A machine that sees one token at a time builds a value from the inside out (`Builder.step`): it keeps the arrays and
objects around its place, each with the items or members already read. Arrays and objects inside 127 others denote no
value.
-/

namespace TypeUnfolding.Json

/-- The number of arrays and objects that may stand inside one another. -/
def nestingLimit : Nat := 127

/-- An array or object around the place of reading; items and members are kept last first. -/
inductive Frame
  | array (items : List Json)
  | object (members : List (Option String × Json)) (key : Option String)
deriving Repr

/-- The place of reading, and what stands around it, innermost first. -/
inductive Builder
  /-- A value follows. -/
  | beforeValue (frames : List Frame)
  /-- The first item of an array follows, or its end. -/
  | inArray (frames : List Frame)
  /-- A comma follows, or the end of the array. -/
  | afterItem (items : List Json) (frames : List Frame)
  /-- The first key of an object follows, or its end. -/
  | inObject (frames : List Frame)
  /-- A key follows. -/
  | afterComma (members : List (Option String × Json)) (frames : List Frame)
  /-- A colon follows. -/
  | afterKey (members : List (Option String × Json)) (key : Option String) (frames : List Frame)
  /-- A comma follows, or the end of the object. -/
  | afterMember (members : List (Option String × Json)) (frames : List Frame)
  /-- Nothing follows. -/
  | done (value : Json)
deriving Repr

namespace Builder

/-- The place behind a finished value. -/
def complete (value : Json) : List Frame → Builder
  | [] => .done value
  | .array items :: frames => .afterItem (value :: items) frames
  | .object members key :: frames => .afterMember ((key, value) :: members) frames

/-- The place behind a finished array or object, which is a value if there is room for it inside the others. -/
def nested (value : Json) (frames : List Frame) : Builder :=
  complete (if frames.length < nestingLimit then value else .unreadable) frames

/-- An object with the given members, if every key is text. -/
def object (members : List (Option String × Json)) : Json :=
  match members.mapM fun member => member.1.map (·, member.2) with
  | some members => .object members
  | none => .unreadable

/-- The place behind a token that starts a value. -/
def stepValue (frames : List Frame) : Token → Option Builder
  | .openArray => some (.inArray frames)
  | .openObject => some (.inObject frames)
  | .text (some content) => some (complete (.string content) frames)
  | .text none => some (complete .unreadable frames)
  | .scalar value => some (complete value frames)
  | _ => none

/-- The place behind one more token. -/
def step : Builder → Token → Option Builder
  | .beforeValue frames, token => stepValue frames token
  | .inArray frames, .closeArray => some (nested (.array []) frames)
  | .inArray frames, token => stepValue (.array [] :: frames) token
  | .afterItem items frames, .comma => some (.beforeValue (.array items :: frames))
  | .afterItem items frames, .closeArray => some (nested (.array items.reverse) frames)
  | .inObject frames, .closeObject => some (nested (.object []) frames)
  | .inObject frames, .text content => some (.afterKey [] content frames)
  | .afterComma members frames, .text content => some (.afterKey members content frames)
  | .afterKey members content frames, .colon => some (.beforeValue (.object members content :: frames))
  | .afterMember members frames, .comma => some (.afterComma members frames)
  | .afterMember members frames, .closeObject => some (nested (object members.reverse) frames)
  | _, _ => none

end Builder

/-- The value of a row of tokens. -/
def ofTokens? (tokens : List Token) : Option Json :=
  match tokens.foldlM Builder.step (.beforeValue []) with
  | some (.done value) => some value
  | _ => none

/-- The value of a text. -/
def read? (text : String) : Option Json :=
  (tokens? text.toList).bind ofTokens?

end TypeUnfolding.Json
