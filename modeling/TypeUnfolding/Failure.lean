import TypeUnfolding.SourcePath

/-!
# Failures

What can end the unfolding of a type or a run over files, and how it is worded (`Failure.message`).
-/

namespace TypeUnfolding

/-- Why a walk or a run ended. -/
inductive Failure
  /-- The type belongs to no category. -/
  | unsupported (name : String)
  /-- The type stands deeper than the limit allows. -/
  | tooDeep (name : String) (limit : Nat)
  /-- An array type without an element type. -/
  | noElementType (name : String)
  /-- A literal type with neither a value nor the name of a truth value. -/
  | noBooleanMarker (name : String)
  /-- A file that the session does not show. -/
  | fileNotInSession (file : SourcePath)
  /-- A file that nothing is declared in. -/
  | fileNotFound (file : SourcePath)
deriving DecidableEq, Repr

/-- The wording of a failure. -/
def Failure.message : Failure → String
  | .unsupported name => s!"unsupported type shape: '{name}'"
  | .tooDeep name limit => s!"type nesting exceeded {limit} levels while resolving '{name}'"
  | .noElementType name => s!"array type '{name}' has no element type"
  | .noBooleanMarker name => s!"literal type '{name}' has neither a value nor a boolean marker"
  | .fileNotInSession file => s!"file '{file.text}' is not part of the session"
  | .fileNotFound file => s!"frontend error: file '{file.text}' not found"

end TypeUnfolding
