/-!
# Formats of the log

The log is written as plain lines unless a tree or data format is asked for by name.
-/

namespace TypeUnfolding

/-- How log lines are written. -/
inductive LogStyle
  | text
  | tree
  | json
deriving DecidableEq, Repr

/-- The format of the given name in any case; unknown names mean plain text. No letter outside ASCII has a letter of
either name as its small form. -/
def LogStyle.ofName (name : String) : LogStyle :=
  match String.ofList (name.toList.map Char.toLower) with
  | "tree" => .tree
  | "json" => .json
  | _ => .text

end TypeUnfolding
