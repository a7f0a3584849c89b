import TypeUnfolding.Json.Decoder
import TypeUnfolding.Run

/-!
# JSON form of options

Every option may be left out for its usual value.
-/

namespace TypeUnfolding

/-- The limit of a walk. -/
def WalkOptions.toJson (options : WalkOptions) : Json :=
  .object [("maxDepth", .natural options.maxDepth)]

/-- The limit of a walk, a number of 32 bits. -/
def WalkOptions.ofJson? : Json → Option WalkOptions :=
  Json.record? do
    let maxDepth ← Json.Record.defaulted "maxDepth" defaultMaxDepth (Json.below? (Nat.pow 2 32))
    return { maxDepth }

/-- The name of an output. -/
def Output.text : Output → String
  | .inline => "inline"
  | .apart => "separateDefinitions"

/-- The outputs by name. -/
def Output.names : List (String × Output) :=
  [.inline, .apart].map fun output => (output.text, output)

/-- Output and walk. -/
def RunOptions.toJson (options : RunOptions) : Json :=
  .object [("outputMode", .string options.output.text), ("resolver", options.walk.toJson)]

/-- Output and walk. -/
def RunOptions.ofJson? : Json → Option RunOptions :=
  Json.record? do
    let output ← Json.Record.defaulted "outputMode" .inline (Json.oneOf? .direct Output.names)
    let walk ← Json.Record.defaulted "resolver" {} WalkOptions.ofJson?
    return { output, walk }

/-- The options that a text stands for. -/
def RunOptions.read? (text : String) : Option RunOptions :=
  (Json.read? text).bind RunOptions.ofJson?

end TypeUnfolding
