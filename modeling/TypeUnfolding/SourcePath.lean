import TypeUnfolding.Text.Native

/-!
# Paths of source files

A path is shown as it is spelled, but two spellings name the same file when their parts agree (`SourcePath.same`):
repeated slashes, a slash at the end, and dots between the parts do not matter; a dot in front does, and two dots are
a part like any other. A path is a name of the operating system, so it need not be a text (`SourcePath.text?`).
-/

namespace TypeUnfolding

/-- A path as it is spelled. -/
structure SourcePath where
  ofNative ::
  native : NativeText
deriving DecidableEq, Repr, Inhabited

namespace SourcePath

/-- The path that is spelled as the text. -/
def mk (text : String) : SourcePath :=
  ofNative (.ofText text)

/-- The text that the path is spelled as, if it is one. -/
def text? (p : SourcePath) : Option String :=
  p.native.text?

/-- The path to show. -/
def text (p : SourcePath) : String :=
  p.native.shown

/-- Whether the path is spelled as a text. -/
def isText (p : SourcePath) : Bool :=
  p.text?.isSome

theorem text?_mk (text : String) : (mk text).text? = some text :=
  NativeText.text?_ofText text

@[simp] theorem text_mk (text : String) : (mk text).text = text :=
  NativeText.shown_ofText text

theorem isText_mk (text : String) : (mk text).isText = true := by
  rw [isText, text?_mk]
  rfl

/-- A path that is spelled as a text is known by what is shown. -/
theorem mk_text {p : SourcePath} (h : p.isText = true) : mk p.text = p := by
  obtain ⟨text, ht⟩ := Option.isSome_iff_exists.1 h
  have hp : p = mk text := congrArg ofNative (NativeText.eq_ofText_of_text? ht)
  rw [hp, text_mk]

/-- What a path names: from the root or not, and the parts on the way. -/
structure Parts where
  isAbsolute : Bool
  names : List (List UInt8)
deriving DecidableEq, Repr

/-- A slash. -/
def slash : UInt8 := 0x2F

/-- A dot. -/
def dot : UInt8 := 0x2E

/-- The pieces between slashes; always at least one. -/
def pieces : List UInt8 → List (List UInt8)
  | [] => [[]]
  | b :: bs =>
    if b = slash then [] :: pieces bs
    else match pieces bs with
      | [] => [[b]]
      | piece :: rest => (b :: piece) :: rest

/-- The parts of a path. A dot counts only in front. -/
def parts (p : SourcePath) : Parts :=
  match pieces p.native.bytes with
  | [] => ⟨false, []⟩
  | first :: rest =>
    let inner := rest.filter fun piece => piece ≠ [] ∧ piece ≠ [dot]
    if first = [] then ⟨rest ≠ [], inner⟩ else ⟨false, first :: inner⟩

/-- Whether two spellings name the same file. -/
def same (p q : SourcePath) : Bool :=
  p.parts = q.parts

theorem same_iff {p q : SourcePath} : p.same q = true ↔ p.parts = q.parts := by
  simp [same]

@[simp] theorem same_refl (p : SourcePath) : p.same p = true :=
  same_iff.2 rfl

theorem same_comm (p q : SourcePath) : p.same q = q.same p := by
  rw [Bool.eq_iff_iff, same_iff, same_iff]
  exact eq_comm

theorem same_trans {p q r : SourcePath} (h : p.same q = true) (h' : q.same r = true) : p.same r = true :=
  same_iff.2 ((same_iff.1 h).trans (same_iff.1 h'))

end SourcePath

end TypeUnfolding
