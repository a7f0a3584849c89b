/-!
# Native texts

What the operating system calls a name is a row of bytes. Usually they are the UTF-8 form of a text
(`NativeText.text?`), but any other row is a name as well. Whatever the bytes are, they can be shown
(`NativeText.shown`): bytes that belong to no character are replaced.
-/

namespace TypeUnfolding

/-- A name as the operating system keeps it. -/
structure NativeText where
  bytes : List UInt8
deriving DecidableEq, Repr, Inhabited

/-! ## Showing any bytes -/

/-- A character that has begun: how many bytes are to come, the bits so far, and where the next byte has to lie. -/
structure Utf8Partial where
  missing : Nat
  bits : Nat
  low : UInt8 := 0x80
  high : UInt8 := 0xBF
deriving DecidableEq, Repr

/-- Stands for bytes that belong to no character. -/
def replacement : Char := '\uFFFD'

namespace Utf8Partial

/-- A byte in front of which no character has begun: characters that are complete, and one that begins. The bounds for
the second byte leave out overlong forms, halves of characters, and what is beyond all characters. -/
def start (b : UInt8) : List Char × Option Utf8Partial :=
  if b < 0x80 then ([Char.ofNat b.toNat], none)
  else if b < 0xC2 then ([replacement], none)
  else if b < 0xE0 then ([], some { missing := 1, bits := b.toNat - 0xC0 })
  else if b < 0xF0 then
    ([], some { missing := 2, bits := b.toNat - 0xE0, low := if b = 0xE0 then 0xA0 else 0x80,
                high := if b = 0xED then 0x9F else 0xBF })
  else if b < 0xF5 then
    ([], some { missing := 3, bits := b.toNat - 0xF0, low := if b = 0xF0 then 0x90 else 0x80,
                high := if b = 0xF4 then 0x8F else 0xBF })
  else ([replacement], none)

/-- One more byte. If it does not go on with the character that has begun, that one is replaced. -/
def step (pending : Option Utf8Partial) (b : UInt8) : List Char × Option Utf8Partial :=
  match pending with
  | none => start b
  | some p =>
    if p.low ≤ b ∧ b ≤ p.high then
      let bits := 64 * p.bits + (b.toNat - 0x80)
      if p.missing ≤ 1 then ([Char.ofNat bits], none) else ([], some { missing := p.missing - 1, bits })
    else
      let (cs, next) := start b
      (replacement :: cs, next)

/-- The characters of the bytes behind what has begun. -/
def chars : Option Utf8Partial → List UInt8 → List Char
  | none, [] => []
  | some _, [] => [replacement]
  | pending, b :: bs =>
    let (cs, next) := step pending b
    cs ++ chars next bs

end Utf8Partial

namespace NativeText

/-- The name that is spelled as the text. -/
def ofText (text : String) : NativeText :=
  ⟨text.toByteArray.data.toList⟩

instance : Coe String NativeText := ⟨ofText⟩

/-- The text that the name spells, if it spells one. -/
def text? (t : NativeText) : Option String :=
  String.fromUTF8? t.bytes.toByteArray

/-- The name to show. -/
def shown (t : NativeText) : String :=
  t.text?.getD (String.ofList (Utf8Partial.chars none t.bytes))

@[simp] theorem text?_ofText (text : String) : (ofText text).text? = some text := by
  have hbytes : text.toByteArray.data.toList.toByteArray = text.toByteArray :=
    ByteArray.ext (Array.toList_inj.1 List.toList_data_toByteArray)
  rw [text?, ofText, hbytes, String.fromUTF8?, dif_pos text.isValidUTF8]
  rfl

/-- Another spelling of a text there is not. -/
theorem eq_ofText_of_text? {t : NativeText} {text : String} (h : t.text? = some text) : t = ofText text := by
  unfold text? String.fromUTF8? at h
  split at h
  next hv =>
    cases h
    have hbytes : t.bytes = t.bytes.toByteArray.data.toList := List.toList_data_toByteArray.symm
    exact congrArg mk hbytes
  next => cases h

@[simp] theorem shown_ofText (text : String) : (ofText text).shown = text := by
  rw [shown, text?_ofText, Option.getD_some]

example : Utf8Partial.chars none [0x61, 0xE2, 0x82, 0x2E, 0xC3, 0xA9, 0xFF] =
    ['a', replacement, '.', 'é', replacement] := by decide

end NativeText

end TypeUnfolding
