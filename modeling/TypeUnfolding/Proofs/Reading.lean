import TypeUnfolding.Json.Reader
import TypeUnfolding.Proofs.WrittenValues

/-!
# Values that are read

The scanner takes every value that is no string from a word (`Json.ofWord_of_tokens?`), and the builder makes up nothing
but arrays, objects and what cannot be read. So a property that words and strings have at every depth, and that arrays
and objects inherit from what is in them, is one of every value that is read (`Json.Inherited.of_read?`). One of these
is the depth for which there is room: **what is read throughout nests no deeper than the limit**
(`Json.depth_le_of_read?`).
-/

namespace TypeUnfolding.Json

/-- The results of a row of tries that all succeed. -/
theorem exists_of_mem_mapM {α β : Type} {f : α → Option β} {b : β} : ∀ {row : List α} {results : List β},
    row.mapM f = some results → b ∈ results → ∃ a ∈ row, f a = some b
  | [], results, h, hb => by
    cases h
    cases hb
  | a :: row, results, h, hb => by
    rw [List.mapM_cons] at h
    obtain ⟨first, hfirst, h⟩ := Option.bind_eq_some_iff.1 h
    obtain ⟨rest, hrest, h⟩ := Option.bind_eq_some_iff.1 h
    cases h
    rcases List.mem_cons.1 hb with rfl | hb
    · exact ⟨a, List.mem_cons_self, hfirst⟩
    · obtain ⟨x, hx, hf⟩ := exists_of_mem_mapM hrest hb
      exact ⟨x, List.mem_cons_of_mem a hx, hf⟩

/-! ## Words and tokens -/

/-- What a word can stand for. -/
inductive OfWord : Json → Prop
  | null : OfWord .null
  | bool (b : Bool) : OfWord (.bool b)
  | whole {negative : Bool} {digits : List Nat} {n : Number} :
    Number.ofWhole negative digits = some n → OfWord (.number n)
  | parts {negative : Bool} {whole part : List Nat} {power : Int} {n : Number} :
    Number.ofParts negative whole part power = some n → OfWord (.number n)
  /-- A number that is out of range. -/
  | unreadable : OfWord .unreadable

theorem ofWord_readMagnitude {negative : Bool} {cs : List Char} {value : Json}
    (h : Number.readMagnitude negative cs = some value) : value.OfWord := by
  unfold Number.readMagnitude at h
  simp only at h
  split at h
  next => cases h
  next => cases h
  next =>
    cases h
    split
    next hn => exact .whole hn
    next => exact .unreadable
  next =>
    split at h
    next => cases h
    next =>
      obtain ⟨power, -, rfl⟩ := Option.map_eq_some_iff.1 h
      split
      next hn => exact .parts hn
      next => exact .unreadable
  next =>
    obtain ⟨power, -, rfl⟩ := Option.map_eq_some_iff.1 h
    split
    next hn => exact .parts hn
    next => exact .unreadable

theorem ofWord_word? {letters : List Char} {value : Json} (h : word? letters = some value) : value.OfWord := by
  have hread : ∀ {cs}, Number.read cs = some value → value.OfWord := by
    intro cs h
    unfold Number.read at h
    split at h <;> exact ofWord_readMagnitude h
  unfold word? at h
  split at h
  next => cases h; exact .null
  next =>
    split at h
    next => cases h; exact .bool true
    next =>
      split at h
      next => cases h; exact .bool false
      next => exact hread h

/-- A token that holds the value of a word, if any. -/
def Token.OfWord : Token → Prop
  | .scalar value => value.OfWord
  | _ => True

theorem ofWord_mark? {c : Char} {token : Token} (h : mark? c = some token) : token.OfWord := by
  unfold mark? at h
  split at h <;> cases h <;> trivial

/-- The tokens behind the scanner hold values of words. -/
def Scanner.OfWords (s : Scanner) : Prop :=
  ∀ token ∈ s.tokens, token.OfWord

namespace Scanner

variable {s s' : Scanner} {c : Char}

theorem ofWords_stepGap {tokens : List Token} (h : ∀ token ∈ tokens, token.OfWord) (hs : stepGap tokens c = some s') :
    s'.OfWords := by
  unfold stepGap at hs
  split at hs
  next => cases hs; exact h
  next =>
    split at hs
    next => cases hs; exact h
    next =>
      split at hs
      next => cases hs; exact h
      next =>
        obtain ⟨token, ht, rfl⟩ := Option.map_eq_some_iff.1 hs
        exact List.forall_mem_cons.2 ⟨ofWord_mark? ht, h⟩

theorem OfWords.step (h : s.OfWords) (hs : s.step c = some s') : s'.OfWords := by
  unfold Scanner.step at hs
  split at hs
  next => exact ofWords_stepGap h hs
  next =>
    split at hs
    next => cases hs; exact h
    next =>
      obtain ⟨value, hv, hs⟩ := Option.bind_eq_some_iff.1 hs
      have hvalue : (Token.scalar value).OfWord := ofWord_word? hv
      exact ofWords_stepGap (List.forall_mem_cons.2 ⟨hvalue, h⟩) hs
  next =>
    split at hs
    next => cases hs; exact List.forall_mem_cons.2 ⟨trivial, h⟩
    next =>
      split at hs
      next => cases hs; exact h
      next => split at hs <;> cases hs; exact h
  next =>
    split at hs
    next => cases hs; exact h
    next =>
      obtain ⟨c, -, rfl⟩ := Option.map_eq_some_iff.1 hs
      exact h
  next =>
    obtain ⟨digit, -, rfl⟩ := Option.map_eq_some_iff.1 hs
    simp only
    split <;> exact h

theorem OfWords.run : ∀ {cs : List Char} {s : Scanner}, s.OfWords → cs.foldlM Scanner.step s = some s' → s'.OfWords
  | [], _, h, hs => by cases hs; exact h
  | c :: cs, s, h, hs => by
    obtain ⟨mid, hmid, hs⟩ := Option.bind_eq_some_iff.1 hs
    exact OfWords.run (h.step hmid) hs

theorem OfWords.finish? {tokens : List Token} (h : s.OfWords) (hs : s.finish? = some tokens) :
    ∀ token ∈ tokens, token.OfWord := by
  unfold Scanner.finish? at hs
  split at hs
  next =>
    cases hs
    exact fun token ht => h token (List.mem_reverse.1 ht)
  next =>
    obtain ⟨value, hv, rfl⟩ := Option.map_eq_some_iff.1 hs
    have hvalue : (Token.scalar value).OfWord := ofWord_word? hv
    exact fun token ht => List.forall_mem_cons.2 ⟨hvalue, h⟩ token (List.mem_reverse.1 ht)
  next => cases hs

end Scanner

theorem ofWord_of_tokens? {cs : List Char} {tokens : List Token} (h : tokens? cs = some tokens) :
    ∀ token ∈ tokens, token.OfWord := by
  obtain ⟨s, hs, hfinish⟩ := Option.bind_eq_some_iff.1 h
  have hstart : Scanner.OfWords {} := fun _ h => nomatch h
  have hend : s.OfWords := hstart.run hs
  exact hend.finish? hfinish

/-! ## Values -/

/-- A property of values inside the given number of arrays and objects that every value gets in reading: words, strings
and what cannot be read have it anywhere, and arrays and objects have it where there is room for them, if all in them
has it one level further in. -/
structure Inherited (q : Nat → Json → Prop) : Prop where
  unreadable : ∀ outer, q outer .unreadable
  string : ∀ outer content, q outer (.string content)
  word : ∀ outer value, value.OfWord → q outer value
  array : ∀ outer items, outer < nestingLimit → (∀ item ∈ items, q (outer + 1) item) → q outer (.array items)
  object : ∀ outer members, outer < nestingLimit → (∀ member ∈ members, q (outer + 1) member.2) →
    q outer (.object members)

/-- What was read of the arrays and objects around a place, innermost first, has the property. -/
def FramesHave (q : Nat → Json → Prop) : List Frame → Prop
  | [] => True
  | .array items :: frames => (∀ item ∈ items, q (frames.length + 1) item) ∧ FramesHave q frames
  | .object members _ :: frames => (∀ member ∈ members, q (frames.length + 1) member.2) ∧ FramesHave q frames

namespace Builder

/-- What was read so far has the property. -/
def Has (q : Nat → Json → Prop) : Builder → Prop
  | .beforeValue frames => FramesHave q frames
  | .inArray frames => FramesHave q frames
  | .afterItem items frames => FramesHave q (.array items :: frames)
  | .inObject frames => FramesHave q frames
  | .afterComma members frames => FramesHave q (.object members none :: frames)
  | .afterKey members key frames => FramesHave q (.object members key :: frames)
  | .afterMember members frames => FramesHave q (.object members none :: frames)
  | .done value => q 0 value

variable {q : Nat → Json → Prop} {b b' : Builder} {token : Token} {value : Json} {frames : List Frame}

theorem has_complete (hv : q frames.length value) (h : FramesHave q frames) : (complete value frames).Has q := by
  cases frames with
  | nil => exact hv
  | cons frame frames =>
    cases frame with
    | array items => exact ⟨List.forall_mem_cons.2 ⟨hv, h.1⟩, h.2⟩
    | object members key => exact ⟨List.forall_mem_cons.2 ⟨hv, h.1⟩, h.2⟩

end Builder

namespace Inherited

open Builder
variable {q : Nat → Json → Prop} {b b' : Builder} {token : Token} {value : Json} {frames : List Frame}

section Step

variable (hq : Inherited q)

include hq

theorem has_nested (hv : frames.length < nestingLimit → q frames.length value) (h : FramesHave q frames) :
    (nested value frames).Has q := by
  unfold nested
  split
  next hroom => exact has_complete (hv hroom) h
  next => exact has_complete (hq.unreadable _) h

theorem of_members {outer : Nat} {members : List (Option String × Json)} (hroom : outer < nestingLimit)
    (h : ∀ member ∈ members, q (outer + 1) member.2) : q outer (Builder.object members) := by
  unfold Builder.object
  split
  next found hfound =>
    refine hq.object outer found hroom fun member hm => ?_
    obtain ⟨source, hs, hmember⟩ := exists_of_mem_mapM hfound hm
    obtain ⟨key, -, rfl⟩ := Option.map_eq_some_iff.1 hmember
    exact h source hs
  next => exact hq.unreadable outer

theorem has_stepValue (h : FramesHave q frames) (ht : token.OfWord) (hs : stepValue frames token = some b) :
    b.Has q := by
  unfold stepValue at hs
  split at hs
  case h_1 | h_2 => cases hs; exact h
  case h_3 => cases hs; exact has_complete (hq.string _ _) h
  case h_4 => cases hs; exact has_complete (hq.unreadable _) h
  case h_5 =>
    cases hs
    exact has_complete (hq.word _ _ ht) h
  case h_6 => cases hs

/-- One more token. -/
theorem has_step (h : b.Has q) (ht : token.OfWord) (hs : b.step token = some b') : b'.Has q := by
  unfold Builder.step at hs
  split at hs
  case h_1 => exact hq.has_stepValue h ht hs
  case h_2 => cases hs; exact hq.has_nested (fun hroom => hq.array _ [] hroom nofun) h
  case h_3 =>
    have hframe : FramesHave q (.array [] :: _) := ⟨nofun, h⟩
    exact hq.has_stepValue hframe ht hs
  case h_4 => cases hs; exact h
  case h_5 =>
    cases hs
    refine hq.has_nested (fun hroom => ?_) h.2
    exact hq.array _ _ hroom fun item hm => h.1 item (List.mem_reverse.1 hm)
  case h_6 => cases hs; exact hq.has_nested (fun hroom => hq.object _ [] hroom nofun) h
  case h_7 => cases hs; exact ⟨nofun, h⟩
  case h_8 => cases hs; exact h
  case h_9 | h_10 => cases hs; exact h
  case h_11 =>
    cases hs
    refine hq.has_nested (fun hroom => ?_) h.2
    exact hq.of_members hroom fun member hm => h.1 member (List.mem_reverse.1 hm)
  case h_12 => cases hs

theorem has_run : ∀ {tokens : List Token} {b : Builder}, (∀ token ∈ tokens, token.OfWord) → b.Has q →
    tokens.foldlM Builder.step b = some b' → b'.Has q
  | [], _, _, h, hs => by cases hs; exact h
  | token :: tokens, b, ht, h, hs => by
    obtain ⟨mid, hmid, hs⟩ := Option.bind_eq_some_iff.1 hs
    obtain ⟨htoken, htokens⟩ := List.forall_mem_cons.1 ht
    exact has_run htokens (hq.has_step h htoken hmid) hs

end Step

/-- **What is read has every inherited property.** -/
theorem of_read? (hq : Inherited q) {text : String} (h : read? text = some value) : q 0 value := by
  obtain ⟨tokens, ht, h⟩ := Option.bind_eq_some_iff.1 h
  unfold ofTokens? at h
  split at h
  next found hs =>
    cases h
    have hstart : (Builder.beforeValue []).Has q := trivial
    exact hq.has_run (ofWord_of_tokens? ht) hstart hs
  next => cases h

end Inherited

/-! ## How deep they nest -/

theorem OfWord.depth_eq_zero {value : Json} (h : value.OfWord) : value.depth = 0 := by
  cases h <;> rfl

/-- A value that can be read throughout fits into the room that is left for it. -/
theorem inherited_room :
    Inherited fun outer value => value.isReadable = true → value.depth ≤ nestingLimit - outer where
  unreadable := nofun
  string := fun _ _ _ => Nat.zero_le _
  word := fun _ _ h _ => h.depth_eq_zero ▸ Nat.zero_le _
  array := by
    intro outer items hroom h hr
    have hitems : itemsDepth items ≤ nestingLimit - (outer + 1) :=
      itemsDepth_le_iff.2 fun item hm => h item hm (itemsReadable_iff.1 hr item hm)
    rw [depth]
    omega
  object := by
    intro outer members hroom h hr
    have hmembers : membersDepth members ≤ nestingLimit - (outer + 1) :=
      membersDepth_le_iff.2 fun member hm => h member hm (membersReadable_iff.1 hr member hm)
    rw [depth]
    omega

/-- **What is read throughout nests no deeper than the limit.** -/
theorem depth_le_of_read? {text : String} {value : Json} (h : read? text = some value)
    (hr : value.isReadable = true) : value.depth ≤ nestingLimit :=
  inherited_room.of_read? h hr

end TypeUnfolding.Json
