import TypeUnfolding.Json.Token
import TypeUnfolding.Json.Writer
import TypeUnfolding.Proofs.PrintedNumbers

/-!
# Scanning written text

A value that is written is scanned into its own tokens (`Json.tokens?_chars`), wherever the layout has its blanks. A
text is put together from pieces. A piece that ends in a gap may be followed by anything (`Closes`); a word is
open at its end, and what follows has to begin with something else (`Delimited`). A number is a word, since something is
read where it was written.
-/

namespace TypeUnfolding.Json

/-! ## Words -/

/-- Whether a row of characters can stand in a word. -/
def IsWord (cs : List Char) : Prop :=
  ∀ c ∈ cs, isWordChar c = true

theorem isWordChar_of_isDigit {c : Char} (h : c.isDigit = true) : isWordChar c = true := by
  simp [isWordChar, Char.isAlphanum, h]

theorem isWord_cons {c : Char} {cs : List Char} (hc : isWordChar c = true) (h : IsWord cs) : IsWord (c :: cs) :=
  List.forall_mem_cons.2 ⟨hc, h⟩

/-- Digits are word characters, so a text is a word when what follows its digits is one. -/
theorem isWord_of_digits : ∀ {cs : List Char}, IsWord (Numeral.digits cs).2 → IsWord cs
  | [], _ => fun _ h => nomatch h
  | c :: cs, h => by
    rw [Numeral.digits] at h
    split at h
    next hc => exact isWord_cons (isWordChar_of_isDigit hc) (isWord_of_digits h)
    next => exact h

theorem isWord_of_natural? {cs : List Char} {n : Nat} (h : Numeral.natural? cs = some n) : IsWord cs := by
  apply isWord_of_digits
  unfold Numeral.natural? at h
  split at h
  next => cases h
  next hd =>
    rw [hd]
    exact fun _ h => nomatch h
  next => cases h

theorem isWord_of_power? {cs : List Char} {e : Int} (h : Numeral.power? cs = some e) : IsWord cs := by
  unfold Numeral.power? at h
  split at h
  next => exact fun _ h => nomatch h
  next c cs =>
    split at h
    next hc =>
      have hc : isWordChar c = true := by
        rcases hc with rfl | rfl <;> rfl
      apply isWord_cons hc
      split at h
      all_goals
        obtain ⟨n, hn, -⟩ := Option.map_eq_some_iff.1 h
        first
          | exact isWord_of_natural? hn
          | exact isWord_cons rfl (isWord_of_natural? hn)
    next => cases h

theorem isWord_of_readMagnitude {negative : Bool} {cs : List Char} {value : Json}
    (h : Number.readMagnitude negative cs = some value) : IsWord cs := by
  apply isWord_of_digits
  unfold Number.readMagnitude at h
  simp only at h
  split at h
  next => cases h
  next => cases h
  next hd =>
    rw [hd]
    exact fun _ h => nomatch h
  next hd =>
    rw [hd]
    apply isWord_cons rfl
    apply isWord_of_digits
    split at h
    next => cases h
    next hpart =>
      rw [hpart]
      obtain ⟨e, he, -⟩ := Option.map_eq_some_iff.1 h
      exact isWord_of_power? he
  next hd =>
    rw [hd]
    obtain ⟨e, he, -⟩ := Option.map_eq_some_iff.1 h
    exact isWord_of_power? he

/-- A text that stands for a number is a word. -/
theorem isWord_of_read {cs : List Char} {value : Json} (h : Number.read cs = some value) : IsWord cs := by
  unfold Number.read at h
  split at h
  next => exact isWord_cons rfl (isWord_of_readMagnitude h)
  next => exact isWord_of_readMagnitude h

/-- The text of a number is none of the names. -/
theorem word?_of_read {cs : List Char} {value : Json} (h : Number.read cs = some value) : word? cs = some value := by
  have hnames : ∀ name ∈ [['n', 'u', 'l', 'l'], ['t', 'r', 'u', 'e'], ['f', 'a', 'l', 's', 'e']],
      Number.read name = none := by decide
  have hne : ∀ name ∈ [['n', 'u', 'l', 'l'], ['t', 'r', 'u', 'e'], ['f', 'a', 'l', 's', 'e']], cs ≠ name := by
    rintro name hname rfl
    rw [hnames cs hname] at h
    cases h
  unfold word?
  rw [if_neg (hne _ (by simp)), if_neg (hne _ (by simp)), if_neg (hne _ (by simp))]
  exact h

theorem ne_nil_of_read {cs : List Char} {value : Json} (h : Number.read cs = some value) : cs ≠ [] := by
  rintro rfl
  cases h

/-! ## Pieces of a text -/

/-- The scanner is behind the given tokens, last first; it may still be in the word that is the last of them. -/
def Scanner.Stands (s : Scanner) (tokens : List Token) : Prop :=
  match s.place with
  | .gap => s.tokens = tokens
  | .word letters => ∃ value, word? letters.reverse = some value ∧ .scalar value :: s.tokens = tokens
  | _ => False

/-- A text is empty or begins with a character that ends a word. -/
def Delimited (cs : List Char) : Prop :=
  ∀ c ∈ cs.head?, isWordChar c = false

/-- From a gap the text leads to the given tokens. -/
def Scans (cs : List Char) (tokens : List Token) : Prop :=
  ∀ before, ∃ s, cs.foldlM Scanner.step ⟨.gap, before⟩ = some s ∧ s.Stands (tokens.reverse ++ before)

/-- From a gap the text leads to the given tokens and into a gap. -/
def Closes (cs : List Char) (tokens : List Token) : Prop :=
  ∀ before, cs.foldlM Scanner.step ⟨.gap, before⟩ = some ⟨.gap, tokens.reverse ++ before⟩

section Pieces

variable {s : Scanner} {c : Char} {cs ds : List Char} {ts us : List Token}

theorem Scanner.Stands.step (h : s.Stands ts) (hc : isWordChar c = false) : s.step c = stepGap ts c := by
  obtain ⟨place, tokens⟩ := s
  cases place with
  | gap =>
    cases h
    rfl
  | word letters =>
    obtain ⟨value, hv, rfl⟩ := h
    simp [Scanner.step, hc, hv]
  | string | escape | unit => cases h

theorem Scanner.Stands.finish (h : s.Stands ts) : s.finish? = some ts.reverse := by
  obtain ⟨place, tokens⟩ := s
  cases place with
  | gap =>
    cases h
    rfl
  | word letters =>
    obtain ⟨value, hv, rfl⟩ := h
    simp [Scanner.finish?, hv]
  | string | escape | unit => cases h

theorem Closes.scans (h : Closes cs ts) : Scans cs ts := fun before => ⟨_, h before, rfl⟩

theorem Closes.append (h : Closes cs ts) (h' : Closes ds us) : Closes (cs ++ ds) (ts ++ us) := by
  intro before
  rw [List.foldlM_append, h before]
  refine (h' _).trans ?_
  rw [List.reverse_append, List.append_assoc]

theorem Closes.append_scans (h : Closes cs ts) (h' : Scans ds us) : Scans (cs ++ ds) (ts ++ us) := by
  intro before
  obtain ⟨s, hs, hstands⟩ := h' (ts.reverse ++ before)
  refine ⟨s, ?_, ?_⟩
  · rw [List.foldlM_append, h before]
    exact hs
  · rw [List.reverse_append, List.append_assoc]
    exact hstands

/-- A delimiter ends the word in front of it. -/
theorem Scanner.Stands.foldlM (h : s.Stands ts) (hc : isWordChar c = false) :
    (c :: cs).foldlM Scanner.step s = (c :: cs).foldlM Scanner.step ⟨.gap, ts⟩ := by
  have hgap : Scanner.Stands ⟨.gap, ts⟩ ts := rfl
  rw [List.foldlM_cons, List.foldlM_cons, h.step hc, hgap.step hc]

theorem Scans.append (h : Scans cs ts) (h' : Scans ds us) (hd : Delimited ds) : Scans (cs ++ ds) (ts ++ us) := by
  intro before
  obtain ⟨s, hs, hstands⟩ := h before
  obtain ⟨s', hs', hstands'⟩ := h' (ts.reverse ++ before)
  rw [List.foldlM_append, hs, List.reverse_append, List.append_assoc]
  cases ds with
  | nil =>
    cases hs'
    have heq : ts.reverse ++ before = us.reverse ++ (ts.reverse ++ before) := hstands'
    exact ⟨s, rfl, heq ▸ hstands⟩
  | cons d ds => exact ⟨s', (hstands.foldlM (hd d rfl)).trans hs', hstands'⟩

/-! ## Marks, blanks, and words -/

theorem closes_nil : Closes [] [] := fun _ => rfl

/-- Blanks lead from a gap into a gap. -/
theorem closes_blanks (h : ∀ c ∈ cs, isBlank c = true) : Closes cs [] := by
  intro before
  induction cs with
  | nil => rfl
  | cons c cs ih =>
    have hc : Scanner.step ⟨.gap, before⟩ c = some ⟨.gap, before⟩ := if_pos (h c List.mem_cons_self)
    rw [List.foldlM_cons, hc]
    exact ih fun d hd => h d (List.mem_cons_of_mem c hd)

/-- A mark is a token of its own. -/
theorem closes_mark {token : Token} (h : mark? c = some token) : Closes [c] [token] := by
  intro before
  unfold mark? at h
  split at h
  case h_7 => cases h
  all_goals
    cases h
    rfl

theorem foldlM_word {letters : List Char} {before : List Token} : IsWord cs →
    cs.foldlM Scanner.step ⟨.word letters, before⟩ = some ⟨.word (cs.reverse ++ letters), before⟩ := by
  induction cs generalizing letters with
  | nil => exact fun _ => rfl
  | cons c cs ih =>
    intro h
    have hc : Scanner.step ⟨.word letters, before⟩ c = some ⟨.word (c :: letters), before⟩ :=
      if_pos (h c List.mem_cons_self)
    rw [List.foldlM_cons, hc, List.reverse_cons, List.append_assoc]
    exact ih fun d hd => h d (List.mem_cons_of_mem c hd)

theorem stepGap_of_isWordChar (h : isWordChar c = true) (before : List Token) :
    Scanner.stepGap before c = some ⟨.word [c], before⟩ := by
  have hblank : isBlank c = false := by
    apply Bool.eq_false_iff.2
    intro hb
    simp only [isBlank, Bool.or_eq_true, decide_eq_true_eq] at hb
    rcases hb with ((rfl | rfl) | rfl) | rfl <;> cases h
  have hquote : c ≠ '\x22' := by
    rintro rfl
    cases h
  simp [Scanner.stepGap, hblank, hquote, h]

/-- A word is scanned into what it stands for. -/
theorem scans_word {value : Json} (hw : IsWord cs) (hne : cs ≠ []) (hv : word? cs = some value) :
    Scans cs [.scalar value] := by
  intro before
  cases cs with
  | nil => exact absurd rfl hne
  | cons c cs =>
    have hc : Scanner.step ⟨.gap, before⟩ c = some ⟨.word [c], before⟩ :=
      stepGap_of_isWordChar (hw c List.mem_cons_self) before
    refine ⟨⟨.word (cs.reverse ++ [c]), before⟩, ?_, value, ?_, rfl⟩
    · rw [List.foldlM_cons, hc]
      exact foldlM_word fun d hd => hw d (List.mem_cons_of_mem c hd)
    · rw [← List.reverse_cons, List.reverse_reverse]
      exact hv

theorem scans_null : Scans nullChars [.scalar .null] :=
  scans_word (List.all_eq_true.1 rfl) (List.cons_ne_nil _ _) rfl

theorem scans_bool (layout : Layout) (depth : Nat) : ∀ b : Bool,
    Scans ((Json.bool b).chars layout depth) [.scalar (.bool b)]
  | true => scans_word (List.all_eq_true.1 rfl) (List.cons_ne_nil _ _) rfl
  | false => scans_word (List.all_eq_true.1 rfl) (List.cons_ne_nil _ _) rfl

theorem scans_number {value : Json} (h : Number.read cs = some value) : Scans cs [.scalar value] :=
  scans_word (isWord_of_read h) (ne_nil_of_read h) (word?_of_read h)

/-! ## Strings -/

/-- The piece stands for the character, whatever follows it. -/
def Piece.Spells (piece : Piece) (c : Char) : Prop :=
  ∀ rest, join (piece :: rest) = (join rest).map (c :: ·)

theorem spells_char (c : Char) : (Piece.char c).Spells c := fun _ => rfl

/-- A unit below the halves of characters is a character. -/
theorem spells_unit (h : c.toNat < 0xD800) : (Piece.unit c.toNat).Spells c := by
  intro rest
  rw [Piece.join.eq_def]
  simp only
  rw [if_neg (by omega), if_neg (by omega), Char.ofNat_toNat]

theorem hexDigit?_hexDigit : ∀ {n : Nat}, n < 16 → hexDigit? (hexDigit n) = some n := by
  decide

/-- A character is written with a letter behind a backslash, by its number, or as it is. -/
theorem escapeChar_cases (c : Char) :
    (∃ letter, escapeChar c = ['\\', letter] ∧ escaped? letter = some c) ∨
    (escapeChar c = ['\\', 'u', '0', '0', hexDigit (c.toNat / 16), hexDigit (c.toNat % 16)] ∧ c.toNat < 0x20) ∨
    (escapeChar c = [c] ∧ c ≠ '\x22' ∧ c ≠ '\\' ∧ ¬ c.toNat < 0x20) := by
  unfold escapeChar
  by_cases hquote : c = '\x22'
  · exact .inl ⟨_, if_pos hquote, by rw [hquote]; rfl⟩
  rw [if_neg hquote]
  by_cases hslash : c = '\\'
  · exact .inl ⟨_, if_pos hslash, by rw [hslash]; rfl⟩
  rw [if_neg hslash]
  iterate 5
    split
    next hc => exact .inl ⟨_, rfl, by rw [hc]; rfl⟩
  split
  next hlow => exact .inr (.inl ⟨rfl, hlow⟩)
  next hlow => exact .inr (.inr ⟨rfl, hquote, hslash, hlow⟩)

/-- What stands for a character between quotes is read as a piece that spells the character. -/
theorem exists_foldlM_escapeChar (c : Char) (pieces : List Piece) (before : List Token) : ∃ piece : Piece,
    (escapeChar c).foldlM Scanner.step ⟨.string pieces, before⟩ = some ⟨.string (piece :: pieces), before⟩ ∧
      piece.Spells c := by
  obtain ⟨letter, hc, hletter⟩ | ⟨hc, hlow⟩ | ⟨hc, hquote, hslash, hlow⟩ := escapeChar_cases c
  · refine ⟨.char c, ?_, spells_char c⟩
    have hu : letter ≠ 'u' := by
      rintro rfl
      cases hletter
    have hstep : Scanner.step ⟨.escape pieces, before⟩ letter = some ⟨.string (.char c :: pieces), before⟩ := by
      simp [Scanner.step, hu, hletter]
    rw [hc, List.foldlM_cons]
    show (Scanner.step ⟨.escape pieces, before⟩ letter >>= _) = _
    rw [hstep]
    rfl
  · refine ⟨.unit c.toNat, ?_, spells_unit (by omega)⟩
    have hhigh : hexDigit? (hexDigit (c.toNat / 16)) = some (c.toNat / 16) := hexDigit?_hexDigit (by omega)
    have hdigit : hexDigit? (hexDigit (c.toNat % 16)) = some (c.toNat % 16) := hexDigit?_hexDigit (by omega)
    have hvalue : 16 * (c.toNat / 16) + c.toNat % 16 = c.toNat := Nat.div_add_mod _ _
    have hzero : hexDigit? '0' = some 0 := by decide
    rw [hc]
    simp [Scanner.step, hzero, hhigh, hdigit, hvalue]
  · refine ⟨.char c, ?_, spells_char c⟩
    rw [hc]
    simp [Scanner.step, hquote, hslash, hlow]

/-- The inside of a string is read as pieces that spell it. -/
theorem exists_foldlM_flatMap (cs : List Char) : ∀ (pieces : List Piece) (before : List Token), ∃ new,
    (cs.flatMap escapeChar).foldlM Scanner.step ⟨.string pieces, before⟩ =
      some ⟨.string (new.reverse ++ pieces), before⟩ ∧ Piece.join new = some cs := by
  induction cs with
  | nil => exact fun pieces before => ⟨[], rfl, rfl⟩
  | cons c cs ih =>
    intro pieces before
    obtain ⟨piece, hpiece, hspells⟩ := exists_foldlM_escapeChar c pieces before
    obtain ⟨new, hnew, hjoin⟩ := ih (piece :: pieces) before
    refine ⟨piece :: new, ?_, ?_⟩
    · rw [List.flatMap_cons, List.foldlM_append, hpiece, List.reverse_cons, List.append_assoc]
      exact hnew
    · rw [hspells, hjoin]
      rfl

/-- **A string in quotes is scanned into its text.** -/
theorem closes_stringChars (content : String) : Closes (stringChars content) [.text (some content)] := by
  intro before
  obtain ⟨new, hnew, hjoin⟩ := exists_foldlM_flatMap content.toList [] before
  have hopen : Scanner.step ⟨.gap, before⟩ '\x22' = some ⟨.string [], before⟩ := rfl
  have hclose : Scanner.step ⟨.string (new.reverse ++ []), before⟩ '\x22' =
      some ⟨.gap, .text (some content) :: before⟩ := by
    simp [Scanner.step, hjoin]
  rw [stringChars, List.cons_append, List.foldlM_cons, hopen]
  show (List.flatMap escapeChar content.toList ++ ['\x22']).foldlM _ _ = _
  rw [List.foldlM_append, hnew]
  exact hclose

end Pieces

/-! ## Values -/

mutual

/-- The tokens of a value as it is written. -/
def toTokens : Json → List Token
  | .string content => [.text (some content)]
  | .array [] => [.openArray, .closeArray]
  | .array (item :: items) => .openArray :: item.toTokens ++ itemsTokens items ++ [.closeArray]
  | .object [] => [.openObject, .closeObject]
  | .object ((key, value) :: members) =>
    .openObject :: .text (some key) :: .colon :: value.toTokens ++ membersTokens members ++ [.closeObject]
  | value => [.scalar value.asWritten]

/-- The tokens of the items behind the first one. -/
def itemsTokens : List Json → List Token
  | [] => []
  | item :: items => .comma :: item.toTokens ++ itemsTokens items

/-- The tokens of the members behind the first one. -/
def membersTokens : List (String × Json) → List Token
  | [] => []
  | (key, value) :: members => .comma :: .text (some key) :: .colon :: value.toTokens ++ membersTokens members

end

/-- The layout puts nothing but blanks between tokens. -/
structure Layout.Blank (layout : Layout) : Prop where
  lineBreak : ∀ depth, ∀ c ∈ layout.lineBreak depth, isBlank c = true
  afterColon : ∀ c ∈ layout.afterColon, isBlank c = true

theorem blank_compact : Layout.compact.Blank where
  lineBreak _ _ h := nomatch h
  afterColon _ h := nomatch h

theorem blank_indented : Layout.indented.Blank where
  lineBreak depth c h := by
    rcases List.mem_cons.1 h with rfl | h
    · rfl
    · rw [List.eq_of_mem_replicate h]
      rfl
  afterColon c h := by
    rw [List.mem_singleton.1 h]
    rfl

theorem delimited_of_isBlank {cs : List Char} (h : ∀ c ∈ cs, isBlank c = true) : Delimited cs := by
  intro c hc
  have hb := h c (List.mem_of_mem_head? hc)
  simp only [isBlank, Bool.or_eq_true, decide_eq_true_eq] at hb
  rcases hb with ((rfl | rfl) | rfl) | rfl <;> rfl

/-- A mark in front of blanks. -/
theorem closes_mark_blanks {c : Char} {token : Token} {blanks : List Char} (h : mark? c = some token)
    (hb : ∀ c ∈ blanks, isBlank c = true) : Closes (c :: blanks) [token] :=
  (closes_mark h).append (closes_blanks hb)

section Values

variable {layout : Layout} (hl : layout.Blank)

include hl

theorem scans_itemsChars {depth : Nat} : ∀ {items : List Json},
    (∀ item ∈ items, Scans (item.chars layout depth) item.toTokens) →
    Scans (itemsChars layout depth items) (itemsTokens items) ∧ Delimited (itemsChars layout depth items)
  | [], _ => ⟨closes_nil.scans, fun _ h => nomatch h⟩
  | item :: items, h => by
    obtain ⟨hitem, hitems⟩ := List.forall_mem_cons.1 h
    obtain ⟨hrest, hdelimited⟩ := scans_itemsChars hitems
    have hcomma : Closes (',' :: layout.lineBreak depth) [.comma] := closes_mark_blanks rfl (hl.lineBreak depth)
    refine ⟨(hcomma.append_scans hitem).append hrest hdelimited, fun c hc => ?_⟩
    cases hc
    rfl

/-- A key and a colon. -/
theorem closes_key (key : String) : Closes (stringChars key ++ ':' :: layout.afterColon) [.text (some key), .colon] :=
  (closes_stringChars key).append (closes_mark_blanks rfl hl.afterColon)

theorem scans_membersChars {depth : Nat} : ∀ {members : List (String × Json)},
    (∀ member ∈ members, Scans (member.2.chars layout depth) member.2.toTokens) →
    Scans (membersChars layout depth members) (membersTokens members) ∧ Delimited (membersChars layout depth members)
  | [], _ => ⟨closes_nil.scans, fun _ h => nomatch h⟩
  | (key, value) :: members, h => by
    obtain ⟨hvalue, hmembers⟩ := List.forall_mem_cons.1 h
    obtain ⟨hrest, hdelimited⟩ := scans_membersChars hmembers
    have hcomma : Closes (',' :: layout.lineBreak depth) [.comma] := closes_mark_blanks rfl (hl.lineBreak depth)
    have hscans := ((hcomma.append (closes_key hl key)).append_scans hvalue).append hrest hdelimited
    refine ⟨?_, fun c hc => ?_⟩
    · rw [← List.append_assoc] at hscans
      exact hscans
    · cases hc
      rfl

/-- The end of an array or object. -/
theorem scans_end {depth : Nat} {c : Char} {token : Token} {cs : List Char} {ts : List Token} (h : Scans cs ts)
    (hc : mark? c = some token) (hword : isWordChar c = false) :
    Scans (cs ++ layout.lineBreak depth ++ [c]) (ts ++ [token]) := by
  have hbreak := h.append (closes_blanks (hl.lineBreak depth)).scans (delimited_of_isBlank (hl.lineBreak depth))
  rw [List.append_nil] at hbreak
  refine hbreak.append (closes_mark hc).scans fun d hd => ?_
  cases hd
  exact hword

/-- A value that is written is scanned into its tokens. -/
theorem scans_chars (value : Json) (depth : Nat) : Scans (value.chars layout depth) value.toTokens := by
  induction value using induct generalizing depth with
  | null | unreadable => exact scans_null
  | bool b => exact scans_bool layout depth b
  | string content => exact (closes_stringChars content).scans
  | number n =>
    show Scans (n.text?.getD nullChars) [.scalar n.reread]
    cases ht : n.text? with
    | none =>
      rw [Number.reread, ht]
      exact scans_null
    | some text => exact scans_number (Number.read_eq_reread ht)
  | array items ih =>
    cases items with
    | nil => exact ((closes_mark rfl).append (closes_mark rfl)).scans
    | cons item items =>
      have hitems : ∀ item' ∈ item :: items, Scans (item'.chars layout (depth + 1)) item'.toTokens :=
        fun item' hm => ih item' hm (depth + 1)
      obtain ⟨hitem, hitems⟩ := List.forall_mem_cons.1 hitems
      obtain ⟨hrest, hdelimited⟩ := scans_itemsChars hl hitems
      have hopen : Closes ('[' :: layout.lineBreak (depth + 1)) [.openArray] :=
        closes_mark_blanks rfl (hl.lineBreak (depth + 1))
      exact scans_end hl ((hopen.append_scans hitem).append hrest hdelimited) rfl rfl
  | object members ih =>
    cases members with
    | nil => exact ((closes_mark rfl).append (closes_mark rfl)).scans
    | cons member members =>
      obtain ⟨key, value⟩ := member
      have hmembers : ∀ member ∈ (key, value) :: members,
          Scans (member.2.chars layout (depth + 1)) member.2.toTokens :=
        fun member hm => ih member hm (depth + 1)
      obtain ⟨hvalue, hmembers⟩ := List.forall_mem_cons.1 hmembers
      obtain ⟨hrest, hdelimited⟩ := scans_membersChars hl hmembers
      have hopen : Closes ('\x7b' :: layout.lineBreak (depth + 1)) [.openObject] :=
        closes_mark_blanks rfl (hl.lineBreak (depth + 1))
      have hscans := ((hopen.append (closes_key hl key)).append_scans hvalue).append hrest hdelimited
      rw [← List.append_assoc] at hscans
      exact scans_end hl hscans rfl rfl

/-- **The tokens of written text** are those of the value. -/
theorem tokens?_chars (value : Json) (depth : Nat) : tokens? (value.chars layout depth) = some value.toTokens := by
  obtain ⟨s, hs, hstands⟩ := scans_chars hl value depth []
  have hstart : ({} : Scanner) = ⟨.gap, []⟩ := rfl
  rw [tokens?, hstart, hs]
  refine (hstands.finish).trans ?_
  rw [List.append_nil, List.reverse_reverse]

end Values

end TypeUnfolding.Json
