import TypeUnfolding.Graph.Codec
import TypeUnfolding.Proofs.WrittenValues

/-!
# Decoding what was encoded

Every decoder takes back what its encoder makes (`Node.ofJson?_toJson`, `Symbol.ofJson?_toJson`,
`Declaration.ofJson?_toJson`). A record whose fields are found one after the other is read by one rule for each field
(`Record.Reads`).
-/

namespace TypeUnfolding

namespace Json

/-! ## Plain values -/

theorem bool?_bool (b : Bool) : bool? (.bool b) = some b := rfl

theorem string?_string (s : String) : string? (.string s) = some s := rfl

theorem below?_natural {n bound : Nat} (h : n < bound) : below? bound (.natural n) = some n := by
  have hn : (0 : Int) ≤ n ∧ (n : Int) < bound := ⟨Int.natCast_nonneg n, Int.ofNat_lt.2 h⟩
  exact if_pos hn

theorem uint32?_natural (w : UInt32) : uint32? (.natural w.toNat) = some w := by
  rw [uint32?, below?_natural w.toNat_lt]
  exact congrArg some UInt32.ofNat_toNat

section Rows

variable {α : Type} {encode : α → Json} {decode : Json → Option α}

theorem list?_map_of_mem : ∀ {row : List α}, (∀ a ∈ row, decode (encode a) = some a) →
    list? decode (.array (row.map encode)) = some row
  | [], _ => rfl
  | a :: row, h => by
    obtain ⟨hfirst, hrest⟩ := List.forall_mem_cons.1 h
    have ih : (row.map encode).mapM decode = some row := list?_map_of_mem hrest
    show (encode a :: row.map encode).mapM decode = _
    rw [List.mapM_cons, hfirst, ih]
    rfl

variable (h : ∀ a, decode (encode a) = some a)

include h

theorem list?_map (row : List α) : list? decode (.array (row.map encode)) = some row :=
  list?_map_of_mem fun a _ => h a

theorem orNull?_nullable (hnull : ∀ a, encode a ≠ .null) : ∀ a? : Option α,
    orNull? decode (nullable encode a?) = some a?
  | none => rfl
  | some a => by
    show orNull? decode (encode a) = _
    unfold orNull?
    split
    next hn => exact absurd hn (hnull a)
    next =>
      rw [h]
      rfl

end Rows

/-! ## Records -/

namespace Record

/-- The record takes the value from the named members. -/
def Reads {α : Type} (r : Record α) (members : List (String × Json)) (a : α) : Prop :=
  r (.named members) = some (a, .named members)

section Reads

variable {α β : Type} {members : List (String × Json)} {name : String} {value : Json} {decode : Json → Option α} {a : α}
  {b : β} {r : Record α} {rest : α → Record β}

theorem reads_pure : Reads (pure a) members a := rfl

theorem Reads.bind (h : r.Reads members a) (h' : (rest a).Reads members b) : Reads (r >>= rest) members b := by
  show (r _).bind _ = _
  rw [h]
  exact h'

theorem Reads.map {f : α → β} (h : r.Reads members a) : Reads (f <$> r) members (f a) := by
  show (r _).bind _ = _
  rw [h]
  rfl

theorem reads_field (h : members.filter (·.1 = name) = [(name, value)]) : (field name).Reads members (some value) := by
  unfold Reads field
  simp only [h]

theorem reads_required (hd : decode value = some a) (h : members.filter (·.1 = name) = [(name, value)]) :
    (required name decode).Reads members a := by
  apply (reads_field h).bind
  show (decode value).bind _ = _
  rw [hd]
  rfl

theorem reads_defaulted {default : α} (hd : decode value = some a)
    (h : members.filter (·.1 = name) = [(name, value)]) : (defaulted name default decode).Reads members a := by
  apply (reads_field h).bind
  show (decode value).bind _ = _
  rw [hd]
  rfl

theorem reads_optional {a? : Option α} (hd : orNull? decode value = some a?)
    (h : members.filter (·.1 = name) = [(name, value)]) : (optional name decode).Reads members a? := by
  apply (reads_field h).bind
  show (orNull? decode value).bind _ = _
  rw [hd]
  rfl

theorem reads_tag {stage : Stage} {table : List (String × α)} (hd : oneOf? stage table value = some a)
    (h : members.filter (·.1 = name) = [(name, value)]) : (tag name stage table).Reads members a :=
  Reads.bind rfl (reads_required hd h)

theorem Reads.finish? (h : r.Reads members a) : r.finish? (.named members) = some a := by
  rw [Record.finish?, h]

end Reads

end Record

open Record

theorem record?_object {α : Type} {r : Record α} {members : List (String × Json)} {a : α} (h : r.Reads members a) :
    record? r (.object members) = some a :=
  h.finish?

/-- A record cannot be decoded when its first field cannot. -/
theorem record?_eq_none {α β : Type} {name : String} {decode : Json → Option α} {rest : α → Record β}
    {members : List (String × Json)} {value : Json} (hd : decode value = none)
    (h : members.filter (·.1 = name) = [(name, value)]) :
    record? (required name decode >>= rest) (.object members) = none := by
  have hfield : required name decode (.named members) = none := by
    show (field name _).bind _ = none
    rw [reads_field h]
    show (decode value).bind _ = none
    rw [hd]
    rfl
  have hrecord : (required name decode >>= rest) (.named members) = none := by
    show (required name decode _).bind _ = none
    rw [hfield]
    rfl
  unfold record? Record.finish?
  simp only [hrecord]

/-- A record with a kind is taken apart into its kind and its other members. -/
theorem tagged?_record {kind : String} {members : List (String × Json)} (hk : ∀ member ∈ members, member.1 ≠ "kind")
    (hr : (Node.record kind members).isReadable = true) :
    tagged? (Node.record kind members) = some (.string kind, .named members) := by
  have htag : (("kind", .string kind) :: members).filter (·.1 = "kind") = [("kind", .string kind)] := by
    rw [List.filter_cons_of_pos (by simp), List.filter_eq_nil_iff.2 fun member hm => by simpa using hk member hm]
  have hrest : (("kind", .string kind) :: members).filter (·.1 ≠ "kind") = members := by
    rw [List.filter_cons_of_neg (by simp), List.filter_eq_self.2 fun member hm => by simpa using hk member hm]
  unfold tagged?
  rw [if_pos hr, Node.record]
  simp only [htag, hrest]

/-- A record is decoded by the fields of its kind, whatever other kinds there are. -/
theorem decode_of_reads {α : Type} {stage : Stage} {kinds : List String} {kind : String}
    {members : List (String × Json)} {fields : String → Record α} {a : α} (hkind : kind ∈ kinds)
    (hk : ∀ member ∈ members, member.1 ≠ "kind") (hr : (Node.record kind members).isReadable = true)
    (h : (fields kind).Reads members a) :
    ((tagged? (Node.record kind members)).bind fun found =>
      (kind? stage kinds found.1).bind fun kind => (fields kind).finish? found.2) = some a := by
  have hname : kind? stage kinds (.string kind) = some kind := if_pos hkind
  rw [tagged?_record hk hr, Option.bind_some, hname, Option.bind_some]
  exact h.finish?

end Json

open Json Record

/-! ## What records hold -/

/-- The number that a node is the literal of. -/
def Node.number? : Node → Option Float
  | .literal (.number x) => some x
  | _ => none

/-- The numbers that nodes of the graph are the literals of. -/
def Graph.numbers (g : Graph) : List Float :=
  g.nodes.toList.filterMap Node.number?

section Fits

variable {p : Number → Prop} {limit : Nat} (hp : ∀ w : UInt32, p (.integer w.toNat))

include hp

theorem NodeIndex.fits_toJson (id : NodeIndex) : id.toJson.Fits p limit :=
  fits_number (hp id.word)

theorem SymbolIndex.fits_toJson (id : SymbolIndex) : id.toJson.Fits p limit :=
  fits_number (hp id.word)

theorem Node.fits_nodesToJson (ids : List NodeIndex) : (Node.nodesToJson ids).Fits p (limit + 1) :=
  fits_map fun id _ => id.fits_toJson hp

theorem Node.fits_symbolsToJson (ids : List SymbolIndex) : (Node.symbolsToJson ids).Fits p (limit + 1) :=
  fits_map fun id _ => id.fits_toJson hp

theorem Node.fits_nullable (id? : Option NodeIndex) : (nullable NodeIndex.toJson id?).Fits p limit :=
  Json.fits_nullable (fun id => id.fits_toJson hp) id?

omit hp in
theorem Node.fits_record {kind : String} {members : List (String × Json)}
    (h : ∀ member ∈ members, member.2.Fits p limit) : (Node.record kind members).Fits p (limit + 1) :=
  fits_object (fits_cons (fits_string kind) h)

omit hp in
theorem Literal.fits_toJson {l : Literal} (hx : ∀ x, l = .number x → p (.float x)) : l.toJson.Fits p (limit + 1) := by
  cases l with
  | string value | bigInteger value =>
    exact fits_object (fits_cons (fits_string _) (fits_cons (fits_string value) nofun))
  | number x => exact fits_object (fits_cons (fits_string _) (fits_cons (fits_number (hx x rfl)) nofun))
  | boolean b => exact fits_object (fits_cons (fits_string _) (fits_cons (fits_bool b) nofun))

theorem Member.fits_toJson (m : Member NodeIndex) : (m.toJson NodeIndex.toJson).Fits p (limit + 1) :=
  fits_object (fits_cons (fits_string m.name) (fits_cons (m.type.fits_toJson hp) nofun))

theorem Node.fits_toJson (node : Node) (hx : ∀ x ∈ node.number?, p (.float x)) : node.toJson.Fits p 3 := by
  cases node with
  | primitive name | function name | generic name | unsupported name =>
    exact fits_record (fits_cons (fits_string name) nofun)
  | undefined => exact fits_record nofun
  | literal value =>
    refine fits_record (fits_cons (Literal.fits_toJson ?_) nofun)
    rintro x rfl
    exact hx x rfl
  | booleanLiteral value => exact fits_record (fits_cons (fits_bool value) nofun)
  | bigIntegerLiteral value =>
    have hvalue : value.toJson.Fits p 2 := fits_object (fits_cons (fits_bool _) (fits_cons (fits_string _) nofun))
    exact fits_record (fits_cons hvalue nofun)
  | array element => exact fits_record (fits_cons (element.fits_toJson hp) nofun)
  | tuple ids | union ids | intersection ids => exact fits_record (fits_cons (fits_nodesToJson hp ids) nofun)
  | enumeration name members =>
    exact fits_record (fits_cons (fits_string name) (fits_cons (fits_map fun m _ => m.fits_toJson hp) nofun))
  | object o =>
    apply fits_record
    apply fits_cons (fits_string o.name)
    apply fits_cons (fits_symbolsToJson hp o.properties)
    apply fits_cons (fits_symbolsToJson hp o.statics)
    apply fits_cons (fits_bool o.declared)
    apply fits_cons (fits_nullable hp o.stringIndex)
    exact fits_cons (fits_nullable hp o.numberIndex) nofun

theorem Symbol.fits_toJson (s : Symbol) : s.toJson.Fits p 3 := by
  apply fits_object
  apply fits_cons (fits_string s.name)
  apply fits_cons (Node.fits_nullable hp s.declaredType)
  apply fits_cons (fits_bool s.optional)
  apply fits_cons (fits_bool s.prototype)
  apply fits_cons (fits_bool s.getter)
  exact fits_cons (fits_bool s.restricted) nofun

theorem Declaration.fits_toJson (d : Declaration) : d.toJson.Fits p 3 := by
  apply fits_object
  apply fits_cons (fits_string d.file.text)
  apply fits_cons (fits_string d.name)
  apply fits_cons (fits_string d.kind.text)
  exact fits_cons (d.type.fits_toJson hp) nofun

/-- The record of a graph nests five levels deep, and its numbers are places and literals. -/
theorem Graph.fits_toJson (g : Graph) (hx : ∀ x ∈ g.numbers, p (.float x)) : g.toJson.Fits p 5 := by
  have hnode : ∀ node ∈ g.nodes.toList, node.toJson.Fits p 3 := fun node hm =>
    node.fits_toJson hp fun x h => hx x (List.mem_filterMap.2 ⟨node, hm, h⟩)
  apply fits_object
  apply fits_cons (fits_map hnode)
  apply fits_cons (fits_map fun s _ => s.fits_toJson hp)
  exact fits_cons (fits_map fun d _ => d.fits_toJson hp) nofun

end Fits

/-! ## Literals and members -/

theorem BigInteger.ofJson?_toJson (n : BigInteger) : BigInteger.ofJson? n.toJson = some n := by
  apply record?_object
  apply Reads.bind (reads_required (bool?_bool n.negative) (by simp))
  apply Reads.bind (reads_required (string?_string n.digits) (by simp))
  exact reads_pure

theorem Member.ofJson?_toJson {α : Type} {encode : α → Json} {decode : Json → Option α}
    (h : ∀ a, decode (encode a) = some a) (m : Member α) : Member.ofJson? decode (m.toJson encode) = some m := by
  apply record?_object
  apply Reads.bind (reads_required (string?_string m.name) (by simp))
  apply Reads.bind (reads_required (h m.type) (by simp))
  exact reads_pure

namespace Literal

variable {stage : Stage} {name : String} {kind : Kind} {value : Json}

theorem ofJson?_object {l : Literal} (hk : Kind.names.lookup name = some kind) (hv : ofValue? kind value = some l) :
    ofJson? stage (.object [("type", .string name), ("value", value)]) = some l := by
  apply record?_object
  have htype : oneOf? stage Kind.names (.string name) = some kind := hk
  apply Reads.bind (reads_tag htype (by simp))
  exact reads_required hv (by simp)

theorem ofJson?_toJson (stage : Stage) (l : Literal) : ofJson? stage l.toJson = some l := by
  cases l with
  | string | number | boolean | bigInteger => exact ofJson?_object rfl rfl

end Literal

/-! ## Nodes, symbols, and declarations -/

theorem NodeIndex.ofJson?_toJson (id : NodeIndex) : NodeIndex.ofJson? id.toJson = some id := by
  rw [NodeIndex.ofJson?, NodeIndex.toJson, NodeIndex.toNat, uint32?_natural]
  rfl

theorem SymbolIndex.ofJson?_toJson (id : SymbolIndex) : SymbolIndex.ofJson? id.toJson = some id := by
  rw [SymbolIndex.ofJson?, SymbolIndex.toJson, SymbolIndex.toNat, uint32?_natural]
  rfl

namespace Node

theorem ofJson?_record {kind : String} {members : List (String × Json)} {node : Node} (hkind : kind ∈ kinds)
    (hk : ∀ member ∈ members, member.1 ≠ "kind") (hr : (record kind members).isReadable = true)
    (h : (fields kind).Reads members node) : ofJson? (record kind members) = some node :=
  decode_of_reads hkind hk hr h

theorem reads_name (name : String) {members : List (String × Json)}
    (h : members.filter (·.1 = "name") = [("name", .string name)]) : nameField.Reads members name :=
  reads_required (string?_string name) h

/-- Nodes whose record holds nothing but a name. -/
theorem ofJson?_named {kind name : String} {f : String → Node} (hkind : kind ∈ kinds)
    (h : fields kind = f <$> nameField) : ofJson? (record kind [("name", .string name)]) = some (f name) := by
  apply ofJson?_record hkind (by simp) rfl
  rw [h]
  exact (reads_name name (by simp)).map

theorem list?_nodesToJson (ids : List NodeIndex) : list? NodeIndex.ofJson? (nodesToJson ids) = some ids :=
  list?_map NodeIndex.ofJson?_toJson ids

theorem list?_symbolsToJson (ids : List SymbolIndex) : list? SymbolIndex.ofJson? (symbolsToJson ids) = some ids :=
  list?_map SymbolIndex.ofJson?_toJson ids

theorem orNull?_nodeIndex (id? : Option NodeIndex) :
    orNull? NodeIndex.ofJson? (nullable NodeIndex.toJson id?) = some id? :=
  orNull?_nullable NodeIndex.ofJson?_toJson nofun id?

/-- **Every node is decoded from its record.** -/
theorem ofJson?_toJson (node : Node) : ofJson? node.toJson = some node := by
  have hfits : node.toJson.Fits (fun _ => True) 3 := node.fits_toJson (fun _ => trivial) fun _ _ => trivial
  have hr := hfits.readable
  cases node with
  | primitive name | function name | generic name | unsupported name => exact ofJson?_named (by decide) rfl
  | undefined => exact ofJson?_record (by decide) nofun hr reads_pure
  | literal value =>
    apply ofJson?_record (by decide) (by simp) hr
    exact (reads_required (value.ofJson?_toJson .held) (by simp)).map
  | booleanLiteral value =>
    apply ofJson?_record (by decide) (by simp) hr
    exact (reads_required (bool?_bool value) (by simp)).map
  | bigIntegerLiteral value =>
    apply ofJson?_record (by decide) (by simp) hr
    exact (reads_required value.ofJson?_toJson (by simp)).map
  | array element =>
    apply ofJson?_record (by decide) (by simp) hr
    exact (reads_required element.ofJson?_toJson (by simp)).map
  | tuple ids | union ids | intersection ids =>
    apply ofJson?_record (by decide) (by simp) hr
    exact (reads_required (list?_nodesToJson ids) (by simp)).map
  | enumeration name members =>
    apply ofJson?_record (by decide) (by simp) hr
    apply Reads.bind (reads_name name (by simp))
    apply Reads.bind (reads_required (list?_map (Member.ofJson?_toJson NodeIndex.ofJson?_toJson) members) (by simp))
    exact reads_pure
  | object o =>
    apply ofJson?_record (by decide) (by simp) hr
    apply Reads.map
    apply Reads.bind (reads_name o.name (by simp))
    apply Reads.bind (reads_defaulted (list?_symbolsToJson o.properties) (by simp))
    apply Reads.bind (reads_defaulted (list?_symbolsToJson o.statics) (by simp))
    apply Reads.bind (reads_defaulted (bool?_bool o.declared) (by simp))
    apply Reads.bind (reads_defaulted (orNull?_nodeIndex o.stringIndex) (by simp))
    apply Reads.bind (reads_defaulted (orNull?_nodeIndex o.numberIndex) (by simp))
    exact reads_pure

end Node

theorem Symbol.ofJson?_toJson (s : Symbol) : Symbol.ofJson? s.toJson = some s := by
  apply record?_object
  apply Reads.bind (reads_required (string?_string s.name) (by simp))
  apply Reads.bind (reads_optional (Node.orNull?_nodeIndex s.declaredType) (by simp))
  apply Reads.bind (reads_defaulted (bool?_bool s.optional) (by simp))
  apply Reads.bind (reads_defaulted (bool?_bool s.prototype) (by simp))
  apply Reads.bind (reads_defaulted (bool?_bool s.getter) (by simp))
  apply Reads.bind (reads_defaulted (bool?_bool s.restricted) (by simp))
  exact reads_pure

theorem Declaration.Kind.ofJson?_toJson (kind : Declaration.Kind) :
    Declaration.Kind.ofJson? kind.toJson = some kind := by
  cases kind with
  | typeAlias | interface | classType | enumeration | variableName => rfl

theorem Declaration.ofJson?_toJson {d : Declaration} (h : d.file.isText = true) :
    Declaration.ofJson? d.toJson = some d := by
  apply record?_object
  apply Reads.bind (reads_required (string?_string d.file.text) (by simp))
  apply Reads.bind (reads_required (string?_string d.name) (by simp))
  apply Reads.bind (reads_required d.kind.ofJson?_toJson (by simp))
  apply Reads.bind (reads_required d.type.ofJson?_toJson (by simp))
  rw [SourcePath.mk_text h]
  exact reads_pure

end TypeUnfolding
