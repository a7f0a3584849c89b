import TypeUnfolding.Proofs.References

/-!
# What references point to

`TypeTree.mentions` lists the references in a tree, each with the objects that it stands inside. A reference is written
down before the object that it points to is built, and what is built later may replace definitions; still no reference
is left without an object (`unfold_mentions_bound`).

Where objects stay in their place, the objects around a type are those whose keys a survey hands down, so a reference to
one of them stands inside it (`survey_bound`). Where they become definitions it is enough that a tree mentions only what
it can reach (`Depicts.mentioned`), since all that can be reached is defined in the end.
-/

namespace TypeUnfolding

open Relation (ReflTransGen)
open TypeTree (Placement)

variable {ν π : Type}

namespace TypeTree

/-- A reference in a tree: its name, and the names of the objects that it stands inside, the innermost first. -/
structure Mention where
  name : String
  around : List String
deriving DecidableEq, Repr

mutual

/-- The references in a tree that stands inside the objects of the given names. -/
def mentions (around : List String) : TypeTree → List Mention
  | .any => []
  | .date => []
  | .primitive _ => []
  | .array element => element.mentions around
  | .tuple members => listMentions around members
  | .union members => listMentions around members
  | .intersection members => listMentions around members
  | .enumeration members => memberMentions around members
  | .literal _ => []
  | .object name properties => propertyMentions (name :: around) properties
  | .ref name => [⟨name, around⟩]
  | .indexable _ value => value.mentions around
  | .document root definitions => root.mentions around ++ namedMentions around definitions

/-- Those in a row of trees. -/
def listMentions (around : List String) : List TypeTree → List Mention
  | [] => []
  | tree :: trees => tree.mentions around ++ listMentions around trees

/-- Those in a row of members. -/
def memberMentions (around : List String) : List (Member TypeTree) → List Mention
  | [] => []
  | ⟨_, type⟩ :: members => type.mentions around ++ memberMentions around members

/-- Those in a row of properties. -/
def propertyMentions (around : List String) : List (Property TypeTree) → List Mention
  | [] => []
  | ⟨_, _, _, type⟩ :: properties => type.mentions around ++ propertyMentions around properties

/-- Those in a row of definitions. -/
def namedMentions (around : List String) : List (String × TypeTree) → List Mention
  | [] => []
  | (_, tree) :: trees => tree.mentions around ++ namedMentions around trees

end

section Rows

variable (around : List String)

theorem listMentions_eq : ∀ trees : List TypeTree, listMentions around trees = trees.flatMap (mentions around)
  | [] => rfl
  | tree :: trees => by rw [listMentions, listMentions_eq trees, List.flatMap_cons]

theorem memberMentions_eq : ∀ members : List (Member TypeTree),
    memberMentions around members = (members.map Member.type).flatMap (mentions around)
  | [] => rfl
  | ⟨_, type⟩ :: members => by rw [memberMentions, memberMentions_eq members, List.map_cons, List.flatMap_cons]

theorem propertyMentions_eq : ∀ properties : List (Property TypeTree),
    propertyMentions around properties = (properties.map Property.type).flatMap (mentions around)
  | [] => rfl
  | ⟨_, _, _, type⟩ :: properties => by
    rw [propertyMentions, propertyMentions_eq properties, List.map_cons, List.flatMap_cons]

theorem namedMentions_eq : ∀ trees : List (String × TypeTree),
    namedMentions around trees = trees.flatMap fun entry => entry.2.mentions around
  | [] => rfl
  | (_, tree) :: trees => by rw [namedMentions, namedMentions_eq trees, List.flatMap_cons]

/-- A finished root has the references in the definitions around it. -/
theorem mentions_withDefinitions (root : TypeTree) (definitions : Definitions TypeTree) :
    (withDefinitions root definitions).mentions around =
      root.mentions around ++ namedMentions around definitions.entries :=
  apply_withDefinitions (fun _ _ => rfl) rfl root definitions

end Rows

end TypeTree

/-! ## One layer -/

/-- A tree in its place has the references in its parts. -/
theorem TypeTree.mentions_inPlace {q : Queries ν π} {node : ν} {identity : Identity} {category : Category ν}
    {values : List TypeTree} {layer : Layer TypeTree} (h : q.layer? node identity category values = some layer)
    (hid : category.isObjectLike = true → identity.name = q.name node)
    (hl : values.length = (q.parts node category).length) (definitions : Definitions TypeTree) (around : List String) :
    (ofLayer .inPlace layer definitions).1.mentions around =
      values.flatMap (mentions (category.below (q.name node) around)) := by
  have hparts := Queries.parts_of_layer? h hl
  rcases Queries.layer?_cases h with ⟨key, value, tree, rfl, rfl, rfl⟩ | ⟨properties, rfl, rfl⟩ | ⟨ho, hp⟩
  · simp [ofLayer, mentions, Category.below]
  · rw [← hparts, Category.below, ← hid rfl]
    simp only [ofLayer, true_or, if_true, mentions, propertyMentions_eq, Layer.parts]
  · rw [Category.below_plain _ around ho, ← hparts]
    cases layer with
    | object | reference | indexable => cases hp
    | tuple | union | intersection => exact listMentions_eq around _
    | enumeration members => exact memberMentions_eq around members
    | _ => simp [ofLayer, mentions, Layer.parts]

/-! ## What is pointed to -/

/-- What a reference in the tree of a root may point to: an object with an index signature, wherever that is written
out; an object around it, where objects stay in their place; and where they become definitions, one of these, or an
object that becomes none as its name was made up. -/
inductive Queries.Bound (q : Queries ν π) (root : ν) (definitions : Definitions TypeTree) :
    Placement → TypeTree.Mention → Prop
  | indexable {placement : Placement} {m : TypeTree.Mention} {x : ν} : ReflTransGen q.Part root x → q.Indexable x →
    q.name x = m.name → q.Bound root definitions placement m
  | inside {m : TypeTree.Mention} : m.name ∈ m.around → q.Bound root definitions .inPlace m
  | defined {m : TypeTree.Mention} : m.name ∈ definitions.names → q.Bound root definitions .byName m
  | unnamed {m : TypeTree.Mention} {x : ν} : ReflTransGen q.Part root x → q.category x = .ok .object →
    q.name x = m.name → isUnnamed m.name = true → q.Bound root definitions .byName m

/-! ## What a tree can mention -/

/-- Induction over the trees that show a type: a layer may use what holds of all its parts. -/
theorem Depicts.induct {q : Queries ν π} {motive : TypeTree → ν → Prop}
    (ref : ∀ {node category}, q.category node = .ok category → category.isObjectLike = true →
      motive (.ref (q.name node)) node)
    (layer : ∀ {node category identity values layer}, q.category node = .ok category →
      (category.isObjectLike = true → identity.name = q.name node) →
      q.layer? node identity category values = some layer → List.Forall₂ motive values (q.parts node category) →
      motive (TypeTree.ofLayer .inPlace layer .empty).1 node)
    {tree : TypeTree} {node : ν} (h : Depicts q tree node) : motive tree node :=
  @Depicts.rec ν π q (fun tree node _ => motive tree node) (fun values row _ => List.Forall₂ motive values row)
    (fun hc ho => ref hc ho) (fun hc hid hl _ ih => layer hc hid hl ih) .nil (fun _ _ hx hr => .cons hx hr) tree node h

/-- An object that can be reached and has the name of a reference. -/
def Queries.Mentioned (q : Queries ν π) (node : ν) (name : String) (x : ν) : Prop :=
  ReflTransGen q.Part node x ∧ q.ObjectLike x ∧ q.name x = name

/-- **A tree mentions only what can be reached** from the type that it shows. -/
theorem Depicts.mentioned {q : Queries ν π} {tree : TypeTree} {node : ν} (h : Depicts q tree node) :
    ∀ {around : List String}, ∀ m ∈ tree.mentions around, ∃ x, q.Mentioned node m.name x := by
  refine Depicts.induct (motive := fun tree node => ∀ {around : List String}, ∀ m ∈ tree.mentions around,
    ∃ x, q.Mentioned node m.name x) ?ref ?layer h
  case ref =>
    intro node category hc ho around m hm
    cases List.mem_singleton.1 hm
    exact ⟨node, .refl, ⟨category, hc, ho⟩, rfl⟩
  case layer =>
    intro node category identity values layer hc hid hl ih around m hm
    rw [TypeTree.mentions_inPlace hl hid ih.length_eq, List.mem_flatMap] at hm
    obtain ⟨value, hv, hm⟩ := hm
    obtain ⟨part, hp, ih⟩ := exists_of_mem_forall₂ ih hv
    obtain ⟨x, hr, ho, hn⟩ := ih m hm
    exact ⟨x, .head ⟨category, hc, hp⟩ hr, ho, hn⟩

/-! ## Objects in their place -/

section InPlace

variable {q : Queries ν π} {root : ν} {definitions : Definitions TypeTree}
  {found found' : Findings (Definitions TypeTree)}

/-- The names of the objects with the given keys are known. -/
def Queries.Knows (q : Queries ν π) (path : List UInt64) (around : List String) : Prop :=
  ∀ x, q.key x ∈ path → q.name x ∈ around

theorem Queries.Knows.below (hk : Function.Injective q.key) {path : List UInt64} {around : List String}
    (h : q.Knows path around) (node : ν) (category : Category ν) :
    q.Knows (q.pathBelow path node category) (category.below (q.name node) around) := by
  intro x hx
  cases category with
  | object =>
    rcases Queries.mem_pathBelow hx with e | hx
    · exact List.mem_cons.2 (.inl (congrArg q.name (hk e)))
    · exact List.mem_cons_of_mem _ (h x hx)
  | _ => exact h x hx

/-- The references in a type are bound when those in its parts are. -/
theorem bound_assemble {part : ν → Survey (Definitions TypeTree) TypeTree} {node : ν} {identity : Identity}
    {category : Category ν} {tree : TypeTree} {around : List String}
    (hid : category.isObjectLike = true → identity.name = q.name node)
    (hp : ∀ x ∈ q.parts node category, ∀ found tree found', Faithful q .inPlace root found →
      part x found = .ok tree found' → Faithful q .inPlace root found' ∧
        ∀ m ∈ tree.mentions (category.below (q.name node) around), q.Bound root definitions .inPlace m)
    (hf : Faithful q .inPlace root found)
    (h : q.assemble (Survey.build (TypeTree.target .inPlace)) part node identity category found = .ok tree found') :
    ∀ m ∈ tree.mentions around, q.Bound root definitions .inPlace m := by
  obtain ⟨values, found₁, hm, h⟩ := exists_of_bind h
  have hb := (mapM_invariant hp hf hm).2.flip
  cases hl : q.layer? node identity category values with
  | none =>
    simp only [hl] at h
    cases h
  | some layer =>
    simp only [hl] at h
    cases h
    show ∀ m ∈ (TypeTree.ofLayer .inPlace layer _).1.mentions around, _
    rw [TypeTree.mentions_inPlace hl hid (length_of_mapM hm)]
    intro m hm
    obtain ⟨value, hv, hm⟩ := List.mem_flatMap.1 hm
    obtain ⟨x, -, hx⟩ := exists_of_mem_forall₂ hb hv
    exact hx m hm

/-- **The references of a survey are bound**: those to the objects with the given keys by the names around. -/
theorem survey_bound (hk : Function.Injective q.key) (maxDepth : Nat) : ∀ (levels : Nat) {path : List UInt64}
    {around : List String} {node : ν} {found found' : Findings (Definitions TypeTree)} {tree : TypeTree},
    ReflTransGen q.Part root node → q.Around path node → q.Knows path around → Faithful q .inPlace root found →
    q.survey (TypeTree.target .inPlace) maxDepth levels path node found = .ok tree found' →
    ∀ m ∈ tree.mentions around, q.Bound root definitions .inPlace m
  | 0, path, around, node, found, found', tree, _, _, _, _, h => by cases h
  | levels + 1, path, around, node, found, found', tree, hr, ha, hn, hf, h => by
    obtain ⟨category, identity, found₁, hc, hstep, ⟨ho, hkey, h⟩ | ⟨-, h⟩⟩ := Queries.exists_of_survey h
    all_goals obtain ⟨hid, hf₁⟩ := hf.identified hk hstep
    · cases h
      intro m hm
      cases List.mem_singleton.1 hm
      rw [hid ho]
      rcases hkey with hkey | hkey
      · exact .inside (hn node hkey)
      · exact .indexable hr (hf.indexed node hkey) rfl
    · refine bound_assemble hid (fun x hx found tree found' hf hs => ?_) (hf₁.meet hk hc) h
      have hrx := hr.tail ⟨category, hc, hx⟩
      have hax := ha.below hc hk hx
      exact ⟨(survey_spelled hk maxDepth levels hrx hax hf hs).1,
        survey_bound hk maxDepth levels hrx hax (hn.below hk node category) hf hs⟩

/-- A pass that leaves objects in their place binds its references. -/
theorem bound_of_unfold (hk : Function.Injective q.key) {maxDepth : Nat} {tree : TypeTree}
    {definitions : Definitions TypeTree}
    (h : q.unfold (TypeTree.target .inPlace) maxDepth root .empty = .ok tree definitions) :
    ∀ m ∈ tree.mentions [], q.Bound root definitions .inPlace m := by
  rw [unfold_apply] at h
  cases hs : q.survey (TypeTree.target .inPlace) maxDepth maxDepth [] root ⟨[], [], .empty⟩ with
  | error failure found => rw [hs] at h; cases h
  | ok tree' found =>
    rw [hs] at h
    cases h
    have ha : q.Around [] root := fun _ hx => by cases hx
    have hn : q.Knows [] [] := fun _ hx => by cases hx
    exact survey_bound hk maxDepth maxDepth .refl ha hn .start hs

end InPlace

/-! ## Objects by name -/

theorem Definitions.get?_of_mem {α : Type} {d : Definitions α} {name : String} {value : α}
    (h : (name, value) ∈ d.entries) : d.get? name = some value := by
  obtain ⟨before, after, he⟩ := List.append_of_mem h
  have hn := d.nodup_names
  rw [he, List.map_append, List.map_cons, List.nodup_append] at hn
  refine List.lookup_eq_some_iff.2 ⟨before, after, he, fun entry hb => ?_⟩
  have hne := hn.2.2 entry.1 (List.mem_map_of_mem hb) name List.mem_cons_self
  simpa using fun e : name = entry.1 => hne e.symm

section ByName

variable {q : Queries ν π} {root : ν} {maxDepth : Nat} {tree : TypeTree} {definitions : Definitions TypeTree}

/-- A pass that collects definitions mentions what can be reached, in its root and in every definition. -/
theorem mentioned_of_unfold (hk : Function.Injective q.key)
    (h : q.unfold (TypeTree.target .byName) maxDepth root .empty = .ok tree definitions) :
    ∀ m ∈ tree.mentions [] ++ TypeTree.namedMentions [] definitions.entries, ∃ x, q.Mentioned root m.name x := by
  intro m hm
  rcases List.mem_append.1 hm with hm | hm
  · obtain ⟨replaced, hu⟩ := TypeTree.exists_unfold_keeping h
    obtain ⟨found, expanded, built, ha, -⟩ := unfold_account hk hu
    cases ha.depicts with
    | cons hd => exact hd.mentioned m hm
  · rw [TypeTree.namedMentions_eq, List.mem_flatMap] at hm
    obtain ⟨⟨name, definition⟩, he, hm⟩ := hm
    obtain ⟨node, path, -, hd⟩ := (unfold_spelled hk h).2 name definition (Definitions.get?_of_mem he)
    obtain ⟨x, hr, ho, hn⟩ := hd.depicts.mentioned m hm
    exact ⟨x, hd.reached.trans hr, ho, hn⟩

/-- What is mentioned is defined, unless it has an index signature or its name is made up. -/
theorem bound_of_mentioned (hk : Function.Injective q.key)
    (h : q.unfold (TypeTree.target .byName) maxDepth root .empty = .ok tree definitions) {m : TypeTree.Mention} {x : ν}
    (hx : q.Mentioned root m.name x) : q.Bound root definitions .byName m := by
  obtain ⟨hr, ⟨category, hc, ho⟩, hname⟩ := hx
  cases category with
  | indexable key value => exact .indexable hr ⟨key, value, hc⟩ hname
  | object =>
    cases hn : isUnnamed m.name with
    | true => exact .unnamed hr hc hname hn
    | false => exact .defined (hname ▸ mem_names_of_unfold hk h hr ⟨rfl, hc, hname ▸ hn⟩)
  | _ => cases ho

end ByName

/-! ## Passes -/

/-- **No reference is left without an object.** In what a pass finishes, whether its definitions are inside the root or
beside it, every reference points to an object with an index signature that can be reached; or it stands inside an
object of its name, where objects stay in their place; or there is a definition of its name, where they become
definitions, or else its name was made up for an object that can be reached. -/
theorem unfold_mentions_bound {g : Graph} {placement : Placement} {maxDepth : Nat} {root : NodeIndex}
    {leftover : Definitions TypeTree} {tree : TypeTree} {definitions : Definitions TypeTree}
    (h : g.queries.unfold (TypeTree.target placement) maxDepth root ((TypeTree.target placement).start leftover) =
      .ok tree definitions) :
    let inside := ((TypeTree.target placement).finish tree definitions).1
    let beside := ((TypeTree.target placement).finishApart tree definitions).1
    inside.mentions [] = beside.root.mentions [] ++ TypeTree.namedMentions [] beside.definitions.entries ∧
      ∀ m ∈ inside.mentions [], g.queries.Bound root beside.definitions placement m := by
  have hw := TypeTree.mentions_withDefinitions [] tree definitions
  refine ⟨hw, fun m (hm : m ∈ (tree.withDefinitions definitions).mentions []) => ?_⟩
  cases placement with
  | inPlace =>
    rw [TypeTree.withDefinitions, if_pos (isEmpty_of_unfold_inPlace g.key_injective h)] at hm
    exact bound_of_unfold g.key_injective h m hm
  | byName =>
    obtain ⟨x, hx⟩ := mentioned_of_unfold g.key_injective h m (hw ▸ hm)
    exact bound_of_mentioned g.key_injective h hx

/-- A club with a roster of its members; a member, a type without a name, has a friend and a club with a roster. -/
def Graph.club : Graph :=
  ⟨#[.object { name := "Club", properties := [.ofNat 0, .ofNat 1] },
      .object { name := "Roster", stringIndex := some (.ofNat 2) },
      .object { name := "__type", properties := [.ofNat 2, .ofNat 3] }],
    #[{ name := "members", declaredType := some (.ofNat 1) }, { name := "former", declaredType := some (.ofNat 1) },
      { name := "club", declaredType := some (.ofNat 0) }, { name := "friend", declaredType := some (.ofNat 2) }], #[]⟩

theorem unfold_club_mentions_bound :
    (∃ tree definitions, Graph.club.queries.unfold (TypeTree.target .inPlace) 500 (.ofNat 0)
        ((TypeTree.target .inPlace).start .empty) = .ok tree definitions ∧
      ((TypeTree.target .inPlace).finish tree definitions).1.mentions [] =
        [⟨"Club", ["__type", "Club"]⟩, ⟨"__type", ["__type", "Club"]⟩, ⟨"Roster", ["Club"]⟩] ∧
      ∃ x, ReflTransGen Graph.club.queries.Part (.ofNat 0) x ∧ Graph.club.queries.Indexable x ∧
        Graph.club.queries.name x = "Roster") ∧
    ∃ tree definitions, Graph.club.queries.unfold (TypeTree.target .byName) 500 (.ofNat 0)
        ((TypeTree.target .byName).start .empty) = .ok tree definitions ∧
      definitions.names = ["Club"] ∧
      ((TypeTree.target .byName).finish tree definitions).1.mentions [] = [⟨"Club", []⟩,
        ⟨"Club", ["__type", "Club"]⟩, ⟨"__type", ["__type", "Club"]⟩, ⟨"Roster", ["Club"]⟩] ∧
      Graph.club.queries.Bound (.ofNat 0) definitions .byName ⟨"__type", ["__type", "Club"]⟩ := by
  have hin : succeedsWith (fun tree definitions => (TypeTree.withDefinitions tree definitions).mentions [] =
      [⟨"Club", ["__type", "Club"]⟩, ⟨"__type", ["__type", "Club"]⟩, ⟨"Roster", ["Club"]⟩])
      (Graph.club.queries.unfold (TypeTree.target .inPlace) 500 (.ofNat 0)
        ((TypeTree.target .inPlace).start .empty)) = true := by decide +kernel
  have hby : succeedsWith (fun tree definitions => definitions.names = ["Club"] ∧
      (TypeTree.withDefinitions tree definitions).mentions [] = [⟨"Club", []⟩,
        ⟨"Club", ["__type", "Club"]⟩, ⟨"__type", ["__type", "Club"]⟩, ⟨"Roster", ["Club"]⟩])
      (Graph.club.queries.unfold (TypeTree.target .byName) 500 (.ofNat 0)
        ((TypeTree.target .byName).start .empty)) = true := by decide +kernel
  obtain ⟨tree, definitions, hin, hm⟩ := exists_of_succeedsWith hin
  obtain ⟨tree', definitions', hby, hm'⟩ := exists_of_succeedsWith hby
  have hm := of_decide_eq_true hm
  obtain ⟨hn, hm'⟩ := of_decide_eq_true hm'
  refine ⟨⟨tree, definitions, hin, hm, ?_⟩, tree', definitions', hby, hn, hm', ?_⟩
  · have hmem : ⟨"Roster", ["Club"]⟩ ∈ (TypeTree.withDefinitions tree definitions).mentions [] := by simp [hm]
    cases (unfold_mentions_bound hin).2 _ hmem with
    | indexable hr hx hname => exact ⟨_, hr, hx, hname⟩
    | inside ha => exact absurd ha (by decide)
  · have hmem : ⟨"__type", ["__type", "Club"]⟩ ∈ (TypeTree.withDefinitions tree' definitions').mentions [] := by
      simp [hm']
    exact (unfold_mentions_bound hby).2 _ hmem

end TypeUnfolding
