import Mathlib.Data.List.Nodup
import Mathlib.Logic.Relation
import TypeUnfolding.Proofs.Indexables
import TypeUnfolding.Proofs.Spelling

/-!
# What a survey accounts for

A survey that succeeds writes out the index signature of every object that it expands, once, and hands none of them to
more than one place (`Account`). It expands whatever its types are built from, but for what is expanded around it or
was expanded before (`Queries.Covered`); so a survey of a root accounts for all that can be reached from the root
(`Account.expanded_iff`). What it writes out is among its definitions in the end, and the definitions only grow.

The keys of the objects must differ for this: a survey takes an object for one that it met before by its key alone.
-/

namespace TypeUnfolding

open Relation (ReflTransGen)
open TypeTree (keeping held written listIndexables)

variable {ν π : Type}

/-- An object with an index signature, and what is written out for it. -/
structure Built (ν : Type) where
  node : ν
  key : KeyType
  value : TypeTree

/-- The index signature that is written out. -/
def Built.entry (b : Built ν) : KeyType × TypeTree :=
  (b.key, b.value)

/-- The state of the target that keeps what it replaces. -/
abbrev Kept := Definitions TypeTree × List TypeTree

/-- A type is expanded, or it stands around, or it has an index signature and was met before. -/
def Queries.Covered (q : Queries ν π) (path indexed : List UInt64) (expanded : ν → Prop) (node : ν) : Prop :=
  expanded node ∨ q.key node ∈ path ∨ q.key node ∈ indexed

/-- What a survey of a row of types accounts for: which types it expanded, and what it wrote out for those with an
index signature. -/
structure Account (q : Queries ν π) (path : List UInt64) (row : List ν) (found found' : Findings Kept)
    (values : List TypeTree) (expanded : ν → Prop) (built : List (Built ν)) : Prop where
  reached : ∀ x, expanded x → ∃ node ∈ row, ReflTransGen q.Part node x
  covered : ∀ node ∈ row, q.Covered path found.indexed expanded node
  closed : ∀ x y, expanded x → q.Part x y → q.Covered path found.indexed expanded y
  supported : ∀ x, expanded x → q.category x ≠ .ok .unsupported
  grows : found.target.1.names ⊆ found'.target.1.names
  defined : ∀ x, expanded x → q.Moves .byName x → q.name x ∈ found'.target.1.names
  mem_built : ∀ x, x ∈ built.map Built.node ↔ expanded x ∧ q.Indexable x
  mem_indexed : ∀ key, key ∈ found'.indexed ↔ key ∈ found.indexed ∨ ∃ b ∈ built, q.key b.node = key
  nodup : (built.map Built.node).Nodup
  new : ∀ b ∈ built, q.key b.node ∉ found.indexed
  depicts_built : ∀ b ∈ built, ∃ value, q.category b.node = .ok (.indexable b.key value) ∧ Depicts q b.value value
  depicts : List.Forall₂ (Depicts q) values row
  named : Named q found'
  conserved : (listIndexables values ++ held found'.target).Perm (built.map Built.entry ++ held found.target)

namespace Account

variable {q : Queries ν π} {path : List UInt64} {row row' : List ν} {found found' found₁ found₂ : Findings Kept}
  {values values' : List TypeTree} {expanded expanded' : ν → Prop} {built built' : List (Built ν)}

theorem nil (h : Named q found) : Account q path [] found found [] (fun _ => False) [] where
  reached := fun _ h => h.elim
  covered := fun _ h => by cases h
  closed := fun _ _ h => h.elim
  supported := fun _ h => h.elim
  grows := List.Subset.refl _
  defined := fun _ h => h.elim
  mem_built := fun x => by simp
  mem_indexed := fun key => by simp
  nodup := .nil
  new := fun _ h => by cases h
  depicts_built := fun _ h => by cases h
  depicts := .nil
  named := h
  conserved := .refl _

/-- **One survey after another** accounts for both rows: what the second one finds met before was expanded by the first
one, or before it. -/
theorem append (hk : Function.Injective q.key) (h : Account q path row found found₁ values expanded built)
    (h' : Account q path row' found₁ found₂ values' expanded' built') :
    Account q path (row ++ row') found found₂ (values ++ values') (fun x => expanded x ∨ expanded' x)
      (built ++ built') := by
  -- a key that the first survey found belongs to one of the objects that it expanded
  have hf : ∀ x, q.key x ∈ found₁.indexed → q.key x ∈ found.indexed ∨ expanded x := by
    intro x hx
    refine ((h.mem_indexed _).1 hx).imp_right ?_
    rintro ⟨b, hb, hbx⟩
    rw [← hk hbx]
    exact ((h.mem_built _).1 (List.mem_map_of_mem hb)).1
  have hc : ∀ {x}, q.Covered path found.indexed expanded x →
      q.Covered path found.indexed (fun x => expanded x ∨ expanded' x) x :=
    fun hx => hx.imp_left .inl
  have hc' : ∀ {x}, q.Covered path found₁.indexed expanded' x →
      q.Covered path found.indexed (fun x => expanded x ∨ expanded' x) x := by
    rintro x (hx | hx | hx)
    · exact .inl (.inr hx)
    · exact .inr (.inl hx)
    · exact (hf x hx).elim (fun hx => .inr (.inr hx)) fun hx => .inl (.inl hx)
  constructor
  case reached =>
    rintro x (hx | hx)
    · obtain ⟨node, hn, hr⟩ := h.reached x hx
      exact ⟨node, List.mem_append_left _ hn, hr⟩
    · obtain ⟨node, hn, hr⟩ := h'.reached x hx
      exact ⟨node, List.mem_append_right _ hn, hr⟩
  case covered =>
    intro node hn
    exact (List.mem_append.1 hn).elim (fun hn => hc (h.covered node hn)) fun hn => hc' (h'.covered node hn)
  case closed =>
    rintro x y (hx | hx) hp
    · exact hc (h.closed x y hx hp)
    · exact hc' (h'.closed x y hx hp)
  case supported =>
    rintro x (hx | hx)
    · exact h.supported x hx
    · exact h'.supported x hx
  case grows => exact List.Subset.trans h.grows h'.grows
  case defined =>
    rintro x (hx | hx) hm
    · exact h'.grows (h.defined x hx hm)
    · exact h'.defined x hx hm
  case mem_built =>
    intro x
    rw [List.map_append, List.mem_append, h.mem_built, h'.mem_built, or_and_right]
  case mem_indexed =>
    intro key
    rw [h'.mem_indexed, h.mem_indexed, or_assoc]
    simp only [List.mem_append, or_and_right, exists_or]
  case nodup =>
    rw [List.map_append]
    refine List.nodup_append'.2 ⟨h.nodup, h'.nodup, fun x hx hx' => ?_⟩
    obtain ⟨b, hb, rfl⟩ := List.mem_map.1 hx
    obtain ⟨b', hb', he⟩ := List.mem_map.1 hx'
    exact h'.new b' hb' ((h.mem_indexed _).2 (.inr ⟨b, hb, he ▸ rfl⟩))
  case new =>
    intro b hb
    rcases List.mem_append.1 hb with hb | hb
    · exact h.new b hb
    · exact fun hx => h'.new b hb ((h.mem_indexed _).2 (.inl hx))
  case depicts_built =>
    intro b hb
    exact (List.mem_append.1 hb).elim (h.depicts_built b) (h'.depicts_built b)
  case depicts =>
    exact List.rel_append h.depicts h'.depicts
  case named => exact h'.named
  case conserved =>
    rw [TypeTree.listIndexables_append, List.map_append, List.append_assoc, List.append_assoc]
    refine (h'.conserved.append_left _).trans ?_
    refine (List.perm_append_comm_assoc _ _ _).trans ?_
    exact (h.conserved.append_left _).trans (List.perm_append_comm_assoc _ _ _)

/-- A reference expands nothing. -/
theorem reference {node : ν} {category : Category ν} (hc : q.category node = .ok category)
    (ho : category.isObjectLike = true) (hk : q.key node ∈ path ∨ q.key node ∈ found.indexed) (hn : Named q found')
    (hi : found'.indexed = found.indexed) (ht : found'.target = found.target) :
    Account q path [node] found found' [.ref (q.name node)] (fun _ => False) [] where
  reached := fun _ h => h.elim
  covered := fun x hx => by
    rw [List.mem_singleton] at hx
    exact hx ▸ .inr hk
  closed := fun _ _ h => h.elim
  supported := fun _ h => h.elim
  grows := by rw [ht]; exact List.Subset.refl _
  defined := fun _ h => h.elim
  mem_built := fun x => by simp
  mem_indexed := fun key => by simp [hi]
  nodup := .nil
  new := fun _ h => by cases h
  depicts_built := fun _ h => by cases h
  depicts := .cons (.ref hc ho) .nil
  named := hn
  conserved := by rw [ht]; exact .refl _

end Account

/-! ## One type -/

section Expand

variable {q : Queries ν π} {path : List UInt64} {found found₁ found₂ found' : Findings Kept} {values : List TypeTree}
  {expanded : ν → Prop} {built : List (Built ν)} {node : ν} {identity : Identity} {category : Category ν}
  {layer : Layer TypeTree}

/-- What is written out for a type itself. -/
def ownBuilt (node : ν) : Layer TypeTree → List (Built ν)
  | .indexable key value => [⟨node, key, value⟩]
  | _ => []

theorem map_entry_ownBuilt (node : ν) (layer : Layer TypeTree) :
    (ownBuilt node layer).map Built.entry = written layer := by
  cases layer <;> rfl

/-- Only an object with an index signature writes one out. -/
theorem mem_map_ownBuilt (h : q.layer? node identity category values = some layer) {x : ν} :
    x ∈ (ownBuilt node layer).map Built.node ↔ x = node ∧ category.isIndexable = true := by
  rcases Queries.layer?_cases h with ⟨key, value, tree, rfl, rfl, rfl⟩ | ⟨properties, rfl, rfl⟩ | ⟨ho, hp⟩
  · simp [ownBuilt, Category.isIndexable]
  · simp [ownBuilt, Category.isIndexable]
  · rw [Category.isIndexable_eq_false ho]
    cases layer with
    | indexable => cases hp
    | _ => simp [ownBuilt]

theorem nodup_ownBuilt (node : ν) (layer : Layer TypeTree) : ((ownBuilt node layer).map Built.node).Nodup := by
  cases layer with
  | indexable => exact List.nodup_singleton node
  | _ => exact .nil

/-- What is written out for an object shows the value of its index signature. -/
theorem depicts_ownBuilt (h : q.layer? node identity category values = some layer)
    (hd : List.Forall₂ (Depicts q) values (q.parts node category)) {b : Built ν} (hb : b ∈ ownBuilt node layer) :
    b.node = node ∧ ∃ value, category = .indexable b.key value ∧ Depicts q b.value value := by
  rcases Queries.layer?_cases h with ⟨key, value, tree, rfl, rfl, rfl⟩ | ⟨properties, rfl, rfl⟩ | ⟨ho, hp⟩
  · cases List.mem_singleton.1 hb
    cases hd with
    | cons hv => exact ⟨rfl, value, rfl, hv⟩
  · cases hb
  · cases layer with
    | indexable => cases hp
    | _ => cases hb

/-- **A type that is expanded** accounts for its parts and itself. -/
theorem Account.expand (hk : Function.Injective q.key) (hc : q.category node = .ok category)
    (hnew : category.isIndexable = true → q.key node ∉ found.indexed)
    (hid : category.isObjectLike = true → identity.name = q.name node)
    (hi : ∀ key, key ∈ found₁.indexed ↔ key ∈ found.indexed ∨ category.isIndexable = true ∧ key = q.key node)
    (ht : found₁.target = found.target)
    (h : Account q (q.pathBelow path node category) (q.parts node category) found₁ found₂ values expanded built)
    (hl : q.layer? node identity category values = some layer) :
    Account q path [node] found { found₂ with target := (keeping.build layer found₂.target).2 }
      [(keeping.build layer found₂.target).1] (fun x => x = node ∨ expanded x) (ownBuilt node layer ++ built) := by
  obtain ⟨hsub, hown⟩ := names_ofLayer .byName hc hl hid found₂.target.1
  -- what the parts leave to the node around them is the node itself
  have hcov : ∀ {y}, q.Covered (q.pathBelow path node category) found₁.indexed expanded y →
      q.Covered path found.indexed (fun x => x = node ∨ expanded x) y := by
    rintro y (hy | hy | hy)
    · exact .inl (.inr hy)
    · exact (Queries.mem_pathBelow hy).elim (fun e => .inl (.inl (hk e))) fun hy => .inr (.inl hy)
    · exact ((hi _).1 hy).elim (fun hy => .inr (.inr hy)) fun e => .inl (.inl (hk e.2))
  constructor
  case reached =>
    rintro x (rfl | hx)
    · exact ⟨x, List.mem_singleton_self x, .refl⟩
    · obtain ⟨part, hp, hr⟩ := h.reached x hx
      exact ⟨node, List.mem_singleton_self node, .head ⟨category, hc, hp⟩ hr⟩
  case covered =>
    intro x hx
    exact .inl (.inl (List.mem_singleton.1 hx))
  case closed =>
    rintro x y (rfl | hx) hp
    · obtain ⟨category', hc', hp⟩ := hp
      rw [hc] at hc'
      cases hc'
      exact hcov (h.covered y hp)
    · exact hcov (h.closed x y hx hp)
  case supported =>
    rintro x (rfl | hx)
    · rintro hu
      rw [hc] at hu
      cases hu
      cases hl
    · exact h.supported x hx
  case grows =>
    rw [← ht]
    exact List.Subset.trans h.grows hsub
  case defined =>
    rintro x (rfl | hx) hm
    · exact hown hm
    · exact hsub (h.defined x hx hm)
  case mem_built =>
    intro x
    rw [List.map_append, List.mem_append, h.mem_built, or_and_right, mem_map_ownBuilt hl]
    exact or_congr_left (and_congr_right fun e => e ▸ (Queries.indexable_iff hc).symm)
  case mem_indexed =>
    intro key
    rw [h.mem_indexed, hi, or_assoc]
    refine or_congr_right ?_
    simp only [List.mem_append, or_and_right, exists_or]
    refine or_congr_left ⟨?_, ?_⟩
    · rintro ⟨hx, rfl⟩
      obtain ⟨b, hb, e⟩ := List.mem_map.1 ((mem_map_ownBuilt hl).2 ⟨rfl, hx⟩)
      exact ⟨b, hb, e ▸ rfl⟩
    · rintro ⟨b, hb, rfl⟩
      obtain ⟨e, hx⟩ := (mem_map_ownBuilt hl).1 (List.mem_map_of_mem hb)
      exact ⟨hx, e ▸ rfl⟩
  case nodup =>
    rw [List.map_append]
    refine List.nodup_append'.2 ⟨nodup_ownBuilt node layer, h.nodup, fun x hx hx' => ?_⟩
    obtain ⟨rfl, hc'⟩ := (mem_map_ownBuilt hl).1 hx
    obtain ⟨b, hb, e⟩ := List.mem_map.1 hx'
    exact h.new b hb ((hi _).2 (.inr ⟨hc', e ▸ rfl⟩))
  case new =>
    intro b hb
    rcases List.mem_append.1 hb with hb | hb
    · obtain ⟨e, hx⟩ := (mem_map_ownBuilt hl).1 (List.mem_map_of_mem hb)
      exact e ▸ hnew hx
    · exact fun hx => h.new b hb ((hi _).2 (.inl hx))
  case depicts_built =>
    intro b hb
    rcases List.mem_append.1 hb with hb | hb
    · obtain ⟨e, value, rfl, hd⟩ := depicts_ownBuilt hl h.depicts hb
      exact ⟨value, e ▸ hc, hd⟩
    · exact h.depicts_built b hb
  case depicts =>
    exact .cons (depicts_ofLayer .byName hc hid hl h.depicts _) .nil
  case named => exact h.named
  case conserved =>
    have hb := TypeTree.keeping_build layer found₂.target
    rw [Queries.parts_of_layer? hl h.depicts.length_eq, ← TypeTree.listIndexables_eq, List.append_assoc] at hb
    have hcons := h.conserved
    rw [ht] at hcons
    rw [List.map_append, map_entry_ownBuilt, List.append_assoc]
    simp only [listIndexables, List.append_nil]
    exact hb.trans (hcons.append_left _)

end Expand

/-! ## Surveys -/

section Survey

variable {q : Queries ν π} {path : List UInt64} {found found' : Findings Kept}

theorem account_mapM (hk : Function.Injective q.key) {part : ν → Survey Kept TypeTree}
    (hp : ∀ {x found tree found'}, Named q found → part x found = .ok tree found' →
      ∃ expanded built, Account q path [x] found found' [tree] expanded built) :
    ∀ {row : List ν} {found : Findings Kept} {values : List TypeTree} {found' : Findings Kept}, Named q found →
      row.mapM part found = .ok values found' → ∃ expanded built, Account q path row found found' values expanded built
  | [], found, values, found', hn, h => by
    cases h
    exact ⟨_, _, .nil hn⟩
  | x :: row, found, values, found', hn, h => by
    rw [List.mapM_cons] at h
    obtain ⟨tree, found₁, hx, h⟩ := exists_of_bind h
    obtain ⟨trees, found₂, hr, h⟩ := exists_of_bind h
    cases h
    obtain ⟨expanded, built, ha⟩ := hp hn hx
    obtain ⟨expanded', built', ha'⟩ := account_mapM hk hp ha.named hr
    exact ⟨_, _, ha.append hk ha'⟩

/-- A type whose parts are accounted for, and for which a layer was built. -/
theorem account_assemble (hk : Function.Injective q.key) {part : ν → Survey Kept TypeTree} {node : ν}
    {identity : Identity} {category : Category ν} {found₁ : Findings Kept} {tree : TypeTree}
    (hp : ∀ {x found tree found'}, Named q found → part x found = .ok tree found' →
      ∃ expanded built, Account q (q.pathBelow path node category) [x] found found' [tree] expanded built)
    (hc : q.category node = .ok category) (hnew : category.isIndexable = true → q.key node ∉ found.indexed)
    (hid : category.isObjectLike = true → identity.name = q.name node)
    (hi : found₁.indexed = found.indexed) (ht : found₁.target = found.target) (hn : Named q found₁)
    (h : q.assemble (Survey.build keeping) part node identity category (found₁.meet (q.key node) category) =
      .ok tree found') : ∃ expanded built, Account q path [node] found found' [tree] expanded built := by
  obtain ⟨values, found₂, hm, h⟩ := exists_of_bind h
  have ht' : (found₁.meet (q.key node) category).target = found.target := (found₁.target_meet _ _).trans ht
  have hi' : ∀ key, key ∈ (found₁.meet (q.key node) category).indexed ↔
      key ∈ found.indexed ∨ category.isIndexable = true ∧ key = q.key node := fun key => by
    rw [Findings.mem_indexed_meet, hi]
  obtain ⟨expanded, built, ha⟩ := account_mapM hk hp (hn.meet _ _) hm
  cases hl : q.layer? node identity category values with
  | none => simp only [hl] at h; cases h
  | some layer =>
    simp only [hl] at h
    cases h
    exact ⟨_, _, ha.expand hk hc hnew hid hi' ht' hl⟩

/-- **A survey that succeeds accounts for its type.** -/
theorem survey_account (hk : Function.Injective q.key) (maxDepth : Nat) : ∀ (levels : Nat) {path : List UInt64}
    {node : ν} {found : Findings Kept} {tree : TypeTree} {found' : Findings Kept}, Named q found →
      q.survey keeping maxDepth levels path node found = .ok tree found' →
      ∃ expanded built, Account q path [node] found found' [tree] expanded built
  | 0, path, node, found, tree, found', hn, h => by cases h
  | levels + 1, path, node, found, tree, found', hn, h => by
    obtain ⟨category, identity, found₁, hc, hstep, ⟨ho, hkey, h⟩ | ⟨hkey, h⟩⟩ := Queries.exists_of_survey h
    all_goals obtain ⟨hid, hn₁⟩ := hstep.named hk hn
    · cases h
      have ha := Account.reference hc ho hkey hn₁ hstep.indexed hstep.target
      rw [← hid ho] at ha
      exact ⟨_, _, ha⟩
    · have hnew : category.isIndexable = true → q.key node ∉ found.indexed := fun hx hm =>
        hkey (Category.isObjectLike_of_isIndexable hx) (.inr hm)
      exact account_assemble hk (fun hn h => survey_account hk maxDepth levels hn h) hc hnew hid hstep.indexed
        hstep.target hn₁ h

/-- **A survey of a root expands what can be reached from it**, and nothing else. -/
theorem Account.expanded_iff {root : ν} {target : Kept} {values : List TypeTree} {expanded : ν → Prop}
    {built : List (Built ν)} (h : Account q [] [root] ⟨[], [], target⟩ found' values expanded built) (x : ν) :
    expanded x ↔ ReflTransGen q.Part root x := by
  have hcov : ∀ {y}, q.Covered [] [] expanded y → expanded y := by
    rintro y (hy | hy | hy)
    · exact hy
    · cases hy
    · cases hy
  constructor
  · intro hx
    obtain ⟨node, hn, hr⟩ := h.reached x hx
    exact List.mem_singleton.1 hn ▸ hr
  · intro hr
    induction hr with
    | refl => exact hcov (h.covered root (List.mem_singleton_self root))
    | tail _ hp ih => exact hcov (h.closed _ _ ih hp)

/-- A pass that succeeds accounts for all that can be reached from its root. -/
theorem unfold_account (hk : Function.Injective q.key) {maxDepth : Nat} {root : ν} {tree : TypeTree} {state : Kept}
    (h : q.unfold keeping maxDepth root (.empty, []) = .ok tree state) : ∃ found expanded built,
      Account q [] [root] ⟨[], [], .empty, []⟩ found [tree] expanded built ∧ found.target = state ∧
      ∀ x, expanded x ↔ ReflTransGen q.Part root x := by
  rw [unfold_apply] at h
  cases hs : q.survey keeping maxDepth maxDepth [] root ⟨[], [], .empty, []⟩ with
  | error => rw [hs] at h; cases h
  | ok tree' found =>
    rw [hs] at h
    cases h
    obtain ⟨expanded, built, ha⟩ := survey_account hk maxDepth maxDepth (.start q _) hs
    exact ⟨found, expanded, built, ha, rfl, ha.expanded_iff⟩

/-- Every object that can be reached and becomes a definition is among the definitions of a pass. -/
theorem mem_names_of_unfold (hk : Function.Injective q.key) {maxDepth : Nat} {root x : ν} {tree : TypeTree}
    {definitions : Definitions TypeTree}
    (h : q.unfold (TypeTree.target .byName) maxDepth root .empty = .ok tree definitions)
    (hr : ReflTransGen q.Part root x) (hm : q.Moves .byName x) : q.name x ∈ definitions.names := by
  obtain ⟨replaced, hu⟩ := TypeTree.exists_unfold_keeping h
  obtain ⟨found, expanded, built, ha, ht, he⟩ := unfold_account hk hu
  have hn := ha.defined x ((he x).2 hr) hm
  rw [ht] at hn
  exact hn

end Survey

end TypeUnfolding
