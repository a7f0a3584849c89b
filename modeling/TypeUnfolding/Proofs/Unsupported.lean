import TypeUnfolding.Proofs.Account
import TypeUnfolding.Proofs.DepthBound
import TypeUnfolding.Proofs.Edges

/-!
# What can end a walk of a sound graph

A walk fails for its depth, or at a type that it leads to (`survey_error`). In a sound graph with levels enough this
leaves the unsupported nodes that are no dates. A walk that succeeds has seen everything that it leads to, although it
follows no reference (`Account.expanded_iff`), so it missed none of them (`unfold_eq_ok_iff`).
-/

namespace TypeUnfolding

open Relation (ReflTransGen)
open TypeTree (keeping)

variable {ν π σ α : Type}

/-! ## Where a survey fails -/

section Survey

variable (q : Queries ν π) (target : Target σ α) (maxDepth : Nat)

/-- A type has a reason of its own to fail: it has no category, or that of the unsupported ones. -/
def Queries.FailsAt (node : ν) (failure : Failure) : Prop :=
  q.category node = .error failure ∨ q.category node = .ok .unsupported ∧ failure = .unsupported (q.name node)

/-- A type is assembled unless one of its parts fails or it is unsupported. -/
theorem assemble_error {part : ν → Survey σ α} {node : ν} {identity : Identity} {category : Category ν}
    {found found' : Findings σ} {failure : Failure} (hc : q.category node = .ok category)
    (h : q.assemble (Survey.build target) part node identity category found = .error failure found') :
    (∃ x ∈ q.parts node category, ∃ found₁, part x found₁ = .error failure found') ∨ q.FailsAt node failure := by
  rcases error_of_bind h with hp | ⟨values, found₁, hv, h⟩
  · exact .inl (error_of_mapM hp)
  · by_cases hu : category = .unsupported
    · subst hu
      cases h
      exact .inr (.inr ⟨hc, rfl⟩)
    · obtain ⟨layer, hl⟩ := q.exists_layer? identity hu (length_of_mapM hv)
      rw [hl] at h
      cases h

/-- **A survey fails** for its depth, or with the failure of a type that it leads to. -/
theorem survey_error : ∀ (levels : Nat) {path : List UInt64} {node : ν} {found found' : Findings σ} {failure : Failure},
    q.survey target maxDepth levels path node found = .error failure found' →
      (∃ name limit, failure = .tooDeep name limit) ∨ ∃ x, ReflTransGen q.Part node x ∧ q.FailsAt x failure
  | 0, path, node, found, found', failure, h => by
    cases h
    exact .inl ⟨_, _, rfl⟩
  | levels + 1, path, node, found, found', failure, h => by
    cases hc : q.category node with
    | error failure' =>
      rw [q.survey_failure target maxDepth levels path hc] at h
      cases h
      exact .inr ⟨node, .refl, .inl hc⟩
    | ok category =>
      -- the failure of a part is found further down, that of the type itself right here
      have ha : ∀ {path identity found}, q.assemble (Survey.build target) (q.survey target maxDepth levels path) node
          identity category found = .error failure found' → (∃ name limit, failure = .tooDeep name limit) ∨
            ∃ x, ReflTransGen q.Part node x ∧ q.FailsAt x failure := by
        intro path identity found h
        rcases assemble_error q target hc h with ⟨part, hp, found₁, h⟩ | h
        · refine (survey_error levels h).imp_right fun ⟨x, hr, hx⟩ => ⟨x, .head ⟨category, hc, hp⟩ hr, hx⟩
        · exact .inr ⟨node, .refl, h⟩
      by_cases ho : category.isObjectLike = true
      · obtain ⟨identity, found₁, -, -, -, hs⟩ := q.survey_object target maxDepth levels path hc ho found
        rw [hs] at h
        split at h
        · cases h
        · exact ha h
      · rw [Bool.not_eq_true] at ho
        rw [q.survey_plain target maxDepth levels path hc ho] at h
        exact ha h

variable {q target maxDepth} in
/-- A pass fails for its depth, or at a type that it leads to. -/
theorem unfold_error {root : ν} {state state' : σ} {failure : Failure}
    (h : q.unfold target maxDepth root state = .error failure state') :
    (∃ name limit, failure = .tooDeep name limit) ∨ ∃ x, ReflTransGen q.Part root x ∧ q.FailsAt x failure := by
  rw [unfold_apply] at h
  cases hs : q.survey target maxDepth maxDepth [] root ⟨[], [], state⟩ with
  | ok value found =>
    rw [hs] at h
    cases h
  | error failure' found =>
    rw [hs] at h
    cases h
    exact survey_error q target maxDepth maxDepth hs

end Survey

/-! ## Unsupported nodes -/

namespace Graph

variable {g : Graph} {id part : NodeIndex}

/-- A walk does not leave a graph in which every place exists. -/
theorem Placed.leads_lt (h : g.Placed) (hl : g.Leads id part) : part.toNat < g.nodes.size := by
  have hc : ∀ {node : Node}, g.node? id = some node → part ∈ node.parts → part.toNat < g.nodes.size := by
    intro node hn hp
    refine h.part_lt (show part ∈ g.parts id from ?_)
    rw [parts, hn]
    exact hp
  cases hl with
  | element hn => exact hc hn (List.mem_singleton_self part)
  | entry hn hm => exact hc hn hm
  | member hn hm => exact hc hn (List.mem_map_of_mem hm)
  | arm hn _ _ hm => exact hc hn (List.mem_filter.1 hm).1
  | constituent hn _ hm => exact hc hn hm
  | value hn _ hv =>
    refine h.nodes _ (Array.mem_of_getElem? hn) part (List.mem_append.2 ?_)
    rcases Option.or_eq_some_iff.1 hv with hs | ⟨-, hv⟩
    · exact .inl (Option.mem_toList.2 hs)
    · exact .inr (Option.mem_toList.2 hv)
  | property _ _ _ _ _ _ hk =>
    obtain ⟨s, hs, ht, -⟩ := hk
    exact h.symbols s (Array.mem_of_getElem? hs) part ht

theorem Placed.reaches_lt (h : g.Placed) (hi : id.toNat < g.nodes.size) {x : NodeIndex}
    (hr : ReflTransGen g.Leads id x) : x.toNat < g.nodes.size := by
  induction hr with
  | refl => exact hi
  | tail _ hl _ => exact h.leads_lt hl

/-- A node of no category has a name of its own. -/
theorem nameOf_unsupported {name : String} (h : g.node? id = some (.unsupported name)) : g.nameOf id = name :=
  nameOf_of_ownName? h rfl

/-- **The unsupported types of a graph** are the nodes of no category, but for those that are dates by their name. -/
theorem category_eq_unsupported_iff (hi : id.toNat < g.nodes.size) : g.queries.category id = .ok .unsupported ↔
    ∃ name, g.node? id = some (.unsupported name) ∧ name ≠ dateName := by
  have h : g.node? id = some g.nodes[id.toNat] := Array.getElem?_eq_getElem hi
  generalize g.nodes[id.toNat] = node at h
  have hc := category_of_node? h
  by_cases hd : g.nameOf id = dateName
  · rw [hc, h]
    cases node with
    | unsupported name => simp [Node.category, hd, ← nameOf_unsupported h]
    | _ => simp [Node.category, hd]
  · rw [hc, h]
    cases node with
    | unsupported name =>
      rw [nameOf_unsupported h] at hd ⊢
      simp [Node.category, hd]
    | object o =>
      simp only [Node.category, hd, if_false, ObjectNode.category]
      cases o.stringIndex <;> cases o.numberIndex <;> simp
    | _ => simp [Node.category, hd]

end Graph

/-! ## Success -/

/-- A pass that succeeds leads to supported types only. -/
theorem ne_unsupported_of_unfold {q : Queries ν π} (hk : Function.Injective q.key) {target : Target σ α}
    {maxDepth : Nat} {root x : ν} {state state' : σ} {value : α}
    (h : q.unfold target maxDepth root state = .ok value state') (hr : ReflTransGen q.Part root x) :
    q.category x ≠ .ok .unsupported := by
  -- the target has no say, so the pass can be seen as one that accounts for what it expands
  have he := unfold_endsAlike q target keeping maxDepth root state (.empty, [])
  rw [h] at he
  cases hu : q.unfold keeping maxDepth root (.empty, []) with
  | error => rw [hu] at he; cases he
  | ok tree state =>
    obtain ⟨found, expanded, built, ha, -, hx⟩ := unfold_account hk hu
    exact ha.supported x ((hx x).2 hr)

/-- **When a pass over a sound graph succeeds**: with at least as many levels as there are objects and one, times the
number of the other nodes and one, exactly when the walk from the root leads to no unsupported node, dates apart. When
it fails, it names such a node. -/
theorem unfold_eq_ok_iff {text : String} {g : Graph} (h : Graph.read text = .ok g) {root : NodeIndex}
    (hi : root.toNat < g.nodes.size) {maxDepth : Nat} (hd : (g.objectCount + 1) * (g.otherCount + 1) ≤ maxDepth)
    (target : Target σ α) (state : σ) :
    ((∃ value state', g.queries.unfold target maxDepth root state = .ok value state') ↔
      ∀ id name, ReflTransGen g.Leads root id → g.node? id = some (.unsupported name) → name = dateName) ∧
    ∀ failure state', g.queries.unfold target maxDepth root state = .error failure state' →
      ∃ id name, ReflTransGen g.Leads root id ∧ g.node? id = some (.unsupported name) ∧ name ≠ dateName ∧
        failure = .unsupported name := by
  obtain ⟨hp, ha⟩ := Graph.check_eq_ok_iff.1 (Graph.check_of_read h)
  have herror : ∀ failure state', g.queries.unfold target maxDepth root state = .error failure state' →
      ∃ id name, ReflTransGen g.Leads root id ∧ g.node? id = some (.unsupported name) ∧ name ≠ dateName ∧
        failure = .unsupported name := by
    intro failure state' hu
    rw [unfold_apply] at hu
    have hs : Shallow (g.queries.survey target maxDepth maxDepth [] root) ⟨[], [], state⟩ :=
      Graph.survey_shallow ha target maxDepth (.root g root) (Nat.le_trans g.room_root_le hd)
    unfold Shallow at hs
    cases hsurvey : g.queries.survey target maxDepth maxDepth [] root ⟨[], [], state⟩ with
    | ok tree found =>
      rw [hsurvey] at hu
      cases hu
    | error failure' found =>
      rw [hsurvey] at hu hs
      cases hu
      rcases survey_error g.queries target maxDepth maxDepth hsurvey with ⟨name, limit, hf⟩ | ⟨x, hr, hx⟩
      · exact absurd hf (hs name limit)
      · obtain ⟨category, hc⟩ := g.exists_category x
        rcases hx with hx | ⟨hx, hf⟩
        · rw [hc] at hx
          cases hx
        · have hr' := Graph.reaches_iff.1 hr
          obtain ⟨name, hn, hne⟩ := (Graph.category_eq_unsupported_iff (hp.reaches_lt hi hr')).1 hx
          exact ⟨x, name, hr', hn, hne, hf.trans (congrArg Failure.unsupported (Graph.nameOf_unsupported hn))⟩
  refine ⟨⟨?_, ?_⟩, herror⟩
  · rintro ⟨value, state', hu⟩ id name hr hn
    by_contra hne
    have hc := (Graph.category_eq_unsupported_iff (hp.reaches_lt hi hr)).2 ⟨name, hn, hne⟩
    exact ne_unsupported_of_unfold g.key_injective hu (Graph.reaches_iff.2 hr) hc
  · intro hall
    cases hu : g.queries.unfold target maxDepth root state with
    | ok value state' => exact ⟨value, state', rfl⟩
    | error failure state' =>
      obtain ⟨id, name, hr, hn, hne, -⟩ := herror failure state' hu
      exact absurd (hall id name hr hn) hne

/-- A ledger of entries that may be symbols, with a date and a hidden seal of no category. -/
def Graph.ledger : Graph :=
  ⟨#[.object { name := "Ledger", properties := [.ofNat 0, .ofNat 1, .ofNat 2] }, .array (.ofNat 2),
      .union [.ofNat 3, .ofNat 0, .ofNat 4], .undefined, .unsupported "symbol", .unsupported "Date",
      .unsupported "unique symbol"],
    #[{ name := "day", declaredType := some (.ofNat 5) },
      { name := "seal", declaredType := some (.ofNat 6), restricted := true },
      { name := "entries", declaredType := some (.ofNat 1) }], #[]⟩

theorem unfold_ledger_fails : Graph.read Graph.ledger.write = .ok Graph.ledger ∧
    (NodeIndex.ofNat 0).toNat < Graph.ledger.nodes.size ∧
    (Graph.ledger.objectCount + 1) * (Graph.ledger.otherCount + 1) = 14 ∧
    ¬ ∃ tree state, Graph.ledger.queries.unfold (TypeTree.target .byName) 14 (.ofNat 0) .empty = .ok tree state := by
  have hj : (Json.read? Graph.ledger.write).bind Graph.ofJson? = some Graph.ledger := by
    rw [Graph.write, Graph.read?_write]
    decide +kernel
  have hr : Graph.read Graph.ledger.write = .ok Graph.ledger := Graph.read_of_check hj rfl
  have hi : (NodeIndex.ofNat 0).toNat < Graph.ledger.nodes.size := by decide
  have hc : (Graph.ledger.objectCount + 1) * (Graph.ledger.otherCount + 1) = 14 := by decide +kernel
  have hledger : Graph.ledger.nameOf (.ofNat 0) ≠ dateName := by decide +kernel
  have hentry : Graph.ledger.nameOf (.ofNat 2) ≠ dateName := by decide +kernel
  have hentries : Graph.ledger.Leads (.ofNat 0) (.ofNat 1) :=
    .property rfl hledger rfl rfl rfl (List.mem_cons_of_mem _ (List.mem_cons_of_mem _ List.mem_cons_self))
      ⟨_, rfl, rfl, rfl, rfl, rfl, by rintro name ⟨⟩⟩
  have hsymbol : Graph.ledger.Leads (.ofNat 2) (.ofNat 4) := by
    refine .arm rfl hentry ?_ (by decide +kernel)
    rintro ⟨a, b, value, harms, ha, -⟩
    cases harms
    cases ha
  have hreach : ReflTransGen Graph.ledger.Leads (.ofNat 0) (.ofNat 4) :=
    .head hentries (.head (.element rfl) (.single hsymbol))
  refine ⟨hr, hi, hc, fun hok => ?_⟩
  have hname := (unfold_eq_ok_iff hr hi (Nat.le_of_eq hc) _ _).1.1 hok (.ofNat 4) "symbol" hreach rfl
  exact absurd hname (by decide)

end TypeUnfolding
