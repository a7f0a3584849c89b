import TypeUnfolding.Proofs.GraphCategory
import TypeUnfolding.Proofs.SurveyAgreement
import TypeUnfolding.TypeTree.Basic

/-!
# How deep a sound graph is

Unfolding a sound graph never goes deeper than the number of objects and one, times the number of other nodes and one
(`unfold_ne_tooDeep`). On the way down to a node every object is built at most once, since it is marked from then on,
and between two objects no node is met twice, since none consists of itself (`Graph.Descent`). So each step down uses
up some of a room that is never negative (`Graph.room`).
-/

namespace TypeUnfolding

open Relation (TransGen)

variable {ν π σ α β γ : Type}

/-! ## Surveys that are not too deep -/

/-- A survey does not fail for its depth from here, and forgets no object with an index signature. -/
def Shallow (s : Survey σ β) (found : Findings σ) : Prop :=
  match s found with
  | .ok _ found' => found.indexed ⊆ found'.indexed
  | .error failure _ => ∀ name limit, failure ≠ .tooDeep name limit

section Shallow

variable {s : Survey σ β} {found : Findings σ}

theorem shallow_pure (value : β) : Shallow (pure value) found :=
  List.Subset.refl found.indexed

/-- A survey that does what another one does from where more was found. -/
theorem Shallow.of_eq {s' : Survey σ β} {found' : Findings σ} (h : Shallow s' found') (he : s found = s' found')
    (hi : found.indexed ⊆ found'.indexed) : Shallow s found := by
  unfold Shallow at h ⊢
  rw [he]
  generalize s' found' = r at h
  cases r with
  | ok => exact List.Subset.trans hi h
  | error => exact h

theorem shallow_bind {s : Survey σ γ} {s' : γ → Survey σ β} (h : Shallow s found)
    (h' : ∀ value found', found.indexed ⊆ found'.indexed → Shallow (s' value) found') :
    Shallow (s >>= s') found := by
  unfold Shallow at h
  cases hs : s found with
  | error failure found' =>
    rw [hs] at h
    unfold Shallow
    rw [bind_of_error hs]
    exact h
  | ok value found' =>
    rw [hs] at h
    exact (h' value found' h).of_eq (bind_of_ok hs) h

theorem shallow_build (target : Target σ α) (layer : Layer α) : Shallow (Survey.build target layer) found :=
  List.Subset.refl found.indexed

theorem shallow_mapM {f : γ → Survey σ β} : ∀ {row : List γ} {found : Findings σ},
    (∀ x ∈ row, ∀ found', found.indexed ⊆ found'.indexed → Shallow (f x) found') → Shallow (row.mapM f) found
  | [], found, _ => shallow_pure []
  | x :: row, found, h => by
    rw [List.mapM_cons]
    refine shallow_bind (h x List.mem_cons_self found (List.Subset.refl _)) fun value found₁ h₁ => ?_
    refine shallow_bind (shallow_mapM fun y hy found₂ h₂ => ?_) fun values found₂ _ => shallow_pure _
    exact h y (List.mem_cons_of_mem x hy) found₂ (List.Subset.trans h₁ h₂)

theorem shallow_assemble (q : Queries ν π) (target : Target σ α) {part : ν → Survey σ α} {node : ν}
    {category : Category ν} (identity : Identity)
    (h : ∀ x ∈ q.parts node category, ∀ found', found.indexed ⊆ found'.indexed → Shallow (part x) found') :
    Shallow (q.assemble (Survey.build target) part node identity category) found := by
  refine shallow_bind (shallow_mapM h) fun values found' _ => ?_
  cases q.layer? node identity category values with
  | some layer => exact shallow_build target layer
  | none => exact fun name limit h => by cases h

end Shallow

/-! ## The way down -/

/-- Whether a node is an object. -/
def Node.isObject : Node → Bool
  | .object _ => true
  | _ => false

namespace Graph

/-- The number of objects. -/
def objectCount (g : Graph) : Nat :=
  g.nodes.countP Node.isObject

/-- The number of nodes that are no objects. -/
def otherCount (g : Graph) : Nat :=
  g.nodes.countP fun node => !node.isObject

/-- The way down to a node: the objects built on it, which are marked, and the nodes since the last of them. -/
structure Descent (g : Graph) (path indexed : List UInt64) (objects run : List NodeIndex) (node : NodeIndex) :
    Prop where
  nodup_objects : objects.Nodup
  isObject : ∀ id ∈ objects, g.IsObject id
  marked : ∀ id ∈ objects, g.queries.key id ∈ path ∨ g.queries.key id ∈ indexed
  nodup_run : run.Nodup
  leads : ∀ above ∈ run, TransGen g.Consists above node

/-- The levels that the way down may still need. -/
def room (g : Graph) (objects run : List NodeIndex) : Nat :=
  g.otherCount + 1 - run.length + (g.objectCount - objects.length) * (g.otherCount + 1)

/-- The levels that a walk may need from its root. -/
theorem room_root_le (g : Graph) : g.room [] [] ≤ (g.objectCount + 1) * (g.otherCount + 1) := by
  rw [Nat.succ_mul]
  simp only [room, List.length_nil, Nat.sub_zero]
  omega

namespace Descent

variable {g : Graph} {path indexed : List UInt64} {objects run : List NodeIndex} {node : NodeIndex}

theorem root (g : Graph) (node : NodeIndex) : g.Descent [] [] [] [] node :=
  ⟨.nil, fun _ h => (by cases h), fun _ h => (by cases h), .nil, fun _ h => (by cases h)⟩

theorem mono {indexed' : List UInt64} (h : g.Descent path indexed objects run node) (hi : indexed ⊆ indexed') :
    g.Descent path indexed' objects run node :=
  ⟨h.nodup_objects, h.isObject, fun id ho => (h.marked id ho).imp_right fun hm => hi hm, h.nodup_run, h.leads⟩

theorem length_objects_le (h : g.Descent path indexed objects run node) : objects.length ≤ g.objectCount :=
  length_le_countP h.nodup_objects fun id ho => by
    obtain ⟨o, ho⟩ := h.isObject id ho
    exact ⟨_, ho, rfl⟩

theorem length_run_le (h : g.Descent path indexed objects run node) : run.length ≤ g.otherCount :=
  length_le_countP h.nodup_run fun id hr => by
    obtain ⟨part, hc, -⟩ := TransGen.head'_iff.1 (h.leads id hr)
    cases hn : g.node? id with
    | none =>
      unfold Consists parts at hc
      rw [hn] at hc
      cases hc
    | some above =>
      cases above with
      | object o => exact absurd ⟨o, hn⟩ hc.not_isObject
      | _ => exact ⟨_, rfl, rfl⟩

theorem room_pos (h : g.Descent path indexed objects run node) : 0 < g.room objects run := by
  have := h.length_run_le
  unfold room
  omega

variable {part : NodeIndex} {levels : Nat}

/-- Inside a node that is no object, the way down goes on. -/
theorem inside (h : g.Descent path indexed objects run node) (ha : ∀ id, ¬ TransGen g.Consists id id)
    (hc : g.Consists node part) : g.Descent path indexed objects (node :: run) part := by
  refine ⟨h.nodup_objects, h.isObject, h.marked, ?_, fun above hr => ?_⟩
  · exact List.nodup_cons.2 ⟨fun hr => ha node (h.leads node hr), h.nodup_run⟩
  · rcases List.mem_cons.1 hr with rfl | hr
    · exact .single hc
    · exact (h.leads above hr).tail hc

theorem room_inside (h : g.Descent path indexed objects (node :: run) part) (hl : g.room objects run ≤ levels + 1) :
    g.room objects (node :: run) ≤ levels := by
  have := h.length_run_le
  unfold room at hl ⊢
  simp only [List.length_cons] at *
  omega

/-- Below an object that was not marked before, the way down starts anew. -/
theorem below {path' indexed' : List UInt64} (h : g.Descent path indexed objects run node) (ho : g.IsObject node)
    (hn : ¬ (g.queries.key node ∈ path ∨ g.queries.key node ∈ indexed)) (hp : path ⊆ path') (hi : indexed ⊆ indexed')
    (hm : g.queries.key node ∈ path' ∨ g.queries.key node ∈ indexed') :
    g.Descent path' indexed' (node :: objects) [] part := by
  refine ⟨List.nodup_cons.2 ⟨fun hx => hn (h.marked node hx), h.nodup_objects⟩, List.forall_mem_cons.2 ⟨ho, h.isObject⟩,
    List.forall_mem_cons.2 ⟨hm, fun id hx => ?_⟩, .nil, fun _ h => (by cases h)⟩
  exact (h.marked id hx).imp (fun hm => hp hm) fun hm => hi hm

theorem room_below {path' indexed' : List UInt64} (h : g.Descent path indexed objects run node)
    (h' : g.Descent path' indexed' (node :: objects) [] part) (hl : g.room objects run ≤ levels + 1) :
    g.room (node :: objects) [] ≤ levels := by
  have hr := h.length_run_le
  have ho := h'.length_objects_le
  unfold room at hl ⊢
  simp only [List.length_cons, List.length_nil] at *
  have : g.objectCount - objects.length = g.objectCount - (objects.length + 1) + 1 := by omega
  rw [this, Nat.succ_mul] at hl
  omega

end Descent

/-! ## Every way down -/

section Survey

variable {g : Graph} (ha : ∀ id, ¬ TransGen g.Consists id id) (target : Target σ α) (maxDepth : Nat)
include ha

/-- **A survey with the room that its way down may need is not too deep.** -/
theorem survey_shallow : ∀ {levels : Nat} {path : List UInt64} {objects run : List NodeIndex} {node : NodeIndex}
    {found : Findings σ}, g.Descent path found.indexed objects run node → g.room objects run ≤ levels →
    Shallow (g.queries.survey target maxDepth levels path node) found
  | 0, path, objects, run, node, found, h, hl => by
    have := h.room_pos
    omega
  | levels + 1, path, objects, run, node, found, h, hl => by
    obtain ⟨category, hc⟩ := exists_category g node
    by_cases ho : category.isObjectLike = true
    · obtain ⟨identity, found', -, hi, -, hs⟩ := g.queries.survey_object target maxDepth levels path hc ho found
      have hi : found.indexed ⊆ found'.indexed := hi ▸ List.Subset.refl _
      by_cases hk : g.queries.key node ∈ path ∨ g.queries.key node ∈ found.indexed
      · rw [if_pos hk] at hs
        exact (shallow_build target _).of_eq hs hi
      · rw [if_neg hk] at hs
        have hm := List.Subset.trans hi (found'.indexed_subset_meet (g.queries.key node) category)
        refine (shallow_assemble g.queries target identity fun part hp found₂ hi₂ => ?_).of_eq hs hm
        rcases mem_parts hc hp with ⟨hj, -⟩ | ⟨-, ho'⟩
        -- an object is marked from here on, and no node was met since
        · have hd : g.Descent _ found₂.indexed (node :: objects) [] part :=
            h.below hj hk (g.queries.subset_pathBelow path node category) (List.Subset.trans hm hi₂)
              ((g.queries.marked_below path found' ho hp).imp_right fun hm => hi₂ hm)
          exact survey_shallow hd (h.room_below hd hl)
        · rw [ho] at ho'; cases ho'
    · rw [Bool.not_eq_true] at ho
      rw [g.queries.survey_plain target maxDepth levels path hc ho]
      refine shallow_assemble g.queries target default fun part hp found' hi => ?_
      rcases mem_parts hc hp with ⟨-, ho'⟩ | ⟨hc, -⟩
      · rw [ho] at ho'; cases ho'
      -- any other node is one more since the last object
      · have hd := (h.inside ha hc).mono hi
        exact survey_shallow hd (hd.room_inside hl)

end Survey

end Graph

/-- A graph that was read is sound. -/
theorem Graph.check_of_read {text : String} {g : Graph} (h : Graph.read text = .ok g) : g.check = .ok () := by
  unfold Graph.read at h
  split at h
  next => cases h
  next g' _ =>
    cases hc : g'.check with
    | error fault => rw [hc] at h; cases h
    | ok => rw [hc] at h; cases h; exact hc

/-- **A sound graph is never too deep**: a pass with at least as many levels as there are objects and one, times the
number of the other nodes and one, does not fail for its depth, from any root and with any target. -/
theorem unfold_ne_tooDeep {text : String} {g : Graph} (h : Graph.read text = .ok g) {maxDepth : Nat}
    (hd : (g.objectCount + 1) * (g.otherCount + 1) ≤ maxDepth) (target : Target σ α) (root : NodeIndex) (state : σ)
    (name : String) (limit : Nat) (state' : σ) :
    g.queries.unfold target maxDepth root state ≠ .error (.tooDeep name limit) state' := by
  have ha := (Graph.check_eq_ok_iff.1 (Graph.check_of_read h)).2
  have hr : g.room [] [] ≤ maxDepth := by
    rw [Nat.succ_mul] at hd
    simp only [Graph.room, List.length_nil, Nat.sub_zero]
    omega
  have hs : Shallow (g.queries.survey target maxDepth maxDepth [] root) ⟨[], [], state⟩ :=
    Graph.survey_shallow ha target maxDepth (.root g root) hr
  unfold Shallow at hs
  rw [unfold_apply]
  generalize g.queries.survey target maxDepth maxDepth [] root _ = r at hs
  cases r with
  | ok => exact fun h => (by cases h)
  | error => exact fun h => (by cases h; exact hs name limit rfl)

/-- An object with a property that is an array of such objects. -/
def Graph.ring : Graph :=
  ⟨#[.object { name := "Ring", properties := [.ofNat 0] }, .array (.ofNat 0)],
    #[{ name := "next", declaredType := some (.ofNat 1) }], #[]⟩

theorem unfold_ring_ne_tooDeep : Graph.read Graph.ring.write = .ok Graph.ring ∧
    (Graph.ring.objectCount + 1) * (Graph.ring.otherCount + 1) = 4 ∧ ∀ name limit state',
      Graph.ring.queries.unfold (TypeTree.target .byName) 4 (.ofNat 0) .empty ≠
        .error (.tooDeep name limit) state' := by
  have hj : (Json.read? Graph.ring.write).bind Graph.ofJson? = some Graph.ring := by
    rw [Graph.write, Graph.read?_write]
    decide +kernel
  have hr : Graph.read Graph.ring.write = .ok Graph.ring := Graph.read_of_check hj rfl
  have hc : (Graph.ring.objectCount + 1) * (Graph.ring.otherCount + 1) = 4 := by decide +kernel
  exact ⟨hr, hc, unfold_ne_tooDeep hr (Nat.le_of_eq hc) _ _ _⟩

end TypeUnfolding
