import Mathlib.Data.List.Induction
import TypeUnfolding.Trail

/-!
# What a trail remembers

A trail is changed by operations in any order, balanced or not (`Trail.Operation`). What it shows in the end can be read
off their history:

* a key is on it when it was kept at any time, or when it was entered or left and entered the last time (`lastTurn`);
* the keys that an identity was asked for have their places in the order of first requests (`firstRequests`) as numbers,
  and the names that were given then;
* its depth is where the ways down and up have led between the ground and the limit (`depthOf`).

Each of the three is a law of one operation first, and then of every history (`Trail.run_history`).
-/

namespace TypeUnfolding.Trail

/-- A change of a trail. The name is at hand if it is asked for. -/
inductive Operation
  | identify (key : UInt64) (name : String)
  | enter (key : UInt64)
  | keep (key : UInt64)
  | leave (key : UInt64)
  | down
  | up
deriving DecidableEq, Repr

/-- The trail behind an operation. The way down leaves it as it is where the limit is reached. -/
def after (t : Trail) : Operation → Trail
  | .identify key name => (Id.run (t.identify key (pure name))).2
  | .enter key => t.enter key
  | .keep key => t.keep key
  | .leave key => t.leave key
  | .down => t.down?.getD t
  | .up => t.up

/-- The trail behind a row of operations. -/
def run (history : List Operation) (t : Trail) : Trail :=
  history.foldl after t

/-! ## Histories -/

/-- How the key was entered or left the last time. -/
def lastTurn (history : List Operation) (key : UInt64) : Option Operation :=
  (history.filter fun op => op = .enter key ∨ op = .leave key).getLast?

/-- The keys that an identity was asked for, in the order of the first requests, with the names given then. -/
def firstRequests : List Operation → List (UInt64 × String)
  | [] => []
  | .identify key name :: later => (key, name) :: (firstRequests later).filter (·.1 ≠ key)
  | _ :: later => firstRequests later

/-- The depth to which the ways down and up have led. -/
def depthOf (maxDepth : Nat) (history : List Operation) : Nat :=
  history.foldl (fun depth op => match op with
    | .down => min (depth + 1) maxDepth
    | .up => depth - 1
    | _ => depth) 0

section Histories

variable {history : List Operation} {op : Operation} {key : UInt64}

@[simp] theorem run_concat (history : List Operation) (op : Operation) (t : Trail) :
    run (history ++ [op]) t = (run history t).after op := by
  rw [run, List.foldl_append]
  rfl

theorem lastTurn_append_of_turn (history : List Operation) (h : op = .enter key ∨ op = .leave key) :
    lastTurn (history ++ [op]) key = some op := by
  have hop : decide (op = .enter key ∨ op = .leave key) = true := decide_eq_true h
  simp only [lastTurn, List.filter_append, List.filter_cons, hop, if_true, List.filter_nil, List.getLast?_concat]

theorem lastTurn_append (history : List Operation) (h : ¬ (op = .enter key ∨ op = .leave key)) :
    lastTurn (history ++ [op]) key = lastTurn history key := by
  have hop : decide (op = .enter key ∨ op = .leave key) = false := decide_eq_false h
  simp only [lastTurn, List.filter_append, List.filter_cons, hop, Bool.false_eq_true, if_false, List.filter_nil,
    List.append_nil]

/-- Only a request for a new key is a first request. -/
theorem firstRequests_append_identify (history : List Operation) (key : UInt64) (name : String) :
    firstRequests (history ++ [.identify key name]) =
      if key ∈ (firstRequests history).map Prod.fst then firstRequests history
      else firstRequests history ++ [(key, name)] := by
  induction history with
  | nil => rfl
  | cons op history ih =>
    cases op with
    | identify first given =>
      rw [List.cons_append, firstRequests, ih, firstRequests]
      by_cases hf : first = key
      · subst hf
        rw [List.map_cons, if_pos List.mem_cons_self]
        split
        · rfl
        · simp [List.filter_append]
      · have hmem : key ∈ ((first, given) :: (firstRequests history).filter (·.1 ≠ first)).map Prod.fst ↔
            key ∈ (firstRequests history).map Prod.fst := by
          simp only [List.map_cons, List.mem_cons, List.mem_map, List.mem_filter]
          grind
        have hkey : decide ((key, name).1 ≠ first) = true := decide_eq_true fun e => hf e.symm
        by_cases hk : key ∈ (firstRequests history).map Prod.fst
        · rw [if_pos hk, if_pos (hmem.2 hk)]
        · rw [if_neg hk, if_neg (mt hmem.1 hk), List.filter_append]
          simp only [List.filter_cons, hkey, if_true, List.filter_nil, List.cons_append]
    | _ => exact ih

/-- The other operations ask for no identity. -/
theorem firstRequests_append (history : List Operation) (h : ∀ key name, op ≠ .identify key name) :
    firstRequests (history ++ [op]) = firstRequests history := by
  induction history with
  | nil =>
    cases op with
    | identify key name => exact absurd rfl (h key name)
    | _ => rfl
  | cons first history ih =>
    cases first with
    | identify key name => rw [List.cons_append, firstRequests, ih, firstRequests]
    | _ => exact ih

end Histories

/-! ## Keys on the trail -/

section Marks

variable {t : Trail} {op : Operation} {key : UInt64}

/-- To ask for an identity leaves everything but the identities as it is. -/
theorem after_identify (t : Trail) (key : UInt64) (name : String) : ∃ identities nextId,
    t.after (.identify key name) = { t with identities, nextId } := by
  show ∃ identities nextId, (Id.run (t.identify key (pure name))).2 = _
  unfold identify
  split
  · exact ⟨t.identities, t.nextId, rfl⟩
  · exact ⟨_, _, rfl⟩

/-- The way down leaves everything but the depth as it is. -/
theorem after_down (t : Trail) :
    t.after .down = { t with depth := if t.depth < t.maxDepth then t.depth + 1 else t.depth } := by
  show t.down?.getD t = _
  unfold down?
  split <;> rfl

/-- A key is kept from the time on that it is. -/
theorem mem_kept_after : key ∈ (t.after op).kept ↔ op = .keep key ∨ key ∈ t.kept := by
  cases op with
  | identify first name =>
    obtain ⟨identities, nextId, he⟩ := after_identify t first name
    simp [he]
  | keep first =>
    show key ∈ (t.keep first).kept ↔ _
    unfold keep
    split
    · simp; grind
    · simp [eq_comm]
  | enter first =>
    show key ∈ (t.enter first).kept ↔ _
    unfold enter
    split <;> simp
  | down => simp [after_down]
  | leave | up => simp [after, leave, up]

/-- What one operation makes of a key: entering and keeping puts it on the trail, leaving takes it off unless it is
kept, and nothing else matters. -/
theorem contains_after : (t.after op).contains key = true ↔
    op = .enter key ∨ op = .keep key ∨ t.contains key = true ∧ (op = .leave key → key ∈ t.kept) := by
  cases op with
  | identify first name =>
    obtain ⟨identities, nextId, he⟩ := after_identify t first name
    simp [he, contains]
  | enter first =>
    show (t.enter first).contains key = true ↔ _
    rw [contains_enter]
    grind
  | keep first =>
    show (t.keep first).contains key = true ↔ _
    rw [contains_keep]
    grind
  | leave first =>
    show (t.leave first).contains key = true ↔ _
    rw [contains_leave, contains_iff]
    grind
  | down => simp [after_down, contains]
  | up => simp [after, up, contains_iff]

theorem mem_kept_run (maxDepth : Nat) (history : List Operation) (key : UInt64) :
    key ∈ (run history (new maxDepth)).kept ↔ .keep key ∈ history := by
  induction history using List.reverseRecOn with
  | nil => exact iff_of_false nofun nofun
  | append_singleton history op ih =>
    rw [run_concat, mem_kept_after, ih, List.mem_append, List.mem_singleton, or_comm, eq_comm]

/-- **A key is on the trail** when it was kept at any time, or was entered the last time that it was entered or left. -/
theorem contains_run (maxDepth : Nat) (history : List Operation) (key : UInt64) :
    (run history (new maxDepth)).contains key = true ↔
      .keep key ∈ history ∨ lastTurn history key = some (.enter key) := by
  induction history using List.reverseRecOn with
  | nil => simp [run, lastTurn]
  | append_singleton history op ih =>
    rw [run_concat, contains_after, ih, mem_kept_run, List.mem_append, List.mem_singleton]
    by_cases h : op = .enter key ∨ op = .leave key
    · rw [lastTurn_append_of_turn history h]
      rcases h with rfl | rfl <;> grind
    · rw [lastTurn_append history h]
      grind

/-- A key is met with its identity when it is on the trail and has one. -/
theorem met?_eq_some_iff {identity : Identity} :
    t.met? key = some identity ↔ t.contains key = true ∧ t.identities.lookup key = some identity := by
  unfold met?
  split
  next h => simp [h]
  next h => simp [h]

end Marks

/-! ## Identities -/

section Identities

variable {t : Trail} {op : Operation} {key : UInt64}

/-- A key that has an identity keeps it, and no name is asked for. -/
theorem identify_of_lookup {m : Type → Type} [Monad m] {identity : Identity}
    (h : t.identities.lookup key = some identity) (name : m String) : t.identify key name = pure (identity, t) := by
  rw [identify, h]

theorem after_identify_of_lookup {identity : Identity} (h : t.identities.lookup key = some identity) (name : String) :
    t.after (.identify key name) = t :=
  congrArg Prod.snd (identify_of_lookup (m := Id) h (pure name))

theorem after_identify_of_new (h : t.identities.lookup key = none) (name : String) : t.after (.identify key name) =
    { t with identities := (key, ⟨t.nextId, name⟩) :: t.identities, nextId := t.nextId + 1 } := by
  show (Id.run (t.identify key (pure name))).2 = _
  rw [identify, h]
  rfl

/-- A new key gets the next number and the name that is asked for. -/
theorem identify_of_new {m : Type → Type} [Monad m] (h : t.identities.lookup key = none) (name : m String) :
    t.identify key name = name >>= fun name => pure (⟨t.nextId, name⟩, t.after (.identify key name)) := by
  simp only [after_identify_of_new h]
  rw [identify, h]

theorem identities_after (h : ∀ key name, op ≠ .identify key name) :
    (t.after op).identities = t.identities ∧ (t.after op).nextId = t.nextId := by
  cases op with
  | identify key name => exact absurd rfl (h key name)
  | enter key =>
    show (t.enter key).identities = _ ∧ (t.enter key).nextId = _
    unfold enter
    split <;> exact ⟨rfl, rfl⟩
  | down =>
    rw [after_down]
    exact ⟨rfl, rfl⟩
  | keep | leave | up => exact ⟨rfl, rfl⟩

/-- No operation takes an identity away or changes it. -/
theorem lookup_after {identity : Identity} (h : t.identities.lookup key = some identity) (op : Operation) :
    (t.after op).identities.lookup key = some identity := by
  by_cases hop : ∀ key name, op ≠ .identify key name
  · rw [(identities_after hop).1, h]
  · obtain ⟨first, name, rfl⟩ : ∃ first name, op = .identify first name := by
      simpa only [not_forall, not_not, ne_eq] using hop
    cases hl : t.identities.lookup first with
    | some identity => rw [after_identify_of_lookup hl, h]
    | none =>
      have hne : key ≠ first := fun e => by rw [e, hl] at h; cases h
      rw [after_identify_of_new hl, List.lookup_cons, beq_false_of_ne hne, h]

theorem lookup_run {identity : Identity} : ∀ (later : List Operation) {t : Trail},
    t.identities.lookup key = some identity → (run later t).identities.lookup key = some identity
  | [], _, h => h
  | op :: later, _, h => lookup_run later (lookup_after h op)

/-- The identities are those of the first requests, numbered from one on. -/
structure Numbers (history : List Operation) (t : Trail) : Prop where
  first : ∀ n key name, (firstRequests history)[n]? = some (key, name) →
    t.identities.lookup key = some ⟨.ofNat (n + 1), name⟩
  other : ∀ key, key ∉ (firstRequests history).map Prod.fst → t.identities.lookup key = none
  nextId_eq : t.nextId = .ofNat ((firstRequests history).length + 1)

theorem Numbers.exists_identity {history : List Operation} (h : Numbers history t)
    (hk : key ∈ (firstRequests history).map Prod.fst) : ∃ identity, t.identities.lookup key = some identity := by
  obtain ⟨request, hm, rfl⟩ := List.mem_map.1 hk
  obtain ⟨n, hn⟩ := List.mem_iff_getElem?.1 hm
  exact ⟨_, h.first n request.1 request.2 hn⟩

/-- A request for a new key is numbered behind those before it. -/
theorem Numbers.after_first {history : List Operation} (h : Numbers history t)
    (hk : key ∉ (firstRequests history).map Prod.fst) (name : String) :
    Numbers (history ++ [.identify key name]) (t.after (.identify key name)) := by
  have hr := firstRequests_append_identify history key name
  rw [if_neg hk] at hr
  rw [after_identify_of_new (h.other key hk)]
  constructor
  case first =>
    intro n other given hn
    rw [hr] at hn
    rcases Nat.lt_or_ge n (firstRequests history).length with hlt | hge
    · rw [List.getElem?_append_left hlt] at hn
      have hne : other ≠ key := fun e => hk (e ▸ List.mem_map_of_mem (List.mem_of_getElem? hn))
      rw [List.lookup_cons, beq_false_of_ne hne]
      exact h.first n other given hn
    · obtain ⟨rfl, he⟩ : n = (firstRequests history).length ∧ (key, name) = (other, given) := by
        rw [List.getElem?_append_right hge, List.getElem?_singleton] at hn
        split at hn
        · exact ⟨by omega, Option.some.inj hn⟩
        · cases hn
      cases he
      rw [List.lookup_cons_self, h.nextId_eq]
  case other =>
    intro other ho
    rw [hr, List.map_append, List.mem_append, not_or] at ho
    have hne : other ≠ key := fun e => ho.2 (List.mem_singleton.2 e)
    rw [List.lookup_cons, beq_false_of_ne hne]
    exact h.other other ho.1
  case nextId_eq =>
    rw [hr, List.length_append, h.nextId_eq]
    exact (UInt32.ofNat_add _ 1).symm

/-- One operation numbers the first requests after it, when those before it were numbered. -/
theorem Numbers.after {history : List Operation} (h : Numbers history t) (op : Operation) :
    Numbers (history ++ [op]) (t.after op) := by
  by_cases hop : ∀ key name, op ≠ .identify key name
  · obtain ⟨hi, hn⟩ := identities_after (t := t) hop
    have hr := firstRequests_append history hop
    exact ⟨hr ▸ hi ▸ h.first, hr ▸ hi ▸ h.other, hr ▸ hn ▸ h.nextId_eq⟩
  · obtain ⟨key, name, rfl⟩ : ∃ key name, op = .identify key name := by
      simpa only [not_forall, not_not, ne_eq] using hop
    by_cases hk : key ∈ (firstRequests history).map Prod.fst
    · obtain ⟨identity, hl⟩ := h.exists_identity hk
      have hr := firstRequests_append_identify history key name
      rw [if_pos hk] at hr
      rw [after_identify_of_lookup hl]
      exact ⟨hr ▸ h.first, hr ▸ h.other, hr ▸ h.nextId_eq⟩
    · exact h.after_first hk name

/-- **The identities of a trail** are the numbers of the first requests. -/
theorem numbers_run (maxDepth : Nat) (history : List Operation) : Numbers history (run history (new maxDepth)) := by
  induction history using List.reverseRecOn with
  | nil => exact ⟨nofun, fun _ _ => rfl, rfl⟩
  | append_singleton history op ih =>
    rw [run_concat]
    exact ih.after op

end Identities

/-! ## Depth -/

section Depth

variable {t : Trail}

theorem maxDepth_after (t : Trail) (op : Operation) : (t.after op).maxDepth = t.maxDepth := by
  cases op with
  | identify key name =>
    obtain ⟨identities, nextId, he⟩ := after_identify t key name
    rw [he]
  | enter key =>
    show (t.enter key).maxDepth = _
    unfold enter
    split <;> rfl
  | down => rw [after_down]
  | keep | leave | up => rfl

/-- One operation leads from a depth within the limit to one within the limit. -/
theorem depth_after (h : t.depth ≤ t.maxDepth) (op : Operation) : (t.after op).depth ≤ t.maxDepth ∧
    (t.after op).depth = match op with
      | .down => min (t.depth + 1) t.maxDepth
      | .up => t.depth - 1
      | _ => t.depth := by
  cases op with
  | identify key name =>
    obtain ⟨identities, nextId, he⟩ := after_identify t key name
    rw [he]
    exact ⟨h, rfl⟩
  | enter key =>
    show (t.enter key).depth ≤ _ ∧ (t.enter key).depth = _
    unfold enter
    split <;> exact ⟨h, rfl⟩
  | down =>
    rw [after_down]
    dsimp only
    split <;> omega
  | up => exact ⟨Nat.le_trans (Nat.sub_le _ _) h, rfl⟩
  | keep | leave => exact ⟨h, rfl⟩

/-- **The depth of a trail** is where its history has led, and within the limit. -/
theorem depth_run (maxDepth : Nat) (history : List Operation) :
    (run history (new maxDepth)).maxDepth = maxDepth ∧ (run history (new maxDepth)).depth ≤ maxDepth ∧
      (run history (new maxDepth)).depth = depthOf maxDepth history := by
  induction history using List.reverseRecOn with
  | nil => exact ⟨rfl, Nat.zero_le _, rfl⟩
  | append_singleton history op ih =>
    obtain ⟨hm, hle, he⟩ := ih
    obtain ⟨hle', he'⟩ := depth_after (t := run history (new maxDepth)) (by rwa [hm]) op
    rw [hm] at hle' he'
    rw [run_concat, maxDepth_after, depthOf, List.foldl_append]
    refine ⟨hm, hle', he'.trans ?_⟩
    rw [he]
    rfl

/-- **The way down** is closed exactly at the limit. -/
theorem down?_run (maxDepth : Nat) (history : List Operation) :
    (run history (new maxDepth)).down? = none ↔ (run history (new maxDepth)).depth = maxDepth := by
  obtain ⟨hmax, hle, -⟩ := depth_run maxDepth history
  rw [down?_eq_none_iff, hmax]
  exact ⟨fun h => Nat.le_antisymm hle h, fun h => Nat.le_of_eq h.symm⟩

theorem after_down_of_none (h : t.down? = none) : t.after .down = t := by
  show t.down?.getD t = t
  rw [h]
  rfl

end Depth

/-! ## The whole history -/

/-- **A trail shows its history**, whatever the operations were. A key is on it if it was ever kept, or if it was
entered when it was last entered or left; it is met with the identity that it has, if it is on it and has one. The keys
that an identity was asked for are numbered from one on by their first requests, keep their identities, and only the
first request asks for the name. The depth stays within the limit, and the way down is closed exactly there. -/
theorem run_history (maxDepth : Nat) (history : List Operation)
    (hfew : (firstRequests history).length < Nat.pow 2 32 - 1) :
    let t := run history (new maxDepth)
    (∀ key, t.contains key = true ↔ .keep key ∈ history ∨ lastTurn history key = some (.enter key)) ∧
    (∀ key identity, t.met? key = some identity ↔
      t.contains key = true ∧ t.identities.lookup key = some identity) ∧
    (∀ n key name, (firstRequests history)[n]? = some (key, name) →
      ∃ id : UInt32, id.toNat = n + 1 ∧ t.identities.lookup key = some ⟨id, name⟩) ∧
    (∀ key, key ∉ (firstRequests history).map Prod.fst → t.identities.lookup key = none) ∧
    (∀ later key identity, t.identities.lookup key = some identity →
      (run later t).identities.lookup key = some identity) ∧
    (∀ {m : Type → Type} [Monad m] key (name : m String),
      (∀ identity, t.identities.lookup key = some identity → t.identify key name = pure (identity, t)) ∧
      (t.identities.lookup key = none → ∃ id : UInt32, id.toNat = (firstRequests history).length + 1 ∧
        t.identify key name = name >>= fun name => pure (⟨id, name⟩, t.after (.identify key name)))) ∧
    t.depth ≤ maxDepth ∧ t.depth = depthOf maxDepth history ∧
    (t.down? = none ↔ t.depth = maxDepth) ∧ (t.depth = maxDepth → t.after .down = t) := by
  intro t
  have hnumbers : Numbers history t := numbers_run maxDepth history
  obtain ⟨-, hle, hdepth⟩ := depth_run maxDepth history
  have hdown : t.down? = none ↔ t.depth = maxDepth := down?_run maxDepth history
  have hword : ∀ n ≤ (firstRequests history).length, (UInt32.ofNat (n + 1)).toNat = n + 1 := by
    intro n hn
    exact UInt32.toNat_ofNat_of_lt' (by show n + 1 < Nat.pow 2 32; omega)
  refine ⟨contains_run maxDepth history, fun _ _ => met?_eq_some_iff, ?_, hnumbers.other,
    fun later _ _ => lookup_run later, ?_, hle, hdepth, hdown, fun h => after_down_of_none (hdown.2 h)⟩
  · intro n key name hn
    obtain ⟨hlt, -⟩ := List.getElem?_eq_some_iff.1 hn
    exact ⟨_, hword n (Nat.le_of_lt hlt), hnumbers.first n key name hn⟩
  · intro m _ key name
    refine ⟨fun identity h => identify_of_lookup h name, fun h => ⟨t.nextId, ?_, identify_of_new h name⟩⟩
    rw [hnumbers.nextId_eq]
    exact hword _ (Nat.le_refl _)

/-- Two types are asked for, one of them again; it is kept, and then entered and left like the other. -/
def detour : List Operation :=
  [.identify 7 "Forest", .enter 7, .down, .keep 7, .identify 9 "Tree", .down, .leave 9, .enter 9, .leave 7,
    .identify 7 "Wood", .up, .down]

theorem run_detour : (firstRequests detour).length < Nat.pow 2 32 - 1 ∧
    (run detour (new 1)).met? 7 = some ⟨1, "Forest"⟩ ∧ (run detour (new 1)).met? 9 = some ⟨2, "Tree"⟩ ∧
    (run detour (new 1)).down? = none := by
  have hfew : (firstRequests detour).length < Nat.pow 2 32 - 1 := by decide +kernel
  obtain ⟨hcontains, hmet, hfirst, -, -, -, -, hdepth, hdown, -⟩ := run_history 1 detour hfew
  obtain ⟨one, h1, hforest⟩ := hfirst 0 7 "Forest" rfl
  obtain ⟨two, h2, htree⟩ := hfirst 1 9 "Tree" rfl
  obtain rfl : one = 1 := UInt32.toNat_inj.1 h1
  obtain rfl : two = 2 := UInt32.toNat_inj.1 h2
  refine ⟨hfew, (hmet 7 _).2 ⟨(hcontains 7).2 (.inl (by decide)), hforest⟩,
    (hmet 9 _).2 ⟨(hcontains 9).2 (.inr rfl), htree⟩, hdown.2 (hdepth.trans rfl)⟩

end TypeUnfolding.Trail
