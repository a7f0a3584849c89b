import TypeUnfolding.Proofs.CallOrder
import TypeUnfolding.Proofs.Simulation

/-!
# Passes as scripts

A walk never looks at the values that it gets from its target. So what a pass does can be written down once, for all
targets: as a `Script`, which is a row of calls over the values of earlier calls, and an end. The journal of a pass is
such a script, and to play it on any target, from any state, is to make the pass with that target (`unfold_eq_play`).

For the proof a target is written down while it builds (`Target.logged`): its values go with their numbers, so that it
can be compared with the journal on the one side and with the target itself on the other.
-/

namespace TypeUnfolding

variable {ν π σ α β γ : Type}

/-! ## Layers over values that are looked up -/

namespace Layer

/-- A layer over what its parts stand for, if all of them stand for something. -/
def map? (f : α → Option β) : Layer α → Option (Layer β)
  | .any => some .any
  | .date => some .date
  | .primitive name => some (.primitive name)
  | .literal value => some (.literal value)
  | .array element => (f element).map .array
  | .tuple members => (members.mapM f).map .tuple
  | .union members => (members.mapM f).map .union
  | .intersection members => (members.mapM f).map .intersection
  | .enumeration members => (members.mapM fun m => (f m.type).map (Member.mk m.name)).map .enumeration
  | .object properties identity =>
    (properties.mapM fun p => (f p.type).map (Property.mk p.name p.optional p.admitsUndefined)).map (.object · identity)
  | .reference identity => some (.reference identity)
  | .indexable key value => (f value).map (.indexable key)

theorem mapM_map_eq_some {f : β → Option γ} {g : α → β} {h : α → γ} {row : List α}
    (hr : ∀ x ∈ row, f (g x) = some (h x)) : (row.map g).mapM f = some (row.map h) := by
  rw [List.mapM_map]
  exact mapM_eq_some hr

/-- When each part stands for a value, so does the layer. -/
theorem map?_map {f : β → Option γ} {g : α → β} {h : α → γ} {layer : Layer α}
    (hp : ∀ x ∈ layer.parts, f (g x) = some (h x)) : (layer.map g).map? f = some (layer.map h) := by
  cases layer with
  | array element => exact congrArg (Option.map _) (hp element List.mem_cons_self)
  | indexable key value => exact congrArg (Option.map _) (hp value List.mem_cons_self)
  | tuple | union | intersection => exact congrArg (Option.map _) (mapM_map_eq_some hp)
  | enumeration members =>
    refine congrArg (Option.map _) (mapM_map_eq_some fun m hm => ?_)
    exact congrArg (Option.map _) (hp m.type (List.mem_map_of_mem hm))
  | object properties identity =>
    refine congrArg (Option.map _) (mapM_map_eq_some fun p hm => ?_)
    exact congrArg (Option.map _) (hp p.type (List.mem_map_of_mem hm))
  | _ => rfl

end Layer

/-! ## Scripts -/

/-- What a pass does: its calls, each over the values of earlier ones, which stand as their numbers, and how it ends,
with one of the values or with a failure. -/
structure Script where
  calls : List (Layer Nat)
  outcome : Except Failure Nat

namespace Script

/-- Every value is there when it is asked for. -/
structure LooksBack (s : Script) : Prop where
  earlier : ∀ (i : Nat) (layer : Layer Nat), s.calls[i]? = some layer → ∀ part ∈ layer.parts, part < i
  root : ∀ root, s.outcome = .ok root → root < s.calls.length

/-- Makes a call over the values so far, and adds its value to them. -/
def call (target : Target σ α) (made : List α × σ) (layer : Layer Nat) : Option (List α × σ) :=
  (layer.map? (made.1[·]?)).map fun layer =>
    let (value, state) := target.build layer made.2
    (made.1 ++ [value], state)

/-- How a script ends when its calls are made. -/
def close (s : Script) (made : List α × σ) : Option (EStateM.Result Failure σ α) :=
  match s.outcome with
  | .ok root => made.1[root]?.map (.ok · made.2)
  | .error failure => some (.error failure made.2)

/-- Makes the calls in order, and ends. There is no result when a value is asked for that is not there. -/
def play (s : Script) (target : Target σ α) (state : σ) : Option (EStateM.Result Failure σ α) :=
  (s.calls.foldlM (call target) ([], state)).bind s.close

end Script

/-- The layer of a call that builds one. -/
def Call.layer? : Call → Option (Layer Nat)
  | .build layer => some layer
  | _ => none

/-- The layers that are built in a journal. -/
def Journal.layers (j : Journal) : List (Layer Nat) :=
  j.calls.toList.filterMap Call.layer?

/-- The script of a pass, from its journal. -/
def Script.ofJournal : EStateM.Result Failure Journal Nat → Script
  | .ok root j => ⟨j.layers, .ok root⟩
  | .error failure j => ⟨j.layers, .error failure⟩

theorem Journal.layers_eq {j : Journal} {calls : List (Layer Nat)} (h : j.calls.toList = calls.map Call.build) :
    j.layers = calls := by
  rw [layers, h, List.filterMap_map]
  exact List.filterMap_some

/-! ## A target that is written down -/

/-- A target that only builds. -/
def Target.ofBuild (build : Layer α → σ → α × σ) : Target σ α where
  start := id
  build := build
  finish := Prod.mk
  finishApart := fun root state => (⟨root, .empty⟩, state)

/-- What a target has done: its calls and their values, and the state that it is in. -/
structure Log (σ α : Type) where
  calls : List (Layer Nat)
  values : List α
  state : σ

/-- A target with a log. Its values go with the numbers of their calls. -/
def Target.logged (target : Target σ α) : Target (Log σ α) (Nat × α) := .ofBuild fun layer log =>
  let (value, state) := target.build (layer.map Prod.snd) log.state
  ((log.calls.length, value), ⟨log.calls ++ [layer.map Prod.fst], log.values ++ [value], state⟩)

/-- A log that begins with a state leads, call by call, to the values and the state in it. -/
structure Log.Sound (target : Target σ α) (start : σ) (log : Log σ α) : Prop where
  length_eq : log.values.length = log.calls.length
  play : log.calls.foldlM (Script.call target) ([], start) = some (log.values, log.state)

section Logged

variable {target : Target σ α} {start : σ} {log log' : Log σ α}

theorem Log.sound_start (target : Target σ α) (start : σ) : Log.Sound target start ⟨[], [], start⟩ :=
  ⟨rfl, rfl⟩

/-- A call over values that are in the log keeps it sound. -/
theorem Log.Sound.build (h : log.Sound target start) {layer : Layer (Nat × α)}
    (hp : ∀ v ∈ layer.parts, log.values[v.1]? = some v.2) :
    (target.logged.build layer log).2.Sound target start where
  length_eq := by
    show (log.values ++ [_]).length = (log.calls ++ [_]).length
    rw [List.length_append, List.length_append, h.length_eq]
    rfl
  play := by
    show (log.calls ++ [layer.map Prod.fst]).foldlM (Script.call target) ([], start) = _
    rw [List.foldlM_append, h.play]
    show [layer.map Prod.fst].foldlM (Script.call target) (log.values, log.state) = _
    rw [List.foldlM_cons, Script.call, Layer.map?_map hp]
    rfl

theorem getElem?_of_prefix {values values' : List α} (h : values <+: values') {i : Nat} {value : α}
    (hv : values[i]? = some value) : values'[i]? = some value := by
  obtain ⟨later, rfl⟩ := h
  rw [List.getElem?_append_left (List.getElem?_eq_some_iff.1 hv).1]
  exact hv

/-- **Values stay where they are in the log**, and what is built is found there. -/
theorem Log.Sound.builds {values : List (Nat × α)} (h : log.Sound target start)
    (hb : target.logged.Builds log values log') : log'.Sound target start ∧ log.values <+: log'.values ∧
      ∀ v ∈ values, log'.values[v.1]? = some v.2 := by
  induction hb with
  | nil => exact ⟨h, List.prefix_rfl, fun v hv => (by cases hv)⟩
  | @cons before between after layer values _ _ ihp ihr =>
    obtain ⟨hs, hpre, hv⟩ := ihp h
    obtain ⟨hs', hpre', hv'⟩ := ihr (hs.build hv)
    have hnew : (target.logged.build layer between).2.values[(target.logged.build layer between).1.1]? =
        some (target.logged.build layer between).1.2 := by
      show (between.values ++ [_])[between.calls.length]? = some _
      rw [← hs.length_eq, List.getElem?_concat_length]
      rfl
    refine ⟨hs', hpre.trans ((List.prefix_append _ _).trans hpre'), List.forall_mem_cons.2 ⟨?_, hv'⟩⟩
    exact getElem?_of_prefix hpre' hnew

/-- With a log or without, a target builds the same. -/
theorem logged_simulates (target : Target σ α) :
    target.logged.Simulates (fun v value => v.2 = value) (fun log state => log.state = state) target := by
  rintro both log _ hr rfl
  have hb : (both.map Prod.fst).map Prod.snd = both.map Prod.snd :=
    (both.map_map _ _).trans (Layer.map_congr hr)
  show (target.build _ log.state).1 = _ ∧ (target.build _ log.state).2 = _
  rw [hb]
  exact ⟨rfl, rfl⟩

/-- A log has the calls of the journal. -/
theorem logged_simulates_journal (target : Target σ α) :
    target.logged.Simulates (fun v number => v.1 = number)
      (fun log j => j.calls.toList = log.calls.map Call.build) Journal.target := by
  intro both log j hr hs
  have hb : (both.map Prod.fst).map Prod.fst = both.map Prod.snd :=
    (both.map_map _ _).trans (Layer.map_congr hr)
  have hsize : j.calls.size = log.calls.length := by
    rw [← Array.length_toList, hs, List.length_map]
  refine ⟨?_, ?_⟩
  · rw [Journal.value_build, hsize]
    rfl
  · show (Journal.target.build (both.map Prod.snd) j).2.calls.toList = _
    rw [Journal.calls_build, Array.toList_push, hs, ← hb]
    show _ = (log.calls ++ [_]).map Call.build
    rw [List.map_append]
    rfl

end Logged

/-! ## Passes -/

/-- **The script in the journal of a pass**, played on any target, is the pass of that target. -/
theorem play_ofJournal (q : Queries ν π) (maxDepth : Nat) (root : ν) (target : Target σ α) (state : σ) :
    (Script.ofJournal (q.unfold Journal.target maxDepth root .empty)).play target state =
      some (q.unfold target maxDepth root state) := by
  -- the target with a log stands between the two: it has the values of the target and the calls of the journal
  have hb := unfold_builds q target.logged maxDepth root ⟨[], [], state⟩
  have ht := unfold_together (.refl q) (logged_simulates target) maxDepth root trivial ⟨[], [], state⟩ state rfl
  have hj := unfold_together (.refl q) (logged_simulates_journal target) maxDepth root trivial ⟨[], [], state⟩ .empty
    rfl
  cases hl : q.unfold target.logged maxDepth root ⟨[], [], state⟩ with
  | ok value log =>
    rw [hl] at hb ht hj
    obtain ⟨hs, -, hv⟩ := (Log.sound_start target state).builds hb
    obtain ⟨_, _, ht, rfl, rfl⟩ := ht.exists_ok
    obtain ⟨_, j, hj, rfl, hcalls⟩ := hj.exists_ok
    rw [id] at ht hj
    simp only [ht, hj, Script.play, Script.ofJournal, Journal.layers_eq hcalls, hs.play]
    show (log.values[value.1]?).map _ = _
    rw [hv value (List.mem_singleton_self value)]
    rfl
  | error failure log =>
    rw [hl] at hb ht hj
    obtain ⟨left, hb⟩ := hb
    obtain ⟨hs, -, -⟩ := (Log.sound_start target state).builds hb
    obtain ⟨_, ht, rfl⟩ := ht.exists_error
    obtain ⟨j, hj, hcalls⟩ := hj.exists_error
    rw [id] at ht hj
    simp only [ht, hj, Script.play, Script.ofJournal, Journal.layers_eq hcalls, hs.play]
    rfl

/-- The calls in the journal of a pass are over the values of earlier ones. -/
theorem looksBack_ofJournal (q : Queries ν π) (maxDepth : Nat) (root : ν) :
    (Script.ofJournal (q.unfold Journal.target maxDepth root .empty)).LooksBack := by
  have hb := unfold_builds q Journal.target maxDepth root .empty
  have hfirst : Journal.empty.calls.size = 0 := rfl
  have hearlier : ∀ {roots : List Nat} {j : Journal}, Journal.target.Builds .empty roots j →
      ∀ (i : Nat) (layer : Layer Nat), j.layers[i]? = some layer → ∀ part ∈ layer.parts, part < i := by
    intro roots j hb i layer hi part hpart
    obtain ⟨calls, hj, hp⟩ := Journal.postOrder_of_builds hb
    rw [Journal.layers_eq hj] at hi
    have := hp.handedOn.later i layer hi part hpart
    omega
  cases hu : q.unfold Journal.target maxDepth root .empty with
  | ok value j =>
    rw [hu] at hb
    refine ⟨hearlier hb, fun root hr => ?_⟩
    obtain ⟨calls, hj, hp⟩ := Journal.postOrder_of_builds hb
    have := hp.root_eq
    cases hr
    show value < j.layers.length
    rw [Journal.layers_eq hj]
    omega
  | error failure j =>
    rw [hu] at hb
    obtain ⟨left, hb⟩ := hb
    exact ⟨hearlier hb, fun root hr => (by cases hr)⟩

/-- **A target never has a say in the walk.** For every type graph, root and depth limit there is one script, over the
values of earlier calls only, whose play on any target and from any state is the pass with that target: the same
value or failure, in the same state. It is the script in the journal of the pass, so that trees, with their objects in
place or by name, are the play of the journal on trees. -/
theorem unfold_eq_play (q : Queries ν π) (maxDepth : Nat) (root : ν) :
    let script := Script.ofJournal (q.unfold Journal.target maxDepth root .empty)
    script.LooksBack ∧ ∀ {σ α : Type} (target : Target σ α) (state : σ),
      script.play target state = some (q.unfold target maxDepth root state) :=
  ⟨looksBack_ofJournal q maxDepth root, fun target state => play_ofJournal q maxDepth root target state⟩

end TypeUnfolding
