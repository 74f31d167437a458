import MachineLab.Machine.Basic
import Mathlib.Data.List.Pairwise

/-!
# The arena of a machine

A machine keeps its states and transitions twice over: each transition is listed in the machine and
in the state that it leaves.  `Machine.Arena` says that the two agree and that both arenas are in the
order in which their identifiers were issued.  Every edit keeps it, so lookups by identifier and the
transitions that leave a state have simple descriptions.

## Main definitions

* `Machine.Arena` — the invariant.
* `Machine.exits`, `Machine.choice?` — the transitions out of a state, and the one to take.
* `Machine.deleteState`, `Machine.deleteTransition` — what removals leave.
* `Machine.Edit` — what can be done to a machine.

## Main statements

* `Machine.Arena.edit` — every edit keeps the invariant.
* `Machine.Arena.state?_eq_some_iff`, `transition?_eq_some_iff`, `leaving_eq` — lookups, none of which
  fails.
-/

namespace MachineLab

/-- In a list in the order of its keys, the first entry with a key is the only one. -/
theorem find?_key_eq_some_iff {α : Type} (key : α → Nat) {l : List α}
    (increasing : l.Pairwise fun x y => key x < key y) {k : Nat} {x : α} :
    l.find? (key · == k) = some x ↔ x ∈ l ∧ key x = k := by
  constructor
  · intro h
    exact ⟨List.mem_of_find?_eq_some h, by simpa using List.find?_some h⟩
  · rintro ⟨hx, rfl⟩
    induction l with
    | nil => cases hx
    | cons y rest ih =>
      rw [List.pairwise_cons] at increasing
      rcases List.mem_cons.mp hx with rfl | hx
      · simp
      · have hne : key y ≠ key x := Nat.ne_of_lt (increasing.1 x hx)
        rw [List.find?_cons_of_neg (by simpa using hne)]
        exact ih increasing.2 hx

namespace Machine

/-- The two records of the transitions agree, the ends of transitions are live, and both arenas are
in the order of issue.  Acceptors hold no machines. -/
structure Arena (m : Machine) : Prop where
  states_increasing : m.states.Pairwise fun s s' => s.id < s'.id
  state_issued : ∀ s ∈ m.states, s.id < m.nextState
  transitions_increasing : m.transitions.Pairwise fun t t' => t.id < t'.id
  transition_issued : ∀ t ∈ m.transitions, t.id < m.nextTransition
  source_live : ∀ t ∈ m.transitions, ∃ s ∈ m.states, s.id = t.source
  target_live : ∀ t ∈ m.transitions, ∃ s ∈ m.states, s.id = t.target
  outgoing_eq : ∀ s ∈ m.states, s.outgoing = (m.transitions.filter (·.source == s.id)).map (·.id)
  action_kind : ∀ t ∈ m.transitions, t.action.kind = m.kind
  flat : m.kind = .acceptor → ∀ s ∈ m.states, s.submachine = none

/-- The live transitions with a state as their source, in the order of issue. -/
def exits (m : Machine) (s : State) : List Transition := m.transitions.filter (·.source == s.id)

/-- The one among them to take on a symbol. -/
def choice? (m : Machine) (s : State) (symbol : Symbol) : Option Transition :=
  pick m.kind (m.exits s) symbol

variable {m : Machine}

theorem mem_exits {s : State} {t : Transition} :
    t ∈ m.exits s ↔ t ∈ m.transitions ∧ t.source = s.id := by
  simp [exits]

theorem exits_subset (m : Machine) (s : State) : m.exits s ⊆ m.transitions :=
  fun _ ht => (mem_exits.mp ht).1

/-! ## Lookups -/

namespace Arena

theorem state?_eq_some_iff (h : m.Arena) {id : Nat} {s : State} :
    m.state? id = some s ↔ s ∈ m.states ∧ s.id = id :=
  find?_key_eq_some_iff State.id h.states_increasing

theorem transition?_eq_some_iff (h : m.Arena) {id : Nat} {t : Transition} :
    m.transition? id = some t ↔ t ∈ m.transitions ∧ t.id = id :=
  find?_key_eq_some_iff Transition.id h.transitions_increasing

theorem state_eq_of_id_eq (h : m.Arena) {s s' : State} (hs : s ∈ m.states) (hs' : s' ∈ m.states)
    (same : s.id = s'.id) : s = s' := by
  have found := h.state?_eq_some_iff.mpr ⟨hs, same⟩
  rw [h.state?_eq_some_iff.mpr ⟨hs', rfl⟩] at found
  exact (Option.some.inj found).symm

theorem transition_eq_of_id_eq (h : m.Arena) {t t' : Transition} (ht : t ∈ m.transitions)
    (ht' : t' ∈ m.transitions) (same : t.id = t'.id) : t = t' := by
  have found := h.transition?_eq_some_iff.mpr ⟨ht, same⟩
  rw [h.transition?_eq_some_iff.mpr ⟨ht', rfl⟩] at found
  exact (Option.some.inj found).symm

/-- The state at a live end is found. -/
theorem endpoint_eq (h : m.Arena) {s : State} (hs : s ∈ m.states) : m.endpoint s.id = .ok s := by
  rw [endpoint, h.state?_eq_some_iff.mpr ⟨hs, rfl⟩]

theorem exists_target (h : m.Arena) {t : Transition} (ht : t ∈ m.transitions) :
    ∃ s ∈ m.states, m.endpoint t.target = .ok s := by
  obtain ⟨s, hs, hid⟩ := h.target_live t ht
  exact ⟨s, hs, hid ▸ h.endpoint_eq hs⟩

/-- A live transition can be described. -/
theorem exists_description (h : m.Arena) {t : Transition} (ht : t ∈ m.transitions) :
    ∃ text, m.describe t = .ok text := by
  obtain ⟨s, hs, source⟩ := h.source_live t ht
  obtain ⟨s', hs', target⟩ := h.target_live t ht
  have ends : m.endpoint t.source = .ok s ∧ m.endpoint t.target = .ok s' :=
    ⟨source ▸ h.endpoint_eq hs, target ▸ h.endpoint_eq hs'⟩
  simp only [describe, ends, bind, Except.bind]
  cases m.kind <;> exact ⟨_, rfl⟩

/-- Live transitions are found by their identifiers. -/
theorem mapM_listed (h : m.Arena) {ts : List Transition} (live : ts ⊆ m.transitions) :
    (ts.map (·.id)).mapM m.listed = .ok ts := by
  induction ts with
  | nil => rfl
  | cons t rest ih =>
    rw [List.cons_subset] at live
    have first : m.listed t.id = .ok t := by
      rw [listed, h.transition?_eq_some_iff.mpr ⟨live.1, rfl⟩]
    rw [List.map_cons, List.mapM_cons, first, ih live.2]
    rfl

/-- **Every transition that a state lists is found**, and they are the live ones with the state as their
source. -/
theorem leaving_eq (h : m.Arena) {s : State} (hs : s ∈ m.states) : m.leaving s = .ok (m.exits s) := by
  rw [leaving, h.outgoing_eq s hs]
  exact h.mapM_listed (m.exits_subset s)

theorem resolve?_eq (h : m.Arena) {s : State} (hs : s ∈ m.states) (symbol : Symbol) :
    m.resolve? s symbol = .ok (m.choice? s symbol) := by
  rw [resolve?, h.leaving_eq hs]
  rfl

end Arena

/-! ## Edits -/

theorem arena_empty (kind : Kind) (name : Value) (a : AlphabetId) :
    (Machine.empty kind name a).Arena := by
  constructor <;> simp [Machine.empty]

theorem Arena.touch (h : m.Arena) : m.touch.Arena := ⟨h.1, h.2, h.3, h.4, h.5, h.6, h.7, h.8, h.9⟩

/-- A machine with another memory of having been found valid. -/
def remembering (m : Machine) (memo : Option RevisionKey) : Machine :=
  { m with validated := memo }

theorem Arena.remembering (h : m.Arena) (memo : Option RevisionKey) :
    (m.remembering memo).Arena := ⟨h.1, h.2, h.3, h.4, h.5, h.6, h.7, h.8, h.9⟩

theorem Arena.setAlphabet (h : m.Arena) (a : AlphabetId) : (m.setAlphabet a).Arena :=
  ⟨h.1, h.2, h.3, h.4, h.5, h.6, h.7, h.8, h.9⟩

/-- Changing a state keeps the invariant if its identifier and its outgoing transitions stay. -/
theorem Arena.updateState (h : m.Arena) (id : Nat) (f : State → State)
    (keepId : ∀ s, (f s).id = s.id) (keepOutgoing : ∀ s, (f s).outgoing = s.outgoing)
    (keepFlat : m.kind = .acceptor → ∀ s, s.submachine = none → (f s).submachine = none) :
    (m.updateState id f).Arena := by
  let g : State → State := fun s => if s.id = id then f s else s
  have gid : ∀ s, (g s).id = s.id := by
    intro s
    by_cases hs : s.id = id <;> simp [g, hs, keepId]
  have gout : ∀ s, (g s).outgoing = s.outgoing := by
    intro s
    by_cases hs : s.id = id <;> simp [g, hs, keepOutgoing]
  have states_eq : (m.updateState id f).states = m.states.map g := rfl
  have live : ∀ n, (∃ s ∈ m.states, s.id = n) → ∃ s ∈ m.states.map g, s.id = n := by
    rintro n ⟨s, hs, rfl⟩
    exact ⟨g s, List.mem_map_of_mem hs, gid s⟩
  constructor
  · rw [states_eq, List.pairwise_map]
    exact h.states_increasing.imp fun {s s'} lt => by rw [gid, gid]; exact lt
  · intro s hs
    obtain ⟨s₀, hs₀, rfl⟩ := List.mem_map.mp hs
    exact (gid s₀).symm ▸ h.state_issued s₀ hs₀
  · exact h.transitions_increasing
  · exact h.transition_issued
  · exact fun t ht => live _ (h.source_live t ht)
  · exact fun t ht => live _ (h.target_live t ht)
  · intro s hs
    obtain ⟨s₀, hs₀, rfl⟩ := List.mem_map.mp hs
    change (g s₀).outgoing = (m.transitions.filter (·.source == (g s₀).id)).map (·.id)
    rw [gid, gout]
    exact h.outgoing_eq s₀ hs₀
  · exact h.action_kind
  · intro hk s hs
    obtain ⟨s₀, hs₀, rfl⟩ := List.mem_map.mp hs
    change (g s₀).submachine = none
    have flat := h.flat hk s₀ hs₀
    by_cases hid : s₀.id = id
    · simpa [g, hid] using keepFlat hk s₀ flat
    · simpa [g, hid] using flat

theorem Arena.setSubmachine (h : m.Arena) (id : Nat) (inner : Option MachineId)
    (nestable : m.kind = .turing ∨ inner = none) : (m.setSubmachine id inner).Arena := by
  refine Arena.touch (h.updateState id (fun s => { s with submachine := inner })
    (fun _ => rfl) (fun _ => rfl) ?_)
  intro hk s _
  rcases nestable with turing | rfl
  · rw [hk] at turing
    cases turing
  · rfl

theorem Arena.addState (h : m.Arena) (label : String) (isStart isFinal : Bool) :
    (m.addState label isStart isFinal).1.Arena := by
  have old : ∀ n, (∃ s ∈ m.states, s.id = n) →
      ∃ s ∈ (m.addState label isStart isFinal).1.states, s.id = n := by
    rintro n ⟨s, hs, rfl⟩
    exact ⟨s, List.mem_append_left _ hs, rfl⟩
  constructor
  · refine List.pairwise_append.mpr ⟨h.states_increasing, List.pairwise_singleton _ _, ?_⟩
    intro s hs s' hs'
    rw [List.mem_singleton.mp hs']
    exact h.state_issued s hs
  · intro s hs
    rcases List.mem_append.mp hs with hs | hs
    · exact Nat.lt_succ_of_lt (h.state_issued s hs)
    · rw [List.mem_singleton.mp hs]
      exact Nat.lt_succ_self _
  · exact h.transitions_increasing
  · exact h.transition_issued
  · exact fun t ht => old _ (h.source_live t ht)
  · exact fun t ht => old _ (h.target_live t ht)
  · intro s hs
    rcases List.mem_append.mp hs with hs | hs
    · exact h.outgoing_eq s hs
    · -- No transition leaves a state that was not there before.
      rw [List.mem_singleton.mp hs]
      have none : m.transitions.filter (·.source == m.nextState) = [] := by
        refine List.filter_eq_nil_iff.mpr fun t ht => ?_
        obtain ⟨s', hs', hid⟩ := h.source_live t ht
        have := h.state_issued s' hs'
        simp only [beq_iff_eq]
        omega
      exact (congrArg (List.map (·.id)) none).symm
  · exact h.action_kind
  · intro hk s hs
    rcases List.mem_append.mp hs with hs | hs
    · exact h.flat hk s hs
    · rw [List.mem_singleton.mp hs]

theorem Arena.addTransition (h : m.Arena) {source target : Nat} {action : Action}
    (hsource : ∃ s ∈ m.states, s.id = source) (htarget : ∃ s ∈ m.states, s.id = target)
    (hkind : action.kind = m.kind) : (m.addTransition source target action).1.Arena := by
  let g : State → State := fun s =>
    if s.id = source then { s with outgoing := s.outgoing ++ [m.nextTransition] } else s
  let new : Transition := { id := m.nextTransition, source, target, action }
  have gid : ∀ s, (g s).id = s.id := by
    intro s
    by_cases hs : s.id = source <;> simp [g, hs]
  have gsub : ∀ s, (g s).submachine = s.submachine := by
    intro s
    by_cases hs : s.id = source <;> simp [g, hs]
  have live : ∀ n, (∃ s ∈ m.states, s.id = n) → ∃ s ∈ m.states.map g, s.id = n := by
    rintro n ⟨s, hs, rfl⟩
    exact ⟨g s, List.mem_map_of_mem hs, gid s⟩
  constructor
  · change (m.states.map g).Pairwise _
    rw [List.pairwise_map]
    exact h.states_increasing.imp fun {s s'} lt => by rw [gid, gid]; exact lt
  · intro s hs
    obtain ⟨s₀, hs₀, rfl⟩ := List.mem_map.mp hs
    exact (gid s₀).symm ▸ h.state_issued s₀ hs₀
  · refine List.pairwise_append.mpr ⟨h.transitions_increasing, List.pairwise_singleton _ _, ?_⟩
    intro t ht t' ht'
    rw [List.mem_singleton.mp ht']
    exact h.transition_issued t ht
  · intro t ht
    rcases List.mem_append.mp ht with ht | ht
    · exact Nat.lt_succ_of_lt (h.transition_issued t ht)
    · rw [List.mem_singleton.mp ht]
      exact Nat.lt_succ_self _
  · intro t ht
    rcases List.mem_append.mp ht with ht | ht
    · exact live _ (h.source_live t ht)
    · rw [List.mem_singleton.mp ht]
      exact live _ hsource
  · intro t ht
    rcases List.mem_append.mp ht with ht | ht
    · exact live _ (h.target_live t ht)
    · rw [List.mem_singleton.mp ht]
      exact live _ htarget
  · intro s hs
    obtain ⟨s₀, hs₀, rfl⟩ := List.mem_map.mp hs
    change (g s₀).outgoing = ((m.transitions ++ [new]).filter (·.source == (g s₀).id)).map (·.id)
    rw [gid, List.filter_append, List.map_append, ← h.outgoing_eq s₀ hs₀]
    by_cases hid : s₀.id = source
    · simp [g, hid, new]
    · simp [g, hid, new, Ne.symm hid]
  · intro t ht
    rcases List.mem_append.mp ht with ht | ht
    · exact h.action_kind t ht
    · rw [List.mem_singleton.mp ht]
      exact hkind
  · intro hk s hs
    obtain ⟨s₀, hs₀, rfl⟩ := List.mem_map.mp hs
    exact (gsub s₀).trans (h.flat hk s₀ hs₀)

/-- A machine without the transitions that satisfy `doomed`, and without their identifiers in the lists
of its states. -/
def removeTransitions (m : Machine) (doomed : Transition → Bool) : Machine :=
  let gone := m.transitions.filter doomed
  let goneIds := gone.map (·.id)
  { m with
    transitions := m.transitions.filter (!doomed ·)
    states := m.states.map fun s => { s with outgoing := s.outgoing.filter (!goneIds.contains ·) }
    removedTransitions := m.removedTransitions ++ gone }

/-- What the removal of a state leaves: neither the state nor a transition that enters or leaves it. -/
def deleteState (m : Machine) (id : Nat) : Machine :=
  let m := m.removeTransitions (·.touches id)
  touch { m with
    states := m.states.filter (·.id != id)
    removedStates := m.removedStates ++ m.states.filter (·.id == id) }

/-- What the removal of a transition leaves. -/
def deleteTransition (m : Machine) (id : Nat) : Machine :=
  (m.removeTransitions (·.id == id)).touch

/-- Taking transitions out of the machine takes their identifiers out of the states that they
leave. -/
theorem Arena.removeTransitions (h : m.Arena) (doomed : Transition → Bool) :
    (m.removeTransitions doomed).Arena := by
  let gone := (m.transitions.filter doomed).map (·.id)
  let g : State → State := fun s => { s with outgoing := s.outgoing.filter (!gone.contains ·) }
  have live : ∀ n, (∃ s ∈ m.states, s.id = n) → ∃ s ∈ m.states.map g, s.id = n := by
    rintro n ⟨s, hs, rfl⟩
    exact ⟨g s, List.mem_map_of_mem hs, rfl⟩
  -- An identifier is gone exactly if its transition is doomed, since no two share one.
  have mem_gone : ∀ t ∈ m.transitions, gone.contains t.id = doomed t := by
    intro t ht
    rw [Bool.eq_iff_iff, List.contains_iff_mem]
    constructor
    · intro hmem
      obtain ⟨t', ht', hid⟩ := List.mem_map.mp hmem
      obtain ⟨ht', hd⟩ := List.mem_filter.mp ht'
      have same : m.transition? t.id = some t' := h.transition?_eq_some_iff.mpr ⟨ht', hid⟩
      rw [h.transition?_eq_some_iff.mpr ⟨ht, rfl⟩] at same
      exact (Option.some.inj same).symm ▸ hd
    · exact fun hd => List.mem_map.mpr ⟨t, List.mem_filter.mpr ⟨ht, hd⟩, rfl⟩
  constructor
  · change (m.states.map g).Pairwise _
    rw [List.pairwise_map]
    exact h.states_increasing
  · intro s hs
    obtain ⟨s₀, hs₀, rfl⟩ := List.mem_map.mp hs
    exact h.state_issued s₀ hs₀
  · exact h.transitions_increasing.filter _
  · exact fun t ht => h.transition_issued t (List.mem_filter.mp ht).1
  · exact fun t ht => live _ (h.source_live t (List.mem_filter.mp ht).1)
  · exact fun t ht => live _ (h.target_live t (List.mem_filter.mp ht).1)
  · intro s hs
    obtain ⟨s₀, hs₀, rfl⟩ := List.mem_map.mp hs
    change s₀.outgoing.filter (!gone.contains ·) =
      ((m.transitions.filter (!doomed ·)).filter (·.source == s₀.id)).map (·.id)
    rw [h.outgoing_eq s₀ hs₀, List.filter_map, List.filter_filter, List.filter_filter]
    congr 1
    refine List.filter_congr fun t ht => ?_
    simp only [Function.comp_apply, mem_gone t ht]
    exact Bool.and_comm _ _
  · exact fun t ht => h.action_kind t (List.mem_filter.mp ht).1
  · intro hk s hs
    obtain ⟨s₀, hs₀, rfl⟩ := List.mem_map.mp hs
    exact h.flat hk s₀ hs₀

theorem Arena.deleteTransition (h : m.Arena) (id : Nat) : (m.deleteTransition id).Arena :=
  (h.removeTransitions _).touch

theorem Arena.deleteState (h : m.Arena) (id : Nat) : (m.deleteState id).Arena := by
  have hr := h.removeTransitions (·.touches id)
  have kept : ∀ t ∈ (m.removeTransitions (·.touches id)).transitions,
      t.source ≠ id ∧ t.target ≠ id := by
    intro t ht
    have := (List.mem_filter.mp ht).2
    simpa [Transition.touches] using this
  have live : ∀ n, n ≠ id → (∃ s ∈ (m.removeTransitions (·.touches id)).states, s.id = n) →
      ∃ s ∈ (m.deleteState id).states, s.id = n := by
    rintro n hne ⟨s, hs, rfl⟩
    exact ⟨s, List.mem_filter.mpr ⟨hs, by simpa using hne⟩, rfl⟩
  have sub : ∀ s ∈ (m.deleteState id).states,
      s ∈ (m.removeTransitions (·.touches id)).states := fun s hs => (List.mem_filter.mp hs).1
  constructor
  · exact hr.states_increasing.filter _
  · exact fun s hs => hr.state_issued s (sub s hs)
  · exact hr.transitions_increasing
  · exact hr.transition_issued
  · exact fun t ht => live _ (kept t ht).1 (hr.source_live t ht)
  · exact fun t ht => live _ (kept t ht).2 (hr.target_live t ht)
  · exact fun s hs => hr.outgoing_eq s (sub s hs)
  · exact hr.action_kind
  · exact fun hk s hs => hr.flat hk s (sub s hs)

theorem Arena.setAction (h : m.Arena) (id : Nat) {action : Action} (hkind : action.kind = m.kind) :
    (m.setAction id action).Arena := by
  let g : Transition → Transition := fun t => if t.id = id then { t with action } else t
  have gid : ∀ t, (g t).id = t.id ∧ (g t).source = t.source ∧ (g t).target = t.target := by
    intro t
    by_cases ht : t.id = id <;> simp [g, ht]
  constructor
  · exact h.states_increasing
  · exact h.state_issued
  · change (m.transitions.map g).Pairwise _
    rw [List.pairwise_map]
    exact h.transitions_increasing.imp fun {t t'} lt => by
      rw [(gid t).1, (gid t').1]
      exact lt
  · intro t ht
    obtain ⟨t₀, ht₀, rfl⟩ := List.mem_map.mp ht
    exact (gid t₀).1.symm ▸ h.transition_issued t₀ ht₀
  · intro t ht
    obtain ⟨t₀, ht₀, rfl⟩ := List.mem_map.mp ht
    exact (gid t₀).2.1.symm ▸ h.source_live t₀ ht₀
  · intro t ht
    obtain ⟨t₀, ht₀, rfl⟩ := List.mem_map.mp ht
    exact (gid t₀).2.2.symm ▸ h.target_live t₀ ht₀
  · intro s hs
    change s.outgoing = ((m.transitions.map g).filter (·.source == s.id)).map (·.id)
    rw [List.filter_map, List.map_map, h.outgoing_eq s hs]
    have same : ((fun t : Transition => t.source == s.id) ∘ g) = (·.source == s.id) := by
      funext t
      simp only [Function.comp_apply, (gid t).2.1]
    rw [same]
    exact List.map_congr_left fun t _ => (gid t).1.symm
  · intro t ht
    obtain ⟨t₀, ht₀, rfl⟩ := List.mem_map.mp ht
    change (g t₀).action.kind = m.kind
    by_cases hid : t₀.id = id
    · simp [g, hid, hkind]
    · simpa [g, hid] using h.action_kind t₀ ht₀
  · exact h.flat

/-- What can be done to a machine without looking at others: the edits on live records, and
forgetting a verdict. -/
inductive Edit (m : Machine) : Machine → Prop
  | addState (label : String) (isStart isFinal : Bool) : Edit m (m.addState label isStart isFinal).1
  | deleteState (id : Nat) : Edit m (m.deleteState id)
  | addTransition {source target : Nat} {action : Action}
      (hsource : ∃ s ∈ m.states, s.id = source) (htarget : ∃ s ∈ m.states, s.id = target)
      (hkind : action.kind = m.kind) : Edit m (m.addTransition source target action).1
  | deleteTransition (id : Nat) : Edit m (m.deleteTransition id)
  | setAction (id : Nat) {action : Action} (hkind : action.kind = m.kind) :
      Edit m (m.setAction id action)
  | setStart (id : Nat) (value : Bool) : Edit m (m.setStart id value)
  | setFinal (id : Nat) (value : Bool) : Edit m (m.setFinal id value)
  | setLabel (id : Nat) (label : String) : Edit m (m.setLabel id label)
  | detach (id : Nat) : Edit m (m.setSubmachine id none)
  | invalidate : Edit m m.invalidate

/-- **Every edit keeps the arena in order.** -/
theorem Arena.edit (h : m.Arena) {m' : Machine} (e : m.Edit m') : m'.Arena := by
  cases e with
  | addState label isStart isFinal => exact h.addState label isStart isFinal
  | deleteState id => exact h.deleteState id
  | addTransition hsource htarget hkind => exact h.addTransition hsource htarget hkind
  | deleteTransition id => exact h.deleteTransition id
  | setAction id hkind => exact h.setAction id hkind
  | setStart id value =>
    exact Arena.touch (h.updateState id (fun s => { s with isStart := value })
      (fun _ => rfl) (fun _ => rfl) (fun _ _ flat => flat))
  | setFinal id value =>
    exact Arena.touch (h.updateState id (fun s => { s with isFinal := value })
      (fun _ => rfl) (fun _ => rfl) (fun _ _ flat => flat))
  | setLabel id label =>
    exact h.updateState id (fun s => { s with label }) (fun _ => rfl) (fun _ => rfl)
      (fun _ _ flat => flat)
  | detach id => exact h.setSubmachine id none (.inr rfl)
  | invalidate => exact h.remembering none

/-- No edit turns a machine into one of the other kind. -/
theorem Edit.kind_eq {m' : Machine} (e : m.Edit m') : m'.kind = m.kind := by
  cases e <;> rfl

/-- No edit gives a machine another alphabet. -/
theorem Edit.alphabet_eq {m' : Machine} (e : m.Edit m') : m'.alphabet = m.alphabet := by
  cases e <;> rfl

end Machine

end MachineLab
