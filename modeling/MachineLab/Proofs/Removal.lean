import MachineLab.Proofs.Pruning

/-!
# Removing states

The removal of a state is exact: nothing goes but the state and the transitions at it, and what stays
is as it was and in its old order.

## Main definitions

* `Ref.IsKey` — the references that can be looked up.

## Main statements

* `Machine.Arena.states_deleteState`, `Machine.transitions_deleteState` — what the removal of a state
  leaves of a machine.
* `Workshop.deletion_is_exact` — and of a workshop.
-/

namespace MachineLab

/-! ## The removal of a state -/

namespace Machine

variable {m : Machine}

/-- The transitions that are left have neither end at the state. -/
theorem transitions_deleteState (m : Machine) (id : Nat) :
    (m.deleteState id).transitions = m.transitions.filter fun t => t.source ≠ id ∧ t.target ≠ id := by
  refine List.filter_congr fun t _ => ?_
  rw [Bool.eq_iff_iff]
  simp [Transition.touches]

/-- The states that are left are the others, each with the transitions that are left. -/
theorem Arena.states_deleteState (h : m.Arena) {s : State} (hs : s ∈ m.states) :
    (m.deleteState s.id).states = (m.states.filter (· ≠ s)).map fun q =>
      { q with outgoing := q.outgoing.filter (· ∈ (m.deleteState s.id).transitions.map (·.id)) } := by
  have others : m.states.filter (·.id != s.id) = m.states.filter (· ≠ s) := by
    refine List.filter_congr fun q hq => ?_
    rw [Bool.eq_iff_iff, bne_iff_ne, decide_eq_true_eq]
    exact not_congr ⟨h.state_eq_of_id_eq hq hs, congrArg State.id⟩
  let gone := (m.transitions.filter (·.touches s.id)).map (·.id)
  calc (m.deleteState s.id).states
      = (m.states.filter (·.id != s.id)).map fun q =>
          { q with outgoing := q.outgoing.filter (!gone.contains ·) } := List.filter_map
    _ = _ := by
      rw [others]
      refine List.map_congr_left fun q hq => ?_
      congr 1
      refine List.filter_congr fun id hid => ?_
      obtain ⟨t, ht, rfl⟩ := List.mem_map.mp (h.outgoing_subset (List.mem_filter.mp hq).1 hid)
      rw [h.contains_ids_filter _ ht, ← h.contains_ids_filter (!·.touches s.id) ht]
      exact List.contains_eq_mem ..

end Machine

/-- A reference can be looked up: it is a record, or a value that can be a key. -/
def Ref.IsKey : Ref → Prop
  | .value v => v.isKey = true
  | .state _ _ | .transition _ _ => True

namespace Workshop

variable {w : Workshop} {m : MachineId} {r : Ref}

/-- A reference that can be looked up leads to a state or is refused. -/
theorem state_of_isKey (key : r.IsKey) :
    (∃ s, w.state m r = .ok s) ∨ ∃ why, w.state m r = .error (.refusal why) := by
  unfold state
  cases r with
  | value v =>
    have looked : idOf v = .ok v.index? := if_pos key
    simp only [looked, Except.map]
    cases v.index?.bind (w.machine m).state? with
    | none => exact .inr ⟨_, rfl⟩
    | some s => exact .inl ⟨s, rfl⟩
  | state owner id =>
    dsimp only
    cases if owner = m then (w.machine m).state? id else none with
    | none => exact .inr ⟨_, rfl⟩
    | some s => exact .inl ⟨s, rfl⟩
  | transition owner id => exact .inr ⟨_, rfl⟩

/-- Anything else cannot be looked up. -/
theorem state_of_not_isKey (key : ¬ r.IsKey) :
    ∃ kind, w.state m r = .error (.mismatch (.notKey kind)) := by
  cases r with
  | value v =>
    refine ⟨v.kind, ?_⟩
    simp only [state, idOf, if_neg (show ¬ v.isKey = true from key), Except.map]
  | state owner id => exact absurd trivial key
  | transition owner id => exact absurd trivial key

/-- Live states can be referred to, by their records and by their identifiers. -/
theorem state_of_mem (arena : (w.machine m).Arena) {s : State} (hs : s ∈ (w.machine m).states) :
    w.state m (.state m s.id) = .ok s ∧ w.state m (.value (.int s.id)) = .ok s := by
  have found : (w.machine m).state? s.id = some s := arena.state?_eq_some_iff.mpr ⟨hs, rfl⟩
  have value : (Ref.value (.int s.id)).stateId? m = some s.id := by
    simp [Ref.stateId?, idOf, Value.isKey, Value.index?, Except.toOption]
  exact ⟨state_eq_ok_iff.mpr ⟨s.id, if_pos rfl, found⟩, state_eq_ok_iff.mpr ⟨s.id, value, found⟩⟩

/-- **The removal of a state is exact.**  Live states can be referred to.  If a reference leads to a
state, the states that are left are the others, the transitions that are left are those with neither end
at it, and both are as they were and in their old order; only the transitions that went are missing
from the lists of the states.  Nothing else changes, but that one edit is counted.  A reference that
leads nowhere changes nothing.  The records are taken out one at a time, and none of them is missing. -/
theorem deletion_is_exact (h : w.Reachable) (hm : m.index < w.machines.length) (r : Ref)
    (j : Journal) :
    let old := w.machine m
    let b := after (Work.deleteState m r) ⟨w, j⟩
    let new := b.shop.machine m
    (∀ s ∈ old.states,
      w.state m (.state m s.id) = .ok s ∧ w.state m (.value (.int s.id)) = .ok s) ∧
    (∀ s, w.state m r = .ok s →
      s ∈ old.states ∧ outcome (Work.deleteState m r) ⟨w, j⟩ = .ok true ∧
      new.states = (old.states.filter (· ≠ s)).map (fun q =>
        { q with outgoing := q.outgoing.filter (· ∈ new.transitions.map (·.id)) }) ∧
      new.transitions = old.transitions.filter (fun t => t.source ≠ s.id ∧ t.target ≠ s.id) ∧
      new.kind = old.kind ∧ new.name = old.name ∧ new.alphabet = old.alphabet ∧
      new.nextState = old.nextState ∧ new.nextTransition = old.nextTransition ∧
      new.revision = old.revision + 1 ∧ new.validated = none ∧
      b.shop.alphabets = w.alphabets ∧ (∀ n, n ≠ m → b.shop.machine n = w.machine n) ∧
      b.shop.machines.length = w.machines.length ∧ b.journal = j) ∧
    (r.IsKey → (∀ s, w.state m r ≠ .ok s) → Work.deleteState m r ⟨w, j⟩ = .ok false ⟨w, j⟩) ∧
    (¬ r.IsKey → ∃ e, Work.deleteState m r ⟨w, j⟩ = .error e ⟨w, j⟩) ∧
    (∀ s, w.state m r = .ok s →
      InPlace.deleteState s.id old = .ok () (old.deleteState s.id) ∧
      Work.deleteState m r ⟨w, j⟩ = .ok true ⟨w.setMachine m (old.deleteState s.id), j⟩) := by
  intro old b new
  have arena : old.Arena := h.good.sane.arena m
  have removes := Work.deleteState_eq (b := ⟨w, j⟩) arena r
  have done {s : State} (hr : w.state m r = .ok s) :
      Work.deleteState m r ⟨w, j⟩ = .ok true ⟨w.setMachine m (old.deleteState s.id), j⟩ := by
    rw [removes, hr]
    rfl
  refine ⟨fun s hs => state_of_mem arena hs, fun s hr => ?_, fun key nowhere => ?_, fun key => ?_,
    fun s hr => ⟨arena.deleteState_eq (mem_of_state hr), done hr⟩⟩
  · have hs : s ∈ old.states := mem_of_state hr
    have left : b = ⟨w.setMachine m (old.deleteState s.id), j⟩ := after_of_ok (done hr)
    have here : new = old.deleteState s.id := by
      change b.shop.machine m = _
      rw [left]
      exact w.machine_setMachine_self m _ hm
    refine ⟨hs, outcome_of_ok (done hr), ?_⟩
    rw [here, left]
    exact ⟨arena.states_deleteState hs, old.transitions_deleteState s.id, rfl, rfl, rfl, rfl, rfl, rfl, rfl,
      rfl, fun n other => w.machine_setMachine_of_ne m n _ other, w.length_setMachine m _, rfl⟩
  · rcases state_of_isKey (w := w) (m := m) key with ⟨s, hs⟩ | ⟨why, refused⟩
    · exact absurd hs (nowhere s)
    · rw [removes, refused]
      rfl
  · obtain ⟨kind, refused⟩ := state_of_not_isKey (w := w) (m := m) key
    rw [removes, refused]
    exact ⟨_, rfl⟩

/-- Two machines.  In the middle state of the first, transitions come in, go out and lead back, and some
of them run side by side. -/
def multigraph : Bench :=
  Command.runAll
    [ .newMachine .turing (.text "first") none,
      .addState ⟨0⟩ "a" true false, .addState ⟨0⟩ "b" false false, .addState ⟨0⟩ "c" false true,
      .addTransition ⟨0⟩ (.state ⟨0⟩ 0) (.state ⟨0⟩ 1) (.move .right (.text "0")),
      .addTransition ⟨0⟩ (.state ⟨0⟩ 1) (.state ⟨0⟩ 1) (.move .right (.text "0")),
      .addTransition ⟨0⟩ (.state ⟨0⟩ 0) (.state ⟨0⟩ 2) (.move .left (.text "1")),
      .addTransition ⟨0⟩ (.state ⟨0⟩ 1) (.state ⟨0⟩ 1) (.write (.text "1") (.text "0")),
      .addTransition ⟨0⟩ (.state ⟨0⟩ 2) (.state ⟨0⟩ 1) (.move .right (.text "0")),
      .addTransition ⟨0⟩ (.state ⟨0⟩ 1) (.state ⟨0⟩ 2) (.move .right (.text "_")),
      .addTransition ⟨0⟩ (.state ⟨0⟩ 0) (.state ⟨0⟩ 1) (.move .right (.text "_")),
      .addTransition ⟨0⟩ (.state ⟨0⟩ 2) (.state ⟨0⟩ 0) (.move .right (.text "1")),
      .newMachine .turing (.text "second") none, .addState ⟨1⟩ "d" true true ]
    ⟨Workshop.empty, Journal.empty⟩

/-- Of the eight transitions two are left without the middle state.  A state of another machine leads
nowhere. -/
theorem multigraph_is_cut :
    let b := after (Work.deleteState ⟨0⟩ (.state ⟨0⟩ 1)) multigraph
    multigraph.shop.Reachable ∧ outcome (Work.deleteState ⟨0⟩ (.state ⟨0⟩ 1)) multigraph = .ok true ∧
    (b.shop.machine ⟨0⟩).transitions =
      (multigraph.shop.machine ⟨0⟩).transitions.filter (fun t => t.source ≠ 1 ∧ t.target ≠ 1) ∧
    (b.shop.machine ⟨0⟩).transitions.map (·.id) = [2, 7] ∧
    (b.shop.machine ⟨0⟩).states.map (fun s => (s.id, s.outgoing)) = [(0, [2]), (2, [7])] ∧
    InPlace.deleteState 1 (multigraph.shop.machine ⟨0⟩) =
      .ok () ((multigraph.shop.machine ⟨0⟩).deleteState 1) ∧
    Work.deleteState ⟨0⟩ (.state ⟨1⟩ 0) multigraph = .ok false multigraph := by
  intro b
  have reachable : multigraph.shop.Reachable := .runAll .empty (by decide +kernel)
  have middle : multigraph.shop.state ⟨0⟩ (.state ⟨0⟩ 1) = .ok
      { id := 1, label := "b", isStart := false, isFinal := false, outgoing := [1, 3, 5]
        submachine := none } := eq_ok_of_toOption (by decide +kernel)
  have elsewhere : (multigraph.shop.state ⟨0⟩ (.state ⟨1⟩ 0)).toOption = none := by decide +kernel
  obtain ⟨-, found, -, -, steps⟩ :=
    deletion_is_exact reachable (m := ⟨0⟩) (by decide +kernel) (.state ⟨0⟩ 1) multigraph.journal
  obtain ⟨-, yes, -, left, -⟩ := found _ middle
  obtain ⟨-, -, foreign, -⟩ :=
    deletion_is_exact reachable (m := ⟨0⟩) (by decide +kernel) (.state ⟨1⟩ 0) multigraph.journal
  refine ⟨reachable, yes, left, by decide +kernel, by decide +kernel, (steps _ middle).1,
    foreign trivial ?_⟩
  intro s hs
  rw [hs] at elsewhere
  cases elsewhere

end Workshop

end MachineLab
