import MachineLab.Proofs.Invariants

/-!
# Identifiers

A machine issues an identifier for each state and each transition, and nothing ever refers to a record
in another way.  All lookups go through it, so it matters that the records are in their place and that
an identifier, once issued, stands for one record forever.

`Machine.Registered` says how the records are kept: each under its identifier, each transition listed
once and only with the state that it leaves, everything in the order of issue.  `Machine.Successor`
says what edits cannot do: issue an identifier again, or bring back a record that is gone.

## Main definitions

* `Machine.Registered` — how a machine keeps its records.
* `Machine.Successor` — a machine is what edits made of another.

## Main statements

* `Machine.Arena.registered` — the records of a machine in order are in their place.
* `Workshop.Changes.successor` — nothing that happens in a workshop brings a record back.
* `Workshop.identifiers_stand_for_one_record` — references never change what they are about.
-/

namespace MachineLab

namespace Machine

/-! ## Records in their place -/

/-- Each record is found under its identifier, which has been issued; the ends of transitions are live;
each transition is listed once, with the state that it leaves, and nothing else is listed; and all
lists are in the order of issue. -/
structure Registered (m : Machine) : Prop where
  state_found : ∀ s ∈ m.states, m.state? s.id = some s ∧ s.id < m.nextState
  transition_found : ∀ t ∈ m.transitions, m.transition? t.id = some t ∧ t.id < m.nextTransition
  ends_live : ∀ t ∈ m.transitions, (m.state? t.source).isSome ∧ (m.state? t.target).isSome
  listed_once : ∀ t ∈ m.transitions, ∀ s ∈ m.states,
    s.outgoing.count t.id = if s.id = t.source then 1 else 0
  listed_live : ∀ s ∈ m.states, ∀ id ∈ s.outgoing, (m.transition? id).isSome
  states_in_order : m.states.Pairwise fun s s' => s.id < s'.id
  transitions_in_order : m.transitions.Pairwise fun t t' => t.id < t'.id
  outgoing_in_order : ∀ s ∈ m.states, s.outgoing.Pairwise (· < ·)

namespace Arena

variable {m : Machine} {s : State} {t : Transition}

theorem mem_outgoing (h : m.Arena) (hs : s ∈ m.states) {id : Nat} :
    id ∈ s.outgoing ↔ ∃ t ∈ m.transitions, t.source = s.id ∧ t.id = id := by
  simp [h.outgoing_eq s hs, and_assoc]

theorem outgoing_increasing (h : m.Arena) (hs : s ∈ m.states) : s.outgoing.Pairwise (· < ·) := by
  rw [h.outgoing_eq s hs, List.pairwise_map]
  exact h.transitions_increasing.filter _

/-- A transition is listed once, with the state that it leaves. -/
theorem count_outgoing (h : m.Arena) (ht : t ∈ m.transitions) (hs : s ∈ m.states) :
    s.outgoing.count t.id = if s.id = t.source then 1 else 0 := by
  have nodup : s.outgoing.Nodup := (h.outgoing_increasing hs).imp Nat.ne_of_lt
  by_cases leaves : s.id = t.source
  · rw [if_pos leaves]
    exact List.count_eq_one_of_mem nodup ((h.mem_outgoing hs).mpr ⟨t, ht, leaves.symm, rfl⟩)
  · rw [if_neg leaves, List.count_eq_zero]
    intro listed
    obtain ⟨t', ht', source, same⟩ := (h.mem_outgoing hs).mp listed
    rw [h.transition_eq_of_id_eq ht' ht same] at source
    exact leaves source.symm

/-- **The records of a machine in order are in their place.** -/
theorem registered (h : m.Arena) : m.Registered where
  state_found s hs := ⟨h.state?_eq_some_iff.mpr ⟨hs, rfl⟩, h.state_issued s hs⟩
  transition_found t ht := ⟨h.transition?_eq_some_iff.mpr ⟨ht, rfl⟩, h.transition_issued t ht⟩
  ends_live t ht := by
    obtain ⟨s, hs, source⟩ := h.source_live t ht
    obtain ⟨s', hs', target⟩ := h.target_live t ht
    simp [h.state?_eq_some_iff.mpr ⟨hs, source⟩, h.state?_eq_some_iff.mpr ⟨hs', target⟩]
  listed_once t ht s hs := h.count_outgoing ht hs
  listed_live s hs id listed := by
    obtain ⟨t, ht, -, same⟩ := (h.mem_outgoing hs).mp listed
    simp [h.transition?_eq_some_iff.mpr ⟨ht, same⟩]
  states_in_order := h.states_increasing
  transitions_in_order := h.transitions_increasing
  outgoing_in_order s hs := h.outgoing_increasing hs

end Arena

/-! ## What edits cannot do -/

/-- A machine is what edits made of another: identifiers are issued upwards, and whatever was issued
before and is live now was live before, a transition between the same states. -/
structure Successor (m m' : Machine) : Prop where
  nextState : m.nextState ≤ m'.nextState
  nextTransition : m.nextTransition ≤ m'.nextTransition
  state : ∀ s' ∈ m'.states, s'.id < m.nextState → ∃ s ∈ m.states, s.id = s'.id
  transition : ∀ t' ∈ m'.transitions, t'.id < m.nextTransition →
    ∃ t ∈ m.transitions, t.id = t'.id ∧ t.source = t'.source ∧ t.target = t'.target

namespace Successor

variable {m m' m'' : Machine}

theorem refl (m : Machine) : m.Successor m :=
  ⟨Nat.le_refl _, Nat.le_refl _, fun s hs _ => ⟨s, hs, rfl⟩, fun t ht _ => ⟨t, ht, rfl, rfl, rfl⟩⟩

theorem trans (h : m.Successor m') (h' : m'.Successor m'') : m.Successor m'' where
  nextState := h.nextState.trans h'.nextState
  nextTransition := h.nextTransition.trans h'.nextTransition
  state s'' hs'' issued := by
    obtain ⟨s', hs', same'⟩ := h'.state s'' hs'' (Nat.lt_of_lt_of_le issued h.nextState)
    obtain ⟨s, hs, same⟩ := h.state s' hs' (same' ▸ issued)
    exact ⟨s, hs, same.trans same'⟩
  transition t'' ht'' issued := by
    obtain ⟨t', ht', same', source', target'⟩ :=
      h'.transition t'' ht'' (Nat.lt_of_lt_of_le issued h.nextTransition)
    obtain ⟨t, ht, same, source, target⟩ := h.transition t' ht' (same' ▸ issued)
    exact ⟨t, ht, same.trans same', source.trans source', target.trans target'⟩

/-- An edit that issues nothing leaves at most the records that there were. -/
theorem of_kept (nextState : m'.nextState = m.nextState)
    (nextTransition : m'.nextTransition = m.nextTransition)
    (state : ∀ s' ∈ m'.states, ∃ s ∈ m.states, s.id = s'.id)
    (transition : ∀ t' ∈ m'.transitions,
      ∃ t ∈ m.transitions, t.id = t'.id ∧ t.source = t'.source ∧ t.target = t'.target) :
    m.Successor m' :=
  ⟨nextState.ge, nextTransition.ge, fun s' hs' _ => state s' hs', fun t' ht' _ => transition t' ht'⟩

theorem updateState (m : Machine) (id : Nat) (f : State → State) (keepId : ∀ s, (f s).id = s.id) :
    m.Successor (m.updateState id f) := by
  refine of_kept rfl rfl (fun s' hs' => ?_) (fun t ht => ⟨t, ht, rfl, rfl, rfl⟩)
  simp only [Machine.updateState, List.mem_map] at hs'
  obtain ⟨s, hs, rfl⟩ := hs'
  refine ⟨s, hs, ?_⟩
  split
  · exact (keepId s).symm
  · rfl

theorem removeTransitions (m : Machine) (doomed : Transition → Bool) :
    m.Successor (m.removeTransitions doomed) := by
  refine of_kept rfl rfl (fun s' hs' => ?_) (fun t ht => ?_)
  · simp only [Machine.removeTransitions, List.mem_map] at hs'
    obtain ⟨s, hs, rfl⟩ := hs'
    exact ⟨s, hs, rfl⟩
  · exact ⟨t, (List.mem_filter.mp ht).1, rfl, rfl, rfl⟩

theorem addState (m : Machine) (label : String) (isStart isFinal : Bool) :
    m.Successor (m.addState label isStart isFinal).1 where
  nextState := Nat.le_succ _
  nextTransition := Nat.le_refl _
  state s' hs' issued := by
    rcases List.mem_append.mp hs' with old | new
    · exact ⟨s', old, rfl⟩
    · simp only [List.mem_singleton] at new
      subst new
      exact absurd issued (Nat.lt_irrefl _)
  transition t ht _ := ⟨t, ht, rfl, rfl, rfl⟩

theorem addTransition (m : Machine) (source target : Nat) (action : Action) :
    m.Successor (m.addTransition source target action).1 where
  nextState := Nat.le_refl _
  nextTransition := Nat.le_succ _
  state s' hs' issued :=
    (updateState m source (fun s => { s with outgoing := s.outgoing ++ [m.nextTransition] })
      fun _ => rfl).state s' hs' issued
  transition t' ht' issued := by
    rcases List.mem_append.mp ht' with old | new
    · exact ⟨t', old, rfl, rfl, rfl⟩
    · simp only [List.mem_singleton] at new
      subst new
      exact absurd issued (Nat.lt_irrefl _)

theorem deleteState (m : Machine) (id : Nat) : m.Successor (m.deleteState id) := by
  refine (removeTransitions m (·.touches id)).trans (of_kept rfl rfl ?_ ?_)
  · exact fun s hs => ⟨s, (List.mem_filter.mp hs).1, rfl⟩
  · exact fun t ht => ⟨t, ht, rfl, rfl, rfl⟩

theorem setAction (m : Machine) (id : Nat) (action : Action) :
    m.Successor (m.setAction id action) := by
  refine of_kept rfl rfl (fun s hs => ⟨s, hs, rfl⟩) (fun t' ht' => ?_)
  simp only [Machine.setAction, touch, List.mem_map] at ht'
  obtain ⟨t, ht, rfl⟩ := ht'
  refine ⟨t, ht, ?_⟩
  split <;> exact ⟨rfl, rfl, rfl⟩

end Successor

/-- Counting an edit and remembering a verdict leave the records alone. -/
theorem Successor.congr {m m' n : Machine} (h : m.Successor m') (states : n.states = m'.states)
    (transitions : n.transitions = m'.transitions) (nextState : n.nextState = m'.nextState)
    (nextTransition : n.nextTransition = m'.nextTransition) : m.Successor n :=
  h.trans (.of_kept nextState nextTransition (fun s hs => ⟨s, states ▸ hs, rfl⟩)
    (fun t ht => ⟨t, transitions ▸ ht, rfl, rfl, rfl⟩))

/-- **No edit issues an identifier again or brings a record back.** -/
theorem Edit.successor {m m' : Machine} (e : m.Edit m') : m.Successor m' := by
  cases e with
  | addState label isStart isFinal => exact .addState m label isStart isFinal
  | deleteState id => exact .deleteState m id
  | addTransition => exact .addTransition m _ _ _
  | deleteTransition id => exact (Successor.removeTransitions m (·.id == id)).congr rfl rfl rfl rfl
  | setAction id => exact .setAction m id _
  | setStart id value =>
    exact (Successor.updateState m id (fun s => { s with isStart := value }) fun _ => rfl).congr
      rfl rfl rfl rfl
  | setFinal id value =>
    exact (Successor.updateState m id (fun s => { s with isFinal := value }) fun _ => rfl).congr
      rfl rfl rfl rfl
  | setLabel id label => exact .updateState m id (fun s => { s with label }) fun _ => rfl
  | detach id =>
    exact (Successor.updateState m id (fun s => { s with submachine := none }) fun _ => rfl).congr
      rfl rfl rfl rfl
  | invalidate => exact (Successor.refl m).congr rfl rfl rfl rfl

end Machine

namespace Workshop

variable {w w' : Workshop}

theorem successor_setMachine {m : MachineId} (hm : m.index < w.machines.length) {new : Machine}
    (h : (w.machine m).Successor new) (n : MachineId) :
    (w.machine n).Successor ((w.setMachine m new).machine n) := by
  rw [machine_setMachine hm]
  split
  · rename_i same
    exact same ▸ h
  · exact .refl _

/-- A small change brings no record back. -/
theorem Change.successor (c : w.Change w') (n : MachineId) :
    (w.machine n).Successor (w'.machine n) := by
  cases c with
  | addAlphabet new => exact .refl _
  | editAlphabet known newer => exact .refl _
  | addMachine kind name known =>
    rw [machine_addMachine]
    split
    · -- Under a name that was not in use nothing had been issued.
      rename_i last
      have unused : w.machine n = default := by
        simp [machine, List.getD_eq_getElem?_getD, last]
      rw [unused]
      exact ⟨Nat.zero_le _, Nat.zero_le _, fun _ _ h => absurd h (Nat.not_lt_zero _),
        fun _ _ h => absurd h (Nat.not_lt_zero _)⟩
    · exact .refl _
  | edit known e => exact successor_setMachine known e.successor n
  | @setAlphabet m a known _ =>
    have same : (w.machine m).Successor ((w.machine m).setAlphabet a) :=
      (Machine.Successor.refl _).congr rfl rfl rfl rfl
    exact successor_setMachine known same n
  | @attach m i id known =>
    have same : (w.machine m).Successor ((w.machine m).setSubmachine id (some i)) :=
      (Machine.Successor.updateState _ id (fun s => { s with submachine := some i })
        fun _ => rfl).congr rfl rfl rfl rfl
    exact successor_setMachine known same n
  | @remember m known _ =>
    have same : (w.machine m).Successor ((w.machine m).remembering (some (w.keyOf m))) :=
      (Machine.Successor.refl _).congr rfl rfl rfl rfl
    exact successor_setMachine known same n

theorem Changes.successor (c : w.Changes w') (n : MachineId) :
    (w.machine n).Successor (w'.machine n) := by
  induction c with
  | refl => exact .refl _
  | tail _ last ih => exact ih.trans (last.successor n)

end Workshop

/-! ## References -/

namespace Workshop

variable {w : Workshop} {m : MachineId} {r : Ref}

/-- What a reference leads to stays the same, and if it had been issued before, the reference led to it
before. -/
theorem state_of_successor {w' : Workshop} (h : (w.machine m).Successor (w'.machine m))
    (arena : (w.machine m).Arena) (arena' : (w'.machine m).Arena) {s' : State}
    (later : w'.state m r = .ok s') :
    (∀ s, w.state m r = .ok s → s.id = s'.id) ∧
      ((w.machine m).nextState ≤ s'.id ∨ ∃ s, w.state m r = .ok s) := by
  obtain ⟨id, about, found'⟩ := state_eq_ok_iff.mp later
  obtain ⟨live', rfl⟩ := arena'.state?_eq_some_iff.mp found'
  constructor
  · intro s now
    obtain ⟨id, about', found⟩ := state_eq_ok_iff.mp now
    cases about.symm.trans about'
    exact (arena.state?_eq_some_iff.mp found).2
  · by_cases issued : s'.id < (w.machine m).nextState
    · obtain ⟨s, live, same⟩ := h.state s' live' issued
      exact .inr ⟨s, state_eq_ok_iff.mpr ⟨_, about, arena.state?_eq_some_iff.mpr ⟨live, same⟩⟩⟩
    · exact .inl (Nat.le_of_not_lt issued)

theorem transition_of_successor {w' : Workshop} (h : (w.machine m).Successor (w'.machine m))
    (arena : (w.machine m).Arena) (arena' : (w'.machine m).Arena) {t' : Transition}
    (later : w'.transition m r = .ok t') :
    (∀ t, w.transition m r = .ok t →
        t.id = t'.id ∧ t.source = t'.source ∧ t.target = t'.target) ∧
      ((w.machine m).nextTransition ≤ t'.id ∨ ∃ t, w.transition m r = .ok t) := by
  obtain ⟨id, about, found'⟩ := transition_eq_ok_iff.mp later
  obtain ⟨live', rfl⟩ := arena'.transition?_eq_some_iff.mp found'
  constructor
  · intro t now
    obtain ⟨id, about', found⟩ := transition_eq_ok_iff.mp now
    cases about.symm.trans about'
    obtain ⟨live, same⟩ := arena.transition?_eq_some_iff.mp found
    obtain ⟨old, liveOld, sameOld, ends⟩ :=
      h.transition t' live' (same ▸ arena.transition_issued t live)
    cases arena.transition_eq_of_id_eq liveOld live (sameOld.trans same.symm)
    exact ⟨same, ends⟩
  · by_cases issued : t'.id < (w.machine m).nextTransition
    · obtain ⟨t, live, same, -⟩ := h.transition t' live' issued
      exact .inr ⟨t, transition_eq_ok_iff.mpr
        ⟨_, about, arena.transition?_eq_some_iff.mpr ⟨live, same⟩⟩⟩
    · exact .inl (Nat.le_of_not_lt issued)

end Workshop

/-! ## Issuing -/

namespace Work

variable {b : Bench} {m : MachineId}

/-- A new state gets the next identifier. -/
theorem addState_issues (hm : m.index < b.shop.machines.length) {label : String}
    {isStart isFinal : Bool} {s : State} (h : outcome (addState m label isStart isFinal) b = .ok s) :
    s.id = (b.shop.machine m).nextState ∧
      ((after (addState m label isStart isFinal) b).shop.machine m).nextState = s.id + 1 := by
  cases h
  refine ⟨rfl, ?_⟩
  change ((b.shop.setMachine m _).machine m).nextState = _
  rw [Workshop.machine_setMachine_self _ _ _ hm]
  rfl

/-- A new transition gets the next identifier. -/
theorem addTransition_issues (hm : m.index < b.shop.machines.length) {source target : Ref}
    {action : Action} {t : Transition}
    (h : outcome (addTransition m source target action) b = .ok t) :
    t.id = (b.shop.machine m).nextTransition ∧
      ((after (addTransition m source target action) b).shop.machine m).nextTransition =
        t.id + 1 := by
  cases hadd : addTransition m source target action b with
  | error e b' =>
    rw [outcome_of_error hadd] at h
    cases h
  | ok t' b' =>
    rw [outcome_of_ok hadd] at h
    cases h
    rw [after_of_ok hadd]
    -- The checks before the edit leave everything as it is.
    obtain ⟨p, _, hsource, hadd⟩ := bind_eq_ok_iff.mp hadd
    rw [state_eq, conclude_eq_ok_iff] at hsource
    obtain ⟨-, rfl⟩ := hsource
    obtain ⟨q, _, htarget, hadd⟩ := bind_eq_ok_iff.mp hadd
    rw [state_eq, conclude_eq_ok_iff] at htarget
    obtain ⟨-, rfl⟩ := htarget
    obtain ⟨_, _, hcheck, hadd⟩ := bind_eq_ok_iff.mp hadd
    rw [checkAction_eq, conclude_eq_ok_iff] at hcheck
    obtain ⟨-, rfl⟩ := hcheck
    cases hadd
    refine ⟨rfl, ?_⟩
    change ((b.shop.setMachine m _).machine m).nextTransition = _
    rw [Workshop.machine_setMachine_self _ _ _ hm]
    rfl

end Work

namespace Workshop

variable {w : Workshop} {m : MachineId}

/-- **Identifiers stand for one record forever.**  In a workshop with any history the records of a
machine are in their place.  Whatever commands follow, and whether they fail or not: what a machine
issues then had not been issued before; a reference that leads to a record leads to the same one as
before, a transition between the same states; and one that leads to a record that had been issued
before led to it before, so what is gone never comes back. -/
theorem identifiers_stand_for_one_record (h : w.Reachable) (hm : m.index < w.machines.length) :
    (w.machine m).Registered ∧
    ∀ (j : Journal) (cs : List Command), Command.AllKnown cs ⟨w, j⟩ →
      let b := Command.runAll cs ⟨w, j⟩
      (b.shop.machine m).Registered ∧
      (∀ label isStart isFinal s, outcome (Work.addState m label isStart isFinal) b = .ok s →
        (w.machine m).nextState ≤ s.id ∧
        ((after (Work.addState m label isStart isFinal) b).shop.machine m).nextState = s.id + 1) ∧
      (∀ source target action t, outcome (Work.addTransition m source target action) b = .ok t →
        (w.machine m).nextTransition ≤ t.id ∧
        ((after (Work.addTransition m source target action) b).shop.machine m).nextTransition =
          t.id + 1) ∧
      (∀ r s', b.shop.state m r = .ok s' →
        (∀ s, w.state m r = .ok s → s.id = s'.id) ∧
        ((w.machine m).nextState ≤ s'.id ∨ ∃ s, w.state m r = .ok s)) ∧
      (∀ r t', b.shop.transition m r = .ok t' →
        (∀ t, w.transition m r = .ok t →
          t.id = t'.id ∧ t.source = t'.source ∧ t.target = t'.target) ∧
        ((w.machine m).nextTransition ≤ t'.id ∨ ∃ t, w.transition m r = .ok t)) := by
  have arena := h.good.sane.arena m
  refine ⟨arena.registered, ?_⟩
  intro j cs known b
  have changes : w.Changes b.shop := Command.changes_runAll (b := ⟨w, j⟩) h.good known
  have arena' := (changes.good h.good).sane.arena m
  have successor := changes.successor m
  have hm' : m.index < b.shop.machines.length := Nat.lt_of_lt_of_le hm changes.evolves.machines_le
  refine ⟨arena'.registered, fun label isStart isFinal s added => ?_,
    fun source target action t added => ?_,
    fun r s' => state_of_successor successor arena arena',
    fun r t' => transition_of_successor successor arena arena'⟩
  · obtain ⟨issued, next⟩ := Work.addState_issues hm' added
    exact ⟨issued ▸ successor.nextState, next⟩
  · obtain ⟨issued, next⟩ := Work.addTransition_issues hm' added
    exact ⟨issued ▸ successor.nextTransition, next⟩

/-- A state of one of three nested machines is removed with its transitions, and others are added.  The
removed one is not found again, and its identifier goes to no other. -/
theorem threeLevels_issues_anew :
    let commands : List Command :=
      [ .deleteState ⟨0⟩ (.state ⟨0⟩ 1), .setLabel ⟨0⟩ (.state ⟨0⟩ 1) "gone",
        .addState ⟨0⟩ "d" false false,
        .addTransition ⟨0⟩ (.state ⟨1⟩ 0) (.value (.int 3)) (.move .right (.text "0")),
        .addTransition ⟨0⟩ (.value (.int 0)) (.value (.int 3)) (.move .right (.text "0")) ]
    let b := Command.runAll commands ⟨threeLevels.shop, Journal.empty⟩
    threeLevels.shop.Reachable ∧ 0 < threeLevels.shop.machines.length ∧
    Command.AllKnown commands ⟨threeLevels.shop, Journal.empty⟩ ∧
    (threeLevels.shop.state ⟨0⟩ (.state ⟨0⟩ 1)).isOk ∧ ¬ (b.shop.state ⟨0⟩ (.state ⟨0⟩ 1)).isOk ∧
    (threeLevels.shop.machine ⟨0⟩).nextState = 3 ∧ (b.shop.machine ⟨0⟩).Registered ∧
    ∀ s', b.shop.state ⟨0⟩ (.value (.int 3)) = .ok s' →
      3 ≤ s'.id ∨ ∃ s, threeLevels.shop.state ⟨0⟩ (.value (.int 3)) = .ok s := by
  intro commands b
  have known : 0 < threeLevels.shop.machines.length := by decide +kernel
  have allKnown : Command.AllKnown commands ⟨threeLevels.shop, Journal.empty⟩ := by decide +kernel
  have next : (threeLevels.shop.machine ⟨0⟩).nextState = 3 := by decide +kernel
  obtain ⟨registered, -, -, state, -⟩ :=
    (identifiers_stand_for_one_record threeLevels_reachable (m := ⟨0⟩) known).2 Journal.empty commands
      allKnown
  refine ⟨threeLevels_reachable, known, allKnown, by decide +kernel, by decide +kernel, next, registered,
    fun s' found => ?_⟩
  exact next ▸ (state _ s' found).2

end Workshop

end MachineLab
