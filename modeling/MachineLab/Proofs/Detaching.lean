import MachineLab.Proofs.Arena
import MachineLab.Proofs.Effects
import MachineLab.Workshop.Edit
import Mathlib.Data.List.Basic

/-!
# Removals one record at a time

A transition is recorded twice, in the arena of the machine and in the list of the state that it leaves,
and a state is removed together with every transition that enters or leaves it.  Removals take out one
record after the other, and any of the steps might fail to find what it is to take out, with the machine
half changed.  In an arena that is in order no step fails, and what is left is what
`Machine.deleteState` and `Machine.deleteTransition` say.

## Main definitions

* `Ref.stateId?`, `Ref.transitionId?` — the identifier that a reference is about.
* `Machine.without` — a machine without some of its transitions.
* `Machine.Owns` — transitions that can be taken out one after the other.
* `Machine.deleteAll` — what the removal of several transitions leaves.

## Main statements

* `forM_eq_ok` — steps that can be taken in their turn can all be taken.
* `Machine.Arena.detach_eq`, `Machine.Owns.forM_detach` — what one step leaves, and a run of them.
* `Work.deleteState_eq`, `deleteTransition_eq`, `removeInconsistent_eq` — what the removals of a workshop
  leave.
-/

namespace MachineLab

/-- **A run of steps.**  If each step can be taken when it is its turn, and then it is the turn of the
rest, all of them are taken. -/
theorem forM_eq_ok {ε σ α : Type} {step : α → EStateM ε σ PUnit} {leave : σ → α → σ}
    (Ready : σ → List α → Prop)
    (one : ∀ {s : σ} {x : α} {rest : List α}, Ready s (x :: rest) →
      step x s = .ok ⟨⟩ (leave s x) ∧ Ready (leave s x) rest)
    {s : σ} {l : List α} (h : Ready s l) : l.forM step s = .ok ⟨⟩ (l.foldl leave s) := by
  induction l generalizing s with
  | nil => rfl
  | cons x rest ih =>
    obtain ⟨stepped, ready⟩ := one h
    calc (x :: rest).forM step s
        = rest.forM step (leave s x) := bind_of_ok stepped
      _ = .ok ⟨⟩ ((x :: rest).foldl leave s) := ih ready

/-! ## References -/

namespace Ref

/-- The identifier of a state of a machine that a reference is about. -/
def stateId? (r : Ref) (m : MachineId) : Option Nat :=
  match r with
  | .value v => (Workshop.idOf v).toOption.join
  | .state owner id => if owner = m then some id else none
  | .transition _ _ => none

/-- The identifier of a transition of a machine that a reference is about. -/
def transitionId? (r : Ref) (m : MachineId) : Option Nat :=
  match r with
  | .value v => (Workshop.idOf v).toOption.join
  | .state _ _ => none
  | .transition owner id => if owner = m then some id else none

end Ref

namespace Workshop

variable {w : Workshop} {m : MachineId} {r : Ref}

theorem state_eq_ok_iff {s : State} :
    w.state m r = .ok s ↔ ∃ id, r.stateId? m = some id ∧ (w.machine m).state? id = some s := by
  unfold state Ref.stateId?
  cases r with
  | value v =>
    cases hid : idOf v with
    | error e => simp [Except.map, Except.toOption, hid]
    | ok id? =>
      cases id? with
      | none => simp [Except.map, Except.toOption, hid]
      | some id =>
        cases hs : (w.machine m).state? id <;> simp [Except.map, Except.toOption, hid, hs]
  | state owner id =>
    by_cases own : owner = m
    · cases hs : (w.machine m).state? id <;> simp [own, hs]
    · simp [own]
  | transition owner id => simp

theorem transition_eq_ok_iff {t : Transition} :
    w.transition m r = .ok t ↔
      ∃ id, r.transitionId? m = some id ∧ (w.machine m).transition? id = some t := by
  unfold transition Ref.transitionId?
  cases r with
  | value v =>
    cases hid : idOf v with
    | error e => simp [Except.map, Except.toOption, hid]
    | ok id? =>
      cases id? with
      | none => simp [Except.map, Except.toOption, hid]
      | some id =>
        cases ht : (w.machine m).transition? id <;> simp [Except.map, Except.toOption, hid, ht]
  | state owner id => simp
  | transition owner id =>
    by_cases own : owner = m
    · cases ht : (w.machine m).transition? id <;> simp [own, ht]
    · simp [own]

/-- A reference leads to live states only. -/
theorem mem_of_state {s : State} (h : w.state m r = .ok s) : s ∈ (w.machine m).states := by
  obtain ⟨id, -, found⟩ := state_eq_ok_iff.mp h
  exact List.mem_of_find?_eq_some found

theorem mem_of_transition {t : Transition} (h : w.transition m r = .ok t) :
    t ∈ (w.machine m).transitions := by
  obtain ⟨id, -, found⟩ := transition_eq_ok_iff.mp h
  exact List.mem_of_find?_eq_some found

/-- The record of a live transition leads to it. -/
theorem transition_of_mem (arena : (w.machine m).Arena) {t : Transition}
    (ht : t ∈ (w.machine m).transitions) : w.transition m (.transition m t.id) = .ok t :=
  transition_eq_ok_iff.mpr ⟨t.id, if_pos rfl, arena.transition?_eq_some_iff.mpr ⟨ht, rfl⟩⟩

end Workshop

/-! ## What is left -/

/-- In a list in the order of its keys, only the entry itself has its key. -/
theorem filter_key_eq_singleton {α : Type} (key : α → Nat) {l : List α}
    (increasing : l.Pairwise fun x y => key x < key y) {x : α} (hx : x ∈ l) :
    l.filter (key · == key x) = [x] := by
  induction l with
  | nil => cases hx
  | cons y rest ih =>
    rw [List.pairwise_cons] at increasing
    rcases List.mem_cons.mp hx with rfl | hx
    · have none : rest.filter (key · == key x) = [] := by
        refine List.filter_eq_nil_iff.mpr fun z hz => ?_
        simpa using Nat.ne_of_gt (increasing.1 z hz)
      simp [none]
    · have other : key y ≠ key x := Nat.ne_of_lt (increasing.1 x hx)
      rw [List.filter_cons_of_neg (by simpa using other), ih increasing.2 hx]

namespace Machine

variable {m : Machine}

/-- A machine without some of its transitions, and without their identifiers in the lists of its
states. -/
def without (m : Machine) (doomed : List Transition) : Machine :=
  { m with
    transitions := m.transitions.filter fun t => !(doomed.map (·.id)).contains t.id
    states := m.states.map fun s =>
      { s with outgoing := s.outgoing.filter (!(doomed.map (·.id)).contains ·) }
    removedTransitions := m.removedTransitions ++ doomed }

theorem without_nil (m : Machine) : m.without [] = m := by
  simp [without]

/-- To take out some transitions and then others is to take out all of them. -/
theorem without_without (m : Machine) (first rest : List Transition) :
    (m.without first).without rest = m.without (first ++ rest) := by
  have both (id : Nat) : (!(rest.map (·.id)).contains id && !(first.map (·.id)).contains id) =
      !((first ++ rest).map (·.id)).contains id := by
    rw [List.map_append, List.contains_append, Bool.not_or, Bool.and_comm]
  simp only [without, List.filter_filter, both, List.map_map, Function.comp_def, List.append_assoc]

theorem foldl_without (m : Machine) (doomed : List Transition) :
    doomed.foldl (fun m t => m.without [t]) m = m.without doomed := by
  induction doomed generalizing m with
  | nil => rw [List.foldl_nil, without_nil]
  | cons t rest ih => rw [List.foldl_cons, ih, without_without, List.singleton_append]

namespace Arena

/-- An identifier is on a list of live transitions exactly if its transition is. -/
theorem contains_ids_filter (h : m.Arena) (p : Transition → Bool) {t : Transition}
    (ht : t ∈ m.transitions) : ((m.transitions.filter p).map (·.id)).contains t.id = p t := by
  rw [Bool.eq_iff_iff, List.contains_iff_mem, List.mem_map]
  constructor
  · rintro ⟨t', ht', same⟩
    obtain ⟨live, hp⟩ := List.mem_filter.mp ht'
    exact h.transition_eq_of_id_eq live ht same ▸ hp
  · exact fun hp => ⟨t, List.mem_filter.mpr ⟨ht, hp⟩, rfl⟩

/-- Taking out the transitions with a property takes out a list of them. -/
theorem removeTransitions_eq_without (h : m.Arena) (p : Transition → Bool) :
    m.removeTransitions p = m.without (m.transitions.filter p) := by
  have left : m.transitions.filter (!p ·) = m.transitions.filter fun t =>
      !((m.transitions.filter p).map (·.id)).contains t.id :=
    List.filter_congr fun t ht => by rw [h.contains_ids_filter p ht]
  simp only [Machine.removeTransitions, without, left]

/-- Only one transition has its identifier. -/
theorem removeTransitions_id (h : m.Arena) {t : Transition} (ht : t ∈ m.transitions) :
    m.removeTransitions (·.id == t.id) = m.without [t] := by
  rw [h.removeTransitions_eq_without,
    filter_key_eq_singleton Transition.id h.transitions_increasing ht]

theorem without_singleton (h : m.Arena) {t : Transition} (ht : t ∈ m.transitions) :
    (m.without [t]).Arena :=
  h.removeTransitions_id ht ▸ h.removeTransitions _

/-- The list of a state names a transition exactly if the transition is live and leaves the state. -/
theorem id_mem_outgoing (h : m.Arena) {s : State} (hs : s ∈ m.states) {t : Transition}
    (ht : t ∈ m.transitions) : t.id ∈ s.outgoing ↔ t.source = s.id := by
  rw [h.outgoing_eq s hs, List.mem_map]
  constructor
  · rintro ⟨t', ht', same⟩
    obtain ⟨live, source⟩ := List.mem_filter.mp ht'
    exact h.transition_eq_of_id_eq live ht same ▸ eq_of_beq source
  · exact fun source => ⟨t, List.mem_filter.mpr ⟨ht, beq_iff_eq.mpr source⟩, rfl⟩

theorem outgoing_nodup (h : m.Arena) {s : State} (hs : s ∈ m.states) : s.outgoing.Nodup := by
  rw [h.outgoing_eq s hs, List.Nodup, List.pairwise_map]
  exact (h.transitions_increasing.filter _).imp Nat.ne_of_lt

end Arena

/-- Live transitions of a machine whose arena is in order, each named once. -/
structure Owns (m : Machine) (doomed : List Transition) : Prop where
  arena : m.Arena
  live : doomed ⊆ m.transitions
  nodup : (doomed.map (·.id)).Nodup

namespace Owns

theorem of_sublist (h : m.Arena) {doomed : List Transition} (sub : doomed.Sublist m.transitions) :
    m.Owns doomed := by
  refine ⟨h, sub.subset, ?_⟩
  rw [List.Nodup, List.pairwise_map]
  exact (h.transitions_increasing.sublist sub).imp Nat.ne_of_lt

variable {m' : Machine} {t : Transition} {rest : List Transition}

theorem mem_head (h : m.Owns (t :: rest)) : t ∈ m.transitions := h.live (.head _)

/-- Once the first is gone the rest is still there, for it has other identifiers. -/
theorem tail (h : m.Owns (t :: rest)) (arena : m'.Arena)
    (others : ∀ t' ∈ m.transitions, t'.id ≠ t.id → t' ∈ m'.transitions) : m'.Owns rest := by
  have nodup := h.nodup
  rw [List.map_cons, List.nodup_cons] at nodup
  refine ⟨arena, fun t' ht' => others t' (h.live (.tail _ ht')) fun same => ?_, nodup.2⟩
  exact nodup.1 (same ▸ List.mem_map_of_mem ht')

end Owns

end Machine

/-! ## Taking records out -/

namespace Machine

variable {m : Machine}

namespace Arena

/-- **One step.**  A live transition is found in both places, and nothing else goes. -/
theorem detach_eq (h : m.Arena) {t : Transition} (ht : t ∈ m.transitions) :
    InPlace.detach t m = .ok () (m.without [t]) := by
  obtain ⟨s, hs, source⟩ := h.source_live t ht
  have found : m.transition? t.id = some t := h.transition?_eq_some_iff.mpr ⟨ht, rfl⟩
  have state : m.state? t.source = some s := h.state?_eq_some_iff.mpr ⟨hs, source⟩
  have listed : t.id ∈ s.outgoing := (h.id_mem_outgoing hs ht).mpr source.symm
  have one (id : Nat) : (!([t].map (·.id)).contains id) = (id != t.id) := by
    rw [List.map_singleton, List.contains_cons, List.contains_nil, Bool.or_false]
    rfl
  -- In a state that the transition does not leave there is nothing to take out.
  have lists : m.states.map (fun s => if s.id = t.source then
        { s with outgoing := s.outgoing.erase t.id } else s) =
      m.states.map fun s => { s with outgoing := s.outgoing.filter (· != t.id) } := by
    refine List.map_congr_left fun q hq => ?_
    rw [← (h.outgoing_nodup hq).erase_eq_filter]
    split
    · rfl
    · rename_i other
      have absent : t.id ∉ q.outgoing := fun mem => other ((h.id_mem_outgoing hq ht).mp mem).symm
      rw [List.erase_of_not_mem absent]
  have rest : ({ m with
        transitions := m.transitions.filter (·.id != t.id)
        removedTransitions := m.removedTransitions ++ [t] } : Machine).state? t.source = some s := state
  simp only [InPlace.detach, bind, EStateM.bind, get_apply, found, Option.isNone_some, Bool.false_eq_true,
    if_false, modify_apply, rest, if_pos listed, Machine.updateState, without, one, lists]

end Arena

theorem Owns.forM_detach {doomed : List Transition} (h : m.Owns doomed) :
    doomed.forM InPlace.detach m = .ok () (m.without doomed) := by
  rw [← foldl_without]
  refine forM_eq_ok Owns (fun ready => ?_) h
  refine ⟨ready.arena.detach_eq ready.mem_head,
    ready.tail (ready.arena.without_singleton ready.mem_head) fun t' ht' other => ?_⟩
  exact List.mem_filter.mpr ⟨ht', by simpa using other⟩

namespace Arena

/-- The removal of a live state. -/
theorem deleteState_eq (h : m.Arena) {s : State} (hs : s ∈ m.states) :
    InPlace.deleteState s.id m = .ok () (m.deleteState s.id) := by
  have steps := (Owns.of_sublist h (List.filter_sublist (p := (·.touches s.id)))).forM_detach
  rw [← h.removeTransitions_eq_without] at steps
  have arena := h.removeTransitions (·.touches s.id)
  -- The state is still there, with a shorter list.
  obtain ⟨s', hs', same⟩ : ∃ s' ∈ (m.removeTransitions (·.touches s.id)).states, s'.id = s.id :=
    ⟨_, List.mem_map_of_mem hs, rfl⟩
  have found := arena.state?_eq_some_iff.mpr ⟨hs', same⟩
  have gone := filter_key_eq_singleton State.id arena.states_increasing hs'
  rw [same] at gone
  rw [InPlace.deleteState, bind_of_ok (get_apply m), bind_of_ok steps, bind_of_ok (get_apply _), found]
  simp only [modify_apply, Machine.deleteState, gone]

theorem deleteTransition_eq (h : m.Arena) {t : Transition} (ht : t ∈ m.transitions) :
    InPlace.deleteTransition t m = .ok () (m.deleteTransition t.id) := by
  have step := h.detach_eq ht
  rw [← h.removeTransitions_id ht] at step
  exact bind_of_ok step

end Arena

/-- What is left when transitions are removed one after the other. -/
def deleteAll (m : Machine) (doomed : List Transition) : Machine :=
  doomed.foldl (fun machine t => machine.deleteTransition t.id) m

theorem Arena.deleteAll (h : m.Arena) (doomed : List Transition) : (m.deleteAll doomed).Arena := by
  induction doomed generalizing m with
  | nil => exact h
  | cons t rest ih => exact ih (h.deleteTransition t.id)

theorem Owns.deleteTransition {t : Transition} {rest : List Transition} (h : m.Owns (t :: rest)) :
    (m.deleteTransition t.id).Owns rest :=
  h.tail (h.arena.deleteTransition t.id) fun _ ht' other =>
    List.mem_filter.mpr ⟨ht', by simpa using other⟩

end Machine

/-! ## Removals in a workshop -/

namespace Workshop

theorem setMachine_self (w : Workshop) {m : MachineId} (hm : m.index < w.machines.length) :
    w.setMachine m (w.machine m) = w := by
  simp [setMachine, machine, List.getD_eq_getElem?_getD, hm]

theorem setMachine_setMachine (w : Workshop) (m : MachineId) (new newer : Machine) :
    (w.setMachine m new).setMachine m newer = w.setMachine m newer := by
  simp [setMachine]

end Workshop

/-- A filter that never fails is a filter. -/
theorem filterM_eq_ok {ε α : Type} {f : α → Except ε Bool} {p : α → Bool} {l : List α}
    (h : ∀ x ∈ l, f x = .ok (p x)) : l.filterM f = .ok (l.filter p) := by
  have gather (l done : List α) (h : ∀ x ∈ l, f x = .ok (p x)) :
      l.filterAuxM f done = .ok ((l.filter p).reverse ++ done) := by
    induction l generalizing done with
    | nil => rfl
    | cons x rest ih =>
      rw [List.forall_mem_cons] at h
      simp only [List.filterAuxM, h.1, bind, Except.bind, ih _ h.2]
      cases hp : p x <;> simp [hp]
  simp [List.filterM, gather l [] h, bind, Except.bind, pure, Except.pure]

/-- A filter that can decide about every entry succeeds. -/
theorem filterM_of_decided {ε α : Type} {f : α → Except ε Bool} {l : List α}
    (decided : ∀ x ∈ l, ∃ verdict, f x = .ok verdict) :
    l.filterM f = .ok (l.filter fun x => (f x).toOption.getD false) := by
  refine filterM_eq_ok fun x hx => ?_
  obtain ⟨verdict, hverdict⟩ := decided x hx
  rw [hverdict]
  rfl

theorem exists_filterM_eq_ok_iff {ε α : Type} {f : α → Except ε Bool} {l : List α} :
    (∃ kept, l.filterM f = .ok kept) ↔ ∀ x ∈ l, ∃ verdict, f x = .ok verdict := by
  have gathered (l done kept : List α) (h : l.filterAuxM f done = .ok kept) :
      ∀ x ∈ l, ∃ verdict, f x = .ok verdict := by
    induction l generalizing done with
    | nil => exact fun x hx => absurd hx List.not_mem_nil
    | cons y rest ih =>
      obtain ⟨verdict, hy, hrest⟩ := except_bind_eq_ok_iff.mp h
      exact List.forall_mem_cons.mpr ⟨⟨verdict, hy⟩, ih _ hrest⟩
  constructor
  · rintro ⟨kept, h⟩
    obtain ⟨found, hfound, -⟩ := except_bind_eq_ok_iff.mp h
    exact gathered l [] found hfound
  · exact fun decided => ⟨_, filterM_of_decided decided⟩

/-- What a filter that succeeds keeps is part of the list. -/
theorem sublist_of_filterM_eq_ok {ε α : Type} {f : α → Except ε Bool} {l kept : List α}
    (h : l.filterM f = .ok kept) : kept.Sublist l := by
  rw [filterM_of_decided (exists_filterM_eq_ok_iff.mp ⟨kept, h⟩)] at h
  exact Except.ok.inj h ▸ List.filter_sublist

namespace Work

variable {b : Bench} {m : MachineId}

theorem inMachine_of_ok {α : Type} {work : InPlace α} {a : α} {new : Machine}
    (h : work (b.shop.machine m) = .ok a new) :
    inMachine m work b = .ok a { b with shop := b.shop.setMachine m new } := by
  rw [inMachine, h]

/-- How a removal ends.  It says no to what is refused, and fails on what cannot be looked up. -/
def removal {α : Type} (found : Except Fault α) (left : α → Bench) (b : Bench) :
    EStateM.Result Fault Bench Bool :=
  match found with
  | .ok a => .ok true (left a)
  | .error (.refusal _) => .ok false b
  | .error e => .error e b

/-- **Nothing goes wrong in the middle of a removal.** -/
theorem deleteState_eq (arena : (b.shop.machine m).Arena) (r : Ref) :
    deleteState m r b = removal (b.shop.state m r)
      (fun s => { b with shop := b.shop.setMachine m ((b.shop.machine m).deleteState s.id) }) b := by
  unfold deleteState
  rw [bind_of_ok (get_apply b)]
  cases found : b.shop.state m r with
  | error e => cases e <;> rfl
  | ok s => exact bind_of_ok (inMachine_of_ok (arena.deleteState_eq (Workshop.mem_of_state found)))

theorem deleteTransition_eq (arena : (b.shop.machine m).Arena) (r : Ref) :
    deleteTransition m r b = removal (b.shop.transition m r) (fun t =>
      { b with shop := b.shop.setMachine m ((b.shop.machine m).deleteTransition t.id) }) b := by
  unfold deleteTransition
  rw [bind_of_ok (get_apply b)]
  cases found : b.shop.transition m r with
  | error e => cases e <;> rfl
  | ok t =>
    exact bind_of_ok (inMachine_of_ok (arena.deleteTransition_eq (Workshop.mem_of_transition found)))

theorem discard_of_ok {α : Type} {work : Work α} {a : α} {b' : Bench} (h : work b = .ok a b') :
    discard work b = .ok ⟨⟩ b' := by
  simp only [discard, Functor.discard, Functor.mapConst, Function.comp_apply, EStateM.map, h]

/-- Live transitions are removed one after the other. -/
theorem forM_deleteTransition (hm : m.index < b.shop.machines.length) {doomed : List Transition}
    (h : (b.shop.machine m).Owns doomed) :
    doomed.forM (fun t => discard <| deleteTransition m (.transition m t.id)) b =
      .ok ⟨⟩ { b with shop := b.shop.setMachine m ((b.shop.machine m).deleteAll doomed) } := by
  let leave (b : Bench) (t : Transition) : Bench :=
    { b with shop := b.shop.setMachine m ((b.shop.machine m).deleteTransition t.id) }
  have folded (doomed : List Transition) (b : Bench) (hm : m.index < b.shop.machines.length) :
      doomed.foldl leave b =
        { b with shop := b.shop.setMachine m ((b.shop.machine m).deleteAll doomed) } := by
    induction doomed generalizing b with
    | nil => simp [Machine.deleteAll, b.shop.setMachine_self hm]
    | cons t rest ih =>
      have here := b.shop.machine_setMachine_self m ((b.shop.machine m).deleteTransition t.id) hm
      rw [List.foldl_cons, ih _ (by simpa [leave] using hm)]
      simp only [leave, here, Workshop.setMachine_setMachine, Machine.deleteAll, List.foldl_cons]
  rw [← folded doomed b hm]
  refine forM_eq_ok
    (fun b doomed => m.index < b.shop.machines.length ∧ (b.shop.machine m).Owns doomed)
    (fun {b t rest} ⟨hm, ready⟩ => ?_) ⟨hm, h⟩
  have done := deleteTransition_eq ready.arena (.transition m t.id)
  rw [Workshop.transition_of_mem ready.arena ready.mem_head] at done
  refine ⟨discard_of_ok done, by simpa [leave] using hm, ?_⟩
  simpa only [leave, b.shop.machine_setMachine_self m _ hm] using ready.deleteTransition

/-- **What pruning leaves.**  It goes through once it is known what is to go. -/
theorem removeInconsistent_eq (arena : (b.shop.machine m).Arena)
    (hm : m.index < b.shop.machines.length) {a : Option AlphabetId} {doomed : List Transition}
    (found : b.shop.inconsistent m a = .ok doomed) :
    ∃ j, removeInconsistent m a b = .ok doomed.length
        ⟨b.shop.setMachine m ((b.shop.machine m).deleteAll doomed), j⟩ ∧
      (doomed = [] → j = b.journal) := by
  have owns := Machine.Owns.of_sublist arena (sublist_of_filterM_eq_ok found)
  have looked : ofExcept (b.shop.inconsistent m a) b = .ok doomed b := by rw [found]; rfl
  rw [removeInconsistent, bind_of_ok (get_apply b), bind_of_ok looked,
    bind_of_ok (forM_deleteTransition hm owns)]
  cases doomed with
  | nil => exact ⟨_, rfl, fun _ => rfl⟩
  | cons t rest => exact ⟨_, rfl, nofun⟩

theorem removeInconsistent_of_error {a : Option AlphabetId} {e : Fault}
    (failed : b.shop.inconsistent m a = .error e) : removeInconsistent m a b = .error e b := by
  unfold removeInconsistent
  simp only [bind, EStateM.bind, get_apply, failed]
  rfl

end Work

end MachineLab
