import MachineLab.Proofs.Arena
import MachineLab.Proofs.Determinism

/-!
# How workshops change

Everything that happens to a workshop is a sequence of a few small changes.  This module says what
they are, what they keep, and what a machine's memory of having been found valid is worth after any
number of them.

A machine remembers the revision key under which it was found valid.  Revisions only grow, and as long
as a revision stays the same so does the shape of what it counts, so a key that is the same again
describes the same machines.  The memory is therefore stated by pointing to a workshop of the past in
which the machine was clean.

## Main definitions

* `Workshop.Sane` — the invariant of the structure: arenas in order, links to Turing machines of the
  workshop, no cycles.
* `Workshop.Evolves` — a workshop is a later form of another.
* `Workshop.MemoSound` — whatever a machine remembers was once true.
* `Workshop.Change` — the small changes.

## Main statements

* `Workshop.Evolves.clean_of_keyTo_eq` — a key that is the same again describes clean machines again.
* `Workshop.Change.sane`, `Change.evolves`, `Change.memoSound` — what a change keeps.
-/

namespace MachineLab

open Relation

/-! ## The shape of a machine -/

/-- A state without its label. -/
def State.unlabelled (s : State) : State := { s with label := "" }

namespace Machine

/-- Two machines differ in nothing but labels, names and memories. -/
structure SameShape (m m' : Machine) : Prop where
  kind : m.kind = m'.kind
  alphabet : m.alphabet = m'.alphabet
  transitions : m.transitions = m'.transitions
  states : m.states.map State.unlabelled = m'.states.map State.unlabelled

namespace SameShape

variable {m m' m'' : Machine}

theorem refl (m : Machine) : m.SameShape m := ⟨rfl, rfl, rfl, rfl⟩

theorem trans (h : m.SameShape m') (h' : m'.SameShape m'') : m.SameShape m'' :=
  ⟨h.1.trans h'.1, h.2.trans h'.2, h.3.trans h'.3, h.4.trans h'.4⟩

theorem submachines_eq (h : m.SameShape m') : m.submachines = m'.submachines := by
  have forget : ∀ ss : List State,
      ss.filterMap (·.submachine) = (ss.map State.unlabelled).filterMap (·.submachine) := by
    intro ss
    rw [List.filterMap_map]
    rfl
  rw [submachines, submachines, forget m.states, forget m'.states, h.states]

theorem countP_eq (h : m.SameShape m') (p : State → Bool) (hp : ∀ s, p s = p s.unlabelled) :
    m.states.countP p = m'.states.countP p := by
  have forget : ∀ ss : List State, ss.countP p = (ss.map State.unlabelled).countP p := by
    intro ss
    rw [List.countP_map]
    exact congrArg (List.countP · ss) (funext hp)
  rw [forget m.states, forget m'.states, h.states]

/-- Each state of one machine has a counterpart in the other. -/
theorem exists_state (h : m.SameShape m') {s' : State} (hs' : s' ∈ m'.states) :
    ∃ s ∈ m.states, s.unlabelled = s'.unlabelled := by
  have hmem : s'.unlabelled ∈ m.states.map State.unlabelled :=
    h.states ▸ List.mem_map_of_mem hs'
  simpa using hmem

theorem exits_eq (h : m.SameShape m') {s s' : State} (hs : s.unlabelled = s'.unlabelled) :
    m.exits s = m'.exits s' := by
  have same : s.unlabelled.id = s'.unlabelled.id := by rw [hs]
  change s.id = s'.id at same
  rw [exits, exits, same, h.transitions]

/-- Labels play no part in the rules. -/
theorem rules (h : m.SameShape m') {a : Alphabet} (hm : m.Rules a) : m'.Rules a := by
  unfold Rules at hm ⊢
  rw [← h.kind]
  cases hk : m.kind with
  | turing =>
    rw [hk] at hm
    constructor
    · rw [← hm.one_start]
      exact (h.countP_eq _ fun _ => rfl).symm
    · rw [← hm.one_final]
      exact (h.countP_eq _ fun _ => rfl).symm
    · intro s' hs' hfinal
      obtain ⟨s, hs, same⟩ := h.exists_state hs'
      rw [← h.exits_eq same]
      exact hm.final_stays s hs ((congrArg State.isFinal same).trans hfinal)
    · intro s' hs'
      obtain ⟨s, hs, same⟩ := h.exists_state hs'
      rw [← h.exits_eq same]
      exact hm.edges_fit s hs
  | acceptor =>
    rw [hk] at hm
    constructor
    · rw [← hm.one_start]
      exact (h.countP_eq _ fun _ => rfl).symm
    · intro s' hs'
      obtain ⟨s, hs, same⟩ := h.exists_state hs'
      rw [← h.exits_eq same]
      exact hm.edges_fit s hs
    · intro s' hs'
      obtain ⟨s, hs, same⟩ := h.exists_state hs'
      rw [← h.exits_eq same]
      exact hm.complete s hs

end SameShape

/-- A later form of a machine counts more edits or has the same shape. -/
def Later (m m' : Machine) : Prop :=
  m.revision < m'.revision ∨ (m.revision = m'.revision ∧ m.SameShape m')

theorem Later.trans {m m' m'' : Machine} (h : m.Later m') (h' : m'.Later m'') : m.Later m'' := by
  rcases h with lt | ⟨eq, shape⟩
  · rcases h' with lt' | ⟨eq', -⟩
    · exact .inl (Nat.lt_trans lt lt')
    · exact .inl (eq' ▸ lt)
  · rcases h' with lt' | ⟨eq', shape'⟩
    · exact .inl (eq ▸ lt')
    · exact .inr ⟨eq.trans eq', shape.trans shape'⟩

/-- Every structural edit counts; renaming a state and forgetting a verdict leave the shape. -/
theorem Edit.later {m m' : Machine} (e : m.Edit m') : m.Later m' := by
  cases e with
  | setLabel id label =>
    refine .inr ⟨rfl, rfl, rfl, rfl, ?_⟩
    change _ = (m.states.map _).map State.unlabelled
    rw [List.map_map]
    refine List.map_congr_left fun s _ => ?_
    by_cases hs : s.id = id <;> simp [hs, State.unlabelled]
  | invalidate => exact .inr ⟨rfl, rfl, rfl, rfl, rfl⟩
  | _ => exact .inl (Nat.lt_succ_self _)

/-- No edit makes a machine remember anything new. -/
theorem Edit.validated {m m' : Machine} (e : m.Edit m') :
    m'.validated = none ∨ m'.validated = m.validated := by
  cases e with
  | setLabel id label => exact .inr rfl
  | _ => exact .inl rfl

theorem mem_submachines {m : Machine} {i : MachineId} :
    i ∈ m.submachines ↔ ∃ s ∈ m.states, s.submachine = some i := by
  simp [submachines]

theorem submachines_updateState_subset (m : Machine) (id : Nat) (f : State → State)
    (hf : ∀ s, (f s).submachine = s.submachine ∨ (f s).submachine = none) :
    (m.updateState id f).submachines ⊆ m.submachines := by
  intro i hi
  obtain ⟨s, hs, hsub⟩ := mem_submachines.mp hi
  obtain ⟨s₀, hs₀, rfl⟩ := List.mem_map.mp hs
  refine mem_submachines.mpr ⟨s₀, hs₀, ?_⟩
  by_cases hid : s₀.id = id
  · rw [if_pos hid] at hsub
    rcases hf s₀ with h | h
    · rw [← h, hsub]
    · rw [h] at hsub
      cases hsub
  · rw [if_neg hid] at hsub
    exact hsub

theorem submachines_removeTransitions (m : Machine) (doomed : Transition → Bool) :
    (m.removeTransitions doomed).submachines = m.submachines := by
  simp only [submachines, removeTransitions, List.filterMap_map]
  rfl

/-- No edit by itself adds a nested machine. -/
theorem Edit.submachines_subset {m m' : Machine} (e : m.Edit m') :
    m'.submachines ⊆ m.submachines := by
  cases e with
  | addState label isStart isFinal =>
    intro i hi
    obtain ⟨s, hs, hsub⟩ := mem_submachines.mp hi
    rcases List.mem_append.mp hs with hs | hs
    · exact mem_submachines.mpr ⟨s, hs, hsub⟩
    · rw [List.mem_singleton.mp hs] at hsub
      cases hsub
  | deleteState id =>
    intro i hi
    obtain ⟨s, hs, hsub⟩ := mem_submachines.mp hi
    rw [← m.submachines_removeTransitions (·.touches id)]
    exact mem_submachines.mpr ⟨s, (List.mem_filter.mp hs).1, hsub⟩
  | addTransition _ _ _ => exact m.submachines_updateState_subset _ _ fun _ => .inl rfl
  | deleteTransition id =>
    change (m.removeTransitions (·.id == id)).submachines ⊆ m.submachines
    rw [m.submachines_removeTransitions]
    exact List.Subset.refl _
  | setAction id _ => exact List.Subset.refl _
  | setStart id value => exact m.submachines_updateState_subset _ _ fun _ => .inl rfl
  | setFinal id value => exact m.submachines_updateState_subset _ _ fun _ => .inl rfl
  | setLabel id label => exact m.submachines_updateState_subset _ _ fun _ => .inl rfl
  | detach id => exact m.submachines_updateState_subset _ _ fun _ => .inr rfl
  | invalidate => exact List.Subset.refl _

end Machine

/-! ## Reading a workshop after a change -/

namespace Workshop

variable {w w' w'' : Workshop}

theorem machine_setMachine {m : MachineId} (hm : m.index < w.machines.length) (new : Machine)
    (n : MachineId) : (w.setMachine m new).machine n = if n = m then new else w.machine n := by
  by_cases h : n = m
  · subst h
    rw [if_pos rfl, w.machine_setMachine_self n new hm]
  · rw [if_neg h, w.machine_setMachine_of_ne m n new h]

theorem machine_addMachine (w : Workshop) (new : Machine) (n : MachineId) :
    (w.addMachine new).1.machine n = if n.index = w.machines.length then new else w.machine n := by
  simp only [machine, addMachine, List.getD_eq_getElem?_getD, List.getElem?_append]
  by_cases hlt : n.index < w.machines.length
  · simp [hlt, Nat.ne_of_lt hlt]
  · by_cases heq : n.index = w.machines.length
    · simp [heq]
    · have hpos : n.index - w.machines.length ≠ 0 := by omega
      simp [hlt, heq, hpos]

theorem machine_addMachine_of_lt (w : Workshop) (new : Machine) {n : MachineId}
    (hn : n.index < w.machines.length) : (w.addMachine new).1.machine n = w.machine n := by
  rw [machine_addMachine, if_neg (Nat.ne_of_lt hn)]

theorem alphabet_addAlphabet_of_lt (w : Workshop) (new : Alphabet) {a : AlphabetId}
    (ha : a.index < w.alphabets.length) : (w.addAlphabet new).1.alphabet a = w.alphabet a := by
  simp [alphabet, addAlphabet, List.getD_eq_getElem?_getD, List.getElem?_append, ha]

theorem alphabet_setAlphabet {a : AlphabetId} (ha : a.index < w.alphabets.length) (new : Alphabet)
    (b : AlphabetId) : (w.setAlphabet a new).alphabet b = if b = a then new else w.alphabet b := by
  by_cases h : b = a
  · subst h
    simp [alphabet, setAlphabet, List.getD_eq_getElem?_getD, ha]
  · have hne : a.index ≠ b.index := by
      intro e
      apply h
      cases a
      cases b
      simp_all
    simp [alphabet, setAlphabet, List.getD_eq_getElem?_getD, List.getElem?_set_ne hne, h]

theorem nests_setMachine {m : MachineId} (hm : m.index < w.machines.length) (new : Machine)
    (x i : MachineId) :
    (w.setMachine m new).Nests x i ↔ if x = m then i ∈ new.submachines else w.Nests x i := by
  unfold Nests links
  rw [machine_setMachine hm]
  by_cases h : x = m <;> simp [h]

/-! ## The invariant of the structure -/

/-- Arenas are in order, every machine's alphabet is in the workshop, links lead to Turing machines
of the workshop, and no machine lies below itself. -/
structure Sane (w : Workshop) : Prop where
  arena : ∀ m, (w.machine m).Arena
  alphabet_known : ∀ m, m.index < w.machines.length →
    (w.machine m).alphabet.index < w.alphabets.length
  links_known : w.LinksKnown
  links_turing : ∀ m i, w.Nests m i → (w.machine i).kind = .turing
  acyclic : w.Acyclic

namespace Sane

theorem flat (h : w.Sane) : w.Flat := by
  intro m i edge
  cases hk : (w.machine m).kind with
  | turing => rfl
  | acceptor =>
    obtain ⟨s, hs, hsub⟩ := (w.nests_iff m i).mp edge
    rw [(h.arena m).flat hk s hs] at hsub
    cases hsub

theorem within (h : w.Sane) {m : MachineId} (hm : m.index < w.machines.length) :
    w.Within w.machines.length m := h.acyclic.within h.links_known hm

theorem defectOf_eq_none_iff (h : w.Sane) {m : MachineId} (hm : m.index < w.machines.length) :
    w.defectOf m = .ok none ↔ w.Clean m :=
  defectTo_eq_none_iff h.arena h.flat (h.within hm)

end Sane

theorem sane_empty : Workshop.empty.Sane := by
  have none : ∀ m i, ¬ Workshop.empty.Nests m i := by
    intro m i edge
    exact absurd (Workshop.empty.lt_of_nests edge) (Nat.not_lt_zero _)
  refine ⟨?_, ?_, ?_, ?_, ?_⟩
  · intro m
    constructor <;>
      simp [machine, Workshop.empty, default, instInhabitedMachine.default]
  · exact fun m hm => absurd hm (Nat.not_lt_zero _)
  · exact fun m i edge => absurd edge (none m i)
  · exact fun m i edge => absurd edge (none m i)
  · intro m cycle
    obtain ⟨i, edge, -⟩ := TransGen.head'_iff.mp cycle
    exact none m i edge

/-! ## Later forms of a workshop -/

/-- A workshop is a later form of another: nothing is taken out, and each machine and each alphabet
counts more edits or has kept its shape. -/
structure Evolves (w w' : Workshop) : Prop where
  machines_le : w.machines.length ≤ w'.machines.length
  alphabets_le : w.alphabets.length ≤ w'.alphabets.length
  machine : ∀ m, m.index < w.machines.length → (w.machine m).Later (w'.machine m)
  alphabet : ∀ a, a.index < w.alphabets.length →
    (w.alphabet a).revision < (w'.alphabet a).revision ∨ w.alphabet a = w'.alphabet a

namespace Evolves

theorem refl (w : Workshop) : w.Evolves w :=
  ⟨Nat.le_refl _, Nat.le_refl _, fun _ _ => .inr ⟨rfl, .refl _⟩, fun _ _ => .inr rfl⟩

theorem trans (h : w.Evolves w') (h' : w'.Evolves w'') : w.Evolves w'' := by
  refine ⟨h.1.trans h'.1, h.2.trans h'.2, ?_, ?_⟩
  · intro m hm
    exact (h.machine m hm).trans (h'.machine m (Nat.lt_of_lt_of_le hm h.1))
  · intro a ha
    rcases h.alphabet a ha with lt | eq
    · rcases h'.alphabet a (Nat.lt_of_lt_of_le ha h.2) with lt' | eq'
      · exact .inl (Nat.lt_trans lt lt')
      · exact .inl (eq' ▸ lt)
    · rw [eq]
      exact h'.alphabet a (Nat.lt_of_lt_of_le ha h.2)

/-- **A key that is the same again describes the same machines.**  Along equal keys the revisions
agree, so the shapes do, so the links do, and so on downwards. -/
theorem clean_of_keyTo_eq (ev : w.Evolves w') (sane : w.Sane) {d d' : Nat} {m : MachineId}
    (deep : w.Within d m) (le : d ≤ d') (hm : m.index < w.machines.length)
    (key : w.keyTo d m = w'.keyTo d' m) (clean : w.Clean m) : w'.Clean m := by
  induction d generalizing d' m with
  | zero => exact deep.elim
  | succ d ih =>
    obtain ⟨e, rfl⟩ : ∃ e, d' = e + 1 := ⟨d' - 1, by omega⟩
    simp only [keyTo, keyBody, RevisionKey.node.injEq] at key
    obtain ⟨hrev, halpha, harev, hnested⟩ := key
    have shape : (w.machine m).SameShape (w'.machine m) := by
      rcases ev.machine m hm with lt | ⟨-, shape⟩
      · omega
      · exact shape
    have halphabet : w.alphabetOf m = w'.alphabetOf m := by
      unfold alphabetOf at harev ⊢
      rw [← halpha] at harev ⊢
      rcases ev.alphabet _ (sane.alphabet_known m hm) with lt | eq
      · omega
      · exact eq
    have hlinks : w'.links m = w.links m := shape.submachines_eq.symm
    rw [clean_iff] at clean ⊢
    constructor
    · exact halphabet ▸ shape.rules clean.1
    · intro i edge
      have edge₀ : w.Nests m i := by
        unfold Nests at edge ⊢
        rwa [hlinks] at edge
      have hkey : w.keyTo d i = w'.keyTo e i := by
        rw [hlinks] at hnested
        exact List.map_inj_left.mp hnested i edge₀
      exact ih (deep i edge₀) (by omega) (sane.links_known m i edge₀) hkey (clean.2 i edge₀)

end Evolves

/-! ## What machines remember -/

/-- Whatever key a machine remembers, there was a workshop, of which this one is a later form, where
the machine had that key and was clean. -/
def MemoSound (w : Workshop) : Prop :=
  ∀ m key, m.index < w.machines.length → (w.machine m).validated = some key →
    ∃ past : Workshop, past.Sane ∧ past.Evolves w ∧ m.index < past.machines.length ∧
      past.keyOf m = key ∧ past.Clean m

/-- **What a machine remembers is true while its key is the one that it remembers.** -/
theorem MemoSound.clean (memo : w.MemoSound) {m : MachineId} (hm : m.index < w.machines.length)
    (valid : (w.machine m).validated = some (w.keyOf m)) : w.Clean m := by
  obtain ⟨past, sane, ev, hpast, key, clean⟩ := memo m _ hm valid
  exact ev.clean_of_keyTo_eq sane (sane.within hpast) ev.machines_le hpast key clean

/-- A later form that remembers nothing new remembers nothing wrong. -/
theorem MemoSound.evolve (memo : w.MemoSound) (ev : w.Evolves w')
    (keeps : ∀ m key, m.index < w'.machines.length → (w'.machine m).validated = some key →
      m.index < w.machines.length ∧ (w.machine m).validated = some key) : w'.MemoSound := by
  intro m key hm hkey
  obtain ⟨hm₀, hkey₀⟩ := keeps m key hm hkey
  obtain ⟨past, sane, ev₀, hpast, hpk, clean⟩ := memo m key hm₀ hkey₀
  exact ⟨past, sane, ev₀.trans ev, hpast, hpk, clean⟩

/-! ## Changes -/

/-- The small changes of which everything that happens to a workshop is made. -/
inductive Change (w : Workshop) : Workshop → Prop
  | addAlphabet (new : Alphabet) : Change w (w.addAlphabet new).1
  | editAlphabet {a : AlphabetId} {new : Alphabet} (known : a.index < w.alphabets.length)
      (newer : (w.alphabet a).revision < new.revision) : Change w (w.setAlphabet a new)
  | addMachine (kind : Kind) (name : Value) {a : AlphabetId}
      (known : a.index < w.alphabets.length) :
      Change w (w.addMachine (Machine.empty kind name a)).1
  | edit {m : MachineId} {new : Machine} (known : m.index < w.machines.length)
      (e : (w.machine m).Edit new) : Change w (w.setMachine m new)
  | setAlphabet {m : MachineId} {a : AlphabetId} (known : m.index < w.machines.length)
      (knownAlphabet : a.index < w.alphabets.length) :
      Change w (w.setMachine m ((w.machine m).setAlphabet a))
  /-- A Turing machine is put into a state of another one that does not lie below it. -/
  | attach {m i : MachineId} (id : Nat) (known : m.index < w.machines.length)
      (knownInner : i.index < w.machines.length) (outer : (w.machine m).kind = .turing)
      (inner : (w.machine i).kind = .turing) (back : ¬ ReflTransGen w.Nests i m) :
      Change w (w.setMachine m ((w.machine m).setSubmachine id (some i)))
  /-- A machine that is clean remembers its key. -/
  | remember {m : MachineId} (known : m.index < w.machines.length) (clean : w.Clean m) :
      Change w (w.setMachine m ((w.machine m).remembering (some (w.keyOf m))))

/-- Replacing a machine keeps the invariant if the new one is in order, links to Turing machines of
the workshop and closes no cycle. -/
theorem Sane.setMachine (h : w.Sane) {m : MachineId} (hm : m.index < w.machines.length)
    {new : Machine} (arena : new.Arena) (alphabet : new.alphabet.index < w.alphabets.length)
    (kind : new.kind = (w.machine m).kind)
    (links : ∀ i ∈ new.submachines, i.index < w.machines.length ∧ (w.machine i).kind = .turing)
    (acyclic : (w.setMachine m new).Acyclic) : (w.setMachine m new).Sane := by
  have kinds : ∀ n, ((w.setMachine m new).machine n).kind = (w.machine n).kind := by
    intro n
    rw [machine_setMachine hm]
    by_cases hn : n = m
    · rw [if_pos hn, kind, hn]
    · rw [if_neg hn]
  have targets : ∀ x i, (w.setMachine m new).Nests x i →
      i.index < w.machines.length ∧ (w.machine i).kind = .turing := by
    intro x i edge
    rw [nests_setMachine hm] at edge
    by_cases hx : x = m
    · rw [if_pos hx] at edge
      exact links i edge
    · rw [if_neg hx] at edge
      exact ⟨h.links_known x i edge, h.links_turing x i edge⟩
  refine ⟨?_, ?_, ?_, ?_, acyclic⟩
  · intro n
    rw [machine_setMachine hm]
    split
    · exact arena
    · exact h.arena n
  · intro n hn
    rw [machine_setMachine hm]
    split
    · exact alphabet
    · exact h.alphabet_known n (by simpa using hn)
  · intro x i edge
    rw [length_setMachine]
    exact (targets x i edge).1
  · intro x i edge
    rw [kinds]
    exact (targets x i edge).2

/-- Replacing a machine by one without new links. -/
theorem Sane.setMachine_subset (h : w.Sane) {m : MachineId} (hm : m.index < w.machines.length)
    {new : Machine} (arena : new.Arena) (alphabet : new.alphabet.index < w.alphabets.length)
    (kind : new.kind = (w.machine m).kind) (links : new.submachines ⊆ (w.machine m).submachines) :
    (w.setMachine m new).Sane := by
  have old : (w.setMachine m new).Nests ≤ w.Nests := by
    intro x i edge
    rw [nests_setMachine hm] at edge
    by_cases hx : x = m
    · rw [if_pos hx] at edge
      rw [hx]
      exact links edge
    · rwa [if_neg hx] at edge
  refine h.setMachine hm arena alphabet kind ?_ ?_
  · intro i hi
    exact ⟨h.links_known m i (links hi), h.links_turing m i (links hi)⟩
  · intro x cycle
    exact h.acyclic x (TransGen.mono old _ _ cycle)

theorem submachines_setSubmachine (m : Machine) (id : Nat) (i : MachineId) {x : MachineId}
    (hx : x ∈ (m.setSubmachine id (some i)).submachines) : x ∈ m.submachines ∨ x = i := by
  obtain ⟨s, hs, hsub⟩ := Machine.mem_submachines.mp hx
  obtain ⟨s₀, hs₀, rfl⟩ := List.mem_map.mp hs
  by_cases hid : s₀.id = id
  · rw [if_pos hid] at hsub
    exact .inr (Option.some.inj hsub).symm
  · rw [if_neg hid] at hsub
    exact .inl (Machine.mem_submachines.mpr ⟨s₀, hs₀, hsub⟩)

/-- Machines nest as before once a machine is added that holds none. -/
theorem nests_addMachine {new : Machine} (alone : new.submachines = []) :
    (w.addMachine new).1.Nests = w.Nests := by
  funext x i
  unfold Nests Workshop.links
  rw [machine_addMachine]
  split
  · rename_i beyond
    have absent : w.machine x = default := by
      simp [machine, List.getD_eq_getElem?_getD, beyond]
    rw [absent, alone]
    rfl
  · rfl

/-- Adding a machine that holds none. -/
theorem Sane.addMachine (h : w.Sane) {new : Machine} (alone : new.submachines = [])
    (arena : new.Arena) (alphabet : new.alphabet.index < w.alphabets.length) :
    (w.addMachine new).1.Sane := by
  have len : (w.addMachine new).1.machines.length = w.machines.length + 1 := by
    simp [Workshop.addMachine]
  refine ⟨?_, ?_, ?_, ?_, ?_⟩
  · intro m
    rw [machine_addMachine]
    split
    · exact arena
    · exact h.arena m
  · intro m hm
    rw [machine_addMachine]
    split
    · exact alphabet
    · exact h.alphabet_known m (by omega)
  · intro x i edge
    rw [nests_addMachine alone] at edge
    have := h.links_known x i edge
    omega
  · intro x i edge
    rw [nests_addMachine alone] at edge
    rw [machine_addMachine_of_lt _ _ (h.links_known x i edge)]
    exact h.links_turing x i edge
  · unfold Acyclic
    rw [nests_addMachine alone]
    exact h.acyclic

/-- Putting a machine into a state of another that it does not hold itself. -/
theorem Sane.attach (h : w.Sane) {m i : MachineId} {id : Nat} (known : m.index < w.machines.length)
    (knownInner : i.index < w.machines.length) (outer : (w.machine m).kind = .turing)
    (inner : (w.machine i).kind = .turing) (back : ¬ ReflTransGen w.Nests i m) :
    (w.setMachine m ((w.machine m).setSubmachine id (some i))).Sane := by
  refine h.setMachine known ((h.arena m).setSubmachine id (some i) (.inl outer))
    (h.alphabet_known m known) rfl ?_ ?_
  · intro x hx
    rcases submachines_setSubmachine _ id i hx with hx | rfl
    · exact ⟨h.links_known m x hx, h.links_turing m x hx⟩
    · exact ⟨knownInner, inner⟩
  · refine acyclic_add_edge (r := w.Nests) (a := m) (b := i) ?_ h.acyclic back
    intro x y edge
    rw [nests_setMachine known] at edge
    by_cases hx : x = m
    · rw [if_pos hx] at edge
      rcases submachines_setSubmachine _ id i edge with hy | hy
      · exact .inl (hx ▸ hy)
      · exact .inr ⟨hx, hy⟩
    · rw [if_neg hx] at edge
      exact .inl edge

/-- **A change keeps the structure sound.** -/
theorem Change.sane (c : w.Change w') (h : w.Sane) : w'.Sane := by
  cases c with
  | addAlphabet new =>
    refine ⟨h.arena, ?_, h.links_known, h.links_turing, h.acyclic⟩
    intro m hm
    have := h.alphabet_known m hm
    simp only [Workshop.addAlphabet, List.length_append]
    exact Nat.lt_of_lt_of_le this (Nat.le_add_right _ _)
  | @editAlphabet a new known newer =>
    refine ⟨h.arena, ?_, h.links_known, h.links_turing, h.acyclic⟩
    intro m hm
    change _ < (w.alphabets.set a.index new).length
    rw [List.length_set]
    exact h.alphabet_known m hm
  | @addMachine kind name a known => exact h.addMachine rfl (Machine.arena_empty kind name a) known
  | @edit m new known e =>
    refine h.setMachine_subset known ((h.arena m).edit e) ?_ e.kind_eq e.submachines_subset
    rw [e.alphabet_eq]
    exact h.alphabet_known m known
  | @setAlphabet m a known knownAlphabet =>
    exact h.setMachine_subset known ((h.arena m).setAlphabet a) knownAlphabet rfl
      (List.Subset.refl _)
  | @attach m i id known knownInner outer inner back => exact h.attach known knownInner outer inner back
  | @remember m known clean =>
    exact h.setMachine_subset known ((h.arena m).remembering _) (h.alphabet_known m known) rfl
      (List.Subset.refl _)

theorem evolves_setMachine {m : MachineId} (hm : m.index < w.machines.length) {new : Machine}
    (later : (w.machine m).Later new) : w.Evolves (w.setMachine m new) := by
  refine ⟨Nat.le_of_eq (length_setMachine _ _ _).symm, Nat.le_refl _, ?_, fun _ _ => .inr rfl⟩
  intro n _
  rw [machine_setMachine hm]
  by_cases hn : n = m
  · rw [if_pos hn, hn]
    exact later
  · rw [if_neg hn]
    exact .inr ⟨rfl, .refl _⟩

/-- **A change leads to a later form of the workshop.** -/
theorem Change.evolves (c : w.Change w') : w.Evolves w' := by
  cases c with
  | addAlphabet new =>
    refine ⟨Nat.le_refl _, ?_, fun _ _ => .inr ⟨rfl, .refl _⟩, ?_⟩
    · simp [Workshop.addAlphabet]
    · intro a ha
      exact .inr (alphabet_addAlphabet_of_lt w new ha).symm
  | @editAlphabet a new known newer =>
    refine ⟨Nat.le_refl _, ?_, fun _ _ => .inr ⟨rfl, .refl _⟩, ?_⟩
    · simp [Workshop.setAlphabet]
    · intro b _
      rw [alphabet_setAlphabet known]
      by_cases hb : b = a
      · rw [if_pos hb, hb]
        exact .inl newer
      · rw [if_neg hb]
        exact .inr rfl
  | @addMachine kind name a known =>
    refine ⟨?_, Nat.le_refl _, ?_, fun _ _ => .inr rfl⟩
    · simp [Workshop.addMachine]
    · intro m hm
      rw [machine_addMachine_of_lt _ _ hm]
      exact .inr ⟨rfl, .refl _⟩
  | edit known e => exact evolves_setMachine known e.later
  | setAlphabet known _ => exact evolves_setMachine known (.inl (Nat.lt_succ_self _))
  | attach id known _ _ _ _ => exact evolves_setMachine known (.inl (Nat.lt_succ_self _))
  | remember known _ => exact evolves_setMachine known (.inr ⟨rfl, rfl, rfl, rfl, rfl⟩)

/-- Replacing a machine by one that remembers nothing, or the same, adds no memory. -/
theorem MemoSound.setMachine (memo : w.MemoSound) {m : MachineId}
    (hm : m.index < w.machines.length) {new : Machine} (later : (w.machine m).Later new)
    (forgets : new.validated = none ∨ new.validated = (w.machine m).validated) :
    (w.setMachine m new).MemoSound := by
  refine memo.evolve (evolves_setMachine hm later) ?_
  intro n key hn hkey
  rw [length_setMachine] at hn
  refine ⟨hn, ?_⟩
  rw [machine_setMachine hm] at hkey
  by_cases h : n = m
  · rw [if_pos h] at hkey
    rcases forgets with none | same
    · rw [none] at hkey
      cases hkey
    · rw [h, ← same, hkey]
  · rwa [if_neg h] at hkey

/-- **A change keeps what machines remember sound.** -/
theorem Change.memoSound (c : w.Change w') (sane : w.Sane) (memo : w.MemoSound) :
    w'.MemoSound := by
  have ev := c.evolves
  cases c with
  | addAlphabet new => exact memo.evolve ev fun m key hm hkey => ⟨hm, hkey⟩
  | editAlphabet known newer => exact memo.evolve ev fun m key hm hkey => ⟨hm, hkey⟩
  | @addMachine kind name a known =>
    refine memo.evolve ev fun m key hm hkey => ?_
    rw [machine_addMachine] at hkey
    split at hkey
    · cases hkey
    · have len : (w.addMachine (Machine.empty kind name a)).1.machines.length =
          w.machines.length + 1 := by simp [Workshop.addMachine]
      exact ⟨by omega, hkey⟩
  | edit known e => exact memo.setMachine known e.later e.validated
  | setAlphabet known _ => exact memo.setMachine known (.inl (Nat.lt_succ_self _)) (.inl rfl)
  | attach id known _ _ _ _ => exact memo.setMachine known (.inl (Nat.lt_succ_self _)) (.inl rfl)
  | @remember m known clean =>
    intro n key hn hkey
    rw [length_setMachine] at hn
    rw [machine_setMachine known] at hkey
    by_cases h : n = m
    · -- What the machine remembers now is true now.
      rw [if_pos h] at hkey
      rw [h, ← Option.some.inj hkey]
      exact ⟨w, sane, ev, known, rfl, clean⟩
    · rw [if_neg h] at hkey
      obtain ⟨past, hp, ev₀, hpast, hpk, hclean⟩ := memo n key hn hkey
      exact ⟨past, hp, ev₀.trans ev, hpast, hpk, hclean⟩

/-! ## Any number of changes -/

/-- One workshop comes from another by any number of changes. -/
abbrev Changes : Workshop → Workshop → Prop := ReflTransGen Change

/-- The structure is sound and so is what machines remember. -/
structure Good (w : Workshop) : Prop where
  sane : w.Sane
  memo : w.MemoSound

theorem good_empty : Workshop.empty.Good :=
  ⟨sane_empty, fun _ _ hm _ => absurd hm (Nat.not_lt_zero _)⟩

theorem Changes.good (c : w.Changes w') (h : w.Good) : w'.Good := by
  induction c with
  | refl => exact h
  | tail _ c ih => exact ⟨c.sane ih.sane, c.memoSound ih.sane ih.memo⟩

theorem Changes.evolves (c : w.Changes w') : w.Evolves w' := by
  induction c with
  | refl => exact .refl w
  | tail _ c ih => exact ih.trans c.evolves

end Workshop

end MachineLab
