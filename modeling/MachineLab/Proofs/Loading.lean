import MachineLab.Proofs.Copy
import MachineLab.Proofs.History

/-!
# Reading the document of a machine

The document of a machine lists its states and transitions in order, with the documents of nested
machines inside.  Reading it adds a machine state by state and transition by transition; where a state
holds a document, that is read in between.

While a document is read, the machine under construction is a copy of a part of the machine that was
written, and everything that was there before stays as it is.  New machines hold only machines that
came after them, so no attachment is refused.

## Main definitions

* `Machine.position` — the identifier that a state is given when it is read.
* `Workshop.Loaded` — the machine under construction is a copy of a part.
* `Workshop.Brought` — what reading a document does to a workshop.

## Main statements

* `Work.readStates_eq`, `Work.readTransitions_eq` — the two loops.
* `Work.readTo_document` — the document of a machine is read as a copy.
-/

namespace MachineLab

open Relation

/-! ## The places of states -/

namespace Machine

variable {m : Machine} {s u : State} {done rest : List State}

/-- The place of a state in the order of the live states. -/
def position (m : Machine) (id : Nat) : Nat := m.states.findIdx (·.id == id)

theorem Arena.position_eq (arena : m.Arena) (h : m.states = done ++ s :: rest) :
    m.position s.id = done.length := by
  have increasing := arena.states_increasing
  rw [h, List.pairwise_append] at increasing
  have before : ∀ u ∈ done, (u.id == s.id) = false := fun u hu =>
    beq_false_of_ne (Nat.ne_of_lt (increasing.2.2 u hu s (.head _)))
  rw [position, h, List.findIdx_append, List.findIdx_eq_length.mpr before]
  simp [List.findIdx_cons]

/-- States at one place are one state. -/
theorem Arena.id_eq_of_position_eq (arena : m.Arena) (hs : s ∈ m.states) (hu : u ∈ m.states)
    (same : m.position s.id = m.position u.id) : s.id = u.id := by
  obtain ⟨d, r, h⟩ := List.append_of_mem hs
  obtain ⟨d', r', h'⟩ := List.append_of_mem hu
  rw [arena.position_eq h, arena.position_eq h'] at same
  have split := List.append_inj (h.symm.trans h') same
  rw [(List.cons.inj split.2).1]

/-- The table of the states read so far. -/
def table (m : Machine) (done : List State) : List (Value × Nat) :=
  done.map fun s => (.int s.id, m.position s.id)

end Machine

/-! ## The fields of a document -/

/-- A search among images is a search among what they are images of. -/
theorem find?_map_of_eq {α β : Type} {f : α → β} {p : β → Bool} {q : α → Bool}
    (same : ∀ a, p (f a) = q a) (l : List α) : (l.map f).find? p = (l.find? q).map f := by
  have composed : p ∘ f = q := funext same
  rw [List.find?_map, composed]

namespace Machine

variable {m : Machine} {s : State} {done : List State}

/-- The table has the places of the states read so far, and nothing else. -/
theorem lookupIn_table (m : Machine) (done : List State) (id : Nat) :
    (Value.int id).lookupIn (m.table done) =
      .ok ((done.find? (·.id == id)).map fun s => m.position s.id) := by
  have found : (m.table done).find? (fun entry => entry.1.samePart (.int id)) =
      (done.find? (·.id == id)).map fun s => (.int s.id, m.position s.id) := by
    refine find?_map_of_eq (fun s => ?_) done
    exact Value.samePart_id s.id id
  have isKey : (Value.int id).isKey = true := rfl
  rw [Value.lookupIn, if_pos isKey, found, Option.map_map]
  rfl

theorem lookupIn_table_of_mem (hs : s ∈ done) :
    (Value.int s.id).lookupIn (m.table done) = .ok (some (m.position s.id)) := by
  have exists_found : (done.find? (·.id == s.id)).isSome := by
    rw [List.find?_isSome]
    exact ⟨s, hs, beq_self_eq_true _⟩
  obtain ⟨u, hu⟩ := Option.isSome_iff_exists.mp exists_found
  have hid := List.find?_some hu
  rw [beq_iff_eq] at hid
  rw [lookupIn_table, hu, Option.map_some, hid]

theorem lookupIn_table_of_not_mem {id : Nat} (fresh : ∀ s ∈ done, s.id ≠ id) :
    (Value.int id).lookupIn (m.table done) = .ok none := by
  have missing : done.find? (·.id == id) = none := by
    rw [List.find?_eq_none]
    exact fun s hs => by simpa using fresh s hs
  rw [lookupIn_table, missing, Option.map_none]

end Machine

/-- What the entry of a state says. -/
theorem State.entry_fields (s : State) (nested : MachineId → Value) :
    (s.entry nested).item "id" = .ok (.int s.id) ∧
      (s.entry nested).item "label" = .ok (.text s.label) ∧
      (s.entry nested).item "start" = .ok (.bool s.isStart) ∧
      (s.entry nested).item "final" = .ok (.bool s.isFinal) ∧
      (s.entry nested).optionalItem "submachine" = .ok (match s.submachine with
        | some i => nested i
        | none => .null) :=
  ⟨rfl, rfl, rfl, rfl, rfl⟩

theorem Kind.ofTag_tag (k : Kind) : Kind.ofTag (.text k.tag) = .ok k := by
  cases k <;> rfl

theorem Direction.ofName_name (d : Direction) : Direction.ofName (.text d.name) = .ok d := by
  cases d <;> rfl

theorem Work.readAction_entry (t : Transition) :
    Work.readAction t.action.kind t.entry = .ok t.action := by
  cases h : t.action with
  | turing d i o =>
    simp [readAction, Transition.entry, Transition.input, h, Action.kind, Action.input, Value.item,
      Dict.find?_cons, Direction.ofName_name, bind, Except.bind, pure, Except.pure]
  | acceptor i =>
    simp [readAction, Transition.entry, Transition.input, h, Action.kind, Action.input, Value.item,
      Dict.find?_cons, bind, Except.bind, pure, Except.pure]

theorem Work.readEnd_source {m : Machine} (arena : m.Arena) {t : Transition}
    (ht : t ∈ m.transitions) :
    Work.readEnd (m.table m.states) t.entry "from" = .ok (m.position t.source) := by
  obtain ⟨s, hs, hid⟩ := arena.source_live t ht
  rw [← hid]
  simp [readEnd, Transition.entry, Value.item, Dict.find?_cons, ← hid,
    Machine.lookupIn_table_of_mem hs, bind, Except.bind, pure, Except.pure]

theorem Work.readEnd_target {m : Machine} (arena : m.Arena) {t : Transition}
    (ht : t ∈ m.transitions) :
    Work.readEnd (m.table m.states) t.entry "to" = .ok (m.position t.target) := by
  obtain ⟨s, hs, hid⟩ := arena.target_live t ht
  rw [← hid]
  simp [readEnd, Transition.entry, Value.item, Dict.find?_cons, ← hid,
    Machine.lookupIn_table_of_mem hs, bind, Except.bind, pure, Except.pure]

/-! ### Heights -/

namespace Value

theorem height_le_heightItems {v : Value} {items : List Value} (hv : v ∈ items) :
    v.height ≤ heightItems items := by
  induction items with
  | nil => cases hv
  | cons x rest ih =>
    rw [heightItems]
    rcases List.mem_cons.mp hv with rfl | hv
    · exact le_max_left _ _
    · exact le_max_of_le_right (ih hv)

theorem height_le_heightFields {f : String × Value} {fields : List (String × Value)}
    (hf : f ∈ fields) : f.2.height ≤ heightFields fields := by
  induction fields with
  | nil => cases hf
  | cons x rest ih =>
    rw [heightFields]
    rcases List.mem_cons.mp hf with rfl | hf
    · exact le_max_left _ _
    · exact le_max_of_le_right (ih hf)

end Value

/-- The document of a nested machine is not as high as the document it is part of. -/
theorem Workshop.height_documentTo_lt (w : Workshop) {d : Nat} {m i : MachineId}
    (edge : w.Nests m i) : (w.documentTo d i).height < (w.documentTo (d + 1) m).height := by
  obtain ⟨s, hs, hi⟩ := (w.nests_iff m i).mp edge
  have inEntry : (w.documentTo d i).height < (s.entry (w.documentTo d)).height := by
    rw [State.entry, hi, Value.height]
    exact Nat.lt_succ_of_le (Value.height_le_heightFields (f := ("submachine", _)) (by simp))
  have inStates : (s.entry (w.documentTo d)).height ≤
      (Value.list ((w.machine m).states.map (·.entry (w.documentTo d)))).height := by
    rw [Value.height]
    exact Nat.le_succ_of_le (Value.height_le_heightItems (List.mem_map_of_mem hs))
  have inDocument : (Value.list ((w.machine m).states.map (·.entry (w.documentTo d)))).height ≤
      (w.documentTo (d + 1) m).height := by
    conv_rhs => rw [documentTo, documentBody, Value.height]
    exact Nat.le_succ_of_le (Value.height_le_heightFields (f := ("states", .list _)) (by simp))
  exact inEntry.trans_le (inStates.trans inDocument)

/-! ## Workshops that grow -/

theorem forall₂_copies_mono {R R' : MachineId → MachineId → Prop} {ρ : Nat → Nat}
    {ss ss' : List State} (h : List.Forall₂ (State.Copies R ρ) ss ss')
    (mono : ∀ s' ∈ ss', ∀ i i', s'.submachine = some i' → R i i' → R' i i') :
    List.Forall₂ (State.Copies R' ρ) ss ss' := by
  induction h with
  | nil => exact .nil
  | @cons s s' _ _ copies _ ih =>
    have inner : Option.Rel R' s.submachine s'.submachine := by
      have held := copies.submachine
      have here := mono s' (.head _)
      generalize s.submachine = x at held ⊢
      generalize s'.submachine = y at held here ⊢
      cases held with
      | none => exact .none
      | some hi => exact .some (here _ _ rfl hi)
    exact .cons { copies with submachine := inner } (ih fun s' hs' => mono s' (.tail _ hs'))

theorem Machine.Copies.mono {R R' : MachineId → MachineId → Prop} {ρ : Nat → Nat} {m m' : Machine}
    (h : m.Copies R ρ m')
    (mono : ∀ s' ∈ m'.states, ∀ i i', s'.submachine = some i' → R i i' → R' i i') :
    m.Copies R' ρ m' :=
  { h with states := forall₂_copies_mono h.states mono }

namespace Workshop

variable {w w' w'' : Workshop} {d n : Nat} {m m' k i : MachineId} {P Q : MachineId → Prop}

/-- Nothing is taken out of a workshop, and the machines with a property stay as they are. -/
structure Keeps (P : MachineId → Prop) (w w' : Workshop) : Prop where
  machines_le : w.machines.length ≤ w'.machines.length
  alphabets_le : w.alphabets.length ≤ w'.alphabets.length
  machine : ∀ i, i.index < w.machines.length → P i → w'.machine i = w.machine i
  alphabet : ∀ a, a.index < w.alphabets.length → w'.alphabet a = w.alphabet a

namespace Keeps

theorem refl (P : MachineId → Prop) (w : Workshop) : Keeps P w w :=
  ⟨Nat.le_refl _, Nat.le_refl _, fun _ _ _ => rfl, fun _ _ => rfl⟩

theorem trans (h : Keeps P w w') (h' : Keeps P w' w'') : Keeps P w w'' where
  machines_le := h.machines_le.trans h'.machines_le
  alphabets_le := h.alphabets_le.trans h'.alphabets_le
  machine i hi hP :=
    (h'.machine i (Nat.lt_of_lt_of_le hi h.machines_le) hP).trans (h.machine i hi hP)
  alphabet a ha :=
    (h'.alphabet a (Nat.lt_of_lt_of_le ha h.alphabets_le)).trans (h.alphabet a ha)

theorem mono (h : Keeps P w w') (sub : ∀ i, i.index < w.machines.length → Q i → P i) :
    Keeps Q w w' :=
  { h with machine := fun i hi hQ => h.machine i hi (sub i hi hQ) }

theorem setMachine (w : Workshop) (m : MachineId) (new : Machine) :
    Keeps (· ≠ m) w (w.setMachine m new) where
  machines_le := (w.length_setMachine m new).ge
  alphabets_le := Nat.le_refl _
  machine i _ hi := w.machine_setMachine_of_ne m i new hi
  alphabet _ _ := rfl

theorem alphabetOf (h : Keeps P w w') (sane : w.Sane) (hi : i.index < w.machines.length)
    (same : (w'.machine i).alphabet = (w.machine i).alphabet) : w'.alphabetOf i = w.alphabetOf i := by
  rw [Workshop.alphabetOf, Workshop.alphabetOf, same, h.alphabet _ (sane.alphabet_known i hi)]

end Keeps

/-- From some index on, machines hold only machines that came after them. -/
def Rising (w : Workshop) (n : Nat) : Prop := ∀ x y, n ≤ x.index → w.Nests x y → x.index < y.index

theorem Rising.lt_of_path (h : w.Rising n) {x y : MachineId} (le : n ≤ x.index)
    (path : TransGen w.Nests x y) : x.index < y.index := by
  induction path with
  | single edge => exact h _ _ le edge
  | tail _ edge ih => exact ih.trans (h _ _ (le.trans ih.le) edge)

/-- Machines still hold only later ones once a machine is given further links to such machines. -/
theorem Rising.setMachine (h : w.Rising n) (known : k.index < w.machines.length) {new : Machine}
    (links : ∀ y ∈ new.submachines, y ∈ (w.machine k).submachines ∨ k.index < y.index) :
    (w.setMachine k new).Rising n := by
  intro x y hx edge
  rw [nests_setMachine known] at edge
  split at edge
  · rename_i hxk
    subst hxk
    exact (links y edge).elim (h x y hx) id
  · exact h x y hx edge

/-- A copy that came after a machine stays one while only that machine is edited. -/
theorem Copy.keep (rising : w'.Rising k.index) (sane' : w'.Sane) (keeps : Keeps (· ≠ k) w' w'')
    (h : Copy w w' d m m') (later : k.index < m'.index) : Copy w w'' d m m' := by
  induction d generalizing m m' with
  | zero => exact h.elim
  | succ d ih =>
    obtain ⟨known, ⟨ρ, copies⟩, same⟩ := h
    have kept := keeps.machine m' known.2 fun e => Nat.lt_irrefl _ (e ▸ later)
    refine ⟨⟨known.1, Nat.lt_of_lt_of_le known.2 keeps.machines_le⟩, ⟨ρ, ?_⟩, ?_⟩
    · rw [kept]
      refine copies.mono fun s' hs' i i' hi' hi => ih hi ?_
      have edge : w'.Nests m' i' := (w'.nests_iff m' i').mpr ⟨s', hs', hi'⟩
      exact later.trans (rising m' i' later.le edge)
    · rw [keeps.alphabetOf sane' known.2 (by rw [kept])]
      exact same

/-! ## Machines under construction -/

/-- The machine `k` is a copy of the machine `m` as far as some states and transitions go, and it
holds only machines that came after it. -/
structure Loaded (w w' : Workshop) (d : Nat) (m k : MachineId) (done : List State)
    (edges : List Transition) : Prop where
  good : w'.Good
  known : k.index < w'.machines.length
  kind : (w'.machine k).kind = (w.machine m).kind
  name : (w'.machine k).name = (w.machine m).name
  alphabet : (w.alphabetOf m).Same (w'.alphabetOf k)
  states : List.Forall₂ (State.Copies (Copy w w' d) (w.machine m).position) done
    (w'.machine k).states
  issued : (w'.machine k).nextState = done.length
  transitions : List.Forall₂ (Transition.Copies (w.machine m).position) edges
    (w'.machine k).transitions
  rising : w'.Rising k.index

/-- Reading a document has brought in a copy of the machine `m`, with the copies of what is nested in
it after it. -/
structure Brought (w : Workshop) (d : Nat) (m : MachineId) (b b' : Workshop) : Prop where
  good : b'.Good
  keeps : Keeps (fun _ => True) b b'
  copy : Copy w b' d m ⟨b.machines.length⟩
  rising : b'.Rising b.machines.length

/-- Links that were there before stay as they were. -/
theorem Brought.rising_from {b b' : Workshop} (h : Brought w d m b b') (rising : b.Rising n) :
    b'.Rising n := by
  intro x y hx edge
  by_cases old : x.index < b.machines.length
  · have kept := h.keeps.machine x old trivial
    refine rising x y hx ?_
    unfold Nests links at edge ⊢
    rwa [kept] at edge
  · exact h.rising x y (Nat.not_lt.mp old) edge

namespace Loaded

variable {done rest : List State} {edges : List Transition} {s q : State}

/-- The states that were read stay copies while the machine itself is edited. -/
theorem states_keep (h : Loaded w w' d m k done edges) (keeps : Keeps (· ≠ k) w' w'') :
    List.Forall₂ (State.Copies (Copy w w'' d) (w.machine m).position) done
      (w'.machine k).states := by
  refine forall₂_copies_mono h.states fun s' hs' i i' hi' copy => ?_
  have edge : w'.Nests k i' := (w'.nests_iff k i').mpr ⟨s', hs', hi'⟩
  exact copy.keep h.rising h.good.sane keeps (h.rising k i' (Nat.le_refl _) edge)

theorem alphabet_keep (h : Loaded w w' d m k done edges) (keeps : Keeps (· ≠ k) w' w'')
    (same : (w''.machine k).alphabet = (w'.machine k).alphabet) :
    (w.alphabetOf m).Same (w''.alphabetOf k) := by
  rw [keeps.alphabetOf h.good.sane h.known same]
  exact h.alphabet

/-- One more state, whether it holds a machine or not, carries the construction on. -/
theorem addState (h : Loaded w w' d m k done []) (keeps : Keeps (· ≠ k) w' w'') (good : w''.Good)
    (rising : w''.Rising k.index) (inner : Option MachineId)
    (machine : ∃ revision, w''.machine k = { w'.machine k with
      states := (w'.machine k).states ++ [⟨done.length, s.label, s.isStart, s.isFinal, [], inner⟩]
      nextState := done.length + 1
      revision := revision
      validated := none })
    (place : (w.machine m).position s.id = done.length)
    (held : Option.Rel (Copy w w'' d) s.submachine inner) : Loaded w w'' d m k (done ++ [s]) [] := by
  obtain ⟨revision, hk⟩ := machine
  refine ⟨good, Nat.lt_of_lt_of_le h.known keeps.machines_le, ?_, ?_, ?_, ?_, ?_, ?_, rising⟩
  · rw [hk, ← h.kind]
  · rw [hk, ← h.name]
  · exact h.alphabet_keep keeps (by rw [hk])
  · rw [hk]
    exact List.rel_append (h.states_keep keeps) (.cons ⟨place.symm, rfl, rfl, rfl, held⟩ .nil)
  · rw [hk, List.length_append]
    rfl
  · rw [hk]
    exact h.transitions

end Loaded

end Workshop

/-! ## Reading states -/

/-- What is put into a state that has just been added goes into it alone. -/
theorem Machine.Arena.setSubmachine_addState {m : Machine} (arena : m.Arena) (label : String)
    (isStart isFinal : Bool) (inner : Option MachineId) :
    (m.addState label isStart isFinal).1.setSubmachine m.nextState inner =
      { m with
        states := m.states ++ [⟨m.nextState, label, isStart, isFinal, [], inner⟩]
        nextState := m.nextState + 1
        revision := m.revision + 1 + 1
        validated := none } := by
  have others : ∀ s ∈ m.states,
      (if s.id = m.nextState then { s with submachine := inner } else s) = s :=
    fun s hs => if_neg (Nat.ne_of_lt (arena.state_issued s hs))
  simp [Machine.addState, Machine.setSubmachine, Machine.updateState, Machine.touch,
    List.map_congr_left others]

namespace Workshop

variable {w w' w₂ : Workshop} {d : Nat} {m k i : MachineId} {done : List State} {s : State}

/-- A machine with one more state, which holds nothing yet. -/
def withState (w : Workshop) (k : MachineId) (s : State) : Workshop :=
  w.setMachine k ((w.machine k).addState s.label s.isStart s.isFinal).1

namespace Loaded

theorem good_withState (h : Loaded w w' d m k done []) : (w'.withState k s).Good :=
  have edit : w'.Changes (w'.withState k s) := .single (.edit h.known (.addState ..))
  edit.good h.good

theorem rising_withState (h : Loaded w w' d m k done []) : (w'.withState k s).Rising k.index := by
  refine h.rising.setMachine h.known fun y hy => .inl ?_
  simpa [Machine.addState, Machine.touch, Machine.submachines] using hy

/-- A state that holds nothing. -/
theorem withState (h : Loaded w w' d m k done [])
    (place : (w.machine m).position s.id = done.length) (held : s.submachine = none) :
    Loaded w (w'.withState k s) d m k (done ++ [s]) [] := by
  have nothing : Option.Rel (Copy w (w'.withState k s) d) s.submachine none := by
    rw [held]
    exact .none
  refine h.addState (.setMachine ..) h.good_withState h.rising_withState none ?_ place nothing
  rw [Workshop.withState, machine_setMachine_self _ _ _ h.known, ← h.issued]
  exact ⟨_, rfl⟩

/-! A state that holds a machine is filled after that machine was read. -/

theorem copy_read (brought : Brought w d i (w'.withState k s) w₂) :
    Copy w w₂ d i ⟨w'.machines.length⟩ := by
  have copy := brought.copy
  rwa [Workshop.withState, length_setMachine] at copy

section Filled

variable (h : Loaded w w' d m k done []) (brought : Brought w d i (w'.withState k s) w₂)
include h brought

theorem known_read : k.index < w₂.machines.length := by
  have le := brought.keeps.machines_le
  rw [Workshop.withState, length_setMachine] at le
  exact Nat.lt_of_lt_of_le h.known le

theorem machine_read :
    w₂.machine k = ((w'.machine k).addState s.label s.isStart s.isFinal).1 := by
  have known : k.index < (w'.withState k s).machines.length := by
    rw [Workshop.withState, length_setMachine]
    exact h.known
  rw [brought.keeps.machine k known trivial, Workshop.withState, machine_setMachine_self _ _ _ h.known]

/-- What was read does not lead back to the machine under construction. -/
theorem not_back : ¬ ReflTransGen w₂.Nests ⟨w'.machines.length⟩ k := by
  have rising := brought.rising_from h.rising_withState
  intro back
  rcases reflTransGen_iff_eq_or_transGen.mp back with rfl | path
  · exact Nat.lt_irrefl _ h.known
  · exact Nat.lt_asymm h.known (rising.lt_of_path h.known.le path)

/-- The construction goes on once the machine that was read is put into its state. -/
theorem filled (place : (w.machine m).position s.id = done.length) (held : s.submachine = some i)
    (outer : (w.machine m).kind = .turing) (inner : (w.machine i).kind = .turing) :
    Loaded w (w₂.setMachine k
      ((w₂.machine k).setSubmachine done.length (some ⟨w'.machines.length⟩))) d m k (done ++ [s]) [] ∧
    Keeps (· ≠ k) w' (w₂.setMachine k
      ((w₂.machine k).setSubmachine done.length (some ⟨w'.machines.length⟩))) := by
  have known := h.known_read brought
  have copy := copy_read brought
  have rising := brought.rising_from h.rising_withState
  have kind : (w₂.machine k).kind = .turing := by
    rw [h.machine_read brought, ← outer, ← h.kind]
    rfl
  set w₃ := w₂.setMachine k
    ((w₂.machine k).setSubmachine done.length (some ⟨w'.machines.length⟩)) with hw₃
  have attached : w₂.Changes w₃ :=
    .single (.attach _ known copy.known.2 kind (copy.kind_eq.trans inner) (h.not_back brought))
  have keeps : Keeps (· ≠ k) w' w₃ :=
    ((Keeps.setMachine w' k _).trans (brought.keeps.mono fun _ _ _ => trivial)).trans
      (.setMachine ..)
  have rising₃ : w₃.Rising k.index := by
    refine rising.setMachine known fun y hy => ?_
    rcases submachines_setSubmachine _ _ _ hy with old | rfl
    · exact .inl old
    · exact .inr h.known
  refine ⟨h.addState keeps (attached.good brought.good) rising₃ (some ⟨w'.machines.length⟩) ?_ place
    ?_, keeps⟩
  · rw [hw₃, machine_setMachine_self _ _ _ known, h.machine_read brought, ← h.issued,
      (h.good.sane.arena k).setSubmachine_addState]
    exact ⟨_, rfl⟩
  · rw [held]
    exact .some (copy.keep rising brought.good.sane (.setMachine ..) h.known)

end Filled

end Loaded

end Workshop

namespace Work

open Workshop

variable {w : Workshop} {d : Nat} {m k i : MachineId} {b : Bench} {done rest : List State} {s : State}
  {readInner : Value → Work MachineId}

/-- A nested document is read as a copy, wherever it is read. -/
def ReadsNested (w : Workshop) (d : Nat) (m : MachineId) (readInner : Value → Work MachineId) :
    Prop :=
  ∀ i, w.Nests m i → ∀ b : Bench, b.shop.Good →
    ∃ b', readInner (w.documentTo d i) b = .ok ⟨b.shop.machines.length⟩ b' ∧
      Brought w d i b.shop b'.shop

theorem state_of_mem {w : Workshop} {q : State} (arena : (w.machine k).Arena)
    (hq : q ∈ (w.machine k).states) : w.state k (.state k q.id) = .ok q := by
  have found := arena.state?_eq_some_iff.mpr ⟨hq, rfl⟩
  simp [Workshop.state, found]

/-- Where a state holds a document, that is read and then attached. -/
theorem readNested_document {q : State} {b₂ : Bench}
    (hread : readInner (w.documentTo (d + 1) i) b = .ok k b₂) :
    readNested readInner m .turing q (w.documentTo (d + 1) i) b =
      attach m (.state m q.id) (some k) b₂ := by
  unfold readNested
  exact bind_of_ok hread

/-- One state of a document is read. -/
theorem readState_eq (sane : w.Sane) (reads : ReadsNested w d m readInner)
    (h : Loaded w b.shop d m k done []) (split : (w.machine m).states = done ++ s :: rest) :
    ∃ b', readNested readInner k (w.machine m).kind
        ((b.shop.machine k).addState s.label s.isStart s.isFinal).2
        (match s.submachine with
          | some i => w.documentTo d i
          | none => .null) ⟨b.shop.withState k s, b.journal⟩ = .ok () b' ∧
      Loaded w b'.shop d m k (done ++ [s]) [] ∧ Keeps (· ≠ k) b.shop b'.shop := by
  have place := (sane.arena m).position_eq split
  cases held : s.submachine with
  | none =>
    refine ⟨⟨b.shop.withState k s, b.journal⟩, ?_, h.withState place held, .setMachine ..⟩
    cases (w.machine m).kind <;> rfl
  | some i =>
    have hs : s ∈ (w.machine m).states := by simp [split]
    have edge : w.Nests m i := (w.nests_iff m i).mpr ⟨s, hs, held⟩
    have outer := sane.flat m i edge
    have inner := sane.links_turing m i edge
    obtain ⟨b₂, hread, brought⟩ := reads i edge ⟨b.shop.withState k s, b.journal⟩ h.good_withState
    obtain ⟨loaded, keeps⟩ := h.filled brought place held outer inner
    have machine := h.machine_read brought
    have kind : (b₂.shop.machine k).kind = .turing := by
      rw [machine, ← outer, ← h.kind]
      rfl
    let q := ((b.shop.machine k).addState s.label s.isStart s.isFinal).2
    have found : b₂.shop.state k (.state k q.id) = .ok q := by
      refine state_of_mem (brought.good.sane.arena k) ?_
      rw [machine]
      exact List.mem_append_right _ (.head _)
    obtain ⟨j, hattach⟩ := attach_of_not_back kind found
      ((Loaded.copy_read brought).kind_eq.trans inner) (h.not_back brought)
    have issued : done.length = q.id := h.issued.symm
    rw [issued] at loaded keeps
    refine ⟨⟨_, j⟩, ?_, loaded, keeps⟩
    rw [outer]
    cases d with
    | zero => exact brought.copy.elim
    | succ d =>
      rw [Workshop.withState, length_setMachine] at hread
      exact (readNested_document hread).trans hattach

/-- **The states of a document are read as copies.** -/
theorem readStates_eq (sane : w.Sane) (reads : ReadsNested w d m readInner)
    (h : Loaded w b.shop d m k done []) (split : (w.machine m).states = done ++ rest) :
    ∃ b', readStates readInner k (w.machine m).kind ((w.machine m).table done)
        (rest.map (·.entry (w.documentTo d))) b =
          .ok ((w.machine m).table (w.machine m).states) b' ∧
      Loaded w b'.shop d m k (w.machine m).states [] ∧ Keeps (· ≠ k) b.shop b'.shop := by
  induction rest generalizing done b with
  | nil =>
    rw [List.append_nil] at split
    rw [split]
    exact ⟨b, rfl, h, .refl _ _⟩
  | cons s rest ih =>
    obtain ⟨b₁, hstate, loaded, keeps⟩ := readState_eq sane reads h split
    have split' : (w.machine m).states = (done ++ [s]) ++ rest := by simp [split]
    obtain ⟨b', hrest, loaded', keeps'⟩ := ih loaded split'
    refine ⟨b', ?_, loaded', keeps.trans keeps'⟩
    have increasing := (sane.arena m).states_increasing
    rw [split, List.pairwise_append] at increasing
    have fresh : ∀ u ∈ done, u.id ≠ s.id := fun u hu =>
      Nat.ne_of_lt (increasing.2.2 u hu s (.head _))
    obtain ⟨id, label, start, final, nested⟩ := s.entry_fields (w.documentTo d)
    rw [List.map_cons, readStates]
    refine ofExcept_bind_eq_ok_iff.mpr ⟨_, label, ?_⟩
    refine ofExcept_bind_eq_ok_iff.mpr ⟨_, start, ?_⟩
    refine ofExcept_bind_eq_ok_iff.mpr ⟨_, final, ?_⟩
    refine bind_eq_ok_iff.mpr ⟨_, ⟨b.shop.withState k s, b.journal⟩, rfl, ?_⟩
    refine ofExcept_bind_eq_ok_iff.mpr ⟨_, id, ?_⟩
    refine ofExcept_bind_eq_ok_iff.mpr ⟨_, Machine.lookupIn_table_of_not_mem fresh, ?_⟩
    refine ofExcept_bind_eq_ok_iff.mpr ⟨_, nested, ?_⟩
    refine bind_eq_ok_iff.mpr ⟨_, b₁, hstate, ?_⟩
    have table : (w.machine m).table (done ++ [s]) =
        (w.machine m).table done ++ [(.int s.id, (b.shop.machine k).nextState)] := by
      simp [Machine.table, (sane.arena m).position_eq split, h.issued]
    rw [table] at hrest
    exact hrest

end Work

/-! ## Reading transitions -/

theorem Machine.submachines_addTransition (m : Machine) (source target : Nat) (action : Action) :
    (m.addTransition source target action).1.submachines = m.submachines := by
  simp only [submachines, addTransition, touch, updateState, List.filterMap_map]
  refine List.filterMap_congr fun s _ => ?_
  simp only [Function.comp_apply]
  split <;> rfl

namespace Workshop.Loaded

variable {w w' : Workshop} {d : Nat} {m k : MachineId} {done : List State} {edges : List Transition}
  {t : Transition}

/-- A state that was read is live under the identifier it was given. -/
theorem exists_state (h : Loaded w w' d m k done edges) {id : Nat} (live : ∃ s ∈ done, s.id = id) :
    ∃ q ∈ (w'.machine k).states, q.id = (w.machine m).position id := by
  obtain ⟨s, hs, rfl⟩ := live
  obtain ⟨q, hq, copies⟩ := exists_of_forall₂ h.states hs
  exact ⟨q, hq, copies.id⟩

/-- One more transition carries the construction on. -/
theorem addTransition (h : Loaded w w' d m k (w.machine m).states edges) (sane : w.Sane)
    (ht : t ∈ (w.machine m).transitions) :
    Loaded w (w'.setMachine k ((w'.machine k).addTransition ((w.machine m).position t.source)
      ((w.machine m).position t.target) t.action).1) d m k (w.machine m).states (edges ++ [t]) := by
  have arena := sane.arena m
  have source := h.exists_state (arena.source_live t ht)
  have target := h.exists_state (arena.target_live t ht)
  have kind : t.action.kind = (w'.machine k).kind := by rw [arena.action_kind t ht, h.kind]
  have edit := (w'.machine k).submachines_addTransition ((w.machine m).position t.source)
    ((w.machine m).position t.target) t.action
  have good := Changes.good (.single (.edit h.known (.addTransition source target kind))) h.good
  generalize hnew : ((w'.machine k).addTransition ((w.machine m).position t.source)
    ((w.machine m).position t.target) t.action).1 = new at edit good ⊢
  have machine : (w'.setMachine k new).machine k = new := machine_setMachine_self _ _ _ h.known
  have keeps : Keeps (· ≠ k) w' (w'.setMachine k new) := .setMachine ..
  refine ⟨good, Nat.lt_of_lt_of_le h.known keeps.machines_le, ?_, ?_, ?_, ?_, ?_, ?_, ?_⟩
  · rw [machine, ← h.kind, ← hnew]
    rfl
  · rw [machine, ← h.name, ← hnew]
    rfl
  · refine h.alphabet_keep keeps ?_
    rw [machine, ← hnew]
    rfl
  · have outgoing : new.states = (w'.machine k).states.map fun s =>
        if s.id = (w.machine m).position t.source then
          { s with outgoing := s.outgoing ++ [(w'.machine k).nextTransition] } else s := by
      rw [← hnew]
      rfl
    rw [machine, outgoing]
    refine List.forall₂_map_right_iff.mpr ((h.states_keep keeps).imp fun s q copies => ?_)
    split
    · exact ⟨copies.id, copies.label, copies.isStart, copies.isFinal, copies.submachine⟩
    · exact copies
  · rw [machine, ← h.issued, ← hnew]
    rfl
  · rw [machine, ← hnew]
    exact List.rel_append h.transitions (.cons ⟨rfl, rfl, rfl⟩ .nil)
  · exact h.rising.setMachine h.known fun y hy => .inl (edit ▸ hy)

end Workshop.Loaded

namespace Work

open Workshop

variable {w : Workshop} {d : Nat} {m k : MachineId} {b : Bench} {edges rest : List Transition}

/-- Adding a transition between two live states, with an action of the machine's kind, succeeds. -/
theorem addTransition_eq {p q : State} {action : Action} (arena : (b.shop.machine k).Arena)
    (hp : p ∈ (b.shop.machine k).states) (hq : q ∈ (b.shop.machine k).states)
    (kind : action.kind = (b.shop.machine k).kind) :
    addTransition k (.state k p.id) (.state k q.id) action b =
      .ok ((b.shop.machine k).addTransition p.id q.id action).2
        ⟨b.shop.setMachine k ((b.shop.machine k).addTransition p.id q.id action).1, b.journal⟩ := by
  have source := state_eq k (.state k p.id) b
  have target := state_eq k (.state k q.id) b
  have check := checkAction_eq k action b
  rw [state_of_mem arena hp] at source
  rw [state_of_mem arena hq] at target
  rw [if_pos kind] at check
  unfold addTransition
  rw [bind_of_ok source, bind_of_ok target, bind_of_ok check]
  rfl

/-- **The transitions of a document are read as copies.** -/
theorem readTransitions_eq (sane : w.Sane) (h : Loaded w b.shop d m k (w.machine m).states edges)
    (split : (w.machine m).transitions = edges ++ rest) :
    ∃ b', readTransitions k (w.machine m).kind ((w.machine m).table (w.machine m).states)
        (rest.map (·.entry)) b = .ok () b' ∧
      Loaded w b'.shop d m k (w.machine m).states (w.machine m).transitions ∧
      Keeps (· ≠ k) b.shop b'.shop := by
  induction rest generalizing edges b with
  | nil =>
    rw [List.append_nil] at split
    rw [split]
    exact ⟨b, rfl, h, .refl _ _⟩
  | cons t rest ih =>
    have arena := sane.arena m
    have ht : t ∈ (w.machine m).transitions := by simp [split]
    obtain ⟨p, hp, hsource⟩ := h.exists_state (arena.source_live t ht)
    obtain ⟨q, hq, htarget⟩ := h.exists_state (arena.target_live t ht)
    have kind := arena.action_kind t ht
    have added := addTransition_eq (h.good.sane.arena k) hp hq (kind.trans h.kind.symm)
    have loaded := h.addTransition sane ht
    rw [← hsource, ← htarget] at loaded
    have split' : (w.machine m).transitions = (edges ++ [t]) ++ rest := by simp [split]
    obtain ⟨b', hrest, loaded', keeps⟩ := ih (b := ⟨_, b.journal⟩) loaded split'
    refine ⟨b', ?_, loaded', (Keeps.setMachine ..).trans keeps⟩
    rw [List.map_cons, readTransitions]
    refine ofExcept_bind_eq_ok_iff.mpr ⟨_, kind ▸ readAction_entry t, ?_⟩
    refine ofExcept_bind_eq_ok_iff.mpr ⟨_, readEnd_source arena ht, ?_⟩
    refine ofExcept_bind_eq_ok_iff.mpr ⟨_, readEnd_target arena ht, ?_⟩
    rw [← hsource, ← htarget]
    refine bind_eq_ok_iff.mpr ⟨(), _, ?_, hrest⟩
    simp only [discard, Functor.discard, Functor.mapConst, Function.comp_apply, EStateM.map, added]
    rfl

end Work

/-! ## Reading documents -/

namespace Workshop

variable {w b : Workshop} {d : Nat} {m k : MachineId}

/-- A workshop with a new alphabet and a machine over it that has no states. -/
def withMachine (w : Workshop) (kind : Kind) (name : Value) (a : Alphabet) : Workshop :=
  ((w.addAlphabet a).1.addMachine (Machine.empty kind name ⟨w.alphabets.length⟩)).1

theorem length_withMachine (w : Workshop) (kind : Kind) (name : Value) (a : Alphabet) :
    (w.withMachine kind name a).machines.length = w.machines.length + 1 := by
  simp [withMachine, addMachine, addAlphabet]

theorem machine_withMachine (w : Workshop) (kind : Kind) (name : Value) (a : Alphabet) :
    (w.withMachine kind name a).machine ⟨w.machines.length⟩ =
      Machine.empty kind name ⟨w.alphabets.length⟩ := by
  rw [withMachine, machine_addMachine]
  exact if_pos rfl

theorem alphabetOf_withMachine (w : Workshop) (kind : Kind) (name : Value) (a : Alphabet) :
    (w.withMachine kind name a).alphabetOf ⟨w.machines.length⟩ = a := by
  rw [alphabetOf, machine_withMachine]
  simp [withMachine, addMachine, addAlphabet, alphabet, Machine.empty]

theorem keeps_withMachine (w : Workshop) (kind : Kind) (name : Value) (a : Alphabet)
    (P : MachineId → Prop) : Keeps P w (w.withMachine kind name a) where
  machines_le := by
    rw [length_withMachine]
    exact Nat.le_succ _
  alphabets_le := by simp [withMachine, addMachine, addAlphabet]
  machine i hi _ := machine_addMachine_of_lt (w.addAlphabet a).1 _ hi
  alphabet x hx := w.alphabet_addAlphabet_of_lt a hx

theorem good_withMachine (good : w.Good) (kind : Kind) (name : Value) (a : Alphabet) :
    (w.withMachine kind name a).Good :=
  have changes : w.Changes (w.withMachine kind name a) :=
    .tail (.single (.addAlphabet a)) (.addMachine _ _ (by simp [addAlphabet]))
  changes.good good

/-- The only machine there is from the new one on holds nothing. -/
theorem rising_withMachine (w : Workshop) (kind : Kind) (name : Value) (a : Alphabet) :
    (w.withMachine kind name a).Rising w.machines.length := by
  intro x y hx edge
  have hlt := lt_of_nests _ edge
  rw [length_withMachine] at hlt
  obtain rfl : x = ⟨w.machines.length⟩ := by
    cases x
    exact congrArg _ (Nat.le_antisymm (Nat.le_of_lt_succ hlt) hx)
  unfold Nests links at edge
  rw [machine_withMachine] at edge
  cases edge

/-- The construction begins with a machine without states. -/
theorem Loaded.start (good : b.Good) {a : Alphabet} (same : (w.alphabetOf m).Same a) :
    Loaded w (b.withMachine (w.machine m).kind (w.machine m).name a) d m ⟨b.machines.length⟩ [] [] := by
  have machine := machine_withMachine b (w.machine m).kind (w.machine m).name a
  have alphabet := alphabetOf_withMachine b (w.machine m).kind (w.machine m).name a
  have length := length_withMachine b (w.machine m).kind (w.machine m).name a
  refine ⟨good_withMachine good _ _ a, ?_, ?_, ?_, ?_, ?_, ?_, ?_, rising_withMachine b _ _ a⟩
  · rw [length]
    exact Nat.lt_succ_self _
  · rw [machine]
    rfl
  · rw [machine]
    rfl
  · rw [alphabet]
    exact same
  · rw [machine]
    exact .nil
  · rw [machine]
    rfl
  · rw [machine]
    exact .nil

/-- Once all states and transitions were read, the machine is a copy. -/
theorem Loaded.copy (h : Loaded w b d m k (w.machine m).states (w.machine m).transitions)
    (sane : w.Sane) (known : m.index < w.machines.length) : Copy w b (d + 1) m k := by
  refine ⟨⟨known, h.known⟩, ⟨(w.machine m).position, ?_⟩, h.alphabet⟩
  refine ⟨h.kind, h.name, h.states, h.transitions, fun s hs u hu same => ?_⟩
  exact (sane.arena m).id_eq_of_position_eq hs hu same

end Workshop

namespace Work

open Workshop

variable {w : Workshop} {d fuel : Nat} {m : MachineId} {b : Bench}

/-- What a document says of its machine. -/
theorem document_fields (w : Workshop) (d : Nat) (m : MachineId) :
    readHead (w.documentTo (d + 1) m) = .ok (w.machine m).kind ∧
      (w.documentTo (d + 1) m).item "alphabet" = .ok (.text (w.alphabetOf m).toText) ∧
      (w.documentTo (d + 1) m).field? "name" = some (w.machine m).name ∧
      (w.documentTo (d + 1) m).item "states" =
        .ok (.list ((w.machine m).states.map (·.entry (w.documentTo d)))) ∧
      (w.documentTo (d + 1) m).item "transitions" =
        .ok (.list ((w.machine m).transitions.map (·.entry))) := by
  simp [readHead, documentTo, documentBody, Value.item, Value.optionalItem, Value.field?, Dict.find?_cons,
    Value.eqv_text_self, Value.eqv_int_self, Kind.ofTag_tag, bind, Except.bind]

/-- **The document of a machine is read as a copy of the machine.** -/
theorem readTo_document (sane : w.Sane) (known : m.index < w.machines.length)
    (deep : w.Within d m) (high : (w.documentTo d m).height < fuel) (good : b.shop.Good) :
    ∃ b', readTo fuel (w.documentTo d m) b = .ok ⟨b.shop.machines.length⟩ b' ∧
      Brought w d m b.shop b'.shop := by
  induction d generalizing m fuel b with
  | zero => exact deep.elim
  | succ d ih =>
    obtain ⟨f, rfl⟩ : ∃ f, fuel = f + 1 := ⟨fuel - 1, by omega⟩
    have reads : ReadsNested w d m (readTo f) := fun i edge b good =>
      ih (sane.links_known m i edge) (deep i edge)
        (Nat.lt_of_lt_of_le (w.height_documentTo_lt edge) (Nat.le_of_lt_succ high)) good
    obtain ⟨a, halphabet, same⟩ := (w.alphabetOf m).exists_ofText_toText
    let b₀ : Bench := ⟨b.shop.withMachine (w.machine m).kind (w.machine m).name a, b.journal⟩
    have start : Loaded w b₀.shop d m ⟨b.shop.machines.length⟩ [] [] := .start good same
    obtain ⟨b₁, hstates, loaded₁, keeps₁⟩ := readStates_eq sane reads start rfl
    obtain ⟨b₂, htransitions, loaded₂, keeps₂⟩ := readTransitions_eq sane loaded₁ rfl
    refine ⟨b₂, ?_, loaded₂.good, ?_, loaded₂.copy sane known, loaded₂.rising⟩
    · obtain ⟨head, alphabet, name, states, transitions⟩ := document_fields w d m
      rw [readTo, head, alphabet, name, states, transitions]
      refine ofExcept_bind_eq_ok_iff.mpr ⟨_, rfl, ?_⟩
      refine ofExcept_bind_eq_ok_iff.mpr ⟨a, ?_, ?_⟩
      · simp only [bind, Except.bind, Alphabet.ofValue, halphabet]
      refine bind_eq_ok_iff.mpr ⟨_, _, rfl, ?_⟩
      refine bind_eq_ok_iff.mpr ⟨⟨b.shop.machines.length⟩, b₀, rfl, ?_⟩
      refine ofExcept_bind_eq_ok_iff.mpr ⟨_, rfl, ?_⟩
      refine bind_eq_ok_iff.mpr ⟨_, b₁, hstates, ?_⟩
      refine ofExcept_bind_eq_ok_iff.mpr ⟨_, rfl, ?_⟩
      exact bind_eq_ok_iff.mpr ⟨_, b₂, htransitions, rfl⟩
    · have keeps := ((keeps_withMachine b.shop _ _ a _).trans keeps₁).trans keeps₂
      refine keeps.mono fun i hi _ => ?_
      rintro rfl
      exact Nat.lt_irrefl _ hi

end Work

end MachineLab
