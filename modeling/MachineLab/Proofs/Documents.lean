import MachineLab.Proofs.Normalisation

/-!
# Reading any document

A document that is accepted brings in a machine for itself and one for every document nested in it, each
with an alphabet of its own, and leaves the machines that were there alone.  The machines are brought in
before those nested in them, so links lead to later machines, no machine is held twice, and what has
been read of one machine stays while those nested in it are read.

Reading runs through the entries of the states and then through those of the transitions.  After each
entry the machine under construction is the machine of the entries so far (`Partial`); after the last
one its document is the normal form of the document (`Read`).

## Main definitions

* `Workshop.tree` — a machine and those nested in it, as often as they are held.
* `Workshop.Grows` — a workshop into which whole machines have been brought.
* `Workshop.Partial`, `Workshop.Read` — a document that has been read in part, in full.

## Main statements

* `Work.reads_readTo` — a document that is accepted is read in full.
* `Work.normal_of_readDocument` — the document of what was read is the normal form.
-/

namespace MachineLab

open Relation

namespace Workshop

variable {b w w' w'' : Workshop} {d n : Nat} {m k i x : MachineId}

/-! ## The machines of a machine -/

/-- A machine and, state by state, those nested in it, descending at most `depth` levels.  A machine
that is held twice is listed twice. -/
def tree (w : Workshop) : Nat → MachineId → List MachineId
  | 0, _ => []
  | depth + 1, m => m :: (w.links m).flatMap (w.tree depth)

theorem path_of_mem_tree (h : x ∈ w.tree d m) : ReflTransGen w.Nests m x := by
  induction d generalizing m with
  | zero => cases h
  | succ d ih =>
    rcases List.mem_cons.mp h with rfl | h
    · exact .refl
    · obtain ⟨i, hi, hx⟩ := List.mem_flatMap.mp h
      exact .head hi (ih hx)

/-- Every machine nested at any depth is listed. -/
theorem mem_tree_of_path (deep : w.Within d m) (path : ReflTransGen w.Nests m x) :
    x ∈ w.tree d m := by
  induction d generalizing m with
  | zero => exact deep.elim
  | succ d ih =>
    rw [tree, List.mem_cons, List.mem_flatMap]
    rcases path.cases_head with rfl | ⟨i, edge, path⟩
    · exact .inl rfl
    · exact .inr ⟨i, edge, ih (deep i edge) path⟩

theorem tree_eq_of_within {d' : Nat} (h : w.Within d m) (le : d ≤ d') :
    w.tree d' m = w.tree d m := by
  induction d generalizing d' m with
  | zero => exact h.elim
  | succ d ih =>
    obtain ⟨e, rfl⟩ : ∃ e, d' = e + 1 := ⟨d' - 1, by omega⟩
    rw [tree, tree, List.flatMap_congr fun i hi => ih (h i hi) (by omega)]

/-- The entries of states depend on the documents of the machines in them. -/
theorem map_entry_congr {f g : MachineId → Value} (same : ∀ i, w.Nests m i → f i = g i) :
    (w.machine m).states.map (·.entry f) = (w.machine m).states.map (·.entry g) := by
  refine List.map_congr_left fun s hs => ?_
  cases held : s.submachine with
  | none => simp only [State.entry, held]
  | some i => simp only [State.entry, held, same i ((w.nests_iff m i).mpr ⟨s, hs, held⟩)]

theorem documentTo_eq_of_within {d' : Nat} (h : w.Within d m) (le : d ≤ d') :
    w.documentTo d' m = w.documentTo d m := by
  induction d generalizing d' m with
  | zero => exact h.elim
  | succ d ih =>
    obtain ⟨e, rfl⟩ : ∃ e, d' = e + 1 := ⟨d' - 1, by omega⟩
    rw [documentTo, documentTo, documentBody, documentBody,
      map_entry_congr fun i edge => ih (h i edge) (by omega)]

/-- At any depth that is great enough, the same machines are listed. -/
theorem tree_eq {d' : Nat} (h : w.Within d m) (h' : w.Within d' m) : w.tree d m = w.tree d' m := by
  rcases Nat.le_total d d' with le | le
  · exact (tree_eq_of_within h le).symm
  · exact tree_eq_of_within h' le

theorem documentTo_eq {d' : Nat} (h : w.Within d m) (h' : w.Within d' m) :
    w.documentTo d m = w.documentTo d' m := by
  rcases Nat.le_total d d' with le | le
  · exact (documentTo_eq_of_within h le).symm
  · exact documentTo_eq_of_within h' le

/-! ## What stays while a machine is edited -/

section Keep

variable (keeps : Keeps (· ≠ k) w w') (rising : w.Rising k.index) (sane : w.Sane)
include keeps

theorem machine_keep (later : k.index < m.index) (known : m.index < w.machines.length) :
    w'.machine m = w.machine m := by
  refine keeps.machine m known ?_
  rintro rfl
  exact Nat.lt_irrefl _ later

include rising sane

theorem tree_keep (later : k.index < m.index) (known : m.index < w.machines.length) :
    w'.tree d m = w.tree d m := by
  induction d generalizing m with
  | zero => rfl
  | succ d ih =>
    have same := machine_keep keeps later known
    rw [tree, tree, links, links, same]
    refine congrArg (m :: ·) (List.flatMap_congr fun i hi => ?_)
    exact ih (later.trans (rising m i later.le hi)) (sane.links_known m i hi)

theorem within_keep (later : k.index < m.index) (known : m.index < w.machines.length)
    (deep : w.Within d m) : w'.Within d m := by
  induction d generalizing m with
  | zero => exact deep.elim
  | succ d ih =>
    intro i edge
    have edge : w.Nests m i := by
      unfold Nests links at edge ⊢
      rwa [machine_keep keeps later known] at edge
    exact ih (later.trans (rising m i later.le edge)) (sane.links_known m i edge) (deep i edge)

theorem documentTo_keep (later : k.index < m.index) (known : m.index < w.machines.length) :
    w'.documentTo d m = w.documentTo d m := by
  induction d generalizing m with
  | zero => rfl
  | succ d ih =>
    have same := machine_keep keeps later known
    have alphabet : w'.alphabetOf m = w.alphabetOf m := keeps.alphabetOf sane known (by rw [same])
    rw [documentTo, documentTo, documentBody, documentBody, same, alphabet, map_entry_congr fun i edge =>
      ih (later.trans (rising m i later.le edge)) (sane.links_known m i edge)]

end Keep

/-! ## Workshops that grow by whole machines -/

/-- The machine that will be brought in next. -/
def next (w : Workshop) : MachineId := ⟨w.machines.length⟩

theorem next_withState (w : Workshop) (k : MachineId) (s : State) :
    (w.withState k s).next = w.next := by
  rw [next, withState, length_setMachine]
  rfl

/-- A workshop has grown: whatever there was is there still, the new machines hold only machines that
came after them, and each of them came with an alphabet of its own. -/
structure Grows (b w : Workshop) : Prop where
  good : w.Good
  known : b.next.index < w.machines.length
  keeps : Keeps (fun _ => True) b w
  rising : w.Rising b.next.index
  paired : ∀ i, b.next.index ≤ i.index → i.index < w.machines.length →
    (w.machine i).alphabet.index + b.machines.length = i.index + b.alphabets.length
  even : w.alphabets.length + b.machines.length = w.machines.length + b.alphabets.length

namespace Grows

/-- Links that were there before stay as they were. -/
theorem rising_from (h : Grows b w) (rising : b.Rising n) : w.Rising n := by
  intro x y hx edge
  by_cases old : x.index < b.machines.length
  · have kept := h.keeps.machine x old trivial
    refine rising x y hx ?_
    unfold Nests links at edge ⊢
    rwa [kept] at edge
  · exact h.rising x y (Nat.not_lt.mp old) edge

theorem trans (h : Grows b w) (h' : Grows w w') : Grows b w' where
  good := h'.good
  known := Nat.lt_of_lt_of_le h.known h'.keeps.machines_le
  keeps := h.keeps.trans h'.keeps
  rising := h'.rising_from h.rising
  paired i hi known := by
    by_cases old : i.index < w.machines.length
    · rw [h'.keeps.machine i old trivial]
      exact h.paired i hi old
    · have new := h'.paired i (Nat.not_lt.mp old) known
      have even := h.even
      omega
  even := by
    have even := h.even
    have even' := h'.even
    omega

/-- An edit of the machine under construction that keeps its alphabet and links it to later machines
only. -/
theorem setMachine (h : Grows b w) {new : Machine} (good : (w.setMachine b.next new).Good)
    (alphabet : new.alphabet = (w.machine b.next).alphabet)
    (links : ∀ y ∈ new.submachines, y ∈ (w.machine b.next).submachines ∨ b.next.index < y.index) :
    Grows b (w.setMachine b.next new) where
  good := good
  known := by
    rw [length_setMachine]
    exact h.known
  keeps := by
    refine ((h.keeps.mono fun _ _ _ => trivial).trans (.setMachine w b.next new)).mono ?_
    rintro i old - rfl
    exact Nat.lt_irrefl _ old
  rising := h.rising.setMachine h.known links
  paired i hi known := by
    rw [length_setMachine] at known
    rw [machine_setMachine h.known]
    split
    · rename_i here
      subst here
      rw [alphabet]
      exact h.paired _ hi known
    · exact h.paired i hi known
  even := by
    rw [length_setMachine]
    exact h.even

/-- A new machine comes with a new alphabet. -/
theorem withMachine (good : b.Good) (kind : Kind) (name : Value) (a : Alphabet) :
    Grows b (b.withMachine kind name a) where
  good := good_withMachine good kind name a
  known := by
    rw [length_withMachine]
    exact Nat.lt_succ_self _
  keeps := keeps_withMachine b kind name a _
  rising := rising_withMachine b kind name a
  paired i hi known := by
    rw [length_withMachine] at known
    obtain rfl : i = b.next := by
      cases i
      exact congrArg _ (Nat.le_antisymm (Nat.le_of_lt_succ known) hi)
    rw [next, machine_withMachine]
    exact Nat.add_comm _ _
  even := by
    rw [length_withMachine]
    simp only [Workshop.withMachine, addMachine, addAlphabet, List.length_append,
      List.length_singleton]
    omega

end Grows

/-! ## Machines under construction -/

/-- What a document says of its machine as a whole. -/
structure Title where
  kind : Kind
  name : Value
  alphabet : Alphabet

/-- What is said of a machine as a whole. -/
def titleOf (w : Workshop) (m : MachineId) : Title :=
  ⟨(w.machine m).kind, (w.machine m).name, w.alphabetOf m⟩

/-- A state holds a machine whose document is the normal form of the document in its entry, or neither
holds anything. -/
def InnerRead (w : Workshop) (d : Nat) (u : Value) : Option MachineId → Prop
  | none => u = .null
  | some i => u ≠ .null ∧ Document.Normal u (w.documentTo d i)

/-- The document in a state, or nothing. -/
def innerDocument (w : Workshop) (d : Nat) (s : State) : Value :=
  match s.submachine with
  | some i => w.documentTo d i
  | none => .null

theorem InnerRead.innerDocument_eq_null {s : State} (h : InnerRead w d .null s.submachine) :
    innerDocument w d s = .null := by
  rw [innerDocument]
  cases held : s.submachine with
  | none => rfl
  | some i =>
    rw [held] at h
    exact absurd rfl h.1

theorem InnerRead.normal {s : State} {u : Value} (h : InnerRead w d u s.submachine)
    (some : u ≠ .null) : Document.Normal u (innerDocument w d s) := by
  rw [innerDocument]
  cases held : s.submachine with
  | none =>
    rw [held] at h
    exact absurd h some
  | some i =>
    rw [held] at h
    exact h.2

/-- A state is what its entry says. -/
structure StateRead (w : Workshop) (d : Nat) (e : Value) (s : State) : Prop where
  label : ∃ v, e.item "label" = .ok v ∧ s.label = v.display
  isStart : ∃ v, e.item "start" = .ok v ∧ s.isStart = v.truth
  isFinal : ∃ v, e.item "final" = .ok v ∧ s.isFinal = v.truth
  inner : ∃ u, e.optionalItem "submachine" = .ok u ∧ InnerRead w d u s.submachine

theorem StateRead.congr {e : Value} {s s' : State} (h : StateRead w d e s)
    (label : s'.label = s.label) (isStart : s'.isStart = s.isStart) (isFinal : s'.isFinal = s.isFinal)
    (submachine : s'.submachine = s.submachine)
    (same : ∀ i, s.submachine = some i → w'.documentTo d i = w.documentTo d i) :
    StateRead w' d e s' := by
  obtain ⟨u, hu, inner⟩ := h.inner
  refine ⟨label ▸ h.label, isStart ▸ h.isStart, isFinal ▸ h.isFinal, u, hu, ?_⟩
  rw [submachine]
  cases held : s.submachine with
  | none =>
    rw [held] at inner
    exact inner
  | some i =>
    rw [held] at inner
    exact ⟨inner.1, same i held ▸ inner.2⟩

/-- The machine that came after `b` was read as far as some entries of states and transitions go. -/
structure Partial (b w : Workshop) (d : Nat) (t : Title) (done edges : List Value) : Prop extends
    Grows b w where
  title : w.titleOf b.next = t
  issued : (w.machine b.next).nextState = done.length
  numbered : (w.machine b.next).states.map State.id = List.range done.length
  states : List.Forall₂ (StateRead w d) done (w.machine b.next).states
  edges : List.Forall₂ (fun e tr => Document.EdgeForm done t.kind e tr.entry) edges
    (w.machine b.next).transitions
  deep : ∀ i, w.Nests b.next i → w.Within d i
  forest : ((w.links b.next).flatMap (w.tree d)).Nodup

/-- A document was read: the machine that came after `b` has its normal form for a document, and no
machine is listed twice in its tree. -/
structure Read (b w : Workshop) (d : Nat) (v : Value) : Prop extends Grows b w where
  deep : w.Within d b.next
  tree : (w.tree d b.next).Nodup
  normal : Document.Normal v (w.documentTo d b.next)

theorem le_of_mem_tree (rising : w.Rising n) (le : n ≤ m.index) (h : x ∈ w.tree d m) :
    m.index ≤ x.index := by
  rcases reflTransGen_iff_eq_or_transGen.mp (path_of_mem_tree h) with rfl | path
  · exact Nat.le_refl _
  · exact (rising.lt_of_path le path).le

theorem lt_of_mem_tree (sane : w.Sane) (known : m.index < w.machines.length) (h : x ∈ w.tree d m) :
    x.index < w.machines.length := by
  rcases (path_of_mem_tree h).cases_tail with rfl | ⟨y, -, edge⟩
  · exact known
  · exact sane.links_known y x edge

namespace Partial

variable {t : Title} {done edges : List Value} {e : Value} {label : String} {isStart isFinal : Bool}

/-- The construction begins with a machine without states. -/
theorem start (good : b.Good) (t : Title) (d : Nat) :
    Partial b (b.withMachine t.kind t.name t.alphabet) d t [] [] := by
  have machine : (b.withMachine t.kind t.name t.alphabet).machine b.next = _ :=
    machine_withMachine b t.kind t.name t.alphabet
  have alphabet : (b.withMachine t.kind t.name t.alphabet).alphabetOf b.next = _ :=
    alphabetOf_withMachine b t.kind t.name t.alphabet
  have nothing : (b.withMachine t.kind t.name t.alphabet).links b.next = [] := by
    rw [links, machine]
    rfl
  refine { Grows.withMachine good t.kind t.name t.alphabet with
    title := ?_, issued := ?_, numbered := ?_, states := ?_, edges := ?_, deep := ?_, forest := ?_ }
  · rw [titleOf, machine, alphabet]
    rfl
  · rw [machine]
    rfl
  · rw [machine]
    rfl
  · rw [machine]
    exact .nil
  · rw [machine]
    exact .nil
  · intro i edge
    rw [Nests, nothing] at edge
    cases edge
  · rw [nothing]
    exact .nil

section Keep

variable (h : Partial b w d t done edges) (keeps : Keeps (· ≠ b.next) w w')
include h

theorem inner_later (edge : w.Nests b.next i) : b.next.index < i.index :=
  h.rising b.next i (Nat.le_refl _) edge

include keeps

/-- What was read into the states stays while the machine itself is edited. -/
theorem documentTo_inner (edge : w.Nests b.next i) : w'.documentTo d i = w.documentTo d i :=
  documentTo_keep keeps h.rising h.good.sane (h.inner_later edge)
    (h.good.sane.links_known _ i edge)

theorem within_inner (edge : w.Nests b.next i) : w'.Within d i :=
  within_keep keeps h.rising h.good.sane (h.inner_later edge)
    (h.good.sane.links_known _ i edge) (h.deep i edge)

theorem forest_inner : (w.links b.next).flatMap (w'.tree d) = (w.links b.next).flatMap (w.tree d) :=
  List.flatMap_congr fun i edge =>
    tree_keep keeps h.rising h.good.sane (h.inner_later edge) (h.good.sane.links_known _ i edge)

theorem states_keep : List.Forall₂ (StateRead w' d) done (w.machine b.next).states := by
  obtain ⟨length, read⟩ := List.forall₂_iff_zip.mp h.states
  refine List.forall₂_iff_zip.mpr ⟨length, fun {e s} mem => ?_⟩
  refine (read mem).congr rfl rfl rfl rfl fun i held => h.documentTo_inner keeps ?_
  exact (w.nests_iff b.next i).mpr ⟨s, (List.of_mem_zip mem).2, held⟩

theorem title_keep (kind : (w'.machine b.next).kind = (w.machine b.next).kind)
    (name : (w'.machine b.next).name = (w.machine b.next).name)
    (alphabet : (w'.machine b.next).alphabet = (w.machine b.next).alphabet) :
    w'.titleOf b.next = t := by
  rw [← h.title, titleOf, titleOf, kind, name, keeps.alphabetOf h.good.sane h.known alphabet]

end Keep

/-- One more state, whether it holds a machine or not, carries the construction on. -/
theorem addState (h : Partial b w d t done []) (grows : Grows b w')
    (keeps : Keeps (· ≠ b.next) w w') (inner : Option MachineId)
    (machine : ∃ revision, w'.machine b.next = { w.machine b.next with
      states := (w.machine b.next).states ++ [⟨done.length, label, isStart, isFinal, [], inner⟩]
      nextState := done.length + 1
      revision := revision
      validated := none })
    (read : StateRead w' d e ⟨done.length, label, isStart, isFinal, [], inner⟩)
    (deep : ∀ i ∈ inner, w'.Within d i)
    (apart : ∀ i ∈ inner, (w'.tree d i).Nodup ∧ ∀ x ∈ w'.tree d i, w.machines.length ≤ x.index) :
    Partial b w' d t (done ++ [e]) [] := by
  obtain ⟨revision, hk⟩ := machine
  have links : w'.links b.next = w.links b.next ++ inner.toList := by
    rw [Workshop.links, Workshop.links, hk]
    cases inner <;> simp [Machine.submachines]
  refine { grows with
    title := ?_, issued := ?_, numbered := ?_, states := ?_, edges := ?_, deep := ?_, forest := ?_ }
  · exact h.title_keep keeps (by rw [hk]) (by rw [hk]) (by rw [hk])
  · rw [hk, List.length_append]
    rfl
  · rw [hk, List.map_append, h.numbered, List.length_append, List.length_singleton,
      List.range_succ]
    rfl
  · rw [hk]
    exact List.rel_append (h.states_keep keeps) (.cons read .nil)
  · have none : (w.machine b.next).transitions = [] := List.forall₂_nil_left_iff.mp h.edges
    rw [hk, none]
    exact .nil
  · intro i edge
    rw [Nests, links, List.mem_append] at edge
    rcases edge with edge | new
    · exact h.within_inner keeps edge
    · exact deep i (by simpa using new)
  · rw [links, List.flatMap_append, h.forest_inner keeps]
    refine List.nodup_append.mpr ⟨h.forest, ?_, fun x old y new same => ?_⟩
    · cases inner with
      | none => exact .nil
      | some i => simpa using (apart i rfl).1
    · subst same
      obtain ⟨i, edge, old⟩ := List.mem_flatMap.mp old
      obtain ⟨j, hj, new⟩ := List.mem_flatMap.mp new
      have before := lt_of_mem_tree h.good.sane (h.good.sane.links_known _ i edge) old
      exact Nat.lt_irrefl _ (before.trans_le ((apart j (by simpa using hj)).2 x new))

/-! A state is added first and filled afterwards. -/

section Fill

variable (h : Partial b w d t done []) (s : State)
include h

theorem grows_withState : Grows b (w.withState b.next s) := by
  have edit : w.Changes (w.withState b.next s) := .single (.edit h.known (.addState ..))
  refine h.toGrows.setMachine (edit.good h.good) rfl fun y hy => .inl ?_
  simpa [Machine.addState, Machine.touch, Machine.submachines] using hy

theorem machine_withState :
    (w.withState b.next s).machine b.next =
      ((w.machine b.next).addState s.label s.isStart s.isFinal).1 :=
  machine_setMachine_self _ _ _ h.known

/-- A state that holds nothing. -/
theorem withState (read : StateRead (w.withState b.next s) d e
      ⟨done.length, s.label, s.isStart, s.isFinal, [], none⟩) :
    Partial b (w.withState b.next s) d t (done ++ [e]) [] := by
  refine h.addState (h.grows_withState s) (.setMachine ..) none ?_ read nofun nofun
  rw [h.machine_withState, ← h.issued]
  exact ⟨_, rfl⟩

variable {s} {u : Value} {w₂ : Workshop} (read : Read (w.withState b.next s) w₂ d u)
include read

theorem machine_read :
    w₂.machine b.next = ((w.machine b.next).addState s.label s.isStart s.isFinal).1 := by
  rw [read.keeps.machine b.next (h.grows_withState s).known trivial, h.machine_withState]

theorem kind_read : (w₂.machine b.next).kind = t.kind := by
  rw [h.machine_read read, ← h.title]
  rfl

/-- A state that holds a machine is filled after that machine was read. -/
theorem filled (outer : t.kind = .turing) (inner : (w₂.machine w.next).kind = .turing)
    (back : ¬ ReflTransGen w₂.Nests w.next b.next) (some : u ≠ .null)
    (fields : ∀ w', InnerRead w' d u w.next → StateRead w' d e
      ⟨done.length, s.label, s.isStart, s.isFinal, [], w.next⟩) :
    Partial b (w₂.setMachine b.next ((w₂.machine b.next).setSubmachine done.length w.next)) d t
      (done ++ [e]) [] := by
  have grows := (h.grows_withState s).trans read.toGrows
  have machine := h.machine_read read
  have kind := (h.kind_read read).trans outer
  obtain ⟨⟨good, known, kept, rising, -, -⟩, deep, distinct, normal⟩ := read
  rw [next_withState] at known rising deep distinct normal
  have later : b.next.index < w.next.index := h.known
  set w₃ := w₂.setMachine b.next ((w₂.machine b.next).setSubmachine done.length w.next) with hw₃
  have keeps : Keeps (· ≠ b.next) w₂ w₃ := .setMachine ..
  have attached : w₂.Changes w₃ :=
    .single (.attach _ grows.known known kind inner back)
  have grows₃ : Grows b w₃ := by
    refine grows.setMachine (attached.good good) rfl fun y hy => ?_
    rcases submachines_setSubmachine _ _ _ hy with old | rfl
    · exact .inl old
    · exact .inr later
  have tree : w₃.tree d w.next = w₂.tree d w.next :=
    tree_keep keeps grows.rising good.sane later known
  have document : w₃.documentTo d w.next = w₂.documentTo d w.next :=
    documentTo_keep keeps grows.rising good.sane later known
  refine h.addState grows₃ (((Keeps.setMachine ..).trans (kept.mono fun _ _ _ => trivial)).trans keeps)
    w.next ?_ (fields w₃ ⟨some, document ▸ normal⟩) ?_ ?_
  · rw [hw₃, machine_setMachine_self _ _ _ grows.known, machine, ← h.issued,
      (h.good.sane.arena b.next).setSubmachine_addState]
    exact ⟨_, rfl⟩
  · rintro i ⟨⟩
    exact within_keep keeps grows.rising good.sane later known deep
  · rintro i ⟨⟩
    rw [tree]
    exact ⟨distinct, fun x => le_of_mem_tree rising (Nat.le_refl _)⟩

end Fill

/-- One more transition carries the construction on. -/
theorem addTransition (h : Partial b w d t done edges) {action : Action} {p q : Nat}
    (source : ∃ s ∈ (w.machine b.next).states, s.id = p)
    (target : ∃ s ∈ (w.machine b.next).states, s.id = q) (kind : action.kind = t.kind)
    (form : Document.EdgeForm done t.kind e
      (Transition.entry ⟨(w.machine b.next).nextTransition, p, q, action⟩)) :
    Partial b (w.setMachine b.next ((w.machine b.next).addTransition p q action).1) d t done
      (edges ++ [e]) := by
  have kind' : action.kind = (w.machine b.next).kind := by
    rw [kind, ← h.title]
    rfl
  have inner := (w.machine b.next).submachines_addTransition p q action
  have good := Changes.good (.single (.edit h.known (.addTransition source target kind'))) h.good
  generalize hnew : ((w.machine b.next).addTransition p q action).1 = new at inner good ⊢
  have machine : (w.setMachine b.next new).machine b.next = new :=
    machine_setMachine_self _ _ _ h.known
  have keeps : Keeps (· ≠ b.next) w (w.setMachine b.next new) := .setMachine ..
  have links : (w.setMachine b.next new).links b.next = w.links b.next := by
    rw [Workshop.links, machine, inner]
    rfl
  have states : new.states = (w.machine b.next).states.map fun s =>
      if s.id = p then
        { s with outgoing := s.outgoing ++ [(w.machine b.next).nextTransition] } else s := by
    rw [← hnew]
    rfl
  refine { h.toGrows.setMachine good (by rw [← hnew]; rfl) fun y hy => .inl (inner ▸ hy) with
    title := ?_, issued := ?_, numbered := ?_, states := ?_, edges := ?_, deep := ?_, forest := ?_ }
  · exact h.title_keep keeps (by rw [machine, ← hnew]; rfl) (by rw [machine, ← hnew]; rfl)
      (by rw [machine, ← hnew]; rfl)
  · rw [machine, ← h.issued, ← hnew]
    rfl
  · rw [machine, states, ← h.numbered, List.map_map]
    refine List.map_congr_left fun s _ => ?_
    simp only [Function.comp_apply]
    split <;> rfl
  · rw [machine, states]
    refine List.forall₂_map_right_iff.mpr ((h.states_keep keeps).imp fun e s read => ?_)
    split
    · exact read.congr rfl rfl rfl rfl fun _ _ => rfl
    · exact read
  · rw [machine, ← hnew]
    exact List.rel_append h.edges (.cons form .nil)
  · intro i edge
    rw [Nests, links] at edge
    exact h.within_inner keeps edge
  · rw [links, h.forest_inner keeps]
    exact h.forest

theorem id_eq (h : Partial b w d t done edges) {j : Nat} {s : State}
    (hs : (w.machine b.next).states[j]? = some s) : s.id = j := by
  have place := congrArg (·[j]?) h.numbered
  have bound : j < done.length := by
    rw [h.states.length_eq]
    exact (List.getElem?_eq_some_iff.mp hs).1
  simpa [hs, List.getElem?_range bound] using place

theorem stateForm (h : Partial b w d t done edges) {j : Nat} {s : State} (he : done[j]? = some e)
    (hs : (w.machine b.next).states[j]? = some s) :
    StateRead w d e s ∧
      Document.StateForm j (innerDocument w d s) e (s.entry (w.documentTo d)) := by
  obtain ⟨hj, rfl⟩ := List.getElem?_eq_some_iff.mp he
  obtain ⟨hj', rfl⟩ := List.getElem?_eq_some_iff.mp hs
  have read : StateRead w d done[j] (w.machine b.next).states[j] :=
    (List.forall₂_iff_get.mp h.states).2 j hj hj'
  obtain ⟨label, hlabel, label_eq⟩ := read.label
  obtain ⟨start, hstart, start_eq⟩ := read.isStart
  obtain ⟨final, hfinal, final_eq⟩ := read.isFinal
  refine ⟨read, label, start, final, hlabel, hstart, hfinal, ?_⟩
  rw [State.entry, h.id_eq hs, label_eq, start_eq, final_eq]
  rfl

/-- Once all entries were read, the document was. -/
theorem read (h : Partial b w d t done edges) {v : Value}
    (head : Work.readHead v = .ok t.kind)
    (alphabet : v.item "alphabet" >>= Alphabet.ofValue = .ok t.alphabet)
    (name : t.name = (v.field? "name").getD untitled)
    (states_eq : v.item "states" >>= Value.elements = .ok done)
    (edges_eq : v.item "transitions" >>= Value.elements = .ok edges) : Read b w (d + 1) v := by
  refine { h.toGrows with deep := h.deep, tree := ?_, normal := ?_ }
  · refine List.nodup_cons.mpr ⟨fun mem => ?_, h.forest⟩
    obtain ⟨i, edge, mem⟩ := List.mem_flatMap.mp mem
    have later := h.inner_later edge
    exact Nat.lt_irrefl _ (later.trans_le (le_of_mem_tree h.rising later.le mem))
  · obtain rfl := h.title
    let inner (j : Nat) : Value :=
      ((w.machine b.next).states[j]?.map (innerDocument w d)).getD .null
    have held {j : Nat} {e : Value} (he : done[j]? = some e) :
        ∃ s, (w.machine b.next).states[j]? = some s ∧ inner j = innerDocument w d s := by
      have bound : j < (w.machine b.next).states.length := by
        rw [← h.states.length_eq]
        exact (List.getElem?_eq_some_iff.mp he).1
      have hs := List.getElem?_eq_getElem bound
      exact ⟨_, hs, by simp only [inner, hs, Option.map_some, Option.getD_some]⟩
    have named : (w.machine b.next).name = (v.field? "name").getD untitled := name
    simp only [documentTo, documentBody, named]
    refine .intro inner head alphabet states_eq edges_eq ?_ ?_ ?_ ?_
      (List.forall₂_map_right_iff.mpr h.edges)
    · rw [List.length_map, h.states.length_eq]
    · intro j e e' he he'
      obtain ⟨s, hs, same⟩ := held he
      rw [List.getElem?_map, hs] at he'
      obtain rfl := Option.some.inj he'
      rw [same]
      exact (h.stateForm he hs).2
    · intro j e he none
      obtain ⟨s, hs, same⟩ := held he
      obtain ⟨u, hu, read⟩ := (h.stateForm he hs).1.inner
      obtain rfl := Except.ok.inj (none.symm.trans hu)
      rw [same, read.innerDocument_eq_null]
    · intro j e u he hu some
      obtain ⟨s, hs, same⟩ := held he
      obtain ⟨u', hu', read⟩ := (h.stateForm he hs).1.inner
      obtain rfl := Except.ok.inj (hu.symm.trans hu')
      rw [same]
      exact read.normal some

end Partial

end Workshop

namespace Work

open Workshop

variable {b b₀ : Bench} {d : Nat} {t : Title} {done edges rest : List Value}
  {readInner : Value → Work MachineId}

/-! ## Reading states -/

/-- What attaching a machine comes to when it succeeds. -/
theorem shop_of_attach {m i : MachineId} {r : Ref} {q : State} {b' : Bench}
    (outer : (b.shop.machine m).kind = .turing) (hq : b.shop.state m r = .ok q)
    (h : attach m r (some i) b = .ok () b') :
    (b.shop.machine i).kind = .turing ∧ ¬ ReflTransGen b.shop.Nests i m ∧
      b'.shop = b.shop.setMachine m ((b.shop.machine m).setSubmachine q.id (some i)) := by
  by_cases inner : (b.shop.machine i).kind = .turing
  · by_cases back : ReflTransGen b.shop.Nests i m
    · rw [attach_of_back outer hq inner back] at h
      cases h
    · obtain ⟨j, attached⟩ := attach_of_not_back outer hq inner back
      rw [attached] at h
      cases h
      exact ⟨inner, back, rfl⟩
  · have hn := requireNesting_eq m b
    have hs := state_eq m r b
    rw [if_pos outer] at hn
    rw [hq] at hs
    unfold attach at h
    rw [bind_of_ok hn, bind_of_ok hs] at h
    simp [bind, EStateM.bind, get_apply, Option.filter, inner, throw_apply] at h

/-- Whatever document is read, wherever it is read. -/
def ReadsAny (d : Nat) (readInner : Value → Work MachineId) : Prop :=
  ∀ u (b : Bench) i b', b.shop.Good → readInner u b = .ok i b' →
    i = b.shop.next ∧ Read b.shop b'.shop d u

/-- One state of a document is read. -/
theorem partial_of_readNested (reads : ReadsAny d readInner) {base : Workshop}
    (h : Partial base b.shop d t done []) {e u : Value} {s : State} {b' : Bench}
    (fields : ∀ w' inner, InnerRead w' d u inner → StateRead w' d e
      ⟨done.length, s.label, s.isStart, s.isFinal, [], inner⟩)
    (hread : readNested readInner base.next t.kind
      ((b.shop.machine base.next).addState s.label s.isStart s.isFinal).2 u
      ⟨b.shop.withState base.next s, b.journal⟩ = .ok () b') :
    Partial base b'.shop d t (done ++ [e]) [] := by
  generalize outer : t.kind = kind at hread
  unfold readNested at hread
  split at hread
  · cases hread
    exact h.withState s (fields _ none rfl)
  · cases hread
  · rename_i some
    obtain ⟨i, b₂, hinner, hattach⟩ := bind_eq_ok_iff.mp hread
    obtain ⟨rfl, read⟩ := reads _ _ _ _ (h.grows_withState s).good hinner
    rw [next_withState] at hattach
    have found : b₂.shop.state base.next (.state base.next
        ((b.shop.machine base.next).addState s.label s.isStart s.isFinal).2.id) =
        .ok ((b.shop.machine base.next).addState s.label s.isStart s.isFinal).2 := by
      refine state_of_mem (read.good.sane.arena base.next) ?_
      rw [h.machine_read read]
      exact List.mem_append_right _ (.head _)
    obtain ⟨inner, back, shop⟩ := shop_of_attach ((h.kind_read read).trans outer) found hattach
    have issued : ((b.shop.machine base.next).addState s.label s.isStart s.isFinal).2.id =
        done.length := h.issued
    rw [shop, issued]
    exact h.filled read outer inner back some fun w' => fields w' _

/-- A table has the places of some entries of states under their identifiers. -/
structure Table (done : List Value) (known : List (Value × Nat)) : Prop where
  places : known.map Prod.snd = List.range done.length
  ids : List.Forall₂ (fun e entry => e.item "id" = .ok entry.1) done known

/-- **The states of a document are what their entries say.** -/
theorem partial_of_readStates (reads : ReadsAny d readInner) {base : Workshop}
    (h : Partial base b.shop d t done []) {known known' : List (Value × Nat)}
    (table : Table done known) {b' : Bench}
    (hread : readStates readInner base.next t.kind known rest b = .ok known' b') :
    Partial base b'.shop d t (done ++ rest) [] ∧ Table (done ++ rest) known' := by
  induction rest generalizing done known b with
  | nil =>
    cases hread
    rw [List.append_nil]
    exact ⟨h, table⟩
  | cons e rest ih =>
    rw [readStates] at hread
    obtain ⟨label, hlabel, hread⟩ := ofExcept_bind_eq_ok_iff.mp hread
    obtain ⟨start, hstart, hread⟩ := ofExcept_bind_eq_ok_iff.mp hread
    obtain ⟨final, hfinal, hread⟩ := ofExcept_bind_eq_ok_iff.mp hread
    obtain ⟨q, b₁, hadd, hread⟩ := bind_eq_ok_iff.mp hread
    let s : State := ⟨done.length, label.display, start.truth, final.truth, [], none⟩
    have added : addState base.next label.display start.truth final.truth b =
        .ok ((b.shop.machine base.next).addState s.label s.isStart s.isFinal).2
          ⟨b.shop.withState base.next s, b.journal⟩ := rfl
    rw [added] at hadd
    cases hadd
    obtain ⟨id, hid, hread⟩ := ofExcept_bind_eq_ok_iff.mp hread
    obtain ⟨found, -, hread⟩ := ofExcept_bind_eq_ok_iff.mp hread
    cases found with
    | some n => cases hread
    | none =>
      obtain ⟨u, hu, hread⟩ := ofExcept_bind_eq_ok_iff.mp hread
      obtain ⟨_, b₂, hnested, hread⟩ := bind_eq_ok_iff.mp hread
      have h₂ : Partial base b₂.shop d t (done ++ [e]) [] := by
        refine partial_of_readNested reads h (fun w' inner hinner => ?_) hnested
        exact ⟨⟨label, hlabel, rfl⟩, ⟨start, hstart, rfl⟩, ⟨final, hfinal, rfl⟩, u, hu, hinner⟩
      have table₂ : Table (done ++ [e]) (known ++ [(id, (b.shop.machine base.next).nextState)]) := by
        constructor
        · rw [List.map_append, table.places, List.length_append, List.length_singleton,
            List.range_succ, h.issued]
          rfl
        · exact List.rel_append table.ids (.cons hid .nil)
      have done' := ih h₂ table₂ hread
      rwa [List.append_assoc, List.singleton_append] at done'

/-! ## Reading transitions -/

theorem Table.id_eq {known : List (Value × Nat)} (table : Table done known) {i : Nat} {e : Value}
    {entry : Value × Nat} (he : done[i]? = some e) (hentry : known[i]? = some entry) :
    e.item "id" = .ok entry.1 := by
  obtain ⟨hi, rfl⟩ := List.getElem?_eq_some_iff.mp he
  obtain ⟨hi', rfl⟩ := List.getElem?_eq_some_iff.mp hentry
  exact (List.forall₂_iff_get.mp table.ids).2 i hi hi'

theorem Table.place_eq {known : List (Value × Nat)} (table : Table done known) {i : Nat}
    {entry : Value × Nat} (hentry : known[i]? = some entry) : entry.2 = i := by
  have place := congrArg (·[i]?) table.places
  have bound : i < done.length := by
    rw [table.ids.length_eq]
    exact (List.getElem?_eq_some_iff.mp hentry).1
  simpa [hentry, List.getElem?_range bound] using place

/-- A state that is found in the table is the first one with the identifier. -/
theorem names_of_readEnd {known : List (Value × Nat)} (table : Table done known) {e : Value}
    {key : String} {p : Nat} (h : readEnd known e key = .ok p) :
    ∃ v, e.item key = .ok v ∧ Document.Names done v p := by
  obtain ⟨v, hv, h⟩ := except_bind_eq_ok_iff.mp h
  obtain ⟨found?, hfound, h⟩ := except_bind_eq_ok_iff.mp h
  refine ⟨v, hv, ?_⟩
  unfold Value.lookupIn at hfound
  split at hfound
  swap
  · cases hfound
  obtain rfl := Except.ok.inj hfound
  cases found : known.find? fun entry => entry.1.samePart v with
  | none =>
    rw [found] at h
    cases h
  | some entry =>
    rw [found] at h
    obtain rfl : entry.2 = p := Except.ok.inj h
    obtain ⟨same, i, hi, rfl, first⟩ := List.find?_eq_some_iff_getElem.mp found
    have hentry : known[i]? = some known[i] := List.getElem?_eq_getElem hi
    have bound : i < done.length := table.ids.length_eq ▸ hi
    have he : done[i]? = some done[i] := List.getElem?_eq_getElem bound
    rw [table.place_eq hentry]
    refine ⟨⟨_, _, he, table.id_eq he hentry, same⟩, fun j lt e' id he' hid => ?_⟩
    have hj : known[j]? = some known[j] := List.getElem?_eq_getElem (lt.trans hi)
    obtain rfl := Except.ok.inj ((table.id_eq he' hj).symm.trans hid)
    simpa using first j lt

/-- A transition that was read has the form of its entry. -/
theorem edgeForm_of_read {known : List (Value × Nat)} (table : Table done known) {kind : Kind}
    {e : Value} {action : Action} {p q id : Nat} (haction : readAction kind e = .ok action)
    (hsource : readEnd known e "from" = .ok p) (htarget : readEnd known e "to" = .ok q) :
    action.kind = kind ∧ Document.EdgeForm done kind e (Transition.entry ⟨id, p, q, action⟩) := by
  obtain ⟨source, source_eq, source_names⟩ := names_of_readEnd table hsource
  obtain ⟨target, target_eq, target_names⟩ := names_of_readEnd table htarget
  cases kind with
  | turing =>
    obtain ⟨name, direction_eq, h⟩ := except_bind_eq_ok_iff.mp haction
    obtain ⟨direction, name_eq, h⟩ := except_bind_eq_ok_iff.mp h
    obtain ⟨input, input_eq, h⟩ := except_bind_eq_ok_iff.mp h
    obtain ⟨output, output_eq, h⟩ := except_bind_eq_ok_iff.mp h
    obtain rfl := Except.ok.inj h
    exact ⟨rfl, .turing source_eq target_eq source_names target_names input_eq output_eq direction_eq
      name_eq⟩
  | acceptor =>
    obtain ⟨input, input_eq, h⟩ := except_bind_eq_ok_iff.mp haction
    obtain rfl := Except.ok.inj h
    exact ⟨rfl, .acceptor source_eq target_eq source_names target_names input_eq⟩

/-- **The transitions of a document are what their entries say.** -/
theorem partial_of_readTransitions {base : Workshop} (h : Partial base b.shop d t done edges)
    {known : List (Value × Nat)} (table : Table done known) {b' : Bench}
    (hread : readTransitions base.next t.kind known rest b = .ok () b') :
    Partial base b'.shop d t done (edges ++ rest) := by
  induction rest generalizing edges b with
  | nil =>
    cases hread
    rwa [List.append_nil]
  | cons e rest ih =>
    rw [readTransitions] at hread
    obtain ⟨action, haction, hread⟩ := ofExcept_bind_eq_ok_iff.mp hread
    obtain ⟨p, hp, hread⟩ := ofExcept_bind_eq_ok_iff.mp hread
    obtain ⟨q, hq, hread⟩ := ofExcept_bind_eq_ok_iff.mp hread
    obtain ⟨_, b₁, hadd, hread⟩ := bind_eq_ok_iff.mp hread
    have live {key : String} {n : Nat} (hn : readEnd known e key = .ok n) :
        ∃ s ∈ (b.shop.machine base.next).states, s.id = n := by
      obtain ⟨v, -, ⟨u, -, hu, -⟩, -⟩ := names_of_readEnd table hn
      have bound : n < done.length := (List.getElem?_eq_some_iff.mp hu).1
      have mem : n ∈ (b.shop.machine base.next).states.map State.id := by
        rw [h.numbered]
        exact List.mem_range.mpr bound
      exact List.mem_map.mp mem
    obtain ⟨s, hs, hsid⟩ := live hp
    obtain ⟨u, hu, huid⟩ := live hq
    obtain ⟨kind, form⟩ := edgeForm_of_read table haction hp hq
    have kind' : action.kind = (b.shop.machine base.next).kind := by
      rw [kind, ← h.title]
      rfl
    have added := addTransition_eq (h.good.sane.arena base.next) hs hu kind'
    have h₁ := h.addTransition (live hp) (live hq) kind form
    rw [← hsid, ← huid] at hadd h₁
    have shop : b₁.shop = b.shop.setMachine base.next
        ((b.shop.machine base.next).addTransition s.id u.id action).1 := by
      have same := after_discard
        (addTransition base.next (.state base.next s.id) (.state base.next u.id) action) b
      rw [after_of_ok hadd, after_of_ok added] at same
      rw [same]
    rw [← shop] at h₁
    have rest' := ih h₁ hread
    rwa [List.append_assoc, List.singleton_append] at rest'

/-! ## Reading documents -/

/-- **A document is read as a machine whose document is its normal form.** -/
theorem reads_readTo (d : Nat) : ReadsAny d (readTo d) := by
  induction d with
  | zero =>
    intro v b m b' good h
    cases h
  | succ d ih =>
    intro v b m b' good h
    rw [readTo] at h
    obtain ⟨kind, head, h⟩ := ofExcept_bind_eq_ok_iff.mp h
    obtain ⟨alphabet, alphabet_eq, h⟩ := ofExcept_bind_eq_ok_iff.mp h
    obtain ⟨a, b₁, hadd, h⟩ := bind_eq_ok_iff.mp h
    cases hadd
    obtain ⟨new, b₂, hnew, h⟩ := bind_eq_ok_iff.mp h
    cases hnew
    obtain ⟨states, states_eq, h⟩ := ofExcept_bind_eq_ok_iff.mp h
    obtain ⟨known, b₃, hstates, h⟩ := bind_eq_ok_iff.mp h
    obtain ⟨edges, edges_eq, h⟩ := ofExcept_bind_eq_ok_iff.mp h
    obtain ⟨_, b₄, hedges, h⟩ := bind_eq_ok_iff.mp h
    cases h
    let t : Title := ⟨kind, (v.field? "name").getD untitled, alphabet⟩
    let b₀ : Bench := ⟨b.shop.withMachine t.kind t.name t.alphabet, b.journal⟩
    have start : Partial b.shop b₀.shop d t [] [] := .start good t d
    have hstates : readStates (readTo d) b.shop.next t.kind [] states b₀ = .ok known b₃ := hstates
    obtain ⟨h₃, table⟩ := partial_of_readStates ih start ⟨rfl, .nil⟩ hstates
    rw [List.nil_append] at h₃ table
    have h₄ := partial_of_readTransitions h₃ table hedges
    exact ⟨rfl, h₄.read head alphabet_eq rfl states_eq edges_eq⟩

/-- A document that is accepted is read in full. -/
theorem read_of_readDocument {b' : Bench} {v : Value} {m : MachineId} (good : b.shop.Good)
    (accepted : readDocument v b = .ok m b') :
    m = b.shop.next ∧ Read b.shop b'.shop (v.height + 1) v :=
  reads_readTo _ v b m b' good (readDocument_eq_ok_iff.1 accepted)

/-- The document of what was read is the normal form of the document. -/
theorem normal_of_readDocument {b' : Bench} {v : Value} {m : MachineId} (good : b.shop.Good)
    (accepted : readDocument v b = .ok m b') : Document.Normal v (b'.shop.document m) := by
  obtain ⟨rfl, read⟩ := read_of_readDocument good accepted
  rw [document, documentTo_eq (read.good.sane.within read.known) read.deep]
  exact read.normal

/-- **Normalisation is idempotent.**  If a document is accepted, the document of the machine that it is
read as is its normal form: at every level the states are numbered in order and have the labels and
flags of the entries they were read from, and the transitions join the images of the states that they
joined.  The normal form is accepted everywhere and is its own, and the document is read as no other
wherever it is accepted. -/
theorem document_normalisation_is_idempotent {b b' : Bench} (reachable : b.shop.Reachable) {v : Value}
    {m : MachineId} (accepted : readDocument v b = .ok m b') :
    let n := b'.shop.document m
    Document.Normal v n ∧
    (∀ b₁ : Bench, b₁.shop.Reachable →
      ∃ m₁ b₁', readDocument n b₁ = .ok m₁ b₁' ∧ b₁'.shop.document m₁ = n) ∧
    ∀ (b₁ : Bench) (m₁ : MachineId) (b₁' : Bench), b₁.shop.Reachable →
      readDocument v b₁ = .ok m₁ b₁' → b₁'.shop.document m₁ = n := by
  intro n
  have normal : Document.Normal v n := normal_of_readDocument reachable.good accepted
  obtain ⟨rfl, read⟩ := read_of_readDocument reachable.good accepted
  refine ⟨normal, fun b₁ reachable₁ => ?_, fun b₁ m₁ b₁' reachable₁ accepted₁ => ?_⟩
  · obtain ⟨b₁', hread, -⟩ := readTo_document read.good.sane read.known
      (read.good.sane.within read.known) (Nat.lt_succ_self _) reachable₁.good
    have accepted₁ : readDocument n b₁ = .ok ⟨b₁.shop.machines.length⟩ b₁' :=
      readDocument_eq_ok_iff.2 hread
    exact ⟨_, b₁', accepted₁, (normal_of_readDocument reachable₁.good accepted₁).unique normal.self⟩
  · exact (normal_of_readDocument reachable₁.good accepted₁).unique normal

/-- A document by hand: states are named by anything, labels and flags are of any kind, and a state
holds a machine. -/
def sketch : Value :=
  let inner := .object [
    ("format", .text machineFormat), ("version", .bool true), ("kind", .text "TM"),
    ("alphabet", .text ""),
    ("states", .list [.object [("id", .bool true), ("label", .null), ("start", .text "no"),
      ("final", .object [])]]),
    ("transitions", .list [.object [("from", .int 1), ("to", .bool true), ("direction", .text "None"),
      ("input", .list []), ("output", .null)]])]
  .object [
    ("format", .text machineFormat), ("version", .int 1), ("kind", .text "TM"), ("name", .int 5),
    ("alphabet", .text "1 a0"),
    ("states", .list [
      .object [("id", .text "x"), ("label", .int 7), ("start", .int 2), ("final", .list []),
        ("submachine", inner)],
      .object [("id", .null), ("label", .text "b"), ("start", .null), ("final", .list [.null])]]),
    ("transitions", .list [
      .object [("from", .text "x"), ("to", .null), ("direction", .text "riGht"), ("input", .text "1"),
        ("output", .bool false)]])]

theorem outcome_sketch :
    outcome (readDocument sketch) ⟨Workshop.empty, Journal.empty⟩ = .ok ⟨0⟩ :=
  eq_ok_of_toOption (by decide +kernel)

theorem sketch_is_normalised :
    let b : Bench := ⟨Workshop.empty, Journal.empty⟩
    let n := (after (readDocument sketch) b).shop.document ⟨0⟩
    outcome (readDocument sketch) b = .ok ⟨0⟩ ∧ Document.Normal sketch n ∧
      ∃ m b', readDocument n b = .ok m b' ∧ b'.shop.document m = n := by
  obtain ⟨normal, again, -⟩ :=
    document_normalisation_is_idempotent .empty (eq_ok_of_outcome outcome_sketch)
  exact ⟨outcome_sketch, normal, again _ .empty⟩

end Work

end MachineLab
