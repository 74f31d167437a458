import MachineLab.Proofs.Moves
import MachineLab.Proofs.Verdict
import MachineLab.Simulator.Basic

/-!
# The execution stack

A simulator keeps one cursor for each running machine and finds out from the links which machine is
inside which.  Here the running machines stand in a list of frames, the innermost first, and a step is
a function on that list: the top frame moves, pushes the frame of a submachine, or, once it has come
to a final state, is dropped while the frame below it moves.

Nesting is acyclic, so the machines of a stack are distinct and the cursors say the same as the list,
also if one machine is held by several states.

## Main definitions

* `Frame`, `Workshop.Stacked` — running machines, each inside the state of the next.
* `Workshop.Tracks` — the cursors of a simulator are those of a stack.
* `Workshop.nextStack` — one step.

## Main statements

* `Workshop.Tracks.focus_of_running`, `focus_of_finished` — what the next step is about.
* `Workshop.Tracks.stack_eq`, `isHalted_eq`, `isAccepted_eq`, `configuration_eq` — observations.
-/

namespace MachineLab

open Relation

/-- A running machine and the state that it is in. -/
structure Frame where
  machine : MachineId
  state : State

namespace Workshop

variable {w : Workshop} {root : MachineId}

/-! ## Stacks -/

/-- Running machines, the innermost first and `root` last.  Each runs inside the state of the next one;
only the innermost and the outermost can be in final states. -/
def Stacked (w : Workshop) (root : MachineId) : List Frame → Prop
  | [] => True
  | [f] => f.machine = root ∧ f.state ∈ (w.machine f.machine).states
  | g :: f :: rest =>
    g.state ∈ (w.machine g.machine).states ∧ f.state.submachine = some g.machine ∧
      (f.state.isFinal = true → rest = []) ∧ w.Stacked root (f :: rest)

namespace Stacked

variable {f g : Frame} {below stack : List Frame}

theorem tail (h : w.Stacked root (g :: below)) : w.Stacked root below := by
  cases below with
  | nil => trivial
  | cons f rest => exact h.2.2.2

theorem live_top (h : w.Stacked root (g :: below)) : g.state ∈ (w.machine g.machine).states := by
  cases below with
  | nil => exact h.2
  | cons f rest => exact h.1

theorem live (h : w.Stacked root stack) (hf : f ∈ stack) :
    f.state ∈ (w.machine f.machine).states := by
  induction stack with
  | nil => cases hf
  | cons g below ih =>
    rcases List.mem_cons.mp hf with rfl | hf
    · exact h.live_top
    · exact ih h.tail hf

/-- The top frame may be put into another state. -/
theorem replace_top (h : w.Stacked root (g :: below)) {q : State}
    (hq : q ∈ (w.machine g.machine).states) : w.Stacked root (⟨g.machine, q⟩ :: below) := by
  cases below with
  | nil => exact ⟨h.1, hq⟩
  | cons f rest => exact ⟨hq, h.2⟩

/-- A frame for the submachine of the top frame may be put on top. -/
theorem push (h : w.Stacked root (g :: below)) (running : g.state.isFinal = true → below = [])
    {i : MachineId} (inner : g.state.submachine = some i) {p : State}
    (hp : p ∈ (w.machine i).states) : w.Stacked root (⟨i, p⟩ :: g :: below) :=
  ⟨hp, inner, running, h⟩

theorem nests (h : w.Stacked root (g :: f :: below)) : w.Nests f.machine g.machine :=
  (w.nests_iff _ _).mpr ⟨f.state, h.tail.live_top, h.2.1⟩

/-- The machine of a frame further down lies above that of the top frame. -/
theorem path (h : w.Stacked root (g :: below)) (hf : f ∈ below) :
    TransGen w.Nests f.machine g.machine := by
  induction below generalizing g with
  | nil => cases hf
  | cons f' rest ih =>
    rcases List.mem_cons.mp hf with rfl | hf
    · exact .single h.nests
    · exact (ih h.tail hf).tail h.nests

theorem path_root (h : w.Stacked root (g :: below)) : ReflTransGen w.Nests root g.machine := by
  induction below generalizing g with
  | nil => exact h.1 ▸ .refl
  | cons f rest ih => exact (ih h.tail).tail h.nests

/-- The machine inside the top frame has no frame of its own. -/
theorem inner_absent (acyclic : w.Acyclic) (h : w.Stacked root (g :: below)) {i : MachineId}
    (inner : g.state.submachine = some i) (hf : f ∈ g :: below) : f.machine ≠ i := by
  rintro rfl
  have edge : w.Nests g.machine f.machine := (w.nests_iff _ _).mpr ⟨g.state, h.live_top, inner⟩
  rcases List.mem_cons.mp hf with rfl | hf
  · exact acyclic _ (.single edge)
  · exact acyclic _ ((h.path hf).tail edge)

/-- The frame at the bottom is that of the outermost machine. -/
theorem machine_getLast (h : w.Stacked root stack) (hf : stack.getLast? = some f) :
    f.machine = root := by
  induction stack with
  | nil => cases hf
  | cons g below ih =>
    cases below with
    | nil =>
      cases hf
      exact h.1
    | cons f' rest => exact ih h.tail hf

end Stacked

/-! ## Cursors -/

theorem stateAt_eq {m : MachineId} (arena : (w.machine m).Arena) {q : State}
    (hq : q ∈ (w.machine m).states) : w.stateAt m q.id = .ok q := by
  have found := arena.state?_eq_some_iff.mpr ⟨hq, rfl⟩
  simp [stateAt, state, idOf, Value.isKey, Value.index?, Except.map, found]

theorem chosen_eq {m : MachineId} (arena : (w.machine m).Arena) {q : State}
    (hq : q ∈ (w.machine m).states) (t : Tape) :
    w.chosen m q t = .ok ((w.machine m).choice? q (.text t.read)) := arena.resolve?_eq hq _

/-- The cursors of a simulator are those of a stack. -/
structure Tracks (w : Workshop) (sim : Simulator) (stack : List Frame) : Prop where
  stacked : w.Stacked sim.machine stack
  cursor : ∀ m id, sim.cursor? m = some id ↔ ∃ f ∈ stack, f.machine = m ∧ f.state.id = id

namespace Tracks

variable {sim : Simulator} {f g : Frame} {below stack : List Frame}

theorem new (w : Workshop) (m : MachineId) : w.Tracks (Simulator.new m) [] :=
  ⟨trivial, fun m id => by simp [Simulator.new, Simulator.cursor?]⟩

theorem cursor_of_mem (h : w.Tracks sim stack) (hf : f ∈ stack) :
    sim.cursor? f.machine = some f.state.id :=
  (h.cursor _ _).mpr ⟨f, hf, rfl, rfl⟩

theorem cursor_of_absent (h : w.Tracks sim stack) {m : MachineId}
    (absent : ∀ f ∈ stack, f.machine ≠ m) : sim.cursor? m = none := by
  cases hc : sim.cursor? m with
  | none => rfl
  | some id =>
    obtain ⟨f, hf, hm, -⟩ := (h.cursor m id).mp hc
    exact absurd hm (absent f hf)

theorem current_of_mem (h : w.Tracks sim stack) (sane : w.Sane) (hf : f ∈ stack) :
    w.current? sim f.machine = .ok (some f.state) := by
  rw [current?, h.cursor_of_mem hf]
  simp only
  rw [stateAt_eq (sane.arena _) (h.stacked.live hf)]
  rfl

theorem current_of_absent (h : w.Tracks sim stack) {m : MachineId}
    (absent : ∀ f ∈ stack, f.machine ≠ m) : w.current? sim m = .ok none := by
  rw [current?, h.cursor_of_absent absent]

/-- Once something runs, the outermost machine does. -/
theorem exists_cursor_root (h : w.Tracks sim (g :: below)) :
    ∃ id, sim.cursor? sim.machine = some id := by
  have hlast := List.getLast?_eq_some_getLast (List.cons_ne_nil g below)
  rw [← h.stacked.machine_getLast hlast]
  exact ⟨_, h.cursor_of_mem (List.mem_of_getLast? hlast)⟩

/-- The top frame in another state. -/
theorem setCursor_top (h : w.Tracks sim (g :: below)) (acyclic : w.Acyclic) {q : State}
    (hq : q ∈ (w.machine g.machine).states) :
    w.Tracks (sim.setCursor g.machine q.id) (⟨g.machine, q⟩ :: below) := by
  refine ⟨h.stacked.replace_top hq, fun m id => ?_⟩
  rw [Simulator.cursor?_setCursor]
  by_cases hm : m = g.machine
  · rw [if_pos hm]
    constructor
    · intro hid
      exact ⟨_, List.mem_cons_self .., hm.symm, Option.some.inj hid⟩
    · rintro ⟨f, hf, hfm, hid⟩
      rcases List.mem_cons.mp hf with rfl | hf
      · exact congrArg some hid
      · have cycle := h.stacked.path hf
        rw [hfm, hm] at cycle
        exact absurd cycle (acyclic _)
  · rw [if_neg hm, h.cursor]
    have hne : g.machine ≠ m := fun e => hm e.symm
    simp [hne]

/-- A new frame on top. -/
theorem setCursor_push (h : w.Tracks sim stack) {f : Frame}
    (absent : ∀ g ∈ stack, g.machine ≠ f.machine) (stacked : w.Stacked sim.machine (f :: stack)) :
    w.Tracks (sim.setCursor f.machine f.state.id) (f :: stack) := by
  refine ⟨stacked, fun m id => ?_⟩
  rw [Simulator.cursor?_setCursor]
  by_cases hm : m = f.machine
  · rw [if_pos hm]
    constructor
    · intro hid
      exact ⟨f, List.mem_cons_self .., hm.symm, Option.some.inj hid⟩
    · rintro ⟨g, hg, hgm, hid⟩
      rcases List.mem_cons.mp hg with rfl | hg
      · exact congrArg some hid
      · exact absurd (hgm.trans hm) (absent g hg)
  · rw [if_neg hm, h.cursor]
    have hne : f.machine ≠ m := fun e => hm e.symm
    simp [hne]

/-- The stack without its top frame. -/
theorem clearCursor_top (h : w.Tracks sim (g :: below)) (acyclic : w.Acyclic) :
    w.Tracks (sim.clearCursor g.machine) below := by
  refine ⟨h.stacked.tail, fun m id => ?_⟩
  rw [Simulator.cursor?_clearCursor]
  by_cases hm : m = g.machine
  · rw [if_pos hm]
    constructor
    · intro hid
      cases hid
    · rintro ⟨f, hf, hfm, -⟩
      have cycle := h.stacked.path hf
      rw [hfm, hm] at cycle
      exact absurd cycle (acyclic _)
  · rw [if_neg hm, h.cursor]
    have hne : g.machine ≠ m := fun e => hm e.symm
    simp [hne]

/-- Tracking depends on nothing but the cursors. -/
theorem congr (h : w.Tracks sim stack) {sim' : Simulator} (machine : sim'.machine = sim.machine)
    (cursor : ∀ m, sim'.cursor? m = sim.cursor? m) : w.Tracks sim' stack :=
  ⟨machine ▸ h.stacked, fun m id => by rw [cursor, h.cursor]⟩

end Tracks

/-! ## Steps as a function on stacks -/

/-- A machine starts on top of a stack. -/
def enterTop (w : Workshop) (i : MachineId) (below : List Frame) (t : Tape) :
    Except Fault (List Frame × Tape) :=
  match (w.machine i).startState? with
  | some p => .ok (⟨i, p⟩ :: below, t)
  | none => .error (.machine (.nondeterministic .noStart))

/-- The frame on top of a stack moves. -/
def moveTop (w : Workshop) (f : Frame) (below : List Frame) (t : Tape) :
    Except Fault (List Frame × Tape) :=
  ((w.machine f.machine).go f.state t).map fun (q, t') => (⟨f.machine, q⟩ :: below, t')

/-- The frame on top of a stack lets its submachine start, or moves if it has none. -/
def workTop (w : Workshop) (f : Frame) (below : List Frame) (t : Tape) :
    Except Fault (List Frame × Tape) :=
  match f.state.submachine with
  | some i => w.enterTop i (f :: below) t
  | none => w.moveTop f below t

/-- One step: the outermost machine starts, the frame below one that has finished moves, or the top
frame works. -/
def nextStack (w : Workshop) (root : MachineId) (t : Tape) :
    List Frame → Except Fault (List Frame × Tape)
  | [] => w.enterTop root [] t
  | [f] => w.workTop f [] t
  | g :: f :: rest => if g.state.isFinal then w.moveTop f rest t else w.workTop g (f :: rest) t

theorem nextStack_of_running {g : Frame} {below : List Frame}
    (running : g.state.isFinal = true → below = []) (t : Tape) :
    w.nextStack root t (g :: below) = w.workTop g below t := by
  cases below with
  | nil => rfl
  | cons f rest => exact if_neg fun final => List.cons_ne_nil _ _ (running final)

theorem nextStack_of_finished {f g : Frame} {rest : List Frame} (final : g.state.isFinal = true)
    (t : Tape) : w.nextStack root t (g :: f :: rest) = w.moveTop f rest t := if_pos final

/-! ## What comes next -/

section Reach

variable {sim : Simulator} {f g : Frame} {below rest : List Frame} {d : Nat}

/-- The search for the next step comes to every frame that is not above one that has finished. -/
theorem focusFrom_reach (stacked : w.Stacked root (g :: below))
    (current : ∀ f ∈ g :: below, w.current? sim f.machine = .ok (some f.state))
    (running : g.state.isFinal = true → below = []) (deep : w.Within d root) :
    ∃ d', w.Within (d' + 1) g.machine ∧
      w.focusFrom sim d root = w.focusFrom sim (d' + 1) g.machine := by
  induction below generalizing g with
  | nil =>
    cases d with
    | zero => exact deep.elim
    | succ d =>
      rw [stacked.1]
      exact ⟨d, deep, rfl⟩
  | cons f rest ih =>
    obtain ⟨d', deep', reach⟩ := ih stacked.tail (fun x hx => current x (.tail _ hx)) stacked.2.2.1
    have notFinal : g.state.isFinal = false := by simpa using fun h => running h
    cases d' with
    | zero => exact (deep' _ stacked.nests).elim
    | succ d' =>
      refine ⟨d', deep' _ stacked.nests, ?_⟩
      rw [reach, focusFrom, focusBody, current f (.tail _ (.head _))]
      simp only [bind, Except.bind, stacked.2.1, current g (.head _), notFinal]
      rfl

/-- The search for the stack comes to every frame, having passed those below it. -/
theorem stackFrom_reach (stacked : w.Stacked root (g :: below))
    (current : ∀ f ∈ g :: below, w.current? sim f.machine = .ok (some f.state))
    (deep : w.Within d root) :
    ∃ d', w.Within (d' + 1) g.machine ∧ w.stackFrom sim d root =
      (w.stackFrom sim (d' + 1) g.machine).map ((below.map (·.machine)).reverse ++ ·) := by
  induction below generalizing g with
  | nil =>
    cases d with
    | zero => exact deep.elim
    | succ d =>
      rw [stacked.1]
      refine ⟨d, deep, ?_⟩
      cases w.stackFrom sim (d + 1) root <;> rfl
  | cons f rest ih =>
    obtain ⟨d', deep', reach⟩ := ih stacked.tail (fun x hx => current x (.tail _ hx))
    have runs : (sim.cursor? g.machine).isSome = true := by
      have hg := current g (.head _)
      unfold current? at hg
      split at hg
      · cases hg
      · rename_i hc
        rw [hc]
        rfl
    cases d' with
    | zero => exact (deep' _ stacked.nests).elim
    | succ d' =>
      refine ⟨d', deep' _ stacked.nests, ?_⟩
      have hf : w.stackFrom sim (d' + 1 + 1) f.machine =
          (w.stackFrom sim (d' + 1) g.machine).map (f.machine :: ·) := by
        rw [stackFrom, stackBody, current f (.tail _ (.head _))]
        simp only [bind, Except.bind, stacked.2.1, Option.filter, runs, if_true]
        cases w.stackFrom sim (d' + 1) g.machine <;> rfl
      rw [reach, hf]
      cases w.stackFrom sim (d' + 1) g.machine with
      | error e => rfl
      | ok ms => simp [Except.map]

end Reach

namespace Tracks

variable {sim : Simulator} {f g : Frame} {below rest stack : List Frame}

/-- A top frame that has work to do is what the next step is about. -/
theorem focus_of_running (h : w.Tracks sim (g :: below)) (sane : w.Sane)
    (known : sim.machine.index < w.machines.length)
    (running : g.state.isFinal = true → below = []) :
    w.focus sim = .ok (some (match g.state.submachine with
      | some i => .enter g.machine g.state i
      | none => .act g.machine g.state none)) := by
  obtain ⟨d, -, reach⟩ := focusFrom_reach h.stacked (fun x hx => h.current_of_mem sane hx) running
    (sane.within known)
  rw [focus, reach, focusFrom, focusBody, h.current_of_mem sane (.head _)]
  cases hsub : g.state.submachine with
  | none => simp [bind, Except.bind, hsub, pure, Except.pure]
  | some i =>
    have absent := h.current_of_absent fun x hx => h.stacked.inner_absent sane.acyclic hsub hx
    simp [bind, Except.bind, hsub, absent, pure, Except.pure]

/-- The frame below one that has finished is what the next step is about. -/
theorem focus_of_finished (h : w.Tracks sim (g :: f :: rest)) (sane : w.Sane)
    (known : sim.machine.index < w.machines.length) (final : g.state.isFinal = true) :
    w.focus sim = .ok (some (.act f.machine f.state (some g.machine))) := by
  obtain ⟨d, -, reach⟩ := focusFrom_reach h.stacked.tail
    (fun x hx => h.current_of_mem sane (.tail _ hx)) h.stacked.2.2.1 (sane.within known)
  rw [focus, reach, focusFrom, focusBody, h.current_of_mem sane (.tail _ (.head _))]
  simp [bind, Except.bind, h.stacked.2.1, h.current_of_mem sane (.head _), final, pure, Except.pure]

/-! ## Observations -/

theorem current_root (h : w.Tracks sim stack) (sane : w.Sane) :
    w.current? sim sim.machine = .ok (stack.getLast?.map (·.state)) := by
  cases hlast : stack.getLast? with
  | none =>
    rw [List.getLast?_eq_none_iff] at hlast
    subst hlast
    exact h.current_of_absent fun f hf => by cases hf
  | some f =>
    rw [← h.stacked.machine_getLast hlast]
    exact h.current_of_mem sane (List.mem_of_getLast? hlast)

/-- An acceptor is always alone. -/
theorem rest_eq_nil_of_acceptor (h : w.Tracks sim (g :: below)) (sane : w.Sane)
    (acceptor : (w.machine sim.machine).kind = .acceptor) : below = [] := by
  cases below with
  | nil => rfl
  | cons f rest =>
    have path : TransGen w.Nests sim.machine g.machine :=
      .tail' h.stacked.tail.path_root h.stacked.nests
    obtain ⟨i, edge, -⟩ := TransGen.head'_iff.mp path
    rw [sane.flat _ _ edge] at acceptor
    cases acceptor

theorem stack_eq (h : w.Tracks sim (g :: below)) (sane : w.Sane)
    (known : sim.machine.index < w.machines.length) :
    w.stack sim = .ok ((g :: below).map (·.machine)).reverse := by
  unfold stack
  split
  · obtain ⟨d, -, reach⟩ := stackFrom_reach h.stacked (fun x hx => h.current_of_mem sane hx)
      (sane.within known)
    rw [reach, stackFrom, stackBody, h.current_of_mem sane (.head _)]
    cases hsub : g.state.submachine with
    | none => simp [bind, Except.bind, hsub, pure, Except.pure, Except.map]
    | some i =>
      have absent := h.cursor_of_absent fun x hx => h.stacked.inner_absent sane.acyclic hsub hx
      simp [bind, Except.bind, hsub, absent, Option.filter, pure, Except.pure, Except.map]
  · rename_i acceptor
    have alone := h.rest_eq_nil_of_acceptor sane acceptor
    subst alone
    rw [← h.stacked.1]
    rfl

/-- Before the first step there is nothing but the outermost machine. -/
theorem stack_of_idle (h : w.Tracks sim []) (sane : w.Sane) : w.stack sim = .ok [sim.machine] := by
  have idle := h.current_root sane
  unfold Workshop.stack
  split
  · cases w.machines.length with
    | zero => rfl
    | succ d => simp [stackFrom, stackBody, idle, bind, Except.bind, pure, Except.pure]
  · rfl

theorem currentLabels_eq {frames : List Frame}
    (current : ∀ f ∈ frames, w.current? sim f.machine = .ok (some f.state)) :
    w.currentLabels sim (frames.map (·.machine)) = .ok (frames.map (·.state.label)) := by
  induction frames with
  | nil => rfl
  | cons f rest ih =>
    have hrest := ih fun x hx => current x (.tail _ hx)
    simp [currentLabels, current f (.head _), hrest, bind, Except.bind, pure, Except.pure]

theorem stateName_eq (h : w.Tracks sim stack) (sane : w.Sane)
    (known : sim.machine.index < w.machines.length) :
    w.stateName sim = .ok (pathName (stack.map (·.state.label)).reverse) := by
  have labels : (w.stack sim >>= w.currentLabels sim) =
      .ok (stack.map (·.state.label)).reverse := by
    cases stack with
    | nil =>
      simp [h.stack_of_idle sane, currentLabels, h.current_root sane, bind, Except.bind]
    | cons g below =>
      rw [h.stack_eq sane known, ← List.map_reverse, ← List.map_reverse]
      exact currentLabels_eq fun x hx => h.current_of_mem sane (List.mem_reverse.mp hx)
  unfold stateName
  simp only [bind, Except.bind] at labels ⊢
  cases hstack : w.stack sim with
  | error e =>
    rw [hstack] at labels
    cases labels
  | ok ms =>
    rw [hstack] at labels
    simp only at labels
    simp only [labels, pure, Except.pure]

end Tracks

/-- The configuration of a run whose current states, from the outermost inwards, have the given
labels. -/
def configurationText (kind : Kind) (labels : List String) (t : Tape) : String :=
  match kind with
  | .turing =>
    "(" ++ marked (t.partialString 0 t.head) ++ ", " ++ marked (pathName labels) ++ ", " ++
      marked (t.partialString t.head (t.length - t.head : Nat)) ++ ")"
  | .acceptor => marked (pathName labels)

/-- Whether a run has halted, given the state of the outermost machine. -/
def haltedIn (kind : Kind) (q? : Option State) (t : Tape) : Bool :=
  match kind with
  | .turing => q?.any (·.isFinal)
  | .acceptor => q?.isSome && t.read == blankCell

/-- Whether a run that has halted has accepted, given the state of the outermost machine. -/
def acceptedIn (kind : Kind) (q? : Option State) (t : Tape) : Bool :=
  haltedIn kind q? t && match kind with
    | .turing => t.isParked
    | .acceptor => q?.any (·.isFinal)

namespace Tracks

variable {sim : Simulator} {stack : List Frame}

theorem configuration_eq (h : w.Tracks sim stack) (sane : w.Sane)
    (known : sim.machine.index < w.machines.length) (t : Tape) :
    w.configuration sim t = .ok (configurationText (w.machine sim.machine).kind
      (stack.map (·.state.label)).reverse t) := by
  unfold configuration configurationText
  rw [h.stateName_eq sane known]
  cases (w.machine sim.machine).kind <;> rfl

theorem isHalted_eq (h : w.Tracks sim stack) (sane : w.Sane) (t : Tape) :
    w.isHalted sim t =
      .ok (haltedIn (w.machine sim.machine).kind (stack.getLast?.map (·.state)) t) := by
  have current := h.current_root sane
  unfold isHalted haltedIn
  cases (w.machine sim.machine).kind with
  | turing =>
    simp only [current, bind, Except.bind]
    cases stack.getLast? <;> rfl
  | acceptor =>
    have running : (sim.cursor? sim.machine).isSome = (stack.getLast?.map (·.state)).isSome := by
      cases hlast : stack.getLast? with
      | none =>
        rw [List.getLast?_eq_none_iff] at hlast
        subst hlast
        rw [h.cursor_of_absent fun f hf => by cases hf]
        rfl
      | some f =>
        rw [← h.stacked.machine_getLast hlast, h.cursor_of_mem (List.mem_of_getLast? hlast)]
        rfl
    rw [running]

theorem isAccepted_eq (h : w.Tracks sim stack) (sane : w.Sane) (t : Tape) :
    w.isAccepted sim t =
      .ok (acceptedIn (w.machine sim.machine).kind (stack.getLast?.map (·.state)) t) := by
  unfold isAccepted acceptedIn
  rw [h.isHalted_eq sane t, h.current_root sane]
  cases (w.machine sim.machine).kind <;>
    cases haltedIn _ (stack.getLast?.map (·.state)) t <;> simp [bind, Except.bind, pure, Except.pure]
  cases stack.getLast? <;> rfl

end Tracks

/-! ## Looking while a step is going on -/

/-- Every cursor is at a live state.  This holds also in the middle of a step, when a submachine that
has finished is still there. -/
def Live (w : Workshop) (sim : Simulator) : Prop :=
  ∀ m id, sim.cursor? m = some id → ∃ q ∈ (w.machine m).states, q.id = id

namespace Live

variable {sim : Simulator}

theorem of_tracks {stack : List Frame} (h : w.Tracks sim stack) : w.Live sim := by
  intro m id hc
  obtain ⟨f, hf, rfl, rfl⟩ := (h.cursor m id).mp hc
  exact ⟨f.state, h.stacked.live hf, rfl⟩

theorem setCursor (h : w.Live sim) {m : MachineId} {q : State} (hq : q ∈ (w.machine m).states) :
    w.Live (sim.setCursor m q.id) := by
  intro n id hc
  rw [Simulator.cursor?_setCursor] at hc
  split at hc
  · rename_i hn
    cases hc
    exact ⟨q, hn ▸ hq, rfl⟩
  · exact h n id hc

theorem exists_current (h : w.Live sim) (sane : w.Sane) (m : MachineId) :
    ∃ q?, w.current? sim m = .ok q? := by
  unfold current?
  split
  · exact ⟨none, rfl⟩
  · rename_i id hc
    obtain ⟨q, hq, rfl⟩ := h m id hc
    rw [stateAt_eq (sane.arena m) hq]
    exact ⟨some q, rfl⟩

theorem exists_stackFrom (h : w.Live sim) (sane : w.Sane) (d : Nat) (m : MachineId) :
    ∃ ms, w.stackFrom sim d m = .ok ms := by
  induction d generalizing m with
  | zero => exact ⟨_, rfl⟩
  | succ d ih =>
    obtain ⟨q?, hq⟩ := h.exists_current sane m
    rw [stackFrom, stackBody, hq]
    cases q? with
    | none => exact ⟨_, rfl⟩
    | some q =>
      simp only [bind, Except.bind]
      split
      · exact ⟨_, rfl⟩
      · rename_i inner _
        obtain ⟨ms, hms⟩ := ih inner
        rw [hms]
        exact ⟨_, rfl⟩

theorem exists_stack (h : w.Live sim) (sane : w.Sane) : ∃ ms, w.stack sim = .ok ms := by
  unfold Workshop.stack
  split
  · exact h.exists_stackFrom sane _ _
  · exact ⟨_, rfl⟩

theorem exists_currentLabels (h : w.Live sim) (sane : w.Sane) (ms : List MachineId) :
    ∃ labels, w.currentLabels sim ms = .ok labels := by
  induction ms with
  | nil => exact ⟨_, rfl⟩
  | cons m rest ih =>
    obtain ⟨q?, hq⟩ := h.exists_current sane m
    obtain ⟨labels, hlabels⟩ := ih
    rw [currentLabels, hq]
    cases q? with
    | none => exact ⟨labels, hlabels⟩
    | some q =>
      simp only [bind, Except.bind, hlabels]
      exact ⟨_, rfl⟩

theorem exists_stateName (h : w.Live sim) (sane : w.Sane) : ∃ name, w.stateName sim = .ok name := by
  obtain ⟨ms, hms⟩ := h.exists_stack sane
  obtain ⟨labels, hlabels⟩ := h.exists_currentLabels sane ms
  refine ⟨pathName labels, ?_⟩
  simp [stateName, bind, Except.bind, hms, hlabels, pure, Except.pure]

theorem exists_configuration (h : w.Live sim) (sane : w.Sane) (t : Tape) :
    ∃ text, w.configuration sim t = .ok text := by
  obtain ⟨name, hname⟩ := h.exists_stateName sane
  unfold configuration
  rw [hname]
  cases (w.machine sim.machine).kind <;> exact ⟨_, rfl⟩

end Live

end Workshop

end MachineLab
