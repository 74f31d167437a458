import MachineLab.Proofs.Execution

/-!
# Turns

What the next step is about can be read off a stack: some machine starts on top of it, or some frame
moves, and a frame above that one has finished and is given up.  A simulator looks for the same thing
twice, once to take the step and once to say which transition it would take.  The two walks over the
running machines are written apart; they agree for all cursors, whether these form a stack or not.

## Main definitions

* `Turn`, `Workshop.turn` — what the next step does to a stack.
* `Stage.Unmoved` — nothing that can be seen of a run has changed.

## Main statements

* `Workshop.previewFrom_eq` — the two walks agree.
* `Workshop.Tracks.nextTransition_eq` — the transition that a simulator would take, on stacks.
* `Workshop.Tracks.cursor?_of_enter`, `cursor?_of_move` — the cursors after a step.
* `Stage.Stands.step_of_enter`, `step_of_move` — a step of a valid machine, by whose turn it is.
* `Machine.TuringRules.go_cases` — how the move of a Turing machine can turn out.
-/

namespace MachineLab

open Relation

/-- What the next step does to a stack. -/
inductive Turn where
  /-- A machine starts on top. -/
  | enter (i : MachineId)
  /-- A frame moves, with the given ones below it.  A frame above it is given up. -/
  | move (f : Frame) (below : List Frame)

/-- A frame that is not waiting for another lets its submachine start, or moves if it has none. -/
def Frame.turn (f : Frame) (below : List Frame) : Turn :=
  match f.state.submachine with
  | some i => .enter i
  | none => .move f below

namespace Workshop

/-- What the next step of a simulator of `root` does to a stack. -/
def turn (root : MachineId) : List Frame → Turn
  | [] => .enter root
  | [f] => f.turn []
  | g :: f :: rest => if g.state.isFinal then .move f rest else g.turn (f :: rest)

variable {w : Workshop} {root : MachineId} {sim sim' : Simulator} {stack below : List Frame}
  {f g : Frame} {t : Tape}

theorem turn_of_running (running : g.state.isFinal = true → below = []) :
    turn root (g :: below) = g.turn below := by
  cases below with
  | nil => rfl
  | cons f rest => exact if_neg fun final => List.cons_ne_nil _ _ (running final)

/-- A step is a turn. -/
theorem nextStack_eq (w : Workshop) (root : MachineId) (t : Tape) (stack : List Frame) :
    w.nextStack root t stack =
      match turn root stack with
      | .enter i => w.enterTop i stack t
      | .move f below => w.moveTop f below t := by
  have work (f : Frame) (below : List Frame) : w.workTop f below t =
      match f.turn below with
      | .enter i => w.enterTop i (f :: below) t
      | .move f below => w.moveTop f below t := by
    unfold workTop Frame.turn
    cases f.state.submachine <;> rfl
  match stack with
  | [] => rfl
  | [f] => exact work f []
  | g :: f :: rest =>
    simp only [nextStack, turn]
    split
    · rfl
    · exact work g (f :: rest)

/-- Whose turn it is to enter: the outermost machine's before the first step, later that of the machine
inside the top frame. -/
theorem turn_eq_enter {i : MachineId} (h : turn root stack = .enter i) :
    (stack = [] ∧ i = root) ∨ ∃ g below, stack = g :: below ∧ g.state.submachine = some i := by
  have work {f : Frame} {below : List Frame} (h : f.turn below = .enter i) :
      f.state.submachine = some i := by
    unfold Frame.turn at h
    split at h <;> cases h
    assumption
  match stack with
  | [] =>
    cases h
    exact .inl ⟨rfl, rfl⟩
  | [f] => exact .inr ⟨f, [], rfl, work h⟩
  | g :: f :: rest =>
    simp only [turn] at h
    split at h
    · cases h
    · exact .inr ⟨g, f :: rest, rfl, work h⟩

/-- Whose turn it is to move: that of the top frame, or of the one below a frame that has finished. -/
theorem turn_eq_move (h : turn root stack = .move f below) :
    stack = f :: below ∨ ∃ g, stack = g :: f :: below ∧ g.state.isFinal = true := by
  have work {g : Frame} {rest : List Frame} (h : g.turn rest = .move f below) :
      g = f ∧ rest = below := by
    unfold Frame.turn at h
    split at h <;> cases h
    exact ⟨rfl, rfl⟩
  match stack with
  | [] => cases h
  | [f'] =>
    obtain ⟨rfl, rfl⟩ := work h
    exact .inl rfl
  | g :: f' :: rest =>
    simp only [turn] at h
    split at h
    · rename_i final
      cases h
      exact .inr ⟨g, rfl, final⟩
    · obtain ⟨rfl, rfl⟩ := work h
      exact .inl rfl

/-- A frame that is to move stands on a stack of its own. -/
theorem Stacked.of_turn (h : w.Stacked root stack) (move : turn root stack = .move f below) :
    w.Stacked root (f :: below) := by
  obtain rfl | ⟨g, rfl, -⟩ := turn_eq_move move
  · exact h
  · exact h.tail

theorem mem_of_turn (move : turn root stack = .move f below) : f ∈ stack := by
  obtain rfl | ⟨g, rfl, -⟩ := turn_eq_move move
  · exact .head _
  · exact .tail _ (.head _)

/-- A frame that is to move from a final state is the outermost one. -/
theorem Stacked.below_eq_nil (h : w.Stacked root stack) (move : turn root stack = .move f below)
    (final : f.state.isFinal = true) : below = [] := by
  match stack with
  | [] => cases move
  | [g] =>
    obtain h | ⟨g', h, -⟩ := turn_eq_move move <;> cases h
    rfl
  | g :: f' :: rest =>
    simp only [turn] at move
    split at move
    · cases move
      exact h.2.2.1 final
    · rename_i running
      unfold Frame.turn at move
      split at move <;> cases move
      exact absurd final running

/-! ## The two walks -/

/-- The transition that a simulator takes with what a step is about. -/
def Focus.transition? (w : Workshop) (t : Tape) : Option Focus → Except Fault (Option Transition)
  | some (.act m q _) => w.chosen m q t
  | some (.enter _ _ _) | none => .ok none

/-- **The two walks over the running machines agree.**  The one that says which transition comes next
ends where the one that takes it does, or fails with it. -/
theorem previewFrom_eq (w : Workshop) (sim : Simulator) (t : Tape) (d : Nat) (m : MachineId) :
    w.previewFrom sim t d m = w.focusFrom sim d m >>= Focus.transition? w t := by
  induction d generalizing m with
  | zero => rfl
  | succ d ih =>
    rw [previewFrom, focusFrom, previewBody, focusBody]
    cases w.current? sim m with
    | error e => rfl
    | ok q? =>
      cases q? with
      | none => rfl
      | some q =>
        simp only [bind, Except.bind]
        cases q.submachine with
        | none => rfl
        | some inner =>
          simp only
          cases w.current? sim inner with
          | error e => rfl
          | ok p? =>
            cases p? with
            | none => rfl
            | some p =>
              cases hp : p.isFinal with
              | true => simp [hp, pure, Except.pure, Focus.transition?]
              | false => simpa [hp, bind, Except.bind] using ih inner

theorem nextTransition_eq_focus (w : Workshop) (sim : Simulator) (t : Tape) :
    w.nextTransition sim t = w.focus sim >>= Focus.transition? w t :=
  previewFrom_eq w sim t _ _

namespace Tracks

/-- If it is some machine's turn to enter, the step is about the top frame. -/
theorem focus_of_enter {i : MachineId} (h : w.Tracks sim (g :: below)) (sane : w.Sane)
    (known : sim.machine.index < w.machines.length)
    (enter : turn sim.machine (g :: below) = .enter i) :
    w.focus sim = .ok (some (.enter g.machine g.state i)) := by
  by_cases running : g.state.isFinal = true → below = []
  · rw [turn_of_running running, Frame.turn] at enter
    rw [h.focus_of_running sane known running]
    cases hsub : g.state.submachine with
    | none =>
      rw [hsub] at enter
      cases enter
    | some j =>
      rw [hsub] at enter
      cases enter
      rfl
  · obtain ⟨final, hbelow⟩ := Classical.not_imp.mp running
    obtain ⟨f, rest, rfl⟩ := List.exists_cons_of_ne_nil hbelow
    rw [turn, if_pos final] at enter
    cases enter

/-- If it is some frame's turn to move, the step is about that frame. -/
theorem focus_of_move (h : w.Tracks sim stack) (sane : w.Sane)
    (known : sim.machine.index < w.machines.length)
    (move : turn sim.machine stack = .move f below) :
    ∃ finished, w.focus sim = .ok (some (.act f.machine f.state finished)) := by
  match stack with
  | [] => cases move
  | g :: rest =>
    by_cases running : g.state.isFinal = true → rest = []
    · rw [turn_of_running running, Frame.turn] at move
      rw [h.focus_of_running sane known running]
      cases hsub : g.state.submachine with
      | none =>
        rw [hsub] at move
        cases move
        exact ⟨none, rfl⟩
      | some j =>
        rw [hsub] at move
        cases move
    · obtain ⟨final, hrest⟩ := Classical.not_imp.mp running
      obtain ⟨f', rest, rfl⟩ := List.exists_cons_of_ne_nil hrest
      rw [turn, if_pos final] at move
      cases move
      exact ⟨_, h.focus_of_finished sane known final⟩

/-- The transition that a simulator would take is that of the frame whose turn it is to move. -/
theorem nextTransition_eq (h : w.Tracks sim stack) (sane : w.Sane)
    (known : sim.machine.index < w.machines.length) (t : Tape) :
    w.nextTransition sim t =
      match turn sim.machine stack with
      | .enter _ => .ok none
      | .move f _ => w.chosen f.machine f.state t := by
  rw [nextTransition_eq_focus]
  cases hturn : turn sim.machine stack with
  | move f below =>
    obtain ⟨finished, hfocus⟩ := h.focus_of_move sane known hturn
    rw [hfocus]
    rfl
  | enter i =>
    cases stack with
    | nil =>
      obtain ⟨d, hd⟩ : ∃ d, w.machines.length = d + 1 := Nat.exists_eq_succ_of_ne_zero (by omega)
      simp only [focus, hd, focusFrom, focusBody, h.current_root sane]
      rfl
    | cons g below =>
      rw [h.focus_of_enter sane known hturn]
      rfl

/-! ## Cursors -/

/-- The cursor of a machine is where the stack has it. -/
theorem cursor?_eq (h : w.Tracks sim stack) (m : MachineId) :
    sim.cursor? m = (stack.find? (·.machine = m)).map (·.state.id) := by
  cases found : stack.find? (·.machine = m) with
  | none =>
    refine h.cursor_of_absent fun f hf => ?_
    simpa using List.find?_eq_none.mp found f hf
  | some f =>
    have hm : f.machine = m := by simpa using List.find?_some found
    rw [← hm]
    exact h.cursor_of_mem (List.mem_of_find?_eq_some found)

/-- After a machine has started on top it has a cursor, and the others are where they were. -/
theorem cursor?_of_enter {i : MachineId} {p : State} (h : w.Tracks sim stack)
    (h' : w.Tracks sim' (⟨i, p⟩ :: stack)) (m : MachineId) :
    sim'.cursor? m = if m = i then some p.id else sim.cursor? m := by
  rw [h.cursor?_eq, h'.cursor?_eq]
  by_cases hm : m = i
  · simp [hm]
  · simp [hm, Ne.symm hm]

/-- After a frame has moved its machine is in the new state; of the others, one whose frame was above
it has lost its cursor, and the rest are where they were. -/
theorem cursor?_of_move {q : State} (h : w.Tracks sim stack) (acyclic : w.Acyclic)
    (h' : w.Tracks sim' (⟨f.machine, q⟩ :: below))
    (move : turn sim.machine stack = .move f below) (m : MachineId) :
    sim'.cursor? m =
      if m = f.machine then some q.id
      else if stack.head?.any (·.machine = m) then none
      else sim.cursor? m := by
  rw [h.cursor?_eq, h'.cursor?_eq]
  by_cases hm : m = f.machine
  · simp [hm]
  have hne : f.machine ≠ m := Ne.symm hm
  obtain rfl | ⟨g, rfl, -⟩ := turn_eq_move move
  · simp [hm, hne]
  · by_cases hg : g.machine = m
    · have gone : below.find? (·.machine = m) = none := by
        rw [List.find?_eq_none]
        intro f' hf' same
        have cycle := h.stacked.path (.tail _ hf')
        rw [hg, show f'.machine = m by simpa using same] at cycle
        exact acyclic _ cycle
      simp [hm, hne, hg, gone]
    · simp [hm, hne, hg]

end Tracks

end Workshop

/-! ## Steps -/

namespace Machine

/-- The move of a Turing machine that follows the rules goes along the transition for the symbol under
the head, unless that leads past the start of the tape; without a transition the machine stops. -/
theorem TuringRules.go_cases {m : Machine} {a : Alphabet} (rules : m.TuringRules a) (arena : m.Arena)
    (turing : m.kind = .turing) {q : State} (hq : q ∈ m.states) (t : Tape) :
    (∃ tr q' t', m.choice? q (.text t.read) = some tr ∧ tr.source = q.id ∧ tr.target = q'.id ∧
      q' ∈ m.states ∧ tr.action.effect t = .ok t' ∧ m.go q t = .ok (q', t')) ∨
    (∃ tr inp out, m.choice? q (.text t.read) = some tr ∧ tr.source = q.id ∧
      tr.action = .turing .left inp out ∧ t.head = 0 ∧ m.go q t = .error (.machine .tapeBounds)) ∨
    (m.choice? q (.text t.read) = none ∧ m.go q t = .error (.machine (m.turingStop q t))) := by
  cases hr : m.choice? q (.text t.read) with
  | none =>
    refine .inr (.inr ⟨rfl, ?_⟩)
    unfold go
    rw [turing, hr]
  | some tr =>
    have leaves := mem_exits_of_choice? hr
    obtain ⟨ht, source⟩ := mem_exits.mp leaves
    have along : m.go q t = m.goAlong tr t := by
      unfold go
      rw [turing, hr]
    cases hgo : m.go q t with
    | ok there =>
      obtain ⟨q', t'⟩ := there
      obtain ⟨hq', target, effect⟩ := arena.goAlong_eq_ok ht (along.symm.trans hgo)
      exact .inl ⟨tr, q', t', rfl, source, target.symm, hq', effect, rfl⟩
    | error e =>
      have effect := arena.goAlong_eq_error ht (along.symm.trans hgo)
      obtain ⟨used, fits⟩ := rules.fits hq leaves
      obtain ⟨rfl, parked, inp, out, action⟩ := fits.effect_eq_error effect
      exact .inr (.inl ⟨tr, inp, out, rfl, source, action, parked, rfl⟩)

end Machine

namespace Workshop

variable {w : Workshop}

theorem Alike.chosen {w' : Workshop} (h : w.Alike w') (m : MachineId) (q : State) (t : Tape) :
    w'.chosen m q t = w.chosen m q t := by
  unfold Workshop.chosen
  rw [h.machine m]
  rfl

/-- The move of a machine of a valid Turing machine goes along the transition for the symbol under the
head, unless that leads past the start of the tape; without a transition the machine stops. -/
theorem Fit.go_cases {m : MachineId} {q : State} (fit : w.Fit m) (sane : w.Sane)
    (hq : q ∈ (w.machine m).states) (t : Tape) :
    (∃ tr q' t', w.chosen m q t = .ok (some tr) ∧ tr.source = q.id ∧ tr.target = q'.id ∧
      q' ∈ (w.machine m).states ∧ tr.action.effect t = .ok t' ∧
      (w.machine m).go q t = .ok (q', t')) ∨
    (∃ tr inp out, w.chosen m q t = .ok (some tr) ∧ tr.source = q.id ∧
      tr.action = .turing .left inp out ∧ t.head = 0 ∧
      (w.machine m).go q t = .error (.machine .tapeBounds)) ∨
    (w.chosen m q t = .ok none ∧
      (w.machine m).go q t = .error (.machine ((w.machine m).turingStop q t))) := by
  simp only [w.chosen_eq (sane.arena m) hq, Except.ok.injEq]
  exact fit.turingRules.go_cases (sane.arena m) fit.turing hq t

end Workshop

/-- Nothing that can be seen of a run has changed. -/
structure Stage.Unmoved (s s' : Stage) : Prop where
  tape : s'.tape = s.tape
  cursors : ∀ m, s'.sim.cursor? m = s.sim.cursor? m
  stack : s'.shop.stack s'.sim = s.shop.stack s.sim
  configuration : s'.shop.configuration s'.sim s'.tape = s.shop.configuration s.sim s.tape
  nextTransition : s'.shop.nextTransition s'.sim s'.tape = s.shop.nextTransition s.sim s.tape

namespace Stage.Stands

open Workshop

variable {s : Stage} {w : Workshop} {root : MachineId} {stack : List Frame} {t : Tape}

theorem sane {c : List Frame × Tape} (h : s.Stands w root c) : w.Sane := h.alike.symm.sane h.good.sane

/-- The cursors are those of the stack also in the workshop that the simulator is compared with. -/
theorem tracks {c : List Frame × Tape} (h : s.Stands w root c) : w.Tracks s.sim c.1 :=
  h.alike.symm.tracks h.here.tracks

theorem stacked {c : List Frame × Tape} (h : s.Stands w root c) : w.Stacked root c.1 :=
  h.here.machine ▸ h.tracks.stacked

/-- The transition that a simulator would take is that of the frame whose turn it is to move. -/
theorem nextTransition_eq (h : s.Stands w root (stack, t)) (known : root.index < w.machines.length) :
    s.shop.nextTransition s.sim s.tape =
      match turn root stack with
      | .enter _ => .ok none
      | .move f _ => w.chosen f.machine f.state t := by
  obtain ⟨alike, good, rfl, tracks, rfl⟩ := h
  rw [tracks.nextTransition_eq good.sane (alike.length ▸ known)]
  simp only [alike.chosen]

/-- The running machines are those of the stack. -/
theorem stack_eq (h : s.Stands w root (stack, t)) (known : root.index < w.machines.length) :
    s.shop.stack s.sim = .ok (if stack = [] then [root] else (stack.map (·.machine)).reverse) := by
  obtain ⟨alike, good, rfl, tracks, -⟩ := h
  cases stack with
  | nil => exact tracks.stack_of_idle good.sane
  | cons g below => exact tracks.stack_eq good.sane (alike.length ▸ known)

/-- Simulators that stand at one stack and one tape look the same. -/
theorem unmoved {s' : Stage} {c : List Frame × Tape} (h : s.Stands w root c) (h' : s'.Stands w root c)
    (known : root.index < w.machines.length) : s.Unmoved s' where
  tape := h'.here.tape.trans h.here.tape.symm
  cursors m := by rw [h.tracks.cursor?_eq, h'.tracks.cursor?_eq]
  stack := by rw [h.stack_eq known, h'.stack_eq known]
  configuration := by rw [h.configuration_eq known, h'.configuration_eq known]
  nextTransition := by rw [h.nextTransition_eq known, h'.nextTransition_eq known]

/-! Moves do not depend on what machines remember. -/

theorem chosen_eq (h : s.Stands w root (stack, t)) (m : MachineId) (q : State) :
    s.shop.chosen m q s.tape = w.chosen m q t := by
  rw [h.alike.chosen, h.here.tape]

theorem go_eq (h : s.Stands w root (stack, t)) (m : MachineId) (q : State) :
    (s.shop.machine m).go q s.tape = (w.machine m).go q t := by
  rw [h.alike.machine m, h.here.tape]
  rfl

/-- Once something runs, a step goes on with it. -/
theorem startOrProceed_eq {g : Frame} {below : List Frame} (h : s.Stands w root (g :: below, t)) :
    SimM.startOrProceed s = SimM.proceed s := by
  obtain ⟨id, hid⟩ := h.tracks.exists_cursor_root
  unfold SimM.startOrProceed
  rw [hid]

variable (h : s.Stands w root (stack, t)) (known : root.index < w.machines.length)
  (clean : w.Clean root)

include h known clean

theorem step_of_clean :
    outcome SimM.step s = (w.nextStack root t stack).map (fun _ => ()) ∧
      (after SimM.step s).Stands w root (landing (w.nextStack root t stack) (stack, t)) := by
  obtain ⟨s', hstep, stands⟩ := h.step_eq known
  rw [stepResult, clean.pass h.sane known] at hstep stands
  exact ⟨outcome_of_conclude hstep, after_of_conclude hstep ▸ stands⟩

/-- If it is some machine's turn to enter, it starts on top of the stack. -/
theorem step_of_enter {i : MachineId} (enter : turn root stack = .enter i) :
    ∃ p, (w.machine i).startState? = some p ∧ outcome SimM.step s = .ok () ∧
      (after SimM.step s).Stands w root (⟨i, p⟩ :: stack, t) := by
  have path : ReflTransGen w.Nests root i := by
    obtain ⟨-, rfl⟩ | ⟨g, below, rfl, inner⟩ := turn_eq_enter enter
    · exact .refl
    · exact h.stacked.path_root.tail ((w.nests_iff _ _).mpr ⟨_, h.stacked.live_top, inner⟩)
  obtain ⟨p, start, -⟩ := (clean.rules path).exists_start
  have next : w.nextStack root t stack = .ok (⟨i, p⟩ :: stack, t) := by
    rw [nextStack_eq, enter]
    simp only [enterTop, start]
  obtain ⟨gives, stands⟩ := h.step_of_clean known clean
  rw [next] at gives stands
  exact ⟨p, start, gives, stands⟩

/-- If it is some frame's turn to move, the step is the move of its machine. -/
theorem step_of_move {f : Frame} {below : List Frame} (move : turn root stack = .move f below) :
    outcome SimM.step s = ((w.machine f.machine).go f.state t).map (fun _ => ()) ∧
      (after SimM.step s).Stands w root
        (match (w.machine f.machine).go f.state t with
          | .ok (q, t') => (⟨f.machine, q⟩ :: below, t')
          | .error _ => (stack, t)) := by
  have next : w.nextStack root t stack = w.moveTop f below t := by rw [nextStack_eq, move]
  obtain ⟨gives, stands⟩ := h.step_of_clean known clean
  rw [next, moveTop] at gives stands
  cases hgo : (w.machine f.machine).go f.state t with
  | ok there =>
    rw [hgo] at gives stands
    exact ⟨gives, stands⟩
  | error e =>
    rw [hgo] at gives stands
    exact ⟨gives, stands⟩

end Stage.Stands

end MachineLab
