import MachineLab.Proofs.Invariants
import MachineLab.Proofs.Stepping
import MachineLab.Simulator.Run

/-!
# Recursive execution

What a machine with submachines is meant to do is most easily said by recursion.  In a final state it
stops.  In any other state the submachine, if there is one, is executed on the tape from its own start
state, and then the transition for the symbol under the head is taken.  `Workshop.Exec` says this,
without stacks, cursors or steps.

A simulator takes one small step at a time.  With a budget of zero its run ends exactly if the
execution does, in the same way.

## Main definitions

* `Workshop.Exec` — execution from a state, as a relation between a tape and an outcome.
* `Workshop.Executes` — execution of a machine from its start state.
* `Workshop.runStack` — a run on stacks.

## Main statements

* `Workshop.Exec.reaches` — whatever is executed is run.
* `Workshop.exists_exec` — a run that ends comes from an execution.
* `Workshop.run_refines_recursive_execution` — a simulator's run without a budget is the execution of
  its machine.
-/

namespace MachineLab

open Relation

namespace Workshop

variable {w : Workshop} {root : MachineId}

/-! ## Execution by recursion -/

/-- What an execution is about to do in a state: see whether it has to stop there, or leave it. -/
inductive Phase where
  | arrive
  | leave

/-- The execution of a machine from one of its states on a tape ends with a state and a tape, or with
a fault. -/
inductive Exec (w : Workshop) :
    Phase → MachineId → State → Tape → Except MachineFault (State × Tape) → Prop
  | halt {m q t} (final : q.isFinal = true) : Exec w .arrive m q t (.ok (q, t))
  | plain {m q t result} (running : q.isFinal = false) (alone : q.submachine = none)
      (rest : Exec w .leave m q t result) : Exec w .arrive m q t result
  | nested {m q t i p p' t' result} (running : q.isFinal = false) (inner : q.submachine = some i)
      (start : (w.machine i).startState? = some p) (sub : Exec w .arrive i p t (.ok (p', t')))
      (rest : Exec w .leave m q t' result) : Exec w .arrive m q t result
  | nestedFault {m q t i p f} (running : q.isFinal = false) (inner : q.submachine = some i)
      (start : (w.machine i).startState? = some p) (sub : Exec w .arrive i p t (.error f)) :
      Exec w .arrive m q t (.error f)
  | move {m q t q' t' result} (moves : (w.machine m).Moves q t (.ok (q', t')))
      (rest : Exec w .arrive m q' t' result) : Exec w .leave m q t result
  | fault {m q t f} (moves : (w.machine m).Moves q t (.error f)) : Exec w .leave m q t (.error f)

/-- The execution of a machine on a tape. -/
def Executes (w : Workshop) (m : MachineId) (t : Tape) (result : Except MachineFault (State × Tape)) :
    Prop :=
  ∃ p, (w.machine m).startState? = some p ∧ w.Exec .arrive m p t result

/-! ## Runs on stacks -/

/-- Whether the outermost machine is in a final state. -/
def rootFinal (stack : List Frame) : Bool := (stack.getLast?.map (·.state)).any (·.isFinal)

theorem rootFinal_push (f g : Frame) (rest : List Frame) :
    rootFinal (g :: f :: rest) = rootFinal (f :: rest) := by
  simp [rootFinal, List.getLast?_cons_cons]

/-- A run that has not halted takes a step. -/
def Goes (w : Workshop) (root : MachineId) (c c' : List Frame × Tape) : Prop :=
  rootFinal c.1 = false ∧ w.nextStack root c.2 c.1 = .ok c'

/-- Take steps until the outermost machine is in a final state or a step fails; says how it ended and
where, or nothing if the given number of looks was not enough. -/
def runStack (w : Workshop) (root : MachineId) :
    Nat → List Frame × Tape → Option (Except Fault Unit × (List Frame × Tape))
  | 0, _ => none
  | n + 1, c =>
    if rootFinal c.1 then some (.ok (), c)
    else
      match w.nextStack root c.2 c.1 with
      | .ok c' => w.runStack root n c'
      | .error e => some (.error e, c)

variable {c c' : List Frame × Tape} {n : Nat}

theorem runStack_goes (h : w.Goes root c c') (n : Nat) :
    w.runStack root (n + 1) c = w.runStack root n c' := by
  simp [runStack, h.1, h.2]

theorem exists_runStack_of_path (path : ReflTransGen (w.Goes root) c c') :
    ∃ k, ∀ n, w.runStack root (n + k) c = w.runStack root n c' := by
  induction path using ReflTransGen.head_induction_on with
  | refl => exact ⟨0, fun n => rfl⟩
  | head edge _ ih =>
    obtain ⟨k, hk⟩ := ih
    exact ⟨k + 1, fun n => by rw [← Nat.add_assoc, runStack_goes edge, hk]⟩

theorem runStack_of_path {x : Except Fault Unit × (List Frame × Tape)}
    (path : ReflTransGen (w.Goes root) c c') (h : w.runStack root n c = some x) :
    ∃ n' ≤ n, w.runStack root n' c' = some x := by
  induction path using ReflTransGen.head_induction_on generalizing n with
  | refl => exact ⟨n, Nat.le_refl n, h⟩
  | head edge _ ih =>
    cases n with
    | zero => cases h
    | succ n =>
      rw [runStack_goes edge] at h
      obtain ⟨n', le, h'⟩ := ih h
      exact ⟨n', by omega, h'⟩

theorem runStack_mono {x : Except Fault Unit × (List Frame × Tape)}
    (h : w.runStack root n c = some x) (k : Nat) : w.runStack root (n + k) c = some x := by
  induction n generalizing c with
  | zero => cases h
  | succ n ih =>
    rw [Nat.add_right_comm, runStack]
    rw [runStack] at h
    split at h
    · rename_i final
      rw [if_pos final, h]
    · rename_i final
      rw [if_neg final]
      split at h
      · exact ih h
      · exact h

/-- However long one looks, a run has one end. -/
theorem runStack_unique {n' : Nat} {x x' : Except Fault Unit × (List Frame × Tape)}
    (h : w.runStack root n c = some x) (h' : w.runStack root n' c = some x') : x = x' := by
  have same := runStack_mono h n'
  rw [Nat.add_comm, runStack_mono h' n] at same
  exact (Option.some.inj same).symm

/-- A run that ends without a fault ends with the outermost machine in a final state. -/
theorem rootFinal_of_runStack (h : w.runStack root n c = some (.ok (), c')) :
    rootFinal c'.1 = true := by
  induction n generalizing c with
  | zero => cases h
  | succ n ih =>
    rw [runStack] at h
    split at h
    · rename_i final
      cases h
      exact final
    · split at h
      · exact ih h
      · cases h

/-! ## From executions to runs -/

/-- A Turing machine that passes the check together with everything below it. -/
structure Fit (w : Workshop) (m : MachineId) : Prop where
  turing : (w.machine m).kind = .turing
  clean : w.Clean m

namespace Fit

variable {m i : MachineId} {q : State} {t : Tape}

theorem rules (h : w.Fit m) : (w.machine m).Rules (w.alphabetOf m) := h.clean.rules .refl

theorem turingRules (h : w.Fit m) : (w.machine m).TuringRules (w.alphabetOf m) := by
  have rules := h.rules
  unfold Machine.Rules at rules
  rwa [h.turing] at rules

theorem of_path (h : w.Fit m) (sane : w.Sane) (path : ReflTransGen w.Nests m i) : w.Fit i := by
  refine ⟨?_, h.clean.below path⟩
  rcases ReflTransGen.cases_tail path with rfl | ⟨n, -, edge⟩
  · exact h.turing
  · exact sane.links_turing n i edge

theorem below (h : w.Fit m) (sane : w.Sane) (hq : q ∈ (w.machine m).states)
    (inner : q.submachine = some i) : w.Fit i :=
  h.of_path sane (.single ((w.nests_iff m i).mpr ⟨q, hq, inner⟩))

theorem moves_iff (h : w.Fit m) (sane : w.Sane) (hq : q ∈ (w.machine m).states)
    (running : q.isFinal = false) {result : Except MachineFault (State × Tape)} :
    (w.machine m).Moves q t result ↔ (w.machine m).go q t = result.mapError .machine :=
  h.turingRules.moves_iff (sane.arena m) h.turing hq running

theorem live_start {p : State} (start : (w.machine m).startState? = some p) :
    p ∈ (w.machine m).states := List.mem_of_find?_eq_some start

end Fit

/-- A run comes to the end of an execution of `m`, whose frame is on top of the given ones. -/
def Reaches (w : Workshop) (root : MachineId) (c : List Frame × Tape) (m : MachineId)
    (below : List Frame) : Except MachineFault (State × Tape) → Prop
  | .ok (q, t) => q.isFinal = true ∧ ReflTransGen (w.Goes root) c (⟨m, q⟩ :: below, t)
  | .error f => ∃ c', ReflTransGen (w.Goes root) c c' ∧ rootFinal c'.1 = false ∧
      w.nextStack root c'.2 c'.1 = .error (.machine f)

theorem Reaches.head {m : MachineId} {below : List Frame}
    {result : Except MachineFault (State × Tape)} (path : ReflTransGen (w.Goes root) c c')
    (h : w.Reaches root c' m below result) : w.Reaches root c m below result := by
  cases result with
  | ok last => exact ⟨h.1, path.trans h.2⟩
  | error f =>
    obtain ⟨c'', path', fault⟩ := h
    exact ⟨c'', path.trans path', fault⟩

/-- The frames around a machine are not those of a run that has halted. -/
def Around (below : List Frame) : Prop := below ≠ [] → rootFinal below = false

theorem Around.rootFinal {below : List Frame} (h : Around below) {f : Frame}
    (running : f.state.isFinal = true → below ≠ []) : Workshop.rootFinal (f :: below) = false := by
  cases below with
  | nil => simpa [Workshop.rootFinal] using running
  | cons g rest =>
    rw [rootFinal_push]
    exact h (List.cons_ne_nil g rest)

theorem goes_enter {m i : MachineId} {q p : State} {below : List Frame}
    (running : q.isFinal = false) (inner : q.submachine = some i)
    (start : (w.machine i).startState? = some p)
    (notFinal : rootFinal (⟨m, q⟩ :: below) = false) (t : Tape) :
    w.Goes root (⟨m, q⟩ :: below, t) (⟨i, p⟩ :: ⟨m, q⟩ :: below, t) := by
  refine ⟨notFinal, ?_⟩
  rw [nextStack_of_running (by simp [running]), workTop, inner]
  simp only [enterTop, start]

theorem goes_move {m : MachineId} {q q' : State} {stack below : List Frame} {t t' : Tape}
    (notFinal : rootFinal stack = false)
    (next : w.nextStack root t stack = w.moveTop ⟨m, q⟩ below t)
    (hgo : (w.machine m).go q t = .ok (q', t')) :
    w.Goes root (stack, t) (⟨m, q'⟩ :: below, t') := by
  refine ⟨notFinal, ?_⟩
  rw [next, moveTop, hgo]
  rfl

/-- What it means that an execution is run.  A machine that arrives in a state is on top of the stack;
one that leaves a state may still have its finished submachine above it. -/
def Simulated (w : Workshop) (root : MachineId) (phase : Phase) (m : MachineId) (q : State) (t : Tape)
    (result : Except MachineFault (State × Tape)) : Prop :=
  ∀ below, Around below →
    match phase with
    | .arrive => w.Reaches root (⟨m, q⟩ :: below, t) m below result
    | .leave => ∀ stack, rootFinal stack = false →
        w.nextStack root t stack = w.moveTop ⟨m, q⟩ below t →
        w.Reaches root (stack, t) m below result

/-- **Whatever is executed is run.** -/
theorem Exec.reaches (sane : w.Sane) {phase : Phase} {m : MachineId} {q : State} {t : Tape}
    {result : Except MachineFault (State × Tape)} (h : w.Exec phase m q t result) (fit : w.Fit m)
    (hq : q ∈ (w.machine m).states) (leaving : phase = .leave → q.isFinal = false) :
    w.Simulated root phase m q t result := by
  induction h with
  | halt final => exact fun below _ => ⟨final, .refl⟩
  | @plain m q t result running alone _ ih =>
    intro below around
    refine ih fit hq (fun _ => running) below around _ (around.rootFinal (by simp [running])) ?_
    rw [nextStack_of_running (by simp [running]), workTop, alone]
  | @nested m q t i p p' t' result running inner start _ _ ihSub ihRest =>
    intro below around
    have notFinal : rootFinal (⟨m, q⟩ :: below) = false := around.rootFinal (by simp [running])
    have enters : w.Goes root (⟨m, q⟩ :: below, t) (⟨i, p⟩ :: ⟨m, q⟩ :: below, t) :=
      goes_enter running inner start notFinal t
    obtain ⟨final, path⟩ := ihSub (fit.below sane hq inner) (Fit.live_start start) (by simp)
      (⟨m, q⟩ :: below) (fun _ => notFinal)
    refine .head (path.head enters) ?_
    refine ihRest fit hq (fun _ => running) below around _ ?_ (nextStack_of_finished final _)
    rw [rootFinal_push]
    exact notFinal
  | @nestedFault m q t i p f running inner start _ ihSub =>
    intro below around
    have notFinal : rootFinal (⟨m, q⟩ :: below) = false := around.rootFinal (by simp [running])
    have enters : w.Goes root (⟨m, q⟩ :: below, t) (⟨i, p⟩ :: ⟨m, q⟩ :: below, t) :=
      goes_enter running inner start notFinal t
    obtain ⟨c', path, fault⟩ := ihSub (fit.below sane hq inner) (Fit.live_start start) (by simp)
      (⟨m, q⟩ :: below) (fun _ => notFinal)
    exact ⟨c', path.head enters, fault⟩
  | @move m q t q' t' result moves _ ih =>
    intro below around stack notFinal next
    have hgo := (fit.moves_iff sane hq (leaving rfl)).mp moves
    obtain ⟨-, -, -, hq', -, -⟩ := (sane.arena m).go_eq_ok hgo
    have steps : w.Goes root (stack, t) (⟨m, q'⟩ :: below, t') := goes_move notFinal next hgo
    exact .head (.single steps) (ih fit hq' (by simp) below around)
  | @fault m q t f moves =>
    intro below around stack notFinal next
    have hgo := (fit.moves_iff sane hq (leaving rfl)).mp moves
    refine ⟨(stack, t), .refl, notFinal, ?_⟩
    rw [next, moveTop, hgo]
    rfl

/-! ## From runs to executions -/

/-- **A run that ends comes from an execution.**  By strong induction on the length of the run: what
follows the end of a submachine is a shorter run. -/
theorem exists_exec (sane : w.Sane) {x : Except Fault Unit × (List Frame × Tape)} (n : Nat)
    {m : MachineId} {q : State} {t : Tape} {below : List Frame} (fit : w.Fit m)
    (hq : q ∈ (w.machine m).states) (around : Around below)
    (ends : w.runStack root n (⟨m, q⟩ :: below, t) = some x) :
    ∃ result, w.Exec .arrive m q t result := by
  induction n using Nat.strong_induction_on generalizing m q t below with
  | _ n ih =>
    by_cases final : q.isFinal = true
    · exact ⟨_, .halt final⟩
    have running : q.isFinal = false := by simpa using final
    have notFinal : rootFinal (⟨m, q⟩ :: below) = false := around.rootFinal (by simp [running])
    have leave {k : Nat} (le : k ≤ n) {stack : List Frame} {t : Tape}
        (notFinal : rootFinal stack = false)
        (next : w.nextStack root t stack = w.moveTop ⟨m, q⟩ below t)
        (ends : w.runStack root k (stack, t) = some x) : ∃ result, w.Exec .leave m q t result := by
      cases hgo : (w.machine m).go q t with
      | error e =>
        obtain ⟨f, rfl⟩ := fit.rules.go_eq_error (sane.arena m) hq hgo
        exact ⟨.error f, .fault ((fit.moves_iff sane hq running).mpr hgo)⟩
      | ok there =>
        obtain ⟨q', t'⟩ := there
        obtain ⟨-, -, -, hq', -, -⟩ := (sane.arena m).go_eq_ok hgo
        have steps : w.Goes root (stack, t) (⟨m, q'⟩ :: below, t') := goes_move notFinal next hgo
        cases k with
        | zero => cases ends
        | succ k =>
          rw [runStack_goes steps] at ends
          obtain ⟨result, rest⟩ := ih k (by omega) fit hq' around ends
          exact ⟨result, .move ((fit.moves_iff sane hq running).mpr hgo) rest⟩
    cases inner : q.submachine with
    | none =>
      have next : w.nextStack root t (⟨m, q⟩ :: below) = w.moveTop ⟨m, q⟩ below t := by
        rw [nextStack_of_running (by simp [running]), workTop, inner]
      obtain ⟨result, rest⟩ := leave (Nat.le_refl n) notFinal next ends
      exact ⟨result, .plain running inner rest⟩
    | some i =>
      have fitInner := fit.below sane hq inner
      obtain ⟨p, start, hp⟩ := fitInner.rules.exists_start
      have enters : w.Goes root (⟨m, q⟩ :: below, t) (⟨i, p⟩ :: ⟨m, q⟩ :: below, t) :=
        goes_enter running inner start notFinal t
      cases n with
      | zero => cases ends
      | succ n =>
        rw [runStack_goes enters] at ends
        obtain ⟨result, sub⟩ := ih n (Nat.lt_succ_self n) fitInner hp (fun _ => notFinal) ends
        cases result with
        | error f => exact ⟨_, .nestedFault running inner start sub⟩
        | ok last =>
          obtain ⟨p', t'⟩ := last
          obtain ⟨finalInner, path⟩ := sub.reaches sane fitInner hp (by simp) (⟨m, q⟩ :: below)
            (fun _ => notFinal)
          obtain ⟨k, le, ends⟩ := runStack_of_path path ends
          have still : rootFinal (⟨i, p'⟩ :: ⟨m, q⟩ :: below) = false := by
            rw [rootFinal_push]
            exact notFinal
          obtain ⟨result, rest⟩ :=
            leave (by omega) still (nextStack_of_finished finalInner _) ends
          exact ⟨result, .nested running inner start sub rest⟩

/-! ## Runs of a simulator -/

/-- A fit machine can always be entered. -/
theorem Fit.enterTop_ne_error {i : MachineId} (fit : w.Fit i) {below : List Frame} {t : Tape}
    {e : Fault} : w.enterTop i below t ≠ .error e := by
  obtain ⟨p, start, -⟩ := fit.rules.exists_start
  simp [enterTop, start]

section
variable (sane : w.Sane) (fit : w.Fit root) {f : Frame} {below : List Frame} {t : Tape} {e : Fault}
include sane fit

/-- A move of a running machine fails only at the start of the tape or for want of a transition. -/
theorem moveTop_eq_error (stacked : w.Stacked root (f :: below)) (running : f.state.isFinal = false)
    (h : w.moveTop f below t = .error e) :
    e = .machine .tapeBounds ∨ ∃ parked, e = .machine (.undefinedTransition parked false) := by
  have fitTop : w.Fit f.machine := fit.of_path sane stacked.path_root
  cases hgo : (w.machine f.machine).go f.state t with
  | ok there => simp [moveTop, hgo, Except.map] at h
  | error e' =>
    simp only [moveTop, hgo, Except.map, Except.error.injEq] at h
    subst h
    obtain ⟨f', rfl⟩ := fitTop.rules.go_eq_error (sane.arena _) stacked.live_top hgo
    have failed : (w.machine f.machine).Moves f.state t (.error f') :=
      (fitTop.moves_iff sane stacked.live_top running).mpr hgo
    cases failed with
    | undefined => exact .inr ⟨_, rfl⟩
    | bounds => exact .inl rfl

theorem workTop_eq_error (stacked : w.Stacked root (f :: below)) (running : f.state.isFinal = false)
    (h : w.workTop f below t = .error e) :
    e = .machine .tapeBounds ∨ ∃ parked, e = .machine (.undefinedTransition parked false) := by
  cases inner : f.state.submachine with
  | some i =>
    simp only [workTop, inner] at h
    have fitTop : w.Fit f.machine := fit.of_path sane stacked.path_root
    exact absurd h (fitTop.below sane stacked.live_top inner).enterTop_ne_error
  | none =>
    simp only [workTop, inner] at h
    exact moveTop_eq_error sane fit stacked running h

/-- While the outermost machine is running, a step fails only at the start of the tape or for want of a
transition. -/
theorem nextStack_eq_error {stack : List Frame} (stacked : w.Stacked root stack)
    (notFinal : rootFinal stack = false) (h : w.nextStack root t stack = .error e) :
    e = .machine .tapeBounds ∨ ∃ parked, e = .machine (.undefinedTransition parked false) := by
  cases stack with
  | nil => exact absurd h fit.enterTop_ne_error
  | cons g below =>
    cases below with
    | nil =>
      have running : g.state.isFinal = false := by simpa [rootFinal] using notFinal
      exact workTop_eq_error sane fit stacked running h
    | cons f rest =>
      cases final : g.state.isFinal with
      | false =>
        rw [nextStack, if_neg (by simp [final])] at h
        exact workTop_eq_error sane fit stacked final h
      | true =>
        rw [nextStack_of_finished final] at h
        -- The frame below could be final only if it were the outermost one.
        have running : f.state.isFinal = false := by
          by_contra hf
          have alone := stacked.2.2.1 (by simpa using hf)
          subst alone
          exact hf (by simpa [rootFinal] using notFinal)
        exact moveTop_eq_error sane fit stacked.tail running h

end

end Workshop

namespace SimM

variable {s s₁ : Stage} {w : Workshop} {root : MachineId} {c : List Frame × Tape} {n : Nat}

theorem halted_eq (h : s.Stands w root c) (turing : (w.machine root).kind = .turing) :
    halted s = .ok (Workshop.rootFinal c.1) s := by
  apply observeTape_of_ok
  rw [h.isHalted_eq, turing]
  rfl

theorem accepted_eq (h : s.Stands w root c) (turing : (w.machine root).kind = .turing) :
    accepted s = .ok (Workshop.rootFinal c.1 && c.2.isParked) s := by
  apply observeTape_of_ok
  rw [h.isAccepted_eq, turing]
  rfl

/-! The ways in which a look at a run without a budget can turn out. -/

theorem loop_of_halted (h : halted s = .ok true s) (count : Nat) :
    loop 0 (n + 1) count s = .ok (.stopped count) s := by
  rw [loop, bind_of_ok h]
  rfl

theorem loop_of_ok (h : halted s = .ok false s) (hstep : step s = .ok () s₁) (count : Nat) :
    loop 0 (n + 1) count s = loop 0 n (count + 1) s₁ := by
  have hattempt : attempt s = .ok none s₁ := by
    unfold attempt
    rw [hstep]
  rw [loop, bind_of_ok h]
  simp only [Bool.false_eq_true, if_false]
  rw [bind_of_ok hattempt]
  simp

theorem loop_of_error {f : MachineFault} (h : halted s = .ok false s)
    (hstep : step s = .error (.machine f) s₁)
    (ends : (f.isCompletion || f.isFailure) = false) (count : Nat) :
    loop 0 (n + 1) count s = .error (.machine f) s₁ := by
  have hattempt : attempt s = .error (.machine f) s₁ := by
    unfold attempt
    rw [hstep]
    simp only [ends, Bool.false_eq_true, if_false]
  rw [loop, bind_of_ok h]
  simp only [Bool.false_eq_true, if_false]
  rw [bind_of_error hattempt]

theorem loop_of_report {f : MachineFault} (h : halted s = .ok false s)
    (hstep : step s = .error (.machine f) s₁)
    (ends : (f.isCompletion || f.isFailure) = true) (count : Nat) :
    loop 0 (n + 1) count s =
      .ok (if f.isCompletion then .completed count else .failed count f) s₁ := by
  have hattempt : attempt s = .ok (some f) s₁ := by
    unfold attempt
    rw [hstep]
    simp only [ends, if_true]
  rw [loop, bind_of_ok h]
  simp only [Bool.false_eq_true, if_false]
  rw [bind_of_ok hattempt]
  rfl

/-- The steps of a simulator without a budget are a run on stacks. -/
theorem loop_eq (h : s.Stands w root c) (known : root.index < w.machines.length)
    (fit : w.Fit root) (n count : Nat) :
    ∃ s', match w.runStack root n c with
      | none => loop 0 n count s = .ok .unfinished s'
      | some (result, c') => (∃ k, loop 0 n count s = conclude (result.map fun _ => .stopped k) s') ∧
          s'.Stands w root c' := by
  have sane : w.Sane := h.alike.symm.sane h.good.sane
  have pass := fit.clean.pass sane known
  induction n generalizing s c count with
  | zero => exact ⟨s, rfl⟩
  | succ n ih =>
    have hhalted := halted_eq h fit.turing
    rw [Workshop.runStack]
    cases hfinal : Workshop.rootFinal c.1 with
    | true =>
      rw [hfinal] at hhalted
      exact ⟨s, ⟨count, loop_of_halted hhalted count⟩, h⟩
    | false =>
      rw [hfinal] at hhalted
      obtain ⟨s₁, hstep, stands₁⟩ := h.step_eq known
      have result : w.stepResult root c = w.nextStack root c.2 c.1 := by
        rw [Workshop.stepResult, pass]
      rw [result] at hstep stands₁
      cases hnext : w.nextStack root c.2 c.1 with
      | ok c₁ =>
        rw [hnext] at hstep stands₁
        obtain ⟨s', hs'⟩ := ih stands₁ (count + 1)
        rw [loop_of_ok hhalted hstep]
        exact ⟨s', hs'⟩
      | error e =>
        rw [hnext] at hstep stands₁
        refine ⟨s₁, ⟨0, ?_⟩, stands₁⟩
        have stacked : w.Stacked root c.1 :=
          h.here.machine ▸ (h.alike.symm.tracks h.here.tracks).stacked
        rcases Workshop.nextStack_eq_error sane fit stacked hfinal hnext with rfl | ⟨parked, rfl⟩
        · exact loop_of_error hhalted hstep rfl count
        · exact loop_of_error hhalted hstep rfl count

/-! After its steps a run does nothing but look and write to the journal. -/

theorem recordEnd_eq (count : Nat) (verdict : Bool) (s : Stage) :
    ∃ j, recordEnd count verdict s = .ok () { s with journal := j } := ⟨_, rfl⟩

theorem run_of_stopped {k : Nat} {verdict : Bool}
    (hloop : loop 0 n 0 { s with sim := { s.sim with budgetExhausted := false } } =
      .ok (.stopped k) s₁)
    (hhalted : halted s₁ = .ok true s₁) (haccepted : accepted s₁ = .ok verdict s₁) :
    ∃ j, run 0 n s = .ok (some verdict) { s₁ with journal := j } := by
  obtain ⟨j, hrecord⟩ := recordEnd_eq k verdict s₁
  refine ⟨j, (bind_of_ok rfl).trans ((bind_of_ok hloop).trans ?_)⟩
  refine (bind_of_ok hhalted).trans ((bind_of_ok haccepted).trans ?_)
  exact bind_of_ok hrecord

theorem run_of_failed {k : Nat} {f : MachineFault}
    (hloop : loop 0 n 0 { s with sim := { s.sim with budgetExhausted := false } } =
      .ok (.failed k f) s₁) :
    ∃ j, run 0 n s = .ok (some false) { s₁ with journal := j } :=
  ⟨_, (bind_of_ok rfl).trans (bind_of_ok hloop)⟩

/-- A run of a simulator without a budget is a run on stacks. -/
theorem run_eq (h : s.Stands w root c) (known : root.index < w.machines.length) (fit : w.Fit root)
    (n : Nat) :
    ∃ s', match w.runStack root n c with
      | none => run 0 n s = .ok none s'
      | some (result, c') => run 0 n s = conclude (result.map fun _ => some c'.2.isParked) s' ∧
          s'.Stands w root c' := by
  have begun : ({ s with sim := { s.sim with budgetExhausted := false } } : Stage).Stands w root c :=
    ⟨h.alike, h.good, h.here.machine, h.here.tracks.congr rfl fun _ => rfl, h.here.tape⟩
  obtain ⟨s₁, hloop⟩ := loop_eq begun known fit n 0
  cases hrun : w.runStack root n c with
  | none =>
    rw [hrun] at hloop
    exact ⟨s₁, (bind_of_ok rfl).trans (bind_of_ok hloop)⟩
  | some x =>
    obtain ⟨result, c'⟩ := x
    rw [hrun] at hloop
    obtain ⟨⟨k, hloop⟩, stands⟩ := hloop
    cases result with
    | error e => exact ⟨s₁, (bind_of_ok rfl).trans (bind_of_error hloop), stands⟩
    | ok u =>
      have final := Workshop.rootFinal_of_runStack hrun
      have hhalted := halted_eq stands fit.turing
      have haccepted := accepted_eq stands fit.turing
      rw [final] at hhalted haccepted
      obtain ⟨j, hrun⟩ := run_of_stopped hloop hhalted haccepted
      exact ⟨_, hrun, stands.reported ⟨rfl, rfl, rfl, rfl⟩⟩

/-- What a run of a simulator without a budget gives. -/
theorem outcome_run (h : s.Stands w root c) (known : root.index < w.machines.length)
    (fit : w.Fit root) (n : Nat) :
    outcome (run 0 n) s = match w.runStack root n c with
      | none => .ok none
      | some (result, c') => result.map fun _ => some c'.2.isParked := by
  obtain ⟨s', hrun⟩ := run_eq h known fit n
  cases hstack : w.runStack root n c with
  | none =>
    rw [hstack] at hrun
    exact outcome_of_ok hrun
  | some x =>
    rw [hstack] at hrun
    exact outcome_of_conclude hrun.1

theorem outcome_run_eq_ok_iff (h : s.Stands w root c) (known : root.index < w.machines.length)
    (fit : w.Fit root) {accepted : Bool} :
    outcome (run 0 n) s = .ok (some accepted) ↔
      ∃ c', w.runStack root n c = some (.ok (), c') ∧ accepted = c'.2.isParked := by
  rw [outcome_run h known fit]
  cases hstack : w.runStack root n c with
  | none => simp
  | some x =>
    obtain ⟨result, c'⟩ := x
    cases result with
    | error e => simp [Except.map]
    | ok u => simp [Except.map, eq_comm]

theorem outcome_run_eq_error_iff (h : s.Stands w root c) (known : root.index < w.machines.length)
    (fit : w.Fit root) {e : Fault} :
    outcome (run 0 n) s = .error e ↔ ∃ c', w.runStack root n c = some (.error e, c') := by
  rw [outcome_run h known fit]
  cases hstack : w.runStack root n c with
  | none => simp
  | some x =>
    obtain ⟨result, c'⟩ := x
    cases result with
    | ok u => simp [Except.map]
    | error e' => simp [Except.map]

/-- Where a run of a simulator without a budget ends. -/
theorem after_run (h : s.Stands w root c) (known : root.index < w.machines.length)
    (fit : w.Fit root) {x : Except Fault Unit × (List Frame × Tape)}
    (ends : w.runStack root n c = some x) : (after (run 0 n) s).Stands w root x.2 := by
  obtain ⟨s', hrun⟩ := run_eq h known fit n
  rw [ends] at hrun
  rw [after_of_conclude hrun.1]
  exact hrun.2

end SimM

namespace Workshop

variable {w : Workshop} {m : MachineId} {t : Tape}

/-! ## The main result -/

/-- An execution fails only at the start of the tape or for want of a transition. -/
theorem Exec.fault_eq {phase : Phase} {q : State} {result : Except MachineFault (State × Tape)}
    (h : w.Exec phase m q t result) {f : MachineFault} (failed : result = .error f) :
    f = .tapeBounds ∨ ∃ parked, f = .undefinedTransition parked false := by
  induction h with
  | halt => cases failed
  | plain _ _ _ ih => exact ih failed
  | nested _ _ _ _ _ _ ih => exact ih failed
  | nestedFault _ _ _ _ ih => exact ih failed
  | move _ _ ih => exact ih failed
  | fault moves =>
    cases failed
    cases moves with
    | undefined => exact .inr ⟨_, rfl⟩
    | bounds => exact .inl rfl

/-- A final state is the one that is found. -/
theorem Fit.finalState?_eq (fit : w.Fit m) {q : State} (hq : q ∈ (w.machine m).states)
    (final : q.isFinal = true) : (w.machine m).finalState? = some q :=
  Machine.find?_eq_some_of_countP fit.turingRules.one_final hq final

/-- A run ends as an execution does. -/
def EndsAs (m : MachineId) (x : Except Fault Unit × (List Frame × Tape)) :
    Except MachineFault (State × Tape) → Prop
  | .ok (q, t) => x = (.ok (), [⟨m, q⟩], t) ∧ q.isFinal = true
  | .error f => x.1 = .error (.machine f)

theorem goes_start {p : State} (start : (w.machine m).startState? = some p) (t : Tape) :
    w.Goes m ([], t) ([⟨m, p⟩], t) := by
  refine ⟨rfl, ?_⟩
  simp only [nextStack, enterTop, start]

theorem around_nil : Around [] := fun h => absurd rfl h

/-- The run of a machine that is executed ends the same way. -/
theorem Executes.exists_runStack (sane : w.Sane) (fit : w.Fit m)
    {result : Except MachineFault (State × Tape)} (h : w.Executes m t result) :
    ∃ n x, w.runStack m n ([], t) = some x ∧ EndsAs m x result := by
  obtain ⟨p, start, h⟩ := h
  have simulated : w.Simulated m .arrive m p t result :=
    h.reaches sane fit (Fit.live_start start) (by simp)
  have reaches := simulated [] around_nil
  cases result with
  | ok last =>
    obtain ⟨q, t'⟩ := last
    obtain ⟨final, path⟩ := reaches
    obtain ⟨k, hk⟩ := exists_runStack_of_path (path.head (goes_start start t))
    refine ⟨1 + k, _, (hk 1).trans ?_, rfl, final⟩
    simp [runStack, rootFinal, final]
  | error f =>
    obtain ⟨c', path, notFinal, fault⟩ := reaches
    obtain ⟨k, hk⟩ := exists_runStack_of_path (path.head (goes_start start t))
    refine ⟨1 + k, (.error (.machine f), c'), (hk 1).trans ?_, rfl⟩
    simp [runStack, notFinal, fault]

/-- A machine whose run ends is executed and ends the same way. -/
theorem exists_executes (sane : w.Sane) (fit : w.Fit m) {n : Nat}
    {x : Except Fault Unit × (List Frame × Tape)} (ends : w.runStack m n ([], t) = some x) :
    ∃ result, w.Executes m t result ∧ EndsAs m x result := by
  obtain ⟨p, start, hp⟩ := fit.rules.exists_start
  have later : w.runStack m (n + 1) ([], t) = some x := runStack_mono ends 1
  rw [runStack_goes (goes_start start t)] at later
  obtain ⟨result, h⟩ := exists_exec sane n fit hp around_nil later
  have executes : w.Executes m t result := ⟨p, start, h⟩
  obtain ⟨n', x', ends', same⟩ := executes.exists_runStack sane fit
  cases runStack_unique ends ends'
  exact ⟨result, executes, same⟩

/-- **A run without a budget is the execution of the machine.**  It ends without a fault exactly if the
execution does, and then with the same tape, with the outermost machine on its final state, and with
the answer whether the head is parked.  It ends with a fault exactly if the execution does, with the
same one: the head was to move past the start of the tape, or there was no transition. -/
theorem run_refines_recursive_execution (h : w.Reachable) (hm : m.index < w.machines.length)
    (turing : (w.machine m).kind = .turing) {j₀ : Journal}
    (valid : outcome (Work.validate m) ⟨w, j₀⟩ = .ok ()) (t : Tape) (j : Journal) :
    ((∃ n accepted, outcome (SimM.run 0 n) (.fresh w m t j) = .ok (some accepted)) ↔
      ∃ q t', w.Executes m t (.ok (q, t'))) ∧
    (∀ n accepted q t', outcome (SimM.run 0 n) (.fresh w m t j) = .ok (some accepted) →
      w.Executes m t (.ok (q, t')) →
        (after (SimM.run 0 n) (.fresh w m t j)).tape = t' ∧
        (after (SimM.run 0 n) (.fresh w m t j)).sim.cursor? m = some q.id ∧
        (w.machine m).finalState? = some q ∧ accepted = t'.isParked) ∧
    (∀ e, (∃ n, outcome (SimM.run 0 n) (.fresh w m t j) = .error e) ↔
      ∃ f, e = .machine f ∧ w.Executes m t (.error f)) ∧
    (∀ f, w.Executes m t (.error f) →
      f = .tapeBounds ∨ ∃ parked, f = .undefinedTransition parked false) := by
  have good := h.good
  have fit : w.Fit m := by
    obtain ⟨b, -, -, hvalidate, -⟩ := Work.validate_spec (b := ⟨w, j₀⟩) good hm
    rw [outcome_of_conclude hvalidate, verdict_eq_ok_iff] at valid
    exact ⟨turing, (good.sane.defectOf_eq_none_iff hm).mp valid⟩
  have fresh : (Stage.fresh w m t j).Stands w m ([], t) := .fresh good m t j
  refine ⟨⟨?_, ?_⟩, ?_, fun e => ⟨?_, ?_⟩, fun f hf => hf.elim fun p hp => hp.2.fault_eq rfl⟩
  · rintro ⟨n, accepted, hrun⟩
    obtain ⟨c, hstack, -⟩ := (SimM.outcome_run_eq_ok_iff fresh hm fit).mp hrun
    obtain ⟨result, hexec, ends⟩ := exists_executes good.sane fit hstack
    cases result with
    | ok last => exact ⟨last.1, last.2, hexec⟩
    | error f => cases ends
  · rintro ⟨q, t', hexec⟩
    obtain ⟨n, x, hstack, rfl, -⟩ := hexec.exists_runStack good.sane fit
    exact ⟨n, t'.isParked, (SimM.outcome_run_eq_ok_iff fresh hm fit).mpr ⟨_, hstack, rfl⟩⟩
  · intro n accepted q t' hrun hexec
    obtain ⟨c, hstack, rfl⟩ := (SimM.outcome_run_eq_ok_iff fresh hm fit).mp hrun
    obtain ⟨n', x, hstack', rfl, final⟩ := hexec.exists_runStack good.sane fit
    cases runStack_unique hstack hstack'
    have stands := SimM.after_run fresh hm fit hstack
    have tracks := stands.alike.symm.tracks stands.here.tracks
    exact ⟨stands.here.tape, tracks.cursor_of_mem (.head _),
      fit.finalState?_eq (tracks.stacked.live (.head _)) final, rfl⟩
  · rintro ⟨n, hrun⟩
    obtain ⟨c, hstack⟩ := (SimM.outcome_run_eq_error_iff fresh hm fit).mp hrun
    obtain ⟨result, hexec, ends⟩ := exists_executes good.sane fit hstack
    cases result with
    | ok last => cases ends.1
    | error f => exact ⟨f, Except.error.inj ends, hexec⟩
  · rintro ⟨f, rfl, hexec⟩
    obtain ⟨n, ⟨result, c⟩, hstack, rfl⟩ := hexec.exists_runStack good.sane fit
    exact ⟨n, (SimM.outcome_run_eq_error_iff fresh hm fit).mpr ⟨c, hstack⟩⟩

/-- The outermost of three nested machines runs to its end on `10`, three cells from the start. -/
theorem threeLevels_runs_to_its_end :
    threeLevels.shop.Reachable ∧
    outcome (SimM.run 0 10) (.fresh threeLevels.shop ⟨0⟩ (.ofText "10") Journal.empty) = .ok (some false) ∧
    ∃ q t', threeLevels.shop.Executes ⟨0⟩ (.ofText "10") (.ok (q, t')) := by
  have ends : outcome (SimM.run 0 10) (.fresh threeLevels.shop ⟨0⟩ (.ofText "10") Journal.empty) =
      .ok (some false) := eq_ok_of_toOption (by decide +kernel)
  have valid : outcome (Work.validate ⟨0⟩) ⟨threeLevels.shop, Journal.empty⟩ = .ok () :=
    eq_ok_of_toOption (by decide +kernel)
  exact ⟨threeLevels_reachable, ends,
    (run_refines_recursive_execution threeLevels_reachable (by decide +kernel) (by decide +kernel) valid
      (.ofText "10") Journal.empty).1.mp ⟨10, false, ends⟩⟩

end Workshop

end MachineLab
