import MachineLab.Proofs.Invariants
import MachineLab.Proofs.Stepping
import MachineLab.Simulator.Run
import Mathlib.Data.List.Chain

/-!
# Calls to a simulator

A simulator can be asked to take a step, to run, to start again and to go on with another tape, in any
order.  While its machine is not edited it stands at some stack all the time, also after calls that
failed, so whatever holds of stacks holds of it between any two calls.

The cursors alone give the execution stack back: it is found by going from the outermost machine into
the submachine of its state, as long as that one is running.

## Main definitions

* `Call`, `Call.performAll` — what a simulator can be asked to do.
* `Stage.Standing` — a simulator is at some stack.

## Main statements

* `Stage.Standing.performAll` — it is so after any calls.
* `Workshop.running_machines_form_a_stack` — no cursor is left behind outside the execution stack.
-/

namespace MachineLab

/-! ## Calls -/

/-- What a simulator can be asked to do. -/
inductive Call where
  | step
  | run (limit : Int) (patience : Nat)
  | reset
  /-- Go on with another tape. -/
  | setTape (t : Tape)

namespace Call

/-- The work that a call is. -/
def perform : Call → SimM Unit
  | step => SimM.step
  | run limit patience => do let _ ← SimM.run limit patience
  | reset => SimM.reset
  | setTape t => modify fun s => { s with tape := t }

/-- Make calls one after the other, whether they fail or not. -/
def performAll : List Call → Stage → Stage
  | [], s => s
  | call :: rest, s => performAll rest (after call.perform s)

end Call

/-- A simulator of `root` in a sound workshop, which is `w` but for what machines remember, is at some
stack. -/
def Stage.Standing (w : Workshop) (root : MachineId) (s : Stage) : Prop := ∃ c, s.Stands w root c

namespace SimM

variable {α : Type} {s : Stage} {w : Workshop} {root : MachineId}

theorem after_observeTape (f : Workshop → Simulator → Tape → Except Fault α) (s : Stage) :
    after (observeTape f) s = s := by
  unfold after observeTape
  simp only [bind, EStateM.bind, get_apply]
  cases f s.shop s.sim s.tape <;> rfl

theorem preserves_observeTape {P : Stage → Prop} (f : Workshop → Simulator → Tape → Except Fault α) :
    Preserves P (observeTape f) := fun s h => by rwa [after_observeTape]

/-- Handing out the report of a halt leaves behind what the step left behind. -/
theorem after_attempt (s : Stage) : after attempt s = after step s := by
  unfold after attempt
  cases hstep : step s with
  | ok u s' => rfl
  | error e s' =>
    cases e with
    | machine f =>
      simp only
      split
      · rename_i h
        split at h <;> cases h
        rfl
      · rename_i h
        split at h <;> cases h
        rfl
    | refusal cause => rfl
    | mismatch cause => rfl

/-! Besides its steps, a run changes nothing but the verdict on the budget and the journal. -/

section Run

variable {P : Stage → Prop} (hstep : Preserves P step)
  (quiet : ∀ s exhausted journal, P s →
    P { s with sim := { s.sim with budgetExhausted := exhausted }, journal })

include quiet in
theorem preserves_record (level : LogLevel) (message : String) : Preserves P (record level message) :=
  .modify fun s h => quiet s s.sim.budgetExhausted _ h

include quiet in
theorem preserves_recordEnd (count : Nat) (verdict : Bool) : Preserves P (recordEnd count verdict) :=
  .bind .get fun _ => .bind (.bind .get fun _ => .pure _) fun _ => preserves_record quiet _ _

include hstep quiet

theorem preserves_loop (limit : Int) (n count : Nat) : Preserves P (loop limit n count) := by
  have hattempt : Preserves P attempt := fun s h => by
    rw [after_attempt]
    exact hstep s h
  induction n generalizing count with
  | zero => exact .pure _
  | succ n ih =>
    refine .bind (preserves_observeTape _) fun done => ?_
    cases done with
    | true => exact .pure _
    | false =>
      refine .bind hattempt fun report => ?_
      cases report with
      | some f => exact .pure _
      | none =>
        simp only
        split
        · exact .bind (preserves_observeTape _) fun done =>
            .bind (.modify fun s h => quiet s _ s.journal h) fun _ => .pure _
        · exact ih (count + 1)

theorem preserves_run (limit : Int) (patience : Nat) : Preserves P (run limit patience) := by
  have recorded (count : Nat) (verdict : Bool) :
      Preserves P (do recordEnd count verdict; return some verdict) :=
    .bind (preserves_recordEnd quiet count verdict) fun _ => .pure _
  refine .bind (.modify fun s h => quiet s _ s.journal h) fun _ => ?_
  refine .bind (preserves_loop hstep quiet limit _ 0) fun ending => ?_
  cases ending with
  | unfinished => exact .pure _
  | stopped count =>
    refine .bind (preserves_observeTape _) fun done => ?_
    cases done with
    | true => exact .bind (preserves_observeTape _) fun _ => recorded _ _
    | false => exact .bind (.pure _) fun _ => recorded _ _
  | completed count => exact .bind (preserves_observeTape _) fun _ => recorded _ _
  | failed count cause =>
    refine .bind .get fun _ => .bind (.bind .get fun _ => .pure _) fun _ => ?_
    exact .bind (preserves_record quiet _ _) fun _ => recorded _ _

end Run

end SimM

namespace Stage.Standing

variable {s : Stage} {w : Workshop} {root : MachineId}

theorem reported {s' : Stage} (h : s.Standing w root) (rep : s.Reported s') : s'.Standing w root := by
  obtain ⟨c, stands⟩ := h
  exact ⟨c, stands.reported rep⟩

theorem preserves_step (known : root.index < w.machines.length) :
    Preserves (Stage.Standing w root) SimM.step := by
  rintro s ⟨c, stands⟩
  obtain ⟨s', hstep, stands'⟩ := stands.step_eq known
  rw [after_of_conclude hstep]
  exact ⟨_, stands'⟩

/-- A simulator that starts again stands at the empty stack. -/
theorem preserves_reset : Preserves (Stage.Standing w root) SimM.reset := by
  rintro s ⟨c, stands⟩
  exact ⟨([], s.tape), stands.alike, stands.good, stands.here.machine,
    (Workshop.Tracks.new _ s.sim.machine).congr rfl fun _ => rfl, rfl⟩

theorem preserves_call (known : root.index < w.machines.length) (call : Call) :
    Preserves (Stage.Standing w root) call.perform := by
  cases call with
  | step => exact preserves_step known
  | run limit patience =>
    refine .bind (SimM.preserves_run (preserves_step known) ?_ limit patience) fun _ => .pure _
    exact fun s exhausted journal h => h.reported ⟨rfl, rfl, rfl, rfl⟩
  | reset => exact preserves_reset
  | setTape t =>
    rintro s ⟨⟨stack, t'⟩, stands⟩
    exact ⟨(stack, t), stands.alike, stands.good, stands.here.machine, stands.here.tracks, rfl⟩

/-- **A simulator stands at a stack after any calls.** -/
theorem performAll (known : root.index < w.machines.length) (h : s.Standing w root)
    (calls : List Call) : (Call.performAll calls s).Standing w root := by
  induction calls generalizing s with
  | nil => exact h
  | cons call rest ih => exact ih (preserves_call known call s h)

end Stage.Standing

/-- A simulator of a machine of any workshop with a history stands at a stack, whatever was asked of it
since it was made. -/
theorem Workshop.Reachable.standing {w : Workshop} {m : MachineId} (h : w.Reachable)
    (hm : m.index < w.machines.length) (t : Tape) (j : Journal) (calls : List Call) :
    (Call.performAll calls (.fresh w m t j)).Standing w m :=
  Stage.Standing.performAll hm ⟨_, .fresh h.good m t j⟩ calls

/-! ## The execution stack -/

namespace Workshop

variable {w : Workshop} {root : MachineId} {sim : Simulator} {stack : List Frame}

theorem Stacked.nodup_machines (acyclic : w.Acyclic) (h : w.Stacked root stack) :
    (stack.map (·.machine)).Nodup := by
  induction stack with
  | nil => exact .nil
  | cons g below ih =>
    refine List.nodup_cons.mpr ⟨?_, ih h.tail⟩
    simp only [List.mem_map, not_exists, not_and]
    intro f hf same
    have cycle := h.path hf
    rw [same] at cycle
    exact acyclic _ cycle

/-- Only the innermost and the outermost of the running machines can be in final states. -/
theorem Stacked.running_between {g : Frame} {below : List Frame} (h : w.Stacked root (g :: below))
    {f : Frame} (hf : f ∈ below.dropLast) : f.state.isFinal = false := by
  induction below generalizing g with
  | nil => cases hf
  | cons f' rest ih =>
    cases rest with
    | nil => cases hf
    | cons f'' rest =>
      rw [List.dropLast_cons_cons] at hf
      rcases List.mem_cons.mp hf with rfl | hf
      · simpa using fun final => h.2.2.1 final
      · exact ih h.tail hf

/-- The first machine is in a state whose submachine is the second. -/
def RunsInside (w : Workshop) (sim : Simulator) (m i : MachineId) : Prop :=
  ∃ q, w.current? sim m = .ok (some q) ∧ q.submachine = some i

namespace Tracks

/-- From the outermost inwards, each running machine is the submachine of the state that the one
before it is in. -/
theorem isChain_runsInside (h : w.Tracks sim stack) (sane : w.Sane) :
    (stack.map (·.machine)).reverse.IsChain (w.RunsInside sim) := by
  rw [List.isChain_reverse, List.isChain_map]
  have current (f : Frame) (hf : f ∈ stack) := h.current_of_mem sane hf
  have stacked := h.stacked
  -- The cursors are those of the whole stack, so the induction is over its ends.
  clear h
  induction stack with
  | nil => exact .nil
  | cons g below ih =>
    have inner := ih (fun f hf => current f (.tail _ hf)) stacked.tail
    cases below with
    | nil => exact .singleton g
    | cons f rest =>
      exact .cons_cons ⟨f.state, current f (.tail _ (.head _)), stacked.2.1⟩ inner

/-- A machine runs exactly if it is on the stack. -/
theorem isSome_cursor_iff (h : w.Tracks sim stack) (m : MachineId) :
    (sim.cursor? m).isSome ↔ m ∈ stack.map (·.machine) := by
  rw [Option.isSome_iff_exists, List.mem_map]
  constructor
  · rintro ⟨id, hid⟩
    obtain ⟨f, hf, rfl, -⟩ := (h.cursor m id).mp hid
    exact ⟨f, hf, rfl⟩
  · rintro ⟨f, hf, rfl⟩
    exact ⟨_, h.cursor_of_mem hf⟩

theorem running_between {g : Frame} {below : List Frame} (h : w.Tracks sim (g :: below))
    (sane : w.Sane) {m : MachineId} (hm : m ∈ (below.map (·.machine)).dropLast) :
    ∃ q, w.current? sim m = .ok (some q) ∧ q.isFinal = false := by
  rw [← List.map_dropLast, List.mem_map] at hm
  obtain ⟨f, hf, rfl⟩ := hm
  exact ⟨f.state, h.current_of_mem sane (.tail _ (List.mem_of_mem_dropLast hf)),
    h.stacked.running_between hf⟩

end Tracks

/-- **The running machines form a stack.**  Whatever was asked of a simulator since it was made, and
whether it failed or not: from the outermost machine inwards no machine occurs twice, each one is the
submachine of the state that the one before it is in, and those between the outermost and the
innermost are not in final states.  No machine outside the stack has a cursor, and every cursor is at
a live state. -/
theorem running_machines_form_a_stack {m : MachineId} (h : w.Reachable)
    (hm : m.index < w.machines.length) (t : Tape) (j : Journal) (calls : List Call) :
    let s := Call.performAll calls (.fresh w m t j)
    ∃ ms, s.shop.stack s.sim = .ok ms ∧ ms.head? = some m ∧ ms.Nodup ∧
      ms.IsChain (s.shop.RunsInside s.sim) ∧
      (∀ n ∈ ms.tail.dropLast, ∃ q, s.shop.current? s.sim n = .ok (some q) ∧ q.isFinal = false) ∧
      (∀ n, n ≠ m → ((s.sim.cursor? n).isSome ↔ n ∈ ms)) ∧
      ∀ n id, s.sim.cursor? n = some id → ∃ q, (w.machine n).state? id = some q := by
  intro s
  have fresh : (Stage.fresh w m t j).Standing w m := ⟨_, .fresh h.good m t j⟩
  obtain ⟨⟨stack, t'⟩, alike, good, machine, tracks, -⟩ := fresh.performAll hm calls
  change s.sim.machine = m at machine
  change s.shop.Tracks s.sim stack at tracks
  have live (n : MachineId) (id : Nat) (hid : s.sim.cursor? n = some id) :
      ∃ q, (w.machine n).state? id = some q := by
    obtain ⟨q, hq, rfl⟩ := Live.of_tracks tracks n id hid
    rw [alike.states] at hq
    exact ⟨q, (h.good.sane.arena n).state?_eq_some_iff.mpr ⟨hq, rfl⟩⟩
  cases stack with
  | nil =>
    refine ⟨[m], machine ▸ tracks.stack_of_idle good.sane, rfl, List.nodup_singleton m,
      .singleton m, fun n hn => (by cases hn), fun n hn => ?_, live⟩
    rw [tracks.isSome_cursor_iff]
    simpa using hn
  | cons g below =>
    have known : s.sim.machine.index < s.shop.machines.length := machine ▸ alike.length ▸ hm
    refine ⟨_, tracks.stack_eq good.sane known, ?_,
      List.nodup_reverse.mpr (tracks.stacked.nodup_machines good.sane.acyclic),
      tracks.isChain_runsInside good.sane, fun n hn => ?_, fun n _ => ?_, live⟩
    · rw [List.head?_reverse, List.getLast?_map,
        List.getLast?_eq_some_getLast (List.cons_ne_nil g below)]
      exact congrArg some ((tracks.stacked.machine_getLast
        (List.getLast?_eq_some_getLast (List.cons_ne_nil g below))).trans machine)
    · rw [List.tail_reverse, List.dropLast_reverse, List.mem_reverse, List.tail_dropLast] at hn
      exact tracks.running_between good.sane hn
    · rw [tracks.isSome_cursor_iff, List.mem_reverse]

/-- Three nested machines run on after a step that failed for want of a transition. -/
theorem threeLevels_forms_a_stack :
    let calls : List Call :=
      [.run 4 0, .setTape (.ofText "1"), .step, .setTape (.ofText "0"), .run 3 0]
    let s := Call.performAll calls (.fresh threeLevels.shop ⟨0⟩ (.ofText "10") Journal.empty)
    threeLevels.shop.Reachable ∧ 0 < threeLevels.shop.machines.length ∧
    s.shop.stack s.sim = .ok [⟨0⟩, ⟨1⟩, ⟨2⟩] ∧
    [⟨0⟩, ⟨1⟩, ⟨2⟩].IsChain (s.shop.RunsInside s.sim) := by
  intro calls s
  have known : 0 < threeLevels.shop.machines.length := by decide +kernel
  have three : s.shop.stack s.sim = .ok [⟨0⟩, ⟨1⟩, ⟨2⟩] := eq_ok_of_toOption (by decide +kernel)
  obtain ⟨ms, hstack, -, -, chain, -⟩ :=
    running_machines_form_a_stack threeLevels_reachable (m := ⟨0⟩) known (.ofText "10") Journal.empty calls
  cases three.symm.trans hstack
  exact ⟨threeLevels_reachable, known, three, chain⟩

end Workshop

end MachineLab
