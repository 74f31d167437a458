import MachineLab.Proofs.Preview

/-!
# After a halt

A Turing machine has halted once the outermost machine is in its final state.  A valid machine has no
transition out of that state, so it stays there for good.  But the final state may hold a submachine,
and a step looks for one before anything else: as long as the machine inside has not come to its own
end, the simulator goes on although it counts as halted, and the tape changes.  Once nothing is left to
run inside the final state, every step fails and changes nothing.

## Main definitions

* `Call.goesOn` — a call that neither starts again nor brings another tape.
* `Workshop.Settled` — nothing is left to run inside the state of a machine.

## Main statements

* `Workshop.Tracks.settled_iff` — a halted machine is settled exactly if it is its own turn to move.
* `Stage.Stands.step_of_settled` — how a step of such a machine fails.
* `Workshop.settled_halt_is_final` — what a halt leaves to be done.
-/

namespace MachineLab

open Relation

/-! ## Calls that go on -/

namespace Call

/-- A call that goes on with the run on the tape that is there. -/
def goesOn : Call → Bool
  | step | run _ _ => true
  | reset | setTape _ => false

/-- What steps keep, calls that go on keep, unless it is about the budget or the journal. -/
theorem performAll_of_goesOn {P : Stage → Prop} (hstep : Preserves P SimM.step)
    (quiet : ∀ s exhausted journal, P s →
      P { s with sim := { s.sim with budgetExhausted := exhausted }, journal })
    {calls : List Call} (goOn : ∀ call ∈ calls, call.goesOn = true) {s : Stage} (h : P s) :
    P (performAll calls s) := by
  induction calls generalizing s with
  | nil => exact h
  | cons call rest ih =>
    refine ih (fun c hc => goOn c (.tail _ hc)) ?_
    have goes := goOn call (.head _)
    cases call with
    | step => exact hstep s h
    | run limit patience =>
      exact Preserves.bind (SimM.preserves_run hstep quiet limit patience) (fun _ => .pure _) s h
    | reset => cases goes
    | setTape t => cases goes

end Call

/-! ## Machines inside the final state -/

namespace Workshop

variable {w : Workshop} {root : MachineId} {sim : Simulator} {stack : List Frame}

/-- Nothing is left to run inside the state that a machine is in: what it holds has come to its end. -/
def Settled (w : Workshop) (sim : Simulator) (m : MachineId) : Prop :=
  ∀ n, w.RunsInside sim m n → w.Finished sim m n

/-- To know whether a machine is settled one has to look at its state and at the machine in it. -/
def isSettled (w : Workshop) (sim : Simulator) (m : MachineId) : Bool :=
  match (w.current? sim m).toOption.join.bind (·.submachine) with
  | none => true
  | some n => (w.current? sim n).toOption.join.any (·.isFinal)

theorem toOption_join_eq_some_iff {α : Type} {x : Except Fault (Option α)} {a : α} :
    x.toOption.join = some a ↔ x = .ok (some a) := by
  rcases x with _ | _ | _ <;> simp [Except.toOption]

theorem isSettled_iff (w : Workshop) (sim : Simulator) (m : MachineId) :
    w.isSettled sim m = true ↔ w.Settled sim m := by
  have inside (n : MachineId) : w.RunsInside sim m n ↔
      (w.current? sim m).toOption.join.bind (·.submachine) = some n := by
    simp [RunsInside, Option.bind_eq_some_iff, toOption_join_eq_some_iff]
  have final (n : MachineId) : (w.current? sim n).toOption.join.any (·.isFinal) = true ↔
      ∃ p, w.current? sim n = .ok (some p) ∧ p.isFinal = true := by
    simp [Option.any_eq_true, toOption_join_eq_some_iff]
  unfold isSettled Settled Finished
  split
  · rename_i nothing
    simp [inside, nothing]
  · rename_i n holds
    simp [inside, holds, final]

instance (w : Workshop) (sim : Simulator) (m : MachineId) : Decidable (w.Settled sim m) :=
  decidable_of_iff _ (w.isSettled_iff sim m)

/-- The outermost of several running machines is in a state that holds the next one. -/
theorem Stacked.exists_above {f g : Frame} {rest : List Frame}
    (h : w.Stacked root (g :: f :: rest)) :
    ∃ r e, (f :: rest).getLast? = some r ∧ e ∈ g :: (f :: rest).dropLast ∧
      r.state.submachine = some e.machine := by
  induction rest generalizing f g with
  | nil => exact ⟨f, g, rfl, .head _, h.2.1⟩
  | cons f' rest ih =>
    obtain ⟨r, e, last, above, inner⟩ := ih h.tail
    exact ⟨r, e, last, .tail g above, inner⟩

namespace Tracks

theorem runsInside_root_iff (h : w.Tracks sim stack) (sane : w.Sane) {r : Frame}
    (last : stack.getLast? = some r) (n : MachineId) :
    w.RunsInside sim sim.machine n ↔ r.state.submachine = some n := by
  unfold RunsInside
  rw [h.current_root sane, last]
  constructor
  · rintro ⟨q, hq, inner⟩
    cases hq
    exact inner
  · exact fun inner => ⟨r.state, rfl, inner⟩

/-- **A machine that has halted is settled exactly if the next step is its own move.** -/
theorem settled_iff (h : w.Tracks sim stack) (sane : w.Sane) (halted : rootFinal stack = true) :
    w.Settled sim sim.machine ↔ ∃ r, turn sim.machine stack = .move r [] := by
  match stack with
  | [] => cases halted
  | [r] =>
    cases inner : r.state.submachine with
    | none =>
      refine ⟨fun _ => ⟨r, by simp [turn, Frame.turn, inner]⟩, fun _ n runs => ?_⟩
      cases inner.symm.trans ((h.runsInside_root_iff sane rfl n).mp runs)
    | some i =>
      constructor
      · intro settled
        obtain ⟨-, p, hp, -⟩ := settled i ((h.runsInside_root_iff sane rfl i).mpr inner)
        -- The machine inside the only frame has not started.
        rw [h.current_of_absent fun f hf => h.stacked.inner_absent sane.acyclic inner hf] at hp
        cases hp
      · rintro ⟨r', move⟩
        simp [turn, Frame.turn, inner] at move
  | [g, r] =>
    have inner : r.state.submachine = some g.machine := h.stacked.2.1
    have inside := h.runsInside_root_iff sane (r := r) rfl
    have current := h.current_of_mem sane (.head _ : g ∈ [g, r])
    constructor
    · intro settled
      obtain ⟨-, p, hp, final⟩ := settled g.machine ((inside _).mpr inner)
      cases current.symm.trans hp
      exact ⟨r, if_pos final⟩
    · rintro ⟨r', move⟩ n runs
      cases inner.symm.trans ((inside n).mp runs)
      refine ⟨runs, g.state, current, ?_⟩
      obtain alone | ⟨g', frames, final⟩ := turn_eq_move move
      · cases alone
      · cases frames
        exact final
  | g :: f :: f' :: rest =>
    constructor
    · intro settled
      -- The machine inside the outermost one waits for another, so it has not come to its end.
      obtain ⟨r, e, last, above, inner⟩ := h.stacked.tail.exists_above
      obtain ⟨-, p, hp, final⟩ := settled e.machine ((h.runsInside_root_iff sane last _).mpr inner)
      have below : e ∈ (f :: f' :: rest).dropLast := above
      cases (h.current_of_mem sane (.tail g (List.mem_of_mem_dropLast below))).symm.trans hp
      rw [h.stacked.running_between below] at final
      cases final
    · rintro ⟨r, move⟩
      obtain alone | ⟨g', frames, -⟩ := turn_eq_move move
      · cases alone
      · cases frames

end Tracks

end Workshop

/-! ## Steps after a halt -/

namespace Stage.Stands

open Workshop

variable {s : Stage} {w : Workshop} {root : MachineId} {stack below : List Frame} {t : Tape}
  {f r : Frame} (h : s.Stands w root (stack, t)) (known : root.index < w.machines.length)
  (fit : w.Fit root)

include h known fit

/-- A machine that is to move from its final state stops there. -/
theorem step_of_settled (move : turn root stack = .move f []) (final : f.state.isFinal = true) :
    outcome SimM.step s = .error (.machine ((w.machine root).turingStop f.state t)) ∧
      (after SimM.step s).Stands w root (stack, t) := by
  obtain ⟨gives, stands⟩ := h.step_of_move known fit.clean move
  have stacked := h.stacked.of_turn move
  obtain rfl : f.machine = root := stacked.1
  have hf := stacked.live_top
  have stays := fit.turingRules.final_stays _ hf final
  have stuck (tr : Transition) : w.chosen f.machine f.state t ≠ .ok (some tr) := by
    intro chosen
    rw [Workshop.chosen_eq (h.sane.arena _) hf, Except.ok.injEq] at chosen
    have leaves := Machine.mem_exits_of_choice? chosen
    rw [stays] at leaves
    cases leaves
  obtain ⟨tr, -, -, chosen, -⟩ | ⟨tr, -, -, chosen, -⟩ | ⟨-, hgo⟩ := fit.go_cases h.sane hf t
  · exact absurd chosen (stuck tr)
  · exact absurd chosen (stuck tr)
  · rw [hgo] at gives stands
    exact ⟨gives, stands⟩

/-- While something inside the final state is to move, a step does not complete the computation. -/
theorem step_of_unsettled (move : ∀ f, turn root stack ≠ .move f []) :
    outcome SimM.step s = .ok () ∨ outcome SimM.step s = .error (.machine .tapeBounds) ∨
      ∃ parked, outcome SimM.step s = .error (.machine (.undefinedTransition parked false)) := by
  cases hturn : turn root stack with
  | enter i =>
    obtain ⟨-, -, gives, -⟩ := h.step_of_enter known fit.clean hturn
    exact .inl gives
  | move f below =>
    obtain ⟨gives, -⟩ := h.step_of_move known fit.clean hturn
    have running : f.state.isFinal = false := by
      rw [← Bool.not_eq_true]
      intro final
      exact move f (h.stacked.below_eq_nil hturn final ▸ hturn)
    have path := (h.stacked.of_turn hturn).path_root
    obtain ⟨tr, q, t', -, -, -, -, -, hgo⟩ | ⟨tr, inp, out, -, -, -, -, hgo⟩ | ⟨-, hgo⟩ :=
      (fit.of_path h.sane path).go_cases h.sane (h.stacked.live (mem_of_turn hturn)) t
    · rw [hgo] at gives
      exact .inl gives
    · rw [hgo] at gives
      exact .inr (.inl gives)
    · rw [hgo, Machine.turingStop, running, Bool.and_false] at gives
      exact .inr (.inr ⟨_, gives⟩)

/-- The outermost machine does not leave its final state. -/
theorem step_keeps_root (last : stack.getLast? = some r) (final : r.state.isFinal = true) :
    ∃ c, (after SimM.step s).Stands w root c ∧ c.1.getLast? = some r := by
  cases hturn : turn root stack with
  | enter i =>
    obtain ⟨p, -, -, stands⟩ := h.step_of_enter known fit.clean hturn
    obtain ⟨g, rest, rfl⟩ : ∃ g rest, stack = g :: rest :=
      List.exists_cons_of_ne_nil fun nil => by simp [nil] at last
    exact ⟨_, stands, last⟩
  | move f below =>
    have lastBelow : (f :: below).getLast? = some r := by
      obtain rfl | ⟨g, rfl, -⟩ := turn_eq_move hturn
      · exact last
      · exact last
    cases below with
    | nil =>
      cases lastBelow
      exact ⟨_, (h.step_of_settled known fit hturn final).2, last⟩
    | cons f' rest =>
      obtain ⟨-, stands⟩ := h.step_of_move known fit.clean hturn
      cases hgo : (w.machine f.machine).go f.state t with
      | ok there =>
        rw [hgo] at stands
        exact ⟨_, stands, lastBelow⟩
      | error e =>
        rw [hgo] at stands
        exact ⟨_, stands, last⟩

end Stage.Stands

namespace Workshop

variable {w : Workshop} {m : MachineId}

/-- **What a halt leaves to be done.**  Whatever was asked of a simulator of a valid Turing machine
since it was made: once it has halted, the outermost machine is in its final state and stays there
through all later steps and runs.  If nothing is left to run inside that state, none of them changes
the tape, a cursor or the verdict, and every step fails: it reports the completion if the head is at
the start of the tape, and a missing transition otherwise.  If something is left to run, the next step
does not report the completion. -/
theorem settled_halt_is_final (h : w.Reachable) (hm : m.index < w.machines.length)
    (turing : (w.machine m).kind = .turing) {j₀ : Journal}
    (valid : outcome (Work.validate m) ⟨w, j₀⟩ = .ok ()) (t : Tape) (j : Journal)
    (calls later : List Call) (goOn : ∀ call ∈ later, call.goesOn = true) :
    let s := Call.performAll calls (.fresh w m t j)
    let s' := Call.performAll later s
    s.shop.isHalted s.sim s.tape = .ok true →
      ∃ q, (w.machine m).finalState? = some q ∧ s.sim.cursor? m = some q.id ∧
        (s'.sim.cursor? m = some q.id ∧ s'.shop.isHalted s'.sim s'.tape = .ok true) ∧
        (s.shop.Settled s.sim m →
          s.Unmoved s' ∧
          s'.shop.isAccepted s'.sim s'.tape = s.shop.isAccepted s.sim s.tape ∧
          outcome SimM.step s' =
            .error (.machine (if s.tape.head = 0 then .halted (w.machine m).name q.label
              else .undefinedTransition false true))) ∧
        (¬ s.shop.Settled s.sim m →
          outcome SimM.step s = .ok () ∨ outcome SimM.step s = .error (.machine .tapeBounds) ∨
            ∃ parked,
              outcome SimM.step s = .error (.machine (.undefinedTransition parked false))) := by
  intro s s' halted
  have fit : w.Fit m := ⟨turing, h.good.clean_of_valid hm valid⟩
  obtain ⟨⟨stack, t'⟩, stands⟩ : s.Standing w m := h.standing hm t j calls
  rw [stands.isHalted_eq, turing] at halted
  have rootHalted : rootFinal stack = true := Except.ok.inj halted
  obtain ⟨r, last, final⟩ : ∃ r, stack.getLast? = some r ∧ r.state.isFinal = true := by
    simpa [rootFinal, Option.any_eq_true] using rootHalted
  have hr : r ∈ stack := List.mem_of_getLast? last
  obtain rfl : r.machine = m := stands.stacked.machine_getLast last
  have settled := stands.here.tracks.settled_iff stands.good.sane rootHalted
  rw [stands.here.machine] at settled
  refine ⟨r.state, fit.finalState?_eq (stands.stacked.live hr) final, stands.tracks.cursor_of_mem hr,
    ?_, fun quiet => ?_, fun busy => ?_⟩
  · obtain ⟨c, stands', last'⟩ : ∃ c, s'.Stands w r.machine c ∧ c.1.getLast? = some r := by
      refine Call.performAll_of_goesOn
        (P := fun s => ∃ c, s.Stands w r.machine c ∧ c.1.getLast? = some r) ?_ ?_ goOn ⟨_, stands, last⟩
      · rintro s ⟨c, stands, last⟩
        exact stands.step_keeps_root hm fit last final
      · rintro s _ _ ⟨c, stands, last⟩
        exact ⟨c, stands.reported ⟨rfl, rfl, rfl, rfl⟩, last⟩
    refine ⟨stands'.tracks.cursor_of_mem (List.mem_of_getLast? last'), ?_⟩
    rw [stands'.isHalted_eq, turing, last']
    exact congrArg Except.ok final
  · obtain ⟨f, move⟩ := settled.mp quiet
    obtain rfl : f = r := by
      obtain rfl | ⟨g, rfl, -⟩ := turn_eq_move move <;> cases last <;> rfl
    have there : s'.Stands w f.machine (stack, t') := Call.performAll_of_goesOn
      (P := fun s => s.Stands w f.machine (stack, t'))
      (fun s stands => (stands.step_of_settled hm fit move final).2)
      (fun s _ _ stands => stands.reported ⟨rfl, rfl, rfl, rfl⟩) goOn stands
    refine ⟨stands.unmoved there hm, by rw [there.isAccepted_eq, stands.isAccepted_eq], ?_⟩
    rw [(there.step_of_settled hm fit move final).1, Machine.turingStop, final, Bool.and_true,
      stands.here.tape, Tape.isParked]
    by_cases parked : t'.head = 0 <;> simp [parked]
  · refine stands.step_of_unsettled hm fit fun f move => ?_
    exact busy (settled.mpr ⟨f, move⟩)

/-- A machine whose final state holds another one, which takes one step to the right. -/
def nestedInFinal : Bench :=
  Command.runAll
    [ .newMachine .turing (.text "outer") none, .newMachine .turing (.text "inner") none,
      .addState ⟨0⟩ "a" true true,
      .addState ⟨1⟩ "p" true false, .addState ⟨1⟩ "q" false true,
      .addTransition ⟨1⟩ (.state ⟨1⟩ 0) (.state ⟨1⟩ 1) (.move .right (.text "1")),
      .attach ⟨0⟩ (.state ⟨0⟩ 0) (some ⟨1⟩) ]
    ⟨Workshop.empty, Journal.empty⟩

theorem nestedInFinal_reachable : nestedInFinal.shop.Reachable := .runAll .empty (by decide +kernel)

/-- Once the machine in the final state has come to its end, neither steps nor runs change anything. -/
theorem nestedInFinal_settles :
    let s := Call.performAll [.step, .step, .step]
      (.fresh nestedInFinal.shop ⟨0⟩ (.ofText "1") Journal.empty)
    let s' := Call.performAll [.step, .run 0 3] s
    nestedInFinal.shop.Reachable ∧
    outcome (Work.validate ⟨0⟩) ⟨nestedInFinal.shop, Journal.empty⟩ = .ok () ∧
    s.shop.isHalted s.sim s.tape = .ok true ∧ s.sim.cursor? ⟨1⟩ = some 1 ∧
    s.shop.Settled s.sim ⟨0⟩ ∧ s.Unmoved s' ∧
    outcome SimM.step s' = .error (.machine (.undefinedTransition false true)) := by
  have away : (Call.performAll [.step, .step, .step]
      (.fresh nestedInFinal.shop ⟨0⟩ (.ofText "1") Journal.empty)).tape.head ≠ 0 := by decide +kernel
  intro s s'
  have valid : outcome (Work.validate ⟨0⟩) ⟨nestedInFinal.shop, Journal.empty⟩ = .ok () :=
    eq_ok_of_toOption (by decide +kernel)
  have halted : s.shop.isHalted s.sim s.tape = .ok true := eq_ok_of_toOption (by decide +kernel)
  have settled : s.shop.Settled s.sim ⟨0⟩ := by decide +kernel
  obtain ⟨q, -, -, -, still, -⟩ := settled_halt_is_final nestedInFinal_reachable (m := ⟨0⟩)
    (by decide +kernel) (by decide +kernel) valid (.ofText "1") Journal.empty [.step, .step, .step]
    [.step, .run 0 3] (by decide) halted
  obtain ⟨unmoved, -, fails⟩ := still settled
  rw [if_neg away] at fails
  exact ⟨nestedInFinal_reachable, valid, halted, by decide +kernel, settled, unmoved, fails⟩

/-- A machine that has halted and accepted goes on with the machine in its final state, and then no
longer accepts. -/
theorem nestedInFinal_goes_on_after_its_halt :
    let s := Call.performAll [.step] (.fresh nestedInFinal.shop ⟨0⟩ (.ofText "1") Journal.empty)
    let s' := Call.performAll [.step, .step] s
    nestedInFinal.shop.Reachable ∧
    outcome (Work.validate ⟨0⟩) ⟨nestedInFinal.shop, Journal.empty⟩ = .ok () ∧
    s.shop.isHalted s.sim s.tape = .ok true ∧ s.shop.isAccepted s.sim s.tape = .ok true ∧
    ¬ s.shop.Settled s.sim ⟨0⟩ ∧ outcome SimM.step s = .ok () ∧
    s.sim.cursor? ⟨1⟩ = none ∧ s'.sim.cursor? ⟨1⟩ = some 1 ∧ s.tape.head = 0 ∧ s'.tape.head = 1 ∧
    s'.shop.isAccepted s'.sim s'.tape = .ok false := by
  refine ⟨nestedInFinal_reachable, eq_ok_of_toOption ?_, eq_ok_of_toOption ?_, eq_ok_of_toOption ?_, ?_,
    eq_ok_of_toOption ?_, ?_, ?_, ?_, ?_, eq_ok_of_toOption ?_⟩ <;> decide +kernel

end Workshop

end MachineLab
