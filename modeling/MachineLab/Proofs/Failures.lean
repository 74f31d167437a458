import MachineLab.Proofs.Language
import MachineLab.Proofs.Turns

/-!
# Steps that fail

Nothing that a step of a valid machine looks for is missing: each machine that is to start has a start
state, each cursor and each transition leads to a live state, and each action can be carried out.  What
is left are the faults that report how the machine stopped.  A submachine does not stop with a report
that it has completed, as the machine around it goes on; so that report is about the outermost machine.

A step that fails, of a valid machine or not, leaves the simulator where it was, and fails again.

## Main definitions

* `Kind.stopsWith` — the faults that report how a machine stopped.

## Main statements

* `Stage.Stands.step_stopsWith` — with what a step of a valid machine can fail.
* `Stage.Stands.of_completion` — where a machine reports that it has completed.
* `Workshop.valid_machines_fail_only_by_stopping` — both, for simulators after any calls.
* `Workshop.failed_step_changes_nothing` — a failed step can be repeated without effect.
-/

namespace MachineLab

open Relation

/-! ## With what a step can fail -/

/-- The faults that report how a machine of a kind stopped. -/
def Kind.stopsWith : Kind → MachineFault → Bool
  | .turing, .tapeBounds | .turing, .undefinedTransition _ _ | .turing, .halted _ _ => true
  | .acceptor, .accepted | .acceptor, .rejected | .acceptor, .stuck _ _ => true
  | _, _ => false

namespace Machine

variable {m : Machine} {a : Alphabet} {q : State} {t : Tape} {e : Fault}

theorem stopsWith_turingStop (m : Machine) (q : State) (t : Tape) :
    Kind.turing.stopsWith (m.turingStop q t) = true := by
  unfold turingStop
  split <;> rfl

/-- A machine that follows the rules fails to move only by stopping. -/
theorem Rules.stopsWith_of_go (rules : m.Rules a) (arena : m.Arena) (hq : q ∈ m.states)
    (h : m.go q t = .error e) : ∃ f, e = .machine f ∧ m.kind.stopsWith f = true := by
  unfold Rules at rules
  cases kind : m.kind with
  | turing =>
    rw [kind] at rules
    obtain ⟨tr, q', t', -, -, -, -, -, hgo⟩ | ⟨tr, inp, out, -, -, -, -, hgo⟩ | ⟨-, hgo⟩ :=
      TuringRules.go_cases rules arena kind hq t
    · cases hgo.symm.trans h
    · cases hgo.symm.trans h
      exact ⟨_, rfl, rfl⟩
    · cases hgo.symm.trans h
      exact ⟨_, rfl, m.stopsWith_turingStop q t⟩
  | acceptor =>
    rw [kind] at rules
    have ends : Kind.acceptor.stopsWith (if q.isFinal then .accepted else .rejected) = true := by
      split <;> rfl
    unfold go at h
    rw [kind] at h
    cases hr : m.choice? q (.text t.read) with
    | none =>
      rw [hr] at h
      simp only at h
      split at h <;> cases h
      · exact ⟨_, rfl, ends⟩
      · exact ⟨_, rfl, rfl⟩
    | some tr =>
      rw [hr] at h
      simp only at h
      split at h
      · -- The action of an acceptor can always be carried out.
        obtain ⟨htr, source⟩ := mem_exits.mp (mem_exits_of_choice? hr)
        have effect := arena.goAlong_eq_error htr h
        rw [AcceptorRules.effect_eq rules arena kind hq htr source] at effect
        cases effect
      · cases h
        exact ⟨_, rfl, ends⟩

end Machine

/-- All machines of a nest are of one kind. -/
theorem Workshop.Sane.kind_of_path {w : Workshop} (sane : w.Sane) {m n : MachineId}
    (path : ReflTransGen w.Nests m n) : (w.machine n).kind = (w.machine m).kind := by
  induction path with
  | refl => rfl
  | tail _ edge ih => rw [← ih, sane.links_turing _ _ edge, sane.flat _ _ edge]

namespace Stage.Stands

open Workshop

variable {s : Stage} {w : Workshop} {root : MachineId} {stack : List Frame} {t : Tape}
  (h : s.Stands w root (stack, t)) (known : root.index < w.machines.length)

include h known

/-- **A step of a valid machine fails only by stopping.** -/
theorem step_stopsWith (clean : w.Clean root) :
    outcome SimM.step s = .ok () ∨
      ∃ f, outcome SimM.step s = .error (.machine f) ∧
        (w.machine root).kind.stopsWith f = true := by
  cases hturn : turn root stack with
  | enter i =>
    obtain ⟨-, -, gives, -⟩ := h.step_of_enter known clean hturn
    exact .inl gives
  | move g below =>
    have path := (h.stacked.of_turn hturn).path_root
    have gives := (h.step_of_move known clean hturn).1
    cases hgo : (w.machine g.machine).go g.state t with
    | ok there =>
      rw [hgo] at gives
      exact .inl gives
    | error e =>
      rw [hgo] at gives
      obtain ⟨f, rfl, stops⟩ := (clean.rules path).stopsWith_of_go (h.sane.arena _)
        (h.stacked.live (mem_of_turn hturn)) hgo
      exact .inr ⟨f, gives, h.sane.kind_of_path path ▸ stops⟩

/-- A Turing machine reports that it has completed only if the outermost machine is on its final state
and the head is parked. -/
theorem of_completion (fit : w.Fit root) {f : MachineFault}
    (fails : outcome SimM.step s = .error (.machine f)) (completed : f.isCompletion = true) :
    t.head = 0 ∧ ∃ q, (w.machine root).finalState? = some q ∧ s.sim.cursor? root = some q.id := by
  cases hturn : turn root stack with
  | enter i =>
    obtain ⟨-, -, gives, -⟩ := h.step_of_enter known fit.clean hturn
    cases gives.symm.trans fails
  | move g below =>
    have stacked := h.stacked.of_turn hturn
    have gives := fails.symm.trans (h.step_of_move known fit.clean hturn).1
    have hg := h.stacked.live (mem_of_turn hturn)
    obtain ⟨tr, q, t', -, -, -, -, -, hgo⟩ | ⟨tr, inp, out, -, -, -, -, hgo⟩ | ⟨-, hgo⟩ :=
      (fit.of_path h.sane stacked.path_root).go_cases h.sane hg t
    · rw [hgo] at gives
      cases gives
    · rw [hgo] at gives
      cases gives
      cases completed
    · rw [hgo] at gives
      cases gives
      unfold Machine.turingStop at completed
      split at completed
      · rename_i stopped
        obtain ⟨parked, final⟩ := Bool.and_eq_true_iff.mp stopped
        -- A frame that is to move from a final state is the outermost one.
        obtain rfl := h.stacked.below_eq_nil hturn final
        obtain rfl : g.machine = root := stacked.1
        exact ⟨by simpa [Tape.isParked] using parked, g.state, fit.finalState?_eq hg final,
          h.tracks.cursor_of_mem (mem_of_turn hturn)⟩
      · cases completed

end Stage.Stands

namespace SimM

open Workshop

variable {s : Stage} {w : Workshop} {root : MachineId} (known : root.index < w.machines.length)
  (fit : w.Fit root)

include known fit

/-- A step of a run of a Turing machine that has not halted yields no report. -/
theorem attempt_of_running {c : List Frame × Tape} (h : s.Stands w root c)
    (running : rootFinal c.1 = false) :
    (∃ s', attempt s = .ok none s' ∧ s'.Standing w root) ∨ ∃ e s', attempt s = .error e s' := by
  obtain ⟨s', hstep, stands⟩ := h.step_eq known
  rw [stepResult, fit.clean.pass h.sane known] at hstep stands
  unfold attempt
  cases hresult : w.nextStack root c.2 c.1 with
  | ok there =>
    rw [hresult] at hstep
    rw [hstep]
    exact .inl ⟨s', rfl, _, stands⟩
  | error e =>
    rw [hresult] at hstep
    rw [hstep]
    obtain rfl | ⟨parked, rfl⟩ := nextStack_eq_error h.sane fit h.stacked running hresult
    · exact .inr ⟨_, s', rfl⟩
    · exact .inr ⟨_, s', rfl⟩

/-- A run of a Turing machine does not end with a report that it has completed: it looks for the final
state before each step. -/
theorem loop_ne_completed (h : s.Standing w root) (limit : Int) (n count k : Nat) :
    outcome (loop limit n count) s ≠ .ok (.completed k) := by
  induction n generalizing s count with
  | zero =>
    intro ends
    cases ends
  | succ n ih =>
    obtain ⟨c, stands⟩ := h
    rw [loop, outcome_congr (bind_of_ok (halted_eq stands fit.turing))]
    cases final : rootFinal c.1 with
    | true =>
      intro ends
      cases ends
    | false =>
      simp only [Bool.false_eq_true, if_false]
      obtain ⟨s', hattempt, standing⟩ | ⟨e, s', hattempt⟩ := attempt_of_running known fit stands final
      · rw [outcome_congr (bind_of_ok hattempt)]
        simp only
        split
        · obtain ⟨c', stands'⟩ := standing
          rw [outcome_congr (bind_of_ok (halted_eq stands' fit.turing))]
          intro ends
          cases ends
        · exact ih standing (count + 1)
      · rw [outcome_of_error (bind_of_error hattempt)]
        intro ends
        cases ends

end SimM

namespace Workshop

variable {w : Workshop} {m : MachineId}

/-- **A step of a valid machine fails only by stopping.**  Whatever was asked of its simulator since it
was made: a step succeeds or reports how the machine stopped, with one of the faults for that.  A Turing
machine reports that it has completed only if the outermost machine is on its final state and the head
is at the start of the tape; so its runs, whatever their budget, never end with that report. -/
theorem valid_machines_fail_only_by_stopping (h : w.Reachable) (hm : m.index < w.machines.length)
    {j₀ : Journal} (valid : outcome (Work.validate m) ⟨w, j₀⟩ = .ok ()) (t : Tape) (j : Journal)
    (calls : List Call) :
    let s := Call.performAll calls (.fresh w m t j)
    (outcome SimM.step s = .ok () ∨
      ∃ f, outcome SimM.step s = .error (.machine f) ∧ (w.machine m).kind.stopsWith f = true) ∧
    ((w.machine m).kind = .turing →
      (∀ f, outcome SimM.step s = .error (.machine f) → f.isCompletion = true →
        s.tape.head = 0 ∧
          ∃ q, (w.machine m).finalState? = some q ∧ s.sim.cursor? m = some q.id) ∧
      ∀ limit patience k,
        outcome (do
          SimM.update fun sim => { sim with budgetExhausted := false }
          SimM.loop limit (SimM.patienceFor limit patience) 0) s ≠ .ok (.completed k)) := by
  intro s
  have clean := h.good.clean_of_valid hm valid
  obtain ⟨⟨stack, t'⟩, stands⟩ : s.Standing w m := h.standing hm t j calls
  refine ⟨stands.step_stopsWith hm clean, fun turing => ⟨fun f fails completed => ?_, ?_⟩⟩
  · exact stands.here.tape ▸ stands.of_completion hm ⟨turing, clean⟩ fails completed
  · intro limit patience k
    have begins : s.Reported { s with sim := { s.sim with budgetExhausted := false } } :=
      ⟨rfl, rfl, rfl, rfl⟩
    exact SimM.loop_ne_completed hm ⟨turing, clean⟩ ⟨_, stands.reported begins⟩ limit _ 0 k

/-- On its final state and with the head put back to the start, the outermost of three nested machines
reports that it has completed. -/
theorem threeLevels_stops_with_completion :
    let calls : List Call := [.run 0 10, .setTape (.ofText "10")]
    let s := Call.performAll calls (.fresh threeLevels.shop ⟨0⟩ (.ofText "10") Journal.empty)
    threeLevels.shop.Reachable ∧ outcome (Work.validate ⟨0⟩) ⟨threeLevels.shop, Journal.empty⟩ = .ok () ∧
    (outcome SimM.step s).mapError Fault.message = .error "Machine 'outer' halted in c." ∧
    s.tape.head = 0 ∧
    ∃ q, (threeLevels.shop.machine ⟨0⟩).finalState? = some q ∧ s.sim.cursor? ⟨0⟩ = some q.id := by
  intro calls s
  have valid : outcome (Work.validate ⟨0⟩) ⟨threeLevels.shop, Journal.empty⟩ = .ok () :=
    eq_ok_of_toOption (by decide +kernel)
  have turing : (threeLevels.shop.machine ⟨0⟩).kind = .turing := by decide +kernel
  have message : (outcome SimM.step s).mapError Fault.message =
      .error "Machine 'outer' halted in c." := by decide +kernel
  obtain ⟨stops, completion⟩ := valid_machines_fail_only_by_stopping threeLevels_reachable (m := ⟨0⟩)
    (by decide +kernel) valid (.ofText "10") Journal.empty calls
  refine ⟨threeLevels_reachable, valid, message, ?_⟩
  obtain gives | ⟨f, gives, stopsWith⟩ := stops
  · rw [show outcome SimM.step s = .ok () from gives] at message
    cases message
  · rw [show outcome SimM.step s = .error (.machine f) from gives] at message
    rw [turing] at stopsWith
    have text : f.message = "Machine 'outer' halted in c." := Except.error.inj message
    have completed : f.isCompletion = true := by
      cases f with
      | halted machine label => rfl
      | tapeBounds => exact absurd text (by decide)
      | undefinedTransition parked final =>
        cases parked <;> cases final <;> exact absurd text (by decide)
      | _ => cases stopsWith
    exact (completion turing).1 f gives completed

end Workshop

/-! ## What a failed step leaves behind -/

namespace Stage.Stands

open Workshop

variable {s : Stage} {w : Workshop} {root : MachineId} {c : List Frame × Tape}
  (h : s.Stands w root c) (known : root.index < w.machines.length)

include h known

/-- Where a step of a simulator fails, it leaves it where it was, and so does every later one. -/
theorem iterate_step {e : Fault} (fails : outcome SimM.step s = .error e) (n : Nat) :
    ((after SimM.step)^[n] s).Stands w root c ∧
      outcome SimM.step ((after SimM.step)^[n] s) = .error e := by
  obtain ⟨s₁, hstep, -⟩ := h.step_eq known
  have failed : (w.stepResult root c).map (fun _ => ()) = .error e :=
    (outcome_of_conclude hstep).symm.trans fails
  have stays {s : Stage} (h : s.Stands w root c) :
      outcome SimM.step s = .error e ∧ (after SimM.step s).Stands w root c := by
    obtain ⟨s', hstep, stands⟩ := h.step_eq known
    refine ⟨(outcome_of_conclude hstep).trans failed, ?_⟩
    rw [after_of_conclude hstep]
    cases hresult : w.stepResult root c with
    | ok there =>
      rw [hresult] at failed
      cases failed
    | error e' =>
      rw [hresult] at stands
      exact stands
  induction n with
  | zero => exact ⟨h, fails⟩
  | succ n ih =>
    rw [Function.iterate_succ_apply']
    have there := (stays ih.1).2
    exact ⟨there, (stays there).1⟩

end Stage.Stands

namespace Workshop

variable {w : Workshop} {m : MachineId}

/-- **A failed step changes nothing.**  Whatever was asked of a simulator since it was made, and whether
its machine is valid or not: if a step fails, the tape, the cursors and all that is observed of them are
as before, however often the step is tried again, and each time it fails with the same fault. -/
theorem failed_step_changes_nothing (h : w.Reachable) (hm : m.index < w.machines.length) (t : Tape)
    (j : Journal) (calls : List Call) {e : Fault}
    (fails : outcome SimM.step (Call.performAll calls (.fresh w m t j)) = .error e) (n : Nat) :
    let s := Call.performAll calls (.fresh w m t j)
    let s' := (after SimM.step)^[n] s
    s.Unmoved s' ∧ outcome SimM.step s' = .error e := by
  intro s s'
  obtain ⟨c, stands⟩ : s.Standing w m := h.standing hm t j calls
  obtain ⟨there, again⟩ := stands.iterate_step hm fails n
  exact ⟨stands.unmoved there hm, again⟩

/-- Without a transition for the symbol under the head, three nested machines stay where they are. -/
theorem threeLevels_stays_where_it_fails :
    let calls : List Call := [.run 4 0, .setTape (.ofText "1")]
    let s := Call.performAll calls (.fresh threeLevels.shop ⟨0⟩ (.ofText "10") Journal.empty)
    let s' := (after SimM.step)^[2] s
    threeLevels.shop.Reachable ∧ s.shop.stack s.sim = .ok [⟨0⟩, ⟨1⟩] ∧ s.Unmoved s' ∧
    ∃ e, outcome SimM.step s = .error e ∧ outcome SimM.step s' = .error e := by
  intro calls s s'
  have two : s.shop.stack s.sim = .ok [⟨0⟩, ⟨1⟩] := eq_ok_of_toOption (by decide +kernel)
  cases fails : outcome SimM.step s with
  | ok u =>
    have failed : (outcome SimM.step s).toOption = none := by decide +kernel
    rw [fails] at failed
    cases failed
  | error e =>
    obtain ⟨unmoved, again⟩ := failed_step_changes_nothing threeLevels_reachable (m := ⟨0⟩)
      (by decide +kernel) (.ofText "10") Journal.empty calls fails 2
    exact ⟨threeLevels_reachable, two, unmoved, e, rfl, again⟩

end Workshop

end MachineLab
