import MachineLab.Proofs.Signals
import MachineLab.Proofs.Turns

/-!
# The transition that comes next

A simulator can be asked which transition its next step would take, without taking it.  For a valid
Turing machine the answer is exact, whatever was asked of the simulator before: a transition that is
foretold is taken and no other, unless it leads past the start of the tape; and where none is foretold
a machine starts or the step fails.

What listeners hear belongs to it.  A step that takes a transition tells of that one, and any other
step tells of none.

## Main definitions

* `Stage.Takes`, `Stage.Starts`, `Stage.Rests` — what happens between two stages.

## Main statements

* `Stage.Stands.told_step_of_enter`, `told_step_of_ok`, `told_step_of_error` — the transitions that a
  step tells of.
* `Workshop.preview_is_exact` — the transition that is foretold is the one that is taken.
-/

namespace MachineLab

open Relation

/-! ## What a step tells -/

namespace SimM

variable {s s' : Stage} {m : MachineId} {q : State}

/-- A machine that moves tells of the transition that it takes. -/
theorem told_act {tr : Transition} {new : State} {s₁ : Stage}
    (chosen : s.shop.chosen m q s.tape = .ok (some tr))
    (hadvance : advance m q (some tr) s = .ok new s₁)
    (h : act m q s = .ok () s') :
    ∃ source text, s₁.shop.stateAt m tr.source = .ok source ∧ tr.action.text = .ok text ∧
      s'.journal.told = s.journal.told ++ [(source.label, new.label, text)] := by
  rw [act, bind_of_ok (observeTape_of_ok chosen), bind_of_ok hadvance] at h
  obtain ⟨source, text, found, written, told⟩ := told_take h
  have quiet := ((Aloof.told _).advance m q (some tr)).of_ok hadvance rfl
  exact ⟨source, text, found, written, quiet ▸ told⟩

/-- A machine that cannot move tells nothing. -/
theorem told_act_of_error {tr? : Option Transition} {e : Fault} {s₁ : Stage}
    (chosen : s.shop.chosen m q s.tape = .ok tr?) (hadvance : advance m q tr? s = .error e s₁) :
    (after (act m q) s).journal.told = s.journal.told := by
  have fails : act m q s = .error e s₁ := by
    rw [act, bind_of_ok (observeTape_of_ok chosen), bind_of_error hadvance]
  have quiet := (Aloof.told s.journal.told).advance m q tr? s rfl
  rwa [after_of_error hadvance, ← after_of_error fails] at quiet

/-- To give up a submachine tells nothing. -/
theorem told_proceed {finished : Option MachineId}
    (focus : s.shop.focus s.sim = .ok (some (.act m q finished))) :
    (after proceed s).journal.told = (after (act m q) s).journal.told := by
  rw [proceed, after_congr (bind_of_ok (observe_of_ok focus))]
  refine told_bind s fun x _ => ?_
  cases finished with
  | some inner => exact (Aloof.told x).update fun _ => rfl
  | none => exact .pure _

end SimM

namespace Stage.Stands

open Workshop

variable {s : Stage} {w : Workshop} {root : MachineId} {stack : List Frame} {t : Tape}
  (h : s.Stands w root (stack, t)) (known : root.index < w.machines.length) (clean : w.Clean root)

include h known clean

/-- Of a step of a valid machine, neither the validation nor the last report tells of a transition. -/
theorem exists_told_step :
    ∃ s₀ : Stage, s₀.Stands w root (stack, t) ∧ s₀.journal.told = s.journal.told ∧
      (after SimM.step s).journal.told = (after SimM.startOrProceed s₀).journal.told := by
  obtain ⟨b, hvalidate, alike, good⟩ := h.validate_eq known
  rw [clean.pass h.sane known] at hvalidate
  have told : b.journal.told = s.journal.told :=
    ((SimM.Aloof.told s.journal.told).validate s.sim.machine).of_ok hvalidate rfl
  refine ⟨{ s with
      shop := b.shop, journal := b.journal,
      sim := { s.sim with stepCount := s.sim.stepCount + 1 } }, ?_, told, ?_⟩
  · exact ⟨h.alike.trans alike, good, h.here.machine,
      (alike.tracks h.here.tracks).congr rfl fun _ => rfl, h.here.tape⟩
  · rw [after_congr (SimM.step_of_valid hvalidate)]
    exact SimM.told_bind _ fun x _ => .bind .get fun _ =>
      .bind (SimM.preserves_observeTape _) fun _ => (SimM.Aloof.told x).tell rfl

/-- A step in which a machine starts tells of no transition. -/
theorem told_step_of_enter {i : MachineId} (enter : turn root stack = .enter i) :
    (after SimM.step s).journal.told = s.journal.told := by
  obtain ⟨s₀, h₀, before, told⟩ := h.exists_told_step known clean
  rw [told, ← before]
  have quiet := SimM.Aloof.told s₀.journal.told
  cases stack with
  | nil =>
    have idle := h₀.tracks.cursor_of_absent (m := s₀.sim.machine) fun f hf => by cases hf
    have starts : SimM.startOrProceed s₀ = SimM.start s₀ := by
      unfold SimM.startOrProceed
      rw [idle]
    rw [after_congr starts]
    exact quiet.start s₀ rfl
  | cons g below =>
    have focus := h₀.here.tracks.focus_of_enter h₀.good.sane
      (h₀.here.machine ▸ h₀.alike.length ▸ known) (h₀.here.machine ▸ enter)
    rw [after_congr h₀.startOrProceed_eq, SimM.proceed,
      after_congr (bind_of_ok (SimM.observe_of_ok focus))]
    exact quiet.enter g.state i s₀ rfl

variable {f : Frame} {below : List Frame} (move : turn root stack = .move f below)

include move

/-- What a step tells when it is some frame's turn to move is what the move tells. -/
theorem exists_told_act :
    ∃ s₀ : Stage, s₀.Stands w root (stack, t) ∧ s₀.journal.told = s.journal.told ∧
      (after SimM.step s).journal.told =
        (after (SimM.act f.machine f.state) s₀).journal.told := by
  obtain ⟨s₀, h₀, before, told⟩ := h.exists_told_step known clean
  obtain ⟨finished, focus⟩ := h₀.here.tracks.focus_of_move h₀.good.sane
    (h₀.here.machine ▸ h₀.alike.length ▸ known) (h₀.here.machine ▸ move)
  have proceeds : SimM.startOrProceed s₀ = SimM.proceed s₀ := by
    cases stack with
    | nil => cases move
    | cons g rest => exact h₀.startOrProceed_eq
  refine ⟨s₀, h₀, before, ?_⟩
  rw [told, after_congr proceeds, SimM.told_proceed focus]

/-- A step in which a frame moves tells of the transition that the frame takes. -/
theorem told_step_of_ok {tr : Transition} {q : State} {t' : Tape}
    (chosen : w.chosen f.machine f.state t = .ok (some tr)) (source : tr.source = f.state.id)
    (hgo : (w.machine f.machine).go f.state t = .ok (q, t')) :
    ∃ text, tr.action.text = .ok text ∧
      (after SimM.step s).journal.told =
        s.journal.told ++ [(f.state.label, q.label, text)] := by
  obtain ⟨s₀, h₀, before, told⟩ := h.exists_told_act known clean move
  have hf := h₀.here.tracks.stacked.live (mem_of_turn move)
  have rules := ((h₀.alike.clean root).mpr clean).rules
    (h₀.here.machine ▸ (h₀.here.tracks.stacked.of_turn (h₀.here.machine ▸ move)).path_root)
  rw [← h₀.go_eq] at hgo
  rw [← h₀.chosen_eq] at chosen
  have resolved := chosen
  rw [Workshop.chosen_eq (h₀.good.sane.arena _) hf, Except.ok.injEq] at resolved
  obtain ⟨s₁, hadvance, rep⟩ := SimM.advance_of_ok (h₀.good.sane.arena _) hgo
  obtain ⟨s₂, hact, -⟩ := SimM.act_of_ok h₀.good.sane (.of_tracks h₀.here.tracks) rules hf hgo
  obtain ⟨q₀, text, found, written, tells⟩ := SimM.told_act chosen (resolved ▸ hadvance) hact
  rw [rep.shop, source, stateAt_eq (h₀.good.sane.arena _) hf] at found
  cases found
  exact ⟨text, written, by rw [told, after_of_ok hact, tells, before]⟩

/-- A step in which a frame cannot move tells of no transition. -/
theorem told_step_of_error {e : Fault} (hgo : (w.machine f.machine).go f.state t = .error e) :
    (after SimM.step s).journal.told = s.journal.told := by
  obtain ⟨s₀, h₀, before, told⟩ := h.exists_told_act known clean move
  rw [← h₀.go_eq] at hgo
  obtain ⟨s₁, hadvance, -⟩ := SimM.advance_of_error h₀.good.sane (.of_tracks h₀.here.tracks) hgo
  have hf := h₀.here.tracks.stacked.live (mem_of_turn move)
  have chosen := Workshop.chosen_eq (h₀.good.sane.arena f.machine) hf s₀.tape
  rw [told, SimM.told_act_of_error chosen hadvance, before]

end Stage.Stands

/-! ## What happens between two stages -/

/-- A machine runs inside the state of another and has come to its end. -/
def Workshop.Finished (w : Workshop) (sim : Simulator) (m n : MachineId) : Prop :=
  w.RunsInside sim m n ∧ ∃ p, w.current? sim n = .ok (some p) ∧ p.isFinal = true

namespace Stage

/-- Machine `m` has taken a transition: it has gone to the target, the action was carried out on the
tape, and listeners were told of this transition and no other.  A machine that had finished inside `m`
has lost its cursor, and the other cursors are where they were. -/
structure Takes (s s' : Stage) (m : MachineId) (tr : Transition) : Prop where
  target : s'.sim.cursor? m = some tr.target
  others : ∀ n, n ≠ m → (s.shop.Finished s.sim m n → s'.sim.cursor? n = none) ∧
    (¬ s.shop.Finished s.sim m n → s'.sim.cursor? n = s.sim.cursor? n)
  tape : ∃ r : Reel, tr.action.perform ⟨s.tape, s.journal⟩ = .ok () r ∧ s'.tape = r.tape
  told : ∃ source target text, (s.shop.machine m).endpoint tr.source = .ok source ∧
    (s.shop.machine m).endpoint tr.target = .ok target ∧ tr.action.text = .ok text ∧
    s'.journal.told = s.journal.told ++ [(source.label, target.label, text)]

/-- Machine `i` has started: it had no cursor and is now on its start state.  The other cursors and
the tape are as they were, and listeners were told of no transition. -/
structure Starts (s s' : Stage) (i : MachineId) : Prop where
  idle : s.sim.cursor? i = none
  start : ∃ p, (s.shop.machine i).startState? = some p ∧ s'.sim.cursor? i = some p.id
  others : ∀ n, n ≠ i → s'.sim.cursor? n = s.sim.cursor? n
  tape : s'.tape = s.tape
  told : s'.journal.told = s.journal.told

/-- Nothing has moved, and listeners were told of no transition. -/
structure Rests (s s' : Stage) : Prop extends s.Unmoved s' where
  told : s'.journal.told = s.journal.told

end Stage

/-- A frame that moves has a finished machine inside exactly if there is a frame above it. -/
theorem Workshop.Tracks.finished_iff {w : Workshop} {sim : Simulator} {stack below : List Frame}
    {f : Frame} (h : w.Tracks sim stack) (sane : w.Sane)
    (move : turn sim.machine stack = .move f below) {n : MachineId} (other : n ≠ f.machine) :
    w.Finished sim f.machine n ↔ stack.head?.any (·.machine = n) = true := by
  obtain rfl | ⟨g, rfl, final⟩ := turn_eq_move move
  · refine ⟨?_, fun same => absurd (by simpa using same) other.symm⟩
    rintro ⟨⟨q, hq, inner⟩, p, hp, -⟩
    cases (h.current_of_mem sane (.head _)).symm.trans hq
    -- The machine inside the top frame does not run.
    rw [h.current_of_absent fun f' hf' => h.stacked.inner_absent sane.acyclic inner hf'] at hp
    cases hp
  · have current := h.current_of_mem sane (.tail g (.head below))
    have inner : f.state.submachine = some g.machine := h.stacked.2.1
    constructor
    · rintro ⟨⟨q, hq, inside⟩, -⟩
      cases current.symm.trans hq
      simpa using Option.some.inj (inner.symm.trans inside)
    · intro same
      obtain rfl : g.machine = n := by simpa using same
      exact ⟨⟨f.state, current, inner⟩, g.state, h.current_of_mem sane (.head _), final⟩

namespace Stage.Stands

open Workshop

variable {s : Stage} {w : Workshop} {root : MachineId} {stack : List Frame} {t : Tape}
  (h : s.Stands w root (stack, t)) (known : root.index < w.machines.length) (clean : w.Clean root)

include h known clean

/-- If it is some machine's turn to enter, it starts. -/
theorem starts {i : MachineId} (enter : turn root stack = .enter i) :
    outcome SimM.step s = .ok () ∧ s.Starts (after SimM.step s) i := by
  obtain ⟨p, start, gives, stands⟩ := h.step_of_enter known clean enter
  have cursor := h.tracks.cursor?_of_enter stands.tracks
  refine ⟨gives, ⟨?_, ⟨p, ?_, ?_⟩, fun n other => ?_, ?_, h.told_step_of_enter known clean enter⟩⟩
  · refine h.tracks.cursor_of_absent fun f hf => ?_
    obtain ⟨rfl, -⟩ | ⟨g, below, rfl, inner⟩ := turn_eq_enter enter
    · cases hf
    · exact h.stacked.inner_absent h.sane.acyclic inner hf
  · rw [h.alike.machine i]
    exact start
  · rw [cursor, if_pos rfl]
  · rw [cursor, if_neg other]
  · exact stands.here.tape.trans h.here.tape.symm

variable {f : Frame} {below : List Frame} (move : turn root stack = .move f below)

include move

/-- If it is some frame's turn to move and it can, its machine takes the transition. -/
theorem takes {tr : Transition} {q : State} {t' : Tape}
    (chosen : w.chosen f.machine f.state t = .ok (some tr)) (source : tr.source = f.state.id)
    (target : tr.target = q.id) (hq : q ∈ (w.machine f.machine).states)
    (effect : tr.action.effect t = .ok t')
    (hgo : (w.machine f.machine).go f.state t = .ok (q, t')) :
    outcome SimM.step s = .ok () ∧ s.Takes (after SimM.step s) f.machine tr := by
  obtain ⟨gives, stands⟩ := h.step_of_move known clean move
  rw [hgo] at gives stands
  obtain ⟨text, written, told⟩ := h.told_step_of_ok known clean move chosen source hgo
  have cursor := h.here.tracks.cursor?_of_move h.good.sane.acyclic
    (h.alike.tracks stands.tracks) (h.here.machine ▸ move)
  have arena := h.good.sane.arena f.machine
  have hf := h.here.tracks.stacked.live (mem_of_turn move)
  refine ⟨gives, ?_, fun n other => ?_, ?_, f.state, q, text, source ▸ arena.endpoint_eq hf,
    target ▸ arena.endpoint_eq (h.alike.states _ ▸ hq), written, told⟩
  · rw [cursor, if_pos rfl, target]
  · rw [h.here.tracks.finished_iff h.good.sane (h.here.machine ▸ move) other, cursor, if_neg other]
    exact ⟨fun finished => if_pos finished, fun running => if_neg running⟩
  · obtain ⟨j, performs⟩ := tr.action.perform_eq s.tape s.journal
    rw [h.here.tape, effect] at performs
    exact ⟨⟨t', j⟩, h.here.tape ▸ performs, stands.here.tape⟩

/-- If it is some frame's turn to move and it cannot, nothing happens. -/
theorem rests {e : Fault} (hgo : (w.machine f.machine).go f.state t = .error e) :
    outcome SimM.step s = .error e ∧ s.Rests (after SimM.step s) := by
  obtain ⟨gives, stands⟩ := h.step_of_move known clean move
  rw [hgo] at gives stands
  exact ⟨gives, h.unmoved stands known, h.told_step_of_error known clean move hgo⟩

end Stage.Stands

namespace Workshop

variable {w : Workshop} {m : MachineId}

/-- **The transition that is foretold is the one that is taken.**  Whatever was asked of a simulator of
a valid Turing machine since it was made: if it foretells a transition, that belongs to a running
machine, and the next step takes it, or fails without doing anything since it leads past the start of
the tape.  If it foretells none, the next step takes none: the outermost machine starts, or a machine
inside the state of a running one does, or the step fails for want of a transition. -/
theorem preview_is_exact (h : w.Reachable) (hm : m.index < w.machines.length)
    (turing : (w.machine m).kind = .turing) {j₀ : Journal}
    (valid : outcome (Work.validate m) ⟨w, j₀⟩ = .ok ()) (t : Tape) (j : Journal)
    (calls : List Call) :
    let s := Call.performAll calls (.fresh w m t j)
    let s' := after SimM.step s
    ∃ next, s.shop.nextTransition s.sim s.tape = .ok next ∧
      match next with
      | some tr =>
        ∃ n, tr ∈ (w.machine n).transitions ∧ s.sim.cursor? n = some tr.source ∧
          (outcome SimM.step s = .ok () ∧ s.Takes s' n tr ∨
            outcome SimM.step s = .error (.machine .tapeBounds) ∧
              (∃ inp out, tr.action = .turing .left inp out) ∧ s.tape.head = 0 ∧ s.Rests s')
      | none =>
        (outcome SimM.step s = .ok () ∧ s.Starts s' m) ∨
        (∃ n i, s.shop.RunsInside s.sim n i ∧ outcome SimM.step s = .ok () ∧ s.Starts s' i) ∨
        (∃ f, outcome SimM.step s = .error (.machine f) ∧ s.Rests s' ∧
          ((∃ name label, f = .halted name label) ∨
            ∃ parked final, f = .undefinedTransition parked final)) := by
  intro s s'
  have clean := h.good.clean_of_valid hm valid
  obtain ⟨⟨stack, t'⟩, stands⟩ : s.Standing w m := h.standing hm t j calls
  have foretold := stands.nextTransition_eq hm
  cases hturn : turn m stack with
  | enter i =>
    rw [hturn] at foretold
    refine ⟨none, foretold, ?_⟩
    obtain ⟨gives, starts⟩ := stands.starts hm clean hturn
    obtain ⟨-, rfl⟩ | ⟨g, below, rfl, inner⟩ := turn_eq_enter hturn
    · exact .inl ⟨gives, starts⟩
    · have current := stands.here.tracks.current_of_mem stands.good.sane (.head _)
      exact .inr (.inl ⟨g.machine, i, ⟨g.state, current, inner⟩, gives, starts⟩)
  | move f below =>
    rw [hturn] at foretold
    have hf := stands.stacked.live (mem_of_turn hturn)
    have fit := Fit.of_path ⟨turing, clean⟩ stands.sane (stands.stacked.of_turn hturn).path_root
    have cursor := stands.tracks.cursor_of_mem (mem_of_turn hturn)
    have owned {tr : Transition} (chosen : w.chosen f.machine f.state t' = .ok (some tr)) :
        tr ∈ (w.machine f.machine).transitions := by
      rw [chosen_eq (stands.sane.arena _) hf, Except.ok.injEq] at chosen
      exact Machine.mem_of_choice? chosen
    obtain ⟨tr, q, t₁, chosen, source, target, hq, effect, hgo⟩ |
      ⟨tr, inp, out, chosen, source, action, parked, hgo⟩ | ⟨chosen, hgo⟩ :=
      fit.go_cases stands.sane hf t'
    · exact ⟨some tr, foretold.trans chosen, f.machine, owned chosen, source ▸ cursor,
        .inl (stands.takes hm clean hturn chosen source target hq effect hgo)⟩
    · obtain ⟨gives, rests⟩ := stands.rests hm clean hturn hgo
      exact ⟨some tr, foretold.trans chosen, f.machine, owned chosen, source ▸ cursor,
        .inr ⟨gives, ⟨inp, out, action⟩, stands.here.tape ▸ parked, rests⟩⟩
    · obtain ⟨gives, rests⟩ := stands.rests hm clean hturn hgo
      refine ⟨none, foretold.trans chosen, .inr (.inr ⟨_, gives, rests, ?_⟩)⟩
      unfold Machine.turingStop
      split
      · exact .inl ⟨_, _, rfl⟩
      · exact .inr ⟨_, _, rfl⟩

/-- With three machines running and the innermost one finished, the one in the middle foretells its move
and takes it. -/
theorem threeLevels_takes_what_it_foretells :
    let s := Call.performAll [.run 3 0] (.fresh threeLevels.shop ⟨0⟩ (.ofText "10") Journal.empty)
    threeLevels.shop.Reachable ∧ s.sim.cursor? ⟨2⟩ = some 0 ∧
    ∃ tr n, s.shop.nextTransition s.sim s.tape = .ok (some tr) ∧
      outcome SimM.step s = .ok () ∧ s.Takes (after SimM.step s) n tr := by
  intro s
  have valid : outcome (Work.validate ⟨0⟩) ⟨threeLevels.shop, Journal.empty⟩ = .ok () :=
    eq_ok_of_toOption (by decide +kernel)
  have foretells : (s.shop.nextTransition s.sim s.tape).toOption.join.isSome = true := by
    decide +kernel
  have succeeds : outcome SimM.step s = .ok () := eq_ok_of_toOption (by decide +kernel)
  obtain ⟨next, hnext, agrees⟩ := preview_is_exact threeLevels_reachable (m := ⟨0⟩) (by decide +kernel)
    (by decide +kernel) valid (.ofText "10") Journal.empty [.run 3 0]
  refine ⟨threeLevels_reachable, by decide +kernel, ?_⟩
  cases next with
  | none =>
    rw [show s.shop.nextTransition s.sim s.tape = .ok none from hnext] at foretells
    cases foretells
  | some tr =>
    obtain ⟨n, -, -, ⟨gives, takes⟩ | ⟨fails, -⟩⟩ := agrees
    · exact ⟨tr, n, hnext, gives, takes⟩
    · cases succeeds.symm.trans fails

end Workshop

end MachineLab
