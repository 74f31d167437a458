import MachineLab.Proofs.Execution
import MachineLab.Proofs.Sessions

/-!
# Stepping and running

A session can be driven in two ways: a user takes single steps until the session says that the
computation cannot go on, or lets it run without a budget.  The two find out about the end in different
ways.  A session that takes a step looks at the fault that the step ended with, and then at whether the
machine has halted; a run looks at whether the machine has halted before every step, and has its own
view of faults.  They agree all the same, for every machine, be it valid or not.

Both are compared with one way of going from place to place, where a place is a stack, a tape and the
number of steps taken: `Workshop.drive`.

## Main definitions

* `Journal.verdicts` — what listeners were told about how computations ended.
* `Workshop.closing`, `Workshop.drive` — what a step leads to, and what steps lead to.
* `SessionM.stepAll` — steps until the computation cannot go on.

## Main statements

* `Office.InPlace.step_eq` — a step of a session goes to the next place.
* `Office.InPlace.stepAll_eq`, `Office.InPlace.run_eq` — steps and runs lead where `Workshop.drive` says.
* `Office.steps_and_runs_agree` — driving a session in the two ways gives the same.
-/

namespace MachineLab

/-! ## Verdicts -/

/-- How a computation ended: with an error, or with a halt that accepts or not. -/
abbrev Verdict := Except String Bool

/-- The verdict that an event is about. -/
def Event.verdict? : Event → Option Verdict
  | .simulationError message => some (.error message)
  | .simulationHalted accepted _ => some (.ok accepted)
  | _ => none

namespace Journal

/-- The verdicts that listeners were told, the oldest first. -/
def verdicts (j : Journal) : List Verdict := j.events.toList.filterMap Event.verdict?

theorem verdicts_tell (j : Journal) (e : Event) :
    (j.tell e).verdicts = j.verdicts ++ e.verdict?.toList := by
  unfold verdicts tell
  cases he : e.verdict? <;> simp [List.filterMap_append, he]

theorem verdicts_append (j k : Journal) : (j.append k).verdicts = j.verdicts ++ k.verdicts := by
  simp [verdicts, append]

/-- Simulators give no verdicts. -/
theorem verdicts_silenceSimulators (j : Journal) : j.silenceSimulators.verdicts = j.verdicts := by
  have deaf (e : Event) : (if e.isSimulator = false then e.verdict? else none) = e.verdict? := by
    cases e <;> rfl
  simp [verdicts, silenceSimulators, List.filterMap_filter, deaf]

end Journal

/-- Work with a simulator gives no verdicts. -/
theorem SimM.kept_verdicts (x : List Verdict) : Kept fun s => s.journal.verdicts = x where
  update _ _ := .modify fun _ h => h
  judge _ := .modify fun _ h => h
  tell _ := .modify fun s h => (s.journal.verdicts_tell _).trans ((List.append_nil _).trans h)
  record _ _ := .modify fun _ h => h
  onTape machine q tr? := by
    intro s h
    have quiet (op : Tape.Op) :
        Preserves (fun r : Reel => r.journal.verdicts = x) (Tape.perform op) :=
      Tape.quiet_perform (fun _ => rfl) op
    have kept := machine.preserves_advance quiet q tr? ⟨s.tape, s.journal⟩ h
    unfold after at kept
    unfold after SimM.onTape
    cases hwork : machine.advance q tr? ⟨s.tape, s.journal⟩ <;> rw [hwork] at kept <;> exact kept
  validate m := by
    intro s h
    have silent := Work.silent_validate m ⟨s.shop, s.journal⟩ rfl
    unfold after at silent
    unfold after SimM.inShop
    cases hwork : Work.validate m ⟨s.shop, s.journal⟩ <;> rw [hwork] at silent <;>
      exact (congrArg (·.toList.filterMap Event.verdict?) silent).trans h

/-! ## From place to place -/

/-- Where a simulator is: its stack and its tape, and how many steps it has counted. -/
structure Place where
  here : List Frame × Tape
  count : Nat

namespace Workshop

variable (w : Workshop) (root : MachineId)

/-- Whether the outermost machine has halted with the given stack and tape. -/
def haltsAt (c : List Frame × Tape) : Bool :=
  haltedIn (w.machine root).kind (c.1.getLast?.map (·.state)) c.2

/-- Whether it has halted and accepted. -/
def acceptsAt (c : List Frame × Tape) : Bool :=
  acceptedIn (w.machine root).kind (c.1.getLast?.map (·.state)) c.2

/-- Where a step leads.  A step of a machine that is not valid is not counted. -/
def nextPlace (p : Place) : Place :=
  { here := landing (w.stepResult root p.here) p.here
    count := if (verdict (w.defectOf root)).isOk then p.count + 1 else p.count }

/-- What a step that was stopped by a machine fault says about the computation. -/
def faultVerdict (c : List Frame × Tape) (f : MachineFault) : Verdict :=
  if f.isCompletion then .ok (w.acceptsAt root c) else if f.isFailure then .ok false
  else .error f.message

/-- What a step that was stopped by a fault leads to.  Faults other than machine faults escape. -/
def faultClosing (c : List Frame × Tape) : Fault → Except Fault Verdict
  | .machine f => .ok (w.faultVerdict root c f)
  | e => .error e

/-- The verdict that a step leads to, if the computation does not go on after it. -/
def closing (p : Place) : Except Fault (Option Verdict) :=
  match w.stepResult root p.here with
  | .ok c => .ok (if w.haltsAt root c then some (.ok (w.acceptsAt root c)) else none)
  | .error e => (w.faultClosing root p.here e).map some

/-- Take steps until the computation does not go on; says how it ended, and where. -/
def drive : Nat → Place → Option (Except Fault Verdict × Place)
  | 0, _ => none
  | n + 1, p =>
    match w.closing root p with
    | .ok none => drive n (w.nextPlace root p)
    | .ok (some v) => some (.ok v, w.nextPlace root p)
    | .error e => some (.error e, w.nextPlace root p)

variable {w root} {n : Nat} {p : Place}

theorem drive_of_ok {c : List Frame × Tape} (h : w.stepResult root p.here = .ok c)
    (running : w.haltsAt root c = false) :
    w.drive root (n + 1) p = w.drive root n (w.nextPlace root p) := by
  simp [drive, closing, h, running]

theorem drive_of_halt {c : List Frame × Tape} (h : w.stepResult root p.here = .ok c)
    (halted : w.haltsAt root c = true) :
    w.drive root (n + 1) p = some (.ok (.ok (w.acceptsAt root c)), w.nextPlace root p) := by
  simp [drive, closing, h, halted]

theorem drive_of_error {e : Fault} (h : w.stepResult root p.here = .error e) :
    w.drive root (n + 1) p = some (w.faultClosing root p.here e, w.nextPlace root p) := by
  simp only [drive, closing, h]
  cases w.faultClosing root p.here e <;> rfl

/-- Steps lead to one end only. -/
theorem drive_unique {n' : Nat} {x x' : Except Fault Verdict × Place}
    (h : w.drive root n p = some x) (h' : w.drive root n' p = some x') : x = x' := by
  induction n generalizing p n' with
  | zero => cases h
  | succ n ih =>
    cases n' with
    | zero => cases h'
    | succ n' =>
      unfold drive at h h'
      cases hclosing : w.closing root p with
      | error e =>
        rw [hclosing] at h h'
        cases h
        cases h'
        rfl
      | ok v? =>
        rw [hclosing] at h h'
        cases v? with
        | none => exact ih h h'
        | some v =>
          cases h
          cases h'
          rfl

end Workshop

/-! ## Places of simulators -/

/-- A simulator of `root` is at a place, with a verdict on its last budget. -/
structure Stage.InPlace (s : Stage) (w : Workshop) (root : MachineId) (exhausted : Bool) (p : Place) :
    Prop where
  stands : s.Stands w root p.here
  tally : s.sim.tally = (p.count, exhausted)

namespace Stage.InPlace

variable {s : Stage} {w : Workshop} {root : MachineId} {b : Bool} {p : Place}

theorem halted_eq (h : s.InPlace w root b p) : SimM.halted s = .ok (w.haltsAt root p.here) s :=
  SimM.observeTape_of_ok h.stands.isHalted_eq

theorem accepted_eq (h : s.InPlace w root b p) : SimM.accepted s = .ok (w.acceptsAt root p.here) s :=
  SimM.observeTape_of_ok h.stands.isAccepted_eq

theorem journal (h : s.InPlace w root b p) (j : Journal) :
    ({ s with journal := j } : Stage).InPlace w root b p :=
  ⟨h.stands.reported ⟨rfl, rfl, rfl, rfl⟩, h.tally⟩

/-- **A step goes to the next place.** -/
theorem step_eq (h : s.InPlace w root b p) (known : root.index < w.machines.length) :
    ∃ s', SimM.step s = conclude ((w.stepResult root p.here).map fun _ => ()) s' ∧
      s'.InPlace w root b (w.nextPlace root p) := by
  obtain ⟨s', hstep, stands⟩ := h.stands.step_eq known
  refine ⟨s', hstep, stands, ?_⟩
  have count := congrArg Prod.fst h.tally
  have exhausted := congrArg Prod.snd h.tally
  cases hverdict : Workshop.verdict (w.defectOf root) with
  | ok u =>
    have tally := h.stands.tally_step known hverdict
    rw [after_of_conclude hstep] at tally
    rw [tally]
    simp only [Workshop.nextPlace, hverdict, Except.isOk, Except.toBool, if_true]
    exact Prod.ext (congrArg (· + 1) count) exhausted
  | error e =>
    -- A machine that is not valid is not touched.
    obtain ⟨bench, hvalidate, -, -⟩ := h.stands.validate_eq known
    rw [hverdict] at hvalidate
    have same := after_of_conclude hstep
    rw [after_of_error (SimM.step_of_invalid hvalidate)] at same
    rw [← same]
    simp only [Workshop.nextPlace, hverdict, Except.isOk, Except.toBool]
    exact h.tally

end Stage.InPlace

/-- The simulator of a session is at a place. -/
def Office.InPlace (o : Office) (w : Workshop) (root : MachineId) (exhausted : Bool) (p : Place) : Prop :=
  ∃ sim, o.session.simulator = some sim ∧ (o.stage sim).InPlace w root exhausted p

/-! ## What a session publishes -/

namespace SessionM

variable {o : Office} {w : Workshop} {root : MachineId} {b : Bool} {p : Place}

theorem announceStart_eq (sim : Simulator) (o : Office) :
    ∃ j, announceStart sim o = .ok () { o with journal := j } ∧ j.verdicts = o.journal.verdicts := by
  unfold announceStart
  split
  · exact ⟨_, rfl, (Journal.verdicts_tell _ _).trans (List.append_nil _)⟩
  · exact ⟨_, rfl, rfl⟩

theorem publishHalt_eq (accepted : Bool) (message : String) (o : Office) :
    ∃ j, publishHalt accepted message o = .ok () { o with journal := j } ∧
      j.verdicts = o.journal.verdicts ++ [.ok accepted] :=
  ⟨_, rfl, Journal.verdicts_tell _ _⟩

theorem publishError_eq (f : MachineFault) (o : Office) :
    ∃ j, publishError f o = .ok () { o with journal := j } ∧
      j.verdicts = o.journal.verdicts ++ [.error f.message] :=
  ⟨_, rfl, Journal.verdicts_tell _ _⟩

theorem observe_eq {α : Type} {f : Workshop → Simulator → Tape → Except Fault α} {sim : Simulator}
    (loaded : o.session.simulator = some sim) {a : α} (h : f o.shop sim o.session.tape = .ok a) :
    observe f o = .ok a o := by
  unfold observe
  rw [bind_of_ok (get_apply o), loaded]
  simp only [Option.getD_some, h]
  rfl

end SessionM

namespace Office.InPlace

open SessionM

variable {o : Office} {w : Workshop} {root : MachineId} {b : Bool} {p : Place}

theorem journal (h : o.InPlace w root b p) (j : Journal) :
    ({ o with journal := j } : Office).InPlace w root b p := h

theorem halted_eq (h : o.InPlace w root b p) :
    observe Workshop.isHalted o = .ok (w.haltsAt root p.here) o := by
  obtain ⟨sim, loaded, place⟩ := h
  exact observe_eq loaded place.stands.isHalted_eq

theorem accepted_eq (h : o.InPlace w root b p) :
    observe Workshop.isAccepted o = .ok (w.acceptsAt root p.here) o := by
  obtain ⟨sim, loaded, place⟩ := h
  exact observe_eq loaded place.stands.isAccepted_eq

theorem exists_configuration (h : o.InPlace w root b p) (known : root.index < w.machines.length) :
    ∃ text, observe Workshop.configuration o = .ok text o := by
  obtain ⟨sim, loaded, place⟩ := h
  exact ⟨_, observe_eq loaded (place.stands.configuration_eq known)⟩

theorem exists_haltMessage (h : o.InPlace w root b p) : ∃ text, haltMessage o = .ok text o := by
  have accepted := h.accepted_eq
  obtain ⟨sim, loaded, place⟩ := h
  obtain ⟨name, hname⟩ :=
    (Workshop.Live.of_tracks place.stands.here.tracks).exists_stateName place.stands.good.sane
  unfold haltMessage
  rw [bind_of_ok (get_apply o)]
  simp only [loaded, Option.getD_some]
  rw [show o.shop.stateName sim = .ok name from hname,
    bind_of_ok (show ofExcept (.ok name) o = .ok name o from rfl)]
  cases (o.shop.machine sim.machine).kind with
  | turing => exact ⟨_, rfl⟩
  | acceptor => exact ⟨_, bind_of_ok accepted⟩

/-- A step that went well is published with the configuration, and with the halt that it led to. -/
theorem publishStep_ok (h : o.InPlace w root b p) (known : root.index < w.machines.length) :
    ∃ j, publishStep (.ok ()) o = .ok (!w.haltsAt root p.here) { o with journal := j } ∧
      j.verdicts = o.journal.verdicts ++
        (if w.haltsAt root p.here then some (.ok (w.acceptsAt root p.here)) else none).toList := by
  obtain ⟨text, htext⟩ := h.exists_configuration known
  have told : tell (.configurationChanged text) o =
      .ok () { o with journal := o.journal.tell (.configurationChanged text) } := rfl
  have verdicts := (o.journal.verdicts_tell (.configurationChanged text)).trans (List.append_nil _)
  have place := h.journal (o.journal.tell (.configurationChanged text))
  simp only [publishStep]
  rw [bind_of_ok htext, bind_of_ok told, bind_of_ok place.halted_eq]
  cases w.haltsAt root p.here with
  | false => exact ⟨_, rfl, verdicts.trans (List.append_nil _).symm⟩
  | true =>
    obtain ⟨message, hmessage⟩ := place.exists_haltMessage
    obtain ⟨j, published, news⟩ := publishHalt_eq (w.acceptsAt root p.here) message
      { o with journal := o.journal.tell (.configurationChanged text) }
    refine ⟨j, ?_, news.trans (congrArg (· ++ _) verdicts)⟩
    simp only [if_true]
    rw [bind_of_ok place.accepted_eq, bind_of_ok hmessage, bind_of_ok published]
    rfl

theorem publishStep_error (h : o.InPlace w root b p) (f : MachineFault) :
    ∃ j, publishStep (.error f) o = .ok false { o with journal := j } ∧
      j.verdicts = o.journal.verdicts ++ [w.faultVerdict root p.here f] := by
  simp only [publishStep, Workshop.faultVerdict]
  split
  · obtain ⟨j, published, news⟩ := publishHalt_eq (w.acceptsAt root p.here) f.message o
    refine ⟨j, ?_, news⟩
    rw [bind_of_ok h.accepted_eq, bind_of_ok published]
    rfl
  · split
    · obtain ⟨j, published, news⟩ := publishHalt_eq false f.message o
      exact ⟨j, bind_of_ok published, news⟩
    · obtain ⟨j, published, news⟩ := publishError_eq f o
      exact ⟨j, bind_of_ok published, news⟩

/-- What a session has of its simulator once that has worked. -/
theorem store {s : Stage} (h : s.InPlace w root b p) : (o.store s).InPlace w root b p :=
  ⟨s.sim, rfl, h.journal .empty⟩

end Office.InPlace

/-- Listeners hear no verdict while a simulator works. -/
theorem Office.verdicts_store {α : Type} {work : SimM α}
    (quiet : Preserves (fun s : Stage => s.journal.verdicts = []) work) (o : Office) (sim : Simulator) :
    (o.store (after work (o.stage sim))).journal.verdicts = o.journal.verdicts := by
  have none := quiet (o.stage sim) rfl
  unfold Office.store
  rw [Journal.verdicts_append, Journal.verdicts_silenceSimulators, none, List.append_nil]

/-! ## Single steps -/

namespace SessionM

/-- Take steps until the computation cannot go on; says whether it came to that before patience ran
out. -/
def stepAll : Nat → SessionM Bool
  | 0 => return false
  | patience + 1 => do if ← step then stepAll patience else return true

end SessionM

namespace Office.InPlace

open SessionM

variable {o : Office} {w : Workshop} {root : MachineId} {b : Bool} {p : Place}

/-- **A step of a session goes to the next place**, says whether the computation can go on, and tells
the verdict if it cannot. -/
theorem step_eq (h : o.InPlace w root b p) (known : root.index < w.machines.length) :
    ∃ o', step o = conclude ((w.closing root p).map (·.isNone)) o' ∧
      o'.InPlace w root b (w.nextPlace root p) ∧
      ∀ v?, w.closing root p = .ok v? → o'.journal.verdicts = o.journal.verdicts ++ v?.toList := by
  obtain ⟨sim, loaded, place⟩ := h
  obtain ⟨j, announced, quiet⟩ := announceStart_eq sim o
  obtain ⟨s', hstep, place'⟩ := place.step_eq known
  have attempted := attempt_eq sim SimM.step { o with journal := j }
  have verdicts := Office.verdicts_store (SimM.kept_verdicts []).step { o with journal := j } sim
  rw [show ({ o with journal := j } : Office).stage sim = o.stage sim from rfl,
    outcome_of_conclude hstep, after_of_conclude hstep] at attempted
  rw [show ({ o with journal := j } : Office).stage sim = o.stage sim from rfl,
    after_of_conclude hstep] at verdicts
  rw [step_of_loaded loaded, bind_of_ok announced]
  generalize hstore : ({ o with journal := j } : Office).store s' = o₁ at attempted verdicts
  have stored : o₁.InPlace w root b (w.nextPlace root p) := hstore ▸ store place'
  have news : o₁.journal.verdicts = o.journal.verdicts := verdicts.trans quiet
  unfold Workshop.closing
  cases hresult : w.stepResult root p.here with
  | ok c =>
    rw [hresult] at attempted
    rw [bind_of_ok attempted]
    obtain ⟨j', published, told⟩ := stored.publishStep_ok known
    have there : (w.nextPlace root p).here = c := by
      simp only [Workshop.nextPlace, hresult, Workshop.landing]
    rw [there] at published told
    refine ⟨{ o₁ with journal := j' }, ?_, stored, ?_⟩
    · simp only [published]
      cases w.haltsAt root c <;> rfl
    · rintro _ ⟨⟩
      exact told.trans (congrArg (· ++ _) news)
  | error e =>
    rw [hresult] at attempted
    have there : (w.nextPlace root p).here = p.here := by
      simp only [Workshop.nextPlace, hresult, Workshop.landing]
    cases e with
    | machine f =>
      rw [bind_of_ok attempted]
      obtain ⟨j', published, told⟩ := stored.publishStep_error f
      rw [there] at told
      refine ⟨{ o₁ with journal := j' }, published, stored, ?_⟩
      rintro _ ⟨⟩
      exact told.trans (congrArg (· ++ _) news)
    | refusal cause =>
      refine ⟨o₁, bind_of_error attempted, stored, ?_⟩
      rintro _ ⟨⟩
    | mismatch cause =>
      refine ⟨o₁, bind_of_error attempted, stored, ?_⟩
      rintro _ ⟨⟩

/-- Steps lead nowhere else than `Workshop.drive` says. -/
theorem stepAll_eq (h : o.InPlace w root b p) (known : root.index < w.machines.length) (n : Nat) :
    match w.drive root n p with
    | none => outcome (stepAll n) o = .ok false
    | some (v, p') => ∃ o', stepAll n o = conclude (v.map fun _ => true) o' ∧ o'.InPlace w root b p' ∧
        ∀ u, v = .ok u → o'.journal.verdicts = o.journal.verdicts ++ [u] := by
  induction n generalizing o p with
  | zero => rfl
  | succ n ih =>
    obtain ⟨o₁, hstep, place, news⟩ := h.step_eq known
    unfold Workshop.drive
    cases hclosing : w.closing root p with
    | error e =>
      rw [hclosing] at hstep
      refine ⟨o₁, bind_of_error hstep, place, ?_⟩
      rintro _ ⟨⟩
    | ok v? =>
      rw [hclosing] at hstep
      cases v? with
      | some v =>
        refine ⟨o₁, bind_of_ok hstep, place, ?_⟩
        rintro _ ⟨⟩
        exact news _ hclosing
      | none =>
        have goesOn : stepAll (n + 1) o = stepAll n o₁ := bind_of_ok hstep
        have quiet : o₁.journal.verdicts = o.journal.verdicts :=
          (news _ hclosing).trans (List.append_nil _)
        simp only [goesOn, outcome_congr goesOn, ← quiet]
        exact ih place

end Office.InPlace

/-! ## Runs -/

namespace Stage.InPlace

open SimM

variable {s : Stage} {w : Workshop} {root : MachineId} {b : Bool} {p : Place}

/-- How the steps of a run ended, as a verdict. -/
def Closes (w : Workshop) (root : MachineId) (c : List Frame × Tape) (v : Except Fault Verdict) :
    Except Fault RunEnd → Prop
  | .ok (.stopped _) => w.haltsAt root c = true ∧ v = .ok (.ok (w.acceptsAt root c))
  | .ok (.completed _) => v = .ok (.ok (w.acceptsAt root c))
  | .ok (.failed _ _) => v = .ok (.ok false)
  | .ok .unfinished => False
  | .error (.machine f) => v = .ok (.error f.message)
  | .error e => v = .error e

/-- A step that is stopped by a fault ends a run with what the fault leads to. -/
theorem loop_of_fault {s₁ : Stage} {e : Fault} {c : List Frame × Tape} (running : halted s = .ok false s)
    (hstep : step s = .error e s₁) (n count : Nat) :
    ∃ result, loop 0 (n + 1) count s = conclude result s₁ ∧
      Closes w root c (w.faultClosing root c e) result := by
  have escape (hattempt : attempt s = .error e s₁) : loop 0 (n + 1) count s = .error e s₁ := by
    rw [loop, bind_of_ok running]
    simp only [Bool.false_eq_true, if_false]
    rw [bind_of_error hattempt]
  cases e with
  | refusal cause => exact ⟨.error (.refusal cause), escape (by rw [attempt, hstep]), rfl⟩
  | mismatch cause => exact ⟨.error (.mismatch cause), escape (by rw [attempt, hstep]), rfl⟩
  | machine f =>
    cases ends : f.isCompletion || f.isFailure with
    | false =>
      refine ⟨.error (.machine f), loop_of_error running hstep ends count, ?_⟩
      obtain ⟨goesOn, goesOn'⟩ := Bool.or_eq_false_iff.mp ends
      simp [Closes, Workshop.faultClosing, Workshop.faultVerdict, goesOn, goesOn']
    | true =>
      refine ⟨.ok _, loop_of_report running hstep ends count, ?_⟩
      cases completion : f.isCompletion with
      | true => simp [Closes, Workshop.faultClosing, Workshop.faultVerdict, completion]
      | false =>
        have failure : f.isFailure = true := by simpa [completion] using ends
        simp [Closes, Workshop.faultClosing, Workshop.faultVerdict, completion, failure]

/-- The steps of a run lead where `Workshop.drive` says, unless patience runs out before the run has
seen the end. -/
theorem loop_eq (h : s.InPlace w root b p) (known : root.index < w.machines.length)
    (running : w.haltsAt root p.here = false) (n count : Nat) :
    (outcome (loop 0 n count) s = .ok .unfinished ∧ ∀ k < n, w.drive root k p = none) ∨
    ∃ result s' v p', loop 0 n count s = conclude result s' ∧ w.drive root n p = some (v, p') ∧
      s'.InPlace w root b p' ∧ Closes w root p'.here v result := by
  -- A run looks for the halt before each step and `drive` after it, so `running` is carried along.
  induction n generalizing s p count with
  | zero => exact .inl ⟨rfl, fun _ hk => absurd hk (Nat.not_lt_zero _)⟩
  | succ n ih =>
    obtain ⟨s₁, hstep, place⟩ := h.step_eq known
    have halted : SimM.halted s = .ok false s := running ▸ h.halted_eq
    cases hresult : w.stepResult root p.here with
    | error e =>
      rw [hresult] at hstep
      obtain ⟨result, hloop, closes⟩ := loop_of_fault halted hstep n count
      have there : (w.nextPlace root p).here = p.here := by
        simp only [Workshop.nextPlace, hresult, Workshop.landing]
      refine .inr ⟨result, s₁, _, _, hloop, Workshop.drive_of_error hresult, place, ?_⟩
      rw [there]
      exact closes
    | ok c =>
      rw [hresult] at hstep
      have there : (w.nextPlace root p).here = c := by
        simp only [Workshop.nextPlace, hresult, Workshop.landing]
      have goesOn : loop 0 (n + 1) count s = loop 0 n (count + 1) s₁ := loop_of_ok halted hstep count
      cases halts : w.haltsAt root c with
      | false =>
        have drives (k : Nat) := Workshop.drive_of_ok (n := k) hresult halts
        rcases ih place (there ▸ halts) (count + 1) with ⟨unfinished, early⟩ | ended
        · refine .inl ⟨(outcome_congr goesOn).trans unfinished, fun k hk => ?_⟩
          cases k with
          | zero => rfl
          | succ k => exact (drives k).trans (early k (Nat.lt_of_succ_lt_succ hk))
        · rw [goesOn, drives n]
          exact .inr ended
      | true =>
        cases n with
        | zero =>
          refine .inl ⟨outcome_congr goesOn, fun k hk => ?_⟩
          obtain rfl := Nat.lt_one_iff.mp hk
          rfl
        | succ n =>
          -- The run sees the halt before the next step.
          have seen : SimM.halted s₁ = .ok true s₁ := by
            rw [place.halted_eq, there, halts]
          refine .inr ⟨.ok (.stopped (count + 1)), s₁, _, _, ?_, Workshop.drive_of_halt hresult halts,
            place, ?_⟩
          · rw [goesOn]
            exact loop_of_halted seen (count + 1)
          · rw [there]
            exact ⟨halts, rfl⟩

/-- What a run gives, to one who catches machine faults, is a verdict. -/
def Gives (result : Except Fault (Option Bool)) (v : Except Fault Verdict) : Prop :=
  (SessionM.caught result).map (·.mapError MachineFault.message) = v.map (·.map some)

/-- A run without a budget leads where `Workshop.drive` says, unless patience runs out before it has
seen the end.  It leaves the verdict that its budget was not used up. -/
theorem run_eq (h : s.InPlace w root b p) (known : root.index < w.machines.length)
    (running : w.haltsAt root p.here = false) (n : Nat) :
    (outcome (run 0 n) s = .ok none ∧ ∀ k < n, w.drive root k p = none) ∨
    ∃ result s' v p', run 0 n s = conclude result s' ∧ w.drive root n p = some (v, p') ∧
      s'.InPlace w root false p' ∧ Gives result v := by
  let begun : Stage := { s with sim := { s.sim with budgetExhausted := false } }
  have count : s.sim.stepCount = p.count := congrArg Prod.fst h.tally
  have place : begun.InPlace w root false p :=
    ⟨h.stands.reported ⟨rfl, rfl, rfl, rfl⟩, Prod.ext count rfl⟩
  rcases place.loop_eq known running n 0 with
    ⟨unfinished, early⟩ | ⟨result, s₁, v, p', hloop, hdrive, place', closes⟩
  · refine .inl ⟨?_, early⟩
    have hloop := eq_conclude (loop 0 n 0) begun
    rw [unfinished] at hloop
    exact outcome_of_ok ((bind_of_ok rfl).trans (bind_of_ok hloop))
  · refine .inr ?_
    cases result with
    | error e =>
      refine ⟨.error e, s₁, v, p', (bind_of_ok rfl).trans (bind_of_error hloop), hdrive, place', ?_⟩
      cases e <;> cases closes <;> rfl
    | ok ending =>
      cases ending with
      | unfinished => exact closes.elim
      | stopped k =>
        obtain ⟨halts, rfl⟩ := closes
        obtain ⟨j, hrun⟩ := run_of_stopped hloop (halts ▸ place'.halted_eq) place'.accepted_eq
        exact ⟨.ok (some _), _, _, p', hrun, hdrive, place'.journal j, rfl⟩
      | completed k =>
        cases closes
        obtain ⟨j, hrecord⟩ := recordEnd_eq k (w.acceptsAt root p'.here) s₁
        refine ⟨.ok (some _), _, _, p', ?_, hdrive, place'.journal j, rfl⟩
        refine (bind_of_ok rfl).trans ((bind_of_ok hloop).trans ?_)
        exact (bind_of_ok place'.accepted_eq).trans (bind_of_ok hrecord)
      | failed k f =>
        cases closes
        obtain ⟨j, hrun⟩ := run_of_failed hloop
        exact ⟨.ok (some false), _, _, p', hrun, hdrive, place'.journal j, rfl⟩

end Stage.InPlace

namespace Office.InPlace

open SessionM

variable {o : Office} {w : Workshop} {root : MachineId} {b : Bool} {p : Place}

theorem publishRun_eq (h : o.InPlace w root false p) (known : root.index < w.machines.length)
    {ending : Except MachineFault (Option Bool)} {v : Verdict}
    (gives : ending.mapError MachineFault.message = v.map some) (limit : Value) :
    ∃ j, publishRun limit ending o = .ok (some (v.toOption.getD false)) { o with journal := j } ∧
      j.verdicts = o.journal.verdicts ++ [v] := by
  cases ending with
  | error f =>
    obtain rfl : v = .error f.message := by
      cases v with
      | ok accepted => cases gives
      | error text => exact congrArg Except.error (Except.error.inj gives).symm
    obtain ⟨j, published, news⟩ := publishError_eq f o
    exact ⟨j, bind_of_ok published, news⟩
  | ok accepted? =>
    cases v with
    | error text => cases gives
    | ok accepted =>
      obtain rfl : accepted? = some accepted := Except.ok.inj gives
      obtain ⟨text, htext⟩ := h.exists_configuration known
      let told : Office := { o with journal := o.journal.tell (.configurationChanged text) }
      have verdicts : told.journal.verdicts = o.journal.verdicts :=
        (Journal.verdicts_tell _ _).trans (List.append_nil _)
      have place : told.InPlace w root false p := h
      obtain ⟨message, hmessage⟩ := place.exists_haltMessage
      obtain ⟨j, published, news⟩ := publishHalt_eq accepted message told
      refine ⟨j, ?_, news.trans (congrArg (· ++ _) verdicts)⟩
      obtain ⟨sim, loaded, -, tally⟩ := h
      have within : (told.session.simulator.getD default).budgetExhausted = false := by
        rw [show told.session.simulator = some sim from loaded]
        exact congrArg Prod.snd tally
      simp only [publishRun]
      rw [bind_of_ok htext, bind_of_ok (show tell (.configurationChanged text) o = .ok () told from rfl),
        bind_of_ok (get_apply told), within]
      simp only [Bool.false_eq_true, if_false]
      rw [bind_of_ok hmessage, bind_of_ok published]
      rfl

/-- A run of a session without a budget leads where `Workshop.drive` says, unless patience runs out
before it has seen the end. -/
theorem run_eq (h : o.InPlace w root b p) (known : root.index < w.machines.length)
    (running : w.haltsAt root p.here = false) (n : Nat) :
    (outcome (run (.int 0) n) o = .ok none ∧ ∀ k < n, w.drive root k p = none) ∨
    ∃ o' v p', run (.int 0) n o = conclude (v.map fun u => some (u.toOption.getD false)) o' ∧
      w.drive root n p = some (v, p') ∧ o'.InPlace w root false p' ∧
      ∀ u, v = .ok u → o'.journal.verdicts = o.journal.verdicts ++ [u] := by
  obtain ⟨sim, loaded, place⟩ := h
  let begun : Office := { o with
    journal := o.journal.tell (.simulationStarted (o.shop.machine sim.machine).kind) }
  have quiet : begun.journal.verdicts = o.journal.verdicts :=
    (Journal.verdicts_tell _ _).trans (List.append_nil _)
  have attempted := attempt_eq sim (SimM.run 0 n) begun
  have verdicts := Office.verdicts_store ((SimM.kept_verdicts []).run 0 n) begun sim
  have runs : run (.int 0) n o = (attempt sim (SimM.run 0 n) >>= publishRun (.int 0)) begun :=
    run_of_budget loaded 0 n
  rw [outcome_congr runs, runs]
  rcases place.run_eq known running n with
    ⟨unfinished, early⟩ | ⟨result, s', v, p', hrun, hdrive, place', gives⟩
  · refine .inl ⟨?_, early⟩
    rw [show begun.stage sim = o.stage sim from rfl, unfinished] at attempted
    exact outcome_of_ok (bind_of_ok attempted)
  · rw [show begun.stage sim = o.stage sim from rfl, outcome_of_conclude hrun,
      after_of_conclude hrun] at attempted
    rw [show begun.stage sim = o.stage sim from rfl, after_of_conclude hrun, quiet] at verdicts
    refine .inr ?_
    unfold Stage.InPlace.Gives at gives
    cases hcaught : caught result with
    | error e =>
      rw [hcaught] at attempted gives
      obtain rfl : v = .error e := by
        cases v with
        | ok u => cases gives
        | error e' => exact congrArg Except.error (Except.error.inj gives).symm
      refine ⟨_, _, p', bind_of_error attempted, hdrive, store place', ?_⟩
      rintro _ ⟨⟩
    | ok ending =>
      rw [hcaught] at attempted gives
      cases v with
      | error e => cases gives
      | ok u =>
        obtain ⟨j, published, news⟩ := publishRun_eq (store place') known (Except.ok.inj gives) (.int 0)
          (o := begun.store s')
        refine ⟨{ begun.store s' with journal := j }, .ok u, p', ?_, hdrive, store place', ?_⟩
        · rw [bind_of_ok attempted]
          exact published
        · rintro _ ⟨⟩
          rw [news, verdicts]

end Office.InPlace

/-! ## The two ways agree -/

/-- Two sessions have the same tape, and simulators with the same cursors and the same number of
steps. -/
structure Office.SamePlace (o o' : Office) : Prop where
  tape : o'.session.tape = o.session.tape
  simulator : ∃ sim sim', o.session.simulator = some sim ∧ o'.session.simulator = some sim' ∧
    sim'.cursor? = sim.cursor? ∧ sim'.stepCount = sim.stepCount

namespace Office

open SessionM

variable {o o' : Office} {w : Workshop} {root : MachineId} {b b' : Bool} {p : Place}

theorem InPlace.samePlace (h : o.InPlace w root b p) (h' : o'.InPlace w root b' p) : o.SamePlace o' := by
  obtain ⟨sim, loaded, place⟩ := h
  obtain ⟨sim', loaded', place'⟩ := h'
  refine ⟨place'.stands.here.tape.trans place.stands.here.tape.symm, sim, sim', loaded, loaded', ?_, ?_⟩
  · funext m
    refine Option.ext fun id => ?_
    exact (place'.stands.here.tracks.cursor m id).trans (place.stands.here.tracks.cursor m id).symm
  · exact (congrArg Prod.fst place'.tally).trans (congrArg Prod.fst place.tally).symm

/-- Steps come to an end just where `Workshop.drive` does. -/
theorem InPlace.exists_drive_of_stepAll (h : o.InPlace w root b p)
    (known : root.index < w.machines.length) {n : Nat} {r : Except Fault Bool}
    (ends : outcome (stepAll n) o = r) (ended : r ≠ .ok false) :
    ∃ v p', w.drive root n p = some (v, p') ∧ r = v.map (fun _ => true) ∧
      (after (stepAll n) o).InPlace w root b p' ∧
      ∀ u, v = .ok u → (after (stepAll n) o).journal.verdicts = o.journal.verdicts ++ [u] := by
  have steps := h.stepAll_eq known n
  cases hdrive : w.drive root n p with
  | none =>
    rw [hdrive] at steps
    exact absurd (ends.symm.trans steps) ended
  | some ending =>
    obtain ⟨v, p'⟩ := ending
    rw [hdrive] at steps
    obtain ⟨o', steps, place, news⟩ := steps
    rw [after_of_conclude steps]
    exact ⟨v, p', rfl, ends.symm.trans (outcome_of_conclude steps), place, news⟩

theorem InPlace.outcome_stepAll (h : o.InPlace w root b p) (known : root.index < w.machines.length)
    {n : Nat} {v : Except Fault Verdict} {p' : Place} (hdrive : w.drive root n p = some (v, p')) :
    outcome (stepAll n) o = v.map fun _ => true := by
  have steps := h.stepAll_eq known n
  rw [hdrive] at steps
  obtain ⟨o', steps, -⟩ := steps
  exact outcome_of_conclude steps

/-- A run without a budget comes to an end just where `Workshop.drive` does. -/
theorem InPlace.exists_drive_of_run (h : o.InPlace w root b p) (known : root.index < w.machines.length)
    (running : w.haltsAt root p.here = false) {n : Nat} {r : Except Fault (Option Bool)}
    (ends : outcome (run (.int 0) n) o = r) (ended : r ≠ .ok none) :
    ∃ v p', w.drive root n p = some (v, p') ∧ r = v.map (fun u => some (u.toOption.getD false)) ∧
      (after (run (.int 0) n) o).InPlace w root false p' ∧
      ∀ u, v = .ok u → (after (run (.int 0) n) o).journal.verdicts = o.journal.verdicts ++ [u] := by
  rcases h.run_eq known running n with ⟨unfinished, -⟩ | ⟨o', v, p', runs, hdrive, place, news⟩
  · exact absurd (ends.symm.trans unfinished) ended
  · rw [after_of_conclude runs]
    exact ⟨v, p', hdrive, ends.symm.trans (outcome_of_conclude runs), place, news⟩

theorem InPlace.outcome_run (h : o.InPlace w root b p) (known : root.index < w.machines.length)
    (running : w.haltsAt root p.here = false) {n : Nat} {v : Except Fault Verdict} {p' : Place}
    (hdrive : w.drive root n p = some (v, p')) :
    outcome (run (.int 0) (n + 1)) o = v.map fun u => some (u.toOption.getD false) := by
  rcases h.run_eq known running (n + 1) with ⟨-, early⟩ | ⟨o', v', p'', runs, hdrive', -⟩
  · rw [early n n.lt_succ_self] at hdrive
    cases hdrive
  · cases Workshop.drive_unique hdrive hdrive'
    exact outcome_of_conclude runs

/-- A session that was made ready has a simulator at the beginning, with the input on the tape. -/
theorem exists_place {m : MachineId} {text : String} {prepare : SessionM Unit} (good : o.shop.Good)
    (input : o.session.inputText = .text text)
    (prepares : prepare = load m ∨ prepare = reset ∧ o.session.simulator.map (·.machine) = some m) :
    ∃ b, (after prepare o).InPlace o.shop m b ⟨([], o.session.tape.load text), 0⟩ := by
  rcases prepares with rfl | ⟨rfl, loaded⟩
  · obtain ⟨j, loads⟩ := load_eq input m
    rw [after_of_ok loads]
    exact ⟨false, _, rfl, .fresh good m _ _, rfl⟩
  · obtain ⟨j, resets⟩ := reset_eq input
    obtain ⟨sim, hsim, rfl⟩ := Option.map_eq_some_iff.mp loaded
    rw [after_of_ok resets]
    refine ⟨sim.budgetExhausted, sim.reset, by simp [hsim], ?_, rfl⟩
    exact ⟨.refl _, good, rfl, (Workshop.Tracks.new o.shop sim.machine).congr rfl fun _ => rfl, rfl⟩

/-- **Single steps and runs agree.**  In a session that has just loaded a machine, or was reset, steps
until the computation cannot go on come to an end just when a run without a budget does, and a fault
escapes from them just when it escapes from the run.  In the end tape, cursors and number of steps are
the same, and listeners were told one verdict, the same in both cases; the run says whether it is that
the input was accepted. -/
theorem steps_and_runs_agree (reachable : o.shop.Reachable) {m : MachineId}
    (known : m.index < o.shop.machines.length) {text : String}
    (input : o.session.inputText = .text text) {prepare : SessionM Unit}
    (prepares : prepare = load m ∨ prepare = reset ∧ o.session.simulator.map (·.machine) = some m) :
    let ready := after prepare o
    ((∃ n, outcome (stepAll n) ready = .ok true) ↔
      ∃ n accepted, outcome (run (.int 0) n) ready = .ok (some accepted)) ∧
    (∀ e, (∃ n, outcome (stepAll n) ready = .error e) ↔
      ∃ n, outcome (run (.int 0) n) ready = .error e) ∧
    ∀ n n' accepted, outcome (stepAll n) ready = .ok true →
      outcome (run (.int 0) n') ready = .ok (some accepted) →
      let stepped := after (stepAll n) ready
      let ran := after (run (.int 0) n') ready
      stepped.SamePlace ran ∧ ∃ v : Verdict,
        stepped.journal.verdicts = ready.journal.verdicts ++ [v] ∧
        ran.journal.verdicts = ready.journal.verdicts ++ [v] ∧ accepted = v.toOption.getD false := by
  intro ready
  obtain ⟨b, place⟩ := exists_place reachable.good input prepares
  have running : o.shop.haltsAt m ([], o.session.tape.load text) = false := by
    unfold Workshop.haltsAt Workshop.haltedIn
    cases (o.shop.machine m).kind <;> rfl
  refine ⟨⟨?_, ?_⟩, fun e => ⟨?_, ?_⟩, ?_⟩
  · rintro ⟨n, ends⟩
    obtain ⟨v, p, hdrive, same, -⟩ := place.exists_drive_of_stepAll known ends (by simp)
    cases v with
    | error e => cases same
    | ok u => exact ⟨n + 1, _, place.outcome_run known running hdrive⟩
  · rintro ⟨n, accepted, ends⟩
    obtain ⟨v, p, hdrive, same, -⟩ := place.exists_drive_of_run known running ends (by simp)
    cases v with
    | error e => cases same
    | ok u => exact ⟨n, place.outcome_stepAll known hdrive⟩
  · rintro ⟨n, ends⟩
    obtain ⟨v, p, hdrive, same, -⟩ := place.exists_drive_of_stepAll known ends (by simp)
    cases v with
    | ok u => cases same
    | error e' =>
      cases same
      exact ⟨n + 1, place.outcome_run known running hdrive⟩
  · rintro ⟨n, ends⟩
    obtain ⟨v, p, hdrive, same, -⟩ := place.exists_drive_of_run known running ends (by simp)
    cases v with
    | ok u => cases same
    | error e' =>
      cases same
      exact ⟨n, place.outcome_stepAll known hdrive⟩
  · intro n n' accepted ends ends'
    obtain ⟨v, p, hdrive, same, there, news⟩ := place.exists_drive_of_stepAll known ends (by simp)
    obtain ⟨v', p', hdrive', same', there', news'⟩ :=
      place.exists_drive_of_run known running ends' (by simp)
    cases Workshop.drive_unique hdrive hdrive'
    cases v with
    | error e => cases same
    | ok u =>
      exact ⟨there.samePlace there', u, news u rfl, news' u rfl,
        Option.some.inj (Except.ok.inj same')⟩

open Workshop in
/-- A machine with submachines that halts with its head away from the first cell, driven in the two
ways. -/
theorem threeLevels_driven_both_ways :
    let o : Office :=
      ⟨threeLevels.shop, .empty, none, ⟨none, none, .text "10", .ofText ""⟩, .empty, default⟩
    let stepped := after (stepAll 9) (after (load ⟨0⟩) o)
    let ran := after (run (.int 0) 10) (after (load ⟨0⟩) o)
    o.shop.Reachable ∧ stepped.session.simulator.map (·.stepCount) = some 9 ∧ stepped.SamePlace ran ∧
    ∃ v : Verdict, stepped.journal.verdicts = [v] ∧ ran.journal.verdicts = [v] ∧
      v.toOption.getD false = false := by
  have known : 0 < threeLevels.shop.machines.length := by decide +kernel
  let o : Office := ⟨threeLevels.shop, .empty, none, ⟨none, none, .text "10", .ofText ""⟩, .empty, default⟩
  have steps : outcome (stepAll 9) (after (load ⟨0⟩) o) = .ok true :=
    eq_ok_of_toOption (by decide +kernel)
  have runs : outcome (run (.int 0) 10) (after (load ⟨0⟩) o) = .ok (some false) :=
    eq_ok_of_toOption (by decide +kernel)
  obtain ⟨-, -, agree⟩ :=
    steps_and_runs_agree (o := o) (m := ⟨0⟩) threeLevels_reachable known rfl (.inl rfl)
  obtain ⟨same, v, told, told', flag⟩ := agree 9 10 false steps runs
  exact ⟨threeLevels_reachable, by decide +kernel, same, v, told, told', flag.symm⟩

end Office

end MachineLab
