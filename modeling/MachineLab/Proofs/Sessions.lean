import MachineLab.Proofs.Readings
import MachineLab.Proofs.Twins

/-!
# Sessions in the same position

Two sessions are mates if they have the same input, the same tape and simulators in the same position,
in workshops that differ in nothing but what machines remember, and if all settings read the same in
them.  The simulators may differ in the verdict on the last budget: a step does not look at it, and a
run forgets it before anything else.  Whatever mates are asked for, they answer alike.

## Main definitions

* `Errand`, `Errand.perform` — what a session can be asked for while machines stay as they are.
* `Office.Still`, `SessionM.Idles` — nothing but the journal and what is remembered of settings changes.
* `Office.Mates` — two sessions are in the same position.
* `Answer`, `Office.answers` — what comes back from a session.

## Main statements

* `SessionM.step_of_loaded`, `SessionM.run_of_loaded` — steps and runs are those of the simulator, with
  the news before and after them.
* `SessionM.after_step`, `SessionM.after_run` — what steps and runs leave behind.
* `SessionM.reset_eq`, `SessionM.setTape_eq`, `SessionM.load_eq` — how a run is prepared.
* `Errand.respects_perform` — an errand does the same in mates.
* `Office.Mates.answers_eq` — mates answer alike.
-/

namespace MachineLab

/-! ## Simulators that differ in the verdict on the last budget -/

/-- The stage with a verdict on the last budget. -/
def Stage.judged (s : Stage) (b : Bool) : Stage := { s with sim := s.sim.judged b }

/-- Two stages differ in nothing but the verdict on the last budget. -/
def Stage.Judged (s s' : Stage) : Prop := ∃ b, s' = s.judged b

namespace SimM

variable {α : Type}

theorem judged_inShop (work : Work α) : Respects Stage.Judged (inShop work) := by
  rintro s _ ⟨b, rfl⟩
  unfold inShop Stage.judged
  simp only
  cases work ⟨s.shop, s.journal⟩ with
  | ok a b' => exact .ok ⟨b, rfl⟩
  | error e b' => exact .error ⟨b, rfl⟩

theorem judged_onTape (work : TapeM α) : Respects Stage.Judged (onTape work) := by
  rintro s _ ⟨b, rfl⟩
  unfold onTape Stage.judged
  simp only
  cases work ⟨s.tape, s.journal⟩ with
  | ok a r => exact .ok ⟨b, rfl⟩
  | error e r => exact .error ⟨b, rfl⟩

theorem congruence_judged : Congruence Stage.Judged where
  resembles := by
    rintro s _ ⟨b, rfl⟩
    exact ⟨.refl _, rfl, b, rfl⟩
  update := by
    intro f _ judged
    refine .modify ?_
    rintro s _ ⟨b, rfl⟩
    exact ⟨b, by simp only [Stage.judged, judged]⟩
  judge c := by
    refine .modify ?_
    rintro s _ ⟨b, rfl⟩
    exact ⟨c, rfl⟩
  tell _ := by
    refine .modify ?_
    rintro s _ ⟨b, rfl⟩
    exact ⟨b, rfl⟩
  record _ _ := by
    refine .modify ?_
    rintro s _ ⟨b, rfl⟩
    exact ⟨b, rfl⟩
  onTape _ _ _ := judged_onTape _
  validate _ := judged_inShop _

/-- A run forgets the verdict on the budget of the last one. -/
theorem run_judged (limit : Int) (patience : Nat) (s : Stage) (b : Bool) :
    run limit patience (s.judged b) = run limit patience s := rfl

end SimM

/-! ## Steps and runs of a session -/

/-- The session with a verdict on the last budget of its simulator. -/
def Session.judged (s : Session) (b : Bool) : Session :=
  { s with simulator := s.simulator.map (·.judged b) }

/-- The office once a simulator has worked. -/
def Office.store (o : Office) (s : Stage) : Office :=
  { o with
    shop := s.shop
    session := { o.session with tape := s.tape, simulator := some s.sim }
    journal := o.journal.append s.journal.silenceSimulators }

/-- What a simulator of a session works on. -/
def Office.stage (o : Office) (sim : Simulator) : Stage := ⟨o.shop, o.session.tape, sim, .empty⟩

namespace SessionM

variable {α : Type} {o : Office} {sim : Simulator}

theorem withSimulator_eq (sim : Simulator) (work : SimM α) (o : Office) :
    withSimulator sim work o =
      conclude (outcome work (o.stage sim)) (o.store (after work (o.stage sim))) := by
  unfold withSimulator outcome after Office.stage Office.store
  simp only
  cases work ⟨o.shop, o.session.tape, sim, .empty⟩ <;> rfl

/-- Publish how a step ended; says whether the computation can go on. -/
def publishStep : Except MachineFault Unit → SessionM Bool
  | .error f => do
    if f.isCompletion then
      publishHalt (← observe Workshop.isAccepted) f.message
    else if f.isFailure then publishHalt false f.message
    else publishError f
    return false
  | .ok _ => do
    tell (.configurationChanged (← observe Workshop.configuration))
    if ← observe Workshop.isHalted then
      publishHalt (← observe Workshop.isAccepted) (← haltMessage)
      return false
    else return true

/-- Announce a run that begins with a step. -/
def announceStart (sim : Simulator) : SessionM Unit := do
  if sim.stepCount = 0 then tell (.simulationStarted (← kindOf sim))

theorem announceStart_ok (sim : Simulator) (o : Office) :
    announceStart sim o = .ok () (after (announceStart sim) o) := by
  unfold announceStart
  split <;> rfl

/-- A step of a session is a step of its simulator, with the news before and after it. -/
theorem step_of_loaded (loaded : o.session.simulator = some sim) :
    step o = (do announceStart sim; publishStep (← attempt sim SimM.step) : SessionM Bool) o := by
  unfold step announceStart
  rw [bind_of_ok (get_apply o), loaded]
  simp only
  split <;> rfl

/-- Publish how a run within a budget ended. -/
def publishRun (limit : Value) : Except MachineFault (Option Bool) → SessionM (Option Bool)
  | .error f => do
    publishError f
    return some false
  | .ok none => return none
  | .ok (some accepted) => do
    tell (.configurationChanged (← observe Workshop.configuration))
    if ((← get).session.simulator.getD default).budgetExhausted then
      let message := "Stopped after " ++ limit.display ++ " step(s) without halting."
      record .warning message
      tell (.statusPosted LogLevel.warning.name message)
    else publishHalt accepted (← haltMessage)
    return some accepted

/-- Find the budget of a run and announce it. -/
def announceRun (sim : Simulator) (limit : Value) : SessionM (Value × Int) := do
  let limit ← budget limit
  tell (.simulationStarted (← kindOf sim))
  return (limit, ← ofExcept limit.integer)

/-- A run of a session is a run of its simulator, with the news before and after it. -/
theorem run_of_loaded (loaded : o.session.simulator = some sim) (limit : Value) (patience : Nat) :
    run limit patience o = (do
      let (limit, steps) ← announceRun sim limit
      publishRun limit (← attempt sim (SimM.run steps patience)) : SessionM (Option Bool)) o := by
  unfold run announceRun
  rw [bind_of_ok (get_apply o), loaded]
  simp only [bind_assoc, pure_bind]
  rfl

theorem run_of_budget (loaded : o.session.simulator = some sim) (n : Int) (patience : Nat) :
    run (.int n) patience o = (attempt sim (SimM.run n patience) >>= publishRun (.int n)) { o with
      journal := o.journal.tell (.simulationStarted (o.shop.machine sim.machine).kind) } :=
  (run_of_loaded loaded _ _).trans (bind_of_ok rfl)

/-! Without a machine there is nothing to step or to run. -/

theorem step_of_none (h : o.session.simulator = none) :
    ∃ journal, step o = .ok false { o with journal } := by
  unfold step
  rw [bind_of_ok (get_apply o), h]
  exact ⟨_, rfl⟩

theorem run_of_none (h : o.session.simulator = none) (limit : Value) (patience : Nat) :
    ∃ journal, run limit patience o = .ok (some false) { o with journal } := by
  unfold run
  rw [bind_of_ok (get_apply o), h]
  exact ⟨_, rfl⟩

end SessionM

/-! ## Work that changes nothing in the session -/

/-- Nothing has changed but the journal and what is remembered of the settings. -/
structure Office.Still (o o' : Office) : Prop where
  shop : o'.shop = o.shop
  files : o'.files = o.files
  session : o'.session = o.session
  settings : o.SameSettings o'

theorem Office.Still.trans {o o' o'' : Office} (h : o.Still o') (h' : o'.Still o'') : o.Still o'' :=
  ⟨h'.shop.trans h.shop, h'.files.trans h.files, h'.session.trans h.session,
    fun d hd => (h'.settings d hd).trans (h.settings d hd)⟩

/-- A simulator works on the same thing as long as nothing changes in the session. -/
theorem Office.Still.stage_eq {o o' : Office} (h : o.Still o') (sim : Simulator) :
    o'.stage sim = o.stage sim := by
  unfold Office.stage
  rw [h.shop, h.session]

/-- A change of the journal is none of the session. -/
theorem Office.still_journal (o : Office) (journal : Journal) : o.Still { o with journal } :=
  ⟨rfl, rfl, rfl, fun _ hd => SessionM.reading_congr hd rfl rfl⟩

namespace SessionM

variable {α β : Type}

/-- Work that changes nothing but the journal and what is remembered of the settings. -/
def Idles (work : SessionM α) : Prop := ∀ o : Office, o.Still (after work o)

namespace Idles

theorem pure (a : α) : Idles (Pure.pure a) := fun o => o.still_journal o.journal

theorem get : Idles get := fun o => o.still_journal o.journal

theorem bind {work : SessionM α} {rest : α → SessionM β} (h : Idles work)
    (hrest : ∀ a, Idles (rest a)) : Idles (work >>= rest) := fun o =>
  Preserves.after_bind (P := o.Still) (h o) fun a o' h' => h'.trans (hrest a o')

theorem preserves {work : SessionM α} (h : Idles work) (c : Session) :
    Preserves (fun o => o.session = c) work := fun o hc => (h o).session.trans hc

theorem record (level : LogLevel) (message : String) : Idles (record level message) :=
  fun o => o.still_journal _

theorem tell (e : Event) : Idles (tell e) := fun o => o.still_journal _

theorem ofExcept (r : Except Fault α) : Idles (ofExcept r) := by
  cases r with
  | ok a => exact pure a
  | error e => exact fun o => o.still_journal o.journal

theorem observe (f : Workshop → Simulator → Tape → Except Fault α) : Idles (observe f) :=
  .bind .get fun _ => ofExcept _

theorem kindOf (sim : Simulator) : Idles (kindOf sim) := .bind .get fun _ => .pure _

theorem setting {d : Definition} (hd : d ∈ Definition.all) : Idles (setting d) := by
  intro o
  obtain ⟨settings, log, gives, same⟩ := setting_spec hd o
  rw [after_of_conclude gives]
  exact ⟨rfl, rfl, rfl, same⟩

theorem budget (limit : Value) : Idles (budget limit) := by
  cases limit with
  | null => exact setting (.head _)
  | _ => exact .pure _

theorem announceStart (sim : Simulator) : Idles (announceStart sim) := by
  unfold SessionM.announceStart
  split
  · exact .bind (kindOf _) fun _ => tell _
  · exact .pure _

theorem announceRun (sim : Simulator) (limit : Value) : Idles (announceRun sim limit) :=
  .bind (budget _) fun _ => .bind (kindOf _) fun _ => .bind (tell _) fun _ => .bind (ofExcept _)
    fun _ => .pure _

theorem publishHalt (accepted : Bool) (message : String) : Idles (publishHalt accepted message) :=
  .bind (record _ _) fun _ => tell _

theorem publishError (f : MachineFault) : Idles (publishError f) :=
  .bind (record _ _) fun _ => tell _

theorem haltMessage : Idles haltMessage := by
  refine .bind .get fun o => .bind (ofExcept _) fun name => ?_
  cases (o.shop.machine (o.session.simulator.getD default).machine).kind with
  | turing => exact .pure _
  | acceptor => exact .bind (observe _) fun _ => .pure _

theorem publishStep (ending : Except MachineFault Unit) : Idles (publishStep ending) := by
  cases ending with
  | error f =>
    simp only [SessionM.publishStep]
    split
    · exact .bind (observe _) fun _ => .bind (publishHalt _ _) fun _ => .pure _
    · split
      · exact .bind (publishHalt _ _) fun _ => .pure _
      · exact .bind (publishError _) fun _ => .pure _
  | ok u =>
    refine .bind (observe _) fun _ => .bind (tell _) fun _ => .bind (observe _) fun done => ?_
    cases done with
    | true =>
      exact .bind (observe _) fun _ => .bind haltMessage fun _ => .bind (publishHalt _ _) fun _ =>
        .pure _
    | false => exact .pure _

theorem publishRun (limit : Value) (ending : Except MachineFault (Option Bool)) :
    Idles (publishRun limit ending) := by
  match ending with
  | .error f => exact .bind (publishError f) fun _ => .pure _
  | .ok none => exact .pure _
  | .ok (some accepted) =>
    refine .bind (observe _) fun _ => .bind (tell _) fun _ => .bind .get fun o => ?_
    simp only
    split
    · exact .bind (record _ _) fun _ => .bind (tell _) fun _ => .pure _
    · exact .bind haltMessage fun _ => .bind (publishHalt _ _) fun _ => .pure _

end Idles

variable {o : Office} {sim : Simulator}

/-- What comes of trying some work: a machine fault is handed out, any other one is not caught. -/
def caught : Except Fault α → Except Fault (Except MachineFault α)
  | .ok a => .ok (.ok a)
  | .error (.machine f) => .ok (.error f)
  | .error e => .error e

theorem attempt_eq (sim : Simulator) (work : SimM α) (o : Office) :
    attempt sim work o =
      conclude (caught (outcome work (o.stage sim))) (o.store (after work (o.stage sim))) := by
  simp only [attempt, withSimulator_eq]
  cases outcome work (o.stage sim) with
  | ok a => rfl
  | error e => cases e <;> rfl

/-- **What a step leaves behind** is what a step of the simulator does. -/
theorem after_step (loaded : o.session.simulator = some sim) :
    ∃ o₁, o.Still o₁ ∧ (o₁.store (after SimM.step (o.stage sim))).Still (after step o) := by
  have still := Idles.announceStart sim o
  refine ⟨_, still, ?_⟩
  rw [after_congr (step_of_loaded loaded), after_congr (bind_of_ok (announceStart_ok sim o))]
  refine Preserves.after_bind (P := Office.Still _) ?_ fun ending o' h =>
    h.trans (Idles.publishStep ending o')
  rw [after_of_conclude (attempt_eq _ _ _), still.stage_eq]
  exact Office.still_journal _ _

/-- **What a run leaves behind** is what a run of the simulator does, unless there is no budget for it. -/
theorem after_run (loaded : o.session.simulator = some sim) (limit : Value) (patience : Nat) :
    o.Still (after (run limit patience) o) ∨
      ∃ o₁ steps, o.Still o₁ ∧
        (o₁.store (after (SimM.run steps patience) (o.stage sim))).Still
          (after (run limit patience) o) := by
  have still := Idles.announceRun sim limit o
  rw [after_congr (run_of_loaded loaded limit patience)]
  cases begins : announceRun sim limit o with
  | error e o₁ =>
    rw [after_of_error begins] at still
    rw [after_of_error (bind_of_error begins)]
    exact .inl still
  | ok found o₁ =>
    obtain ⟨limit, steps⟩ := found
    rw [after_of_ok begins] at still
    rw [after_congr (bind_of_ok begins)]
    refine .inr ⟨o₁, steps, still, ?_⟩
    refine Preserves.after_bind (P := Office.Still _) ?_ fun ending o' h =>
      h.trans (Idles.publishRun limit ending o')
    rw [after_of_conclude (attempt_eq _ _ _), still.stage_eq]
    exact Office.still_journal _ _

end SessionM

/-! ## Preparing a run -/

namespace SessionM

variable {o : Office} {text : String}

theorem restoreTape_eq (input : o.session.inputText = .text text) :
    ∃ journal, restoreTape o =
      .ok () { o with session := { o.session with tape := o.session.tape.load text }, journal } := by
  unfold restoreTape
  rw [bind_of_ok (get_apply o), input]
  exact ⟨_, rfl⟩

theorem resetSimulator_eq (o : Office) :
    ∃ journal, resetSimulator o = .ok () { o with
      session := { o.session with simulator := o.session.simulator.map Simulator.reset }, journal } := by
  unfold resetSimulator
  rw [bind_of_ok (get_apply o)]
  obtain ⟨shop, files, settings, ⟨machine, simulator, inputText, tape⟩, journal⟩ := o
  cases simulator with
  | none => exact ⟨journal, rfl⟩
  | some sim => exact ⟨_, rfl⟩

/-- The input is on the tape again, and the simulator has not started. -/
theorem reset_eq (input : o.session.inputText = .text text) :
    ∃ journal, reset o = .ok () { o with
      session := { o.session with
        tape := o.session.tape.load text
        simulator := o.session.simulator.map Simulator.reset }
      journal } := by
  obtain ⟨j, restored⟩ := restoreTape_eq input
  obtain ⟨j', rewound⟩ := resetSimulator_eq
    { o with session := { o.session with tape := o.session.tape.load text }, journal := j }
  unfold reset
  rw [bind_of_ok restored, bind_of_ok rewound]
  exact ⟨_, rfl⟩

/-- The new input is on the tape, and the simulator has not started. -/
theorem setTape_eq (text : String) (o : Office) :
    ∃ journal, setTape (.text text) o = .ok () { o with
      session := { o.session with
        inputText := .text text
        tape := o.session.tape.load text
        simulator := o.session.simulator.map Simulator.reset }
      journal } := by
  have updated : update (fun s => { s with inputText := .text text }) o =
      .ok () { o with session := { o.session with inputText := .text text } } := rfl
  let o₁ : Office := { o with session := { o.session with inputText := .text text } }
  have given : o₁.session.inputText = .text text := rfl
  obtain ⟨j, restored⟩ := restoreTape_eq given
  obtain ⟨j', rewound⟩ := resetSimulator_eq
    { o with
      session := { o.session with inputText := .text text, tape := o.session.tape.load text }
      journal := j }
  unfold setTape
  rw [bind_of_ok updated, bind_of_ok restored, bind_of_ok rewound]
  exact ⟨_, rfl⟩

/-- The machine has a simulator that has not started, and the input is on the tape. -/
theorem load_eq (input : o.session.inputText = .text text) (m : MachineId) :
    ∃ journal, load m o = .ok () { o with
      session := { o.session with
        machine := some m
        tape := o.session.tape.load text
        simulator := some (Simulator.new m) }
      journal } := by
  have updated : update (fun s => { s with machine := some m, simulator := some (Simulator.new m) }) o =
      .ok () { o with
        session := { o.session with machine := some m, simulator := some (Simulator.new m) } } := rfl
  let o₁ : Office := { o with
    session := { o.session with machine := some m, simulator := some (Simulator.new m) } }
  have given : o₁.session.inputText = .text text := input
  obtain ⟨j, restored⟩ := restoreTape_eq given
  unfold load
  rw [bind_of_ok updated, bind_of_ok restored]
  exact ⟨_, rfl⟩

end SessionM

/-! ## Mates -/

/-- Two sessions have the same input and the same tape, and simulators of a known machine that differ in
nothing but the verdict on the last budget; the workshops are sound and are `w` but for what machines
remember, and all settings read the same. -/
structure Office.Mates (w : Workshop) (x x' : List Event) (o o' : Office) : Prop where
  alike : w.Alike o.shop
  alike' : w.Alike o'.shop
  good : o.shop.Good
  good' : o'.shop.Good
  known : ∀ sim, o.session.simulator = some sim → sim.machine.index < w.machines.length
  session : ∃ b, o'.session = o.session.judged b
  settings : o.SameSettings o'
  events : Journal.Echoes x x' o.journal o'.journal

/-- What settings read as depends on the settings and the room alone. -/
theorem Office.SameSettings.congr {o o' o₁ o₁' : Office} (h : o.SameSettings o')
    (same : o₁.settings = o.settings) (room : o₁.room = o.room)
    (same' : o₁'.settings = o'.settings) (room' : o₁'.room = o'.room) : o₁.SameSettings o₁' :=
  fun d hd => by
    rw [SessionM.reading_congr hd same room, SessionM.reading_congr hd same' room', h d hd]

namespace Office.Mates

variable {w : Workshop} {x x' : List Event} {o o' : Office} (h : Office.Mates w x x' o o')

include h

theorem shops : o.shop.Alike o'.shop := h.alike.symm.trans h.alike'

theorem tape : o'.session.tape = o.session.tape := by
  obtain ⟨b, hb⟩ := h.session
  rw [hb]
  rfl

theorem inputText : o'.session.inputText = o.session.inputText := by
  obtain ⟨b, hb⟩ := h.session
  rw [hb]
  rfl

/-- What a session shows of its simulator is the same in mates. -/
theorem simulator : ∃ b, o'.session.simulator.getD default =
    (o.session.simulator.getD default).judged b := by
  obtain ⟨b, hb⟩ := h.session
  rw [hb]
  cases hsim : o.session.simulator with
  | none => exact ⟨false, by simp [Session.judged, hsim]; rfl⟩
  | some sim => exact ⟨b, by simp [Session.judged, hsim]⟩

/-- Mates stay mates when their simulators have done the same. -/
theorem store {s m s' : Stage} (judged : s.Judged m) (twin : Stage.Twin w [] [] m s') :
    Office.Mates w x x' (o.store s) (o'.store s') := by
  obtain ⟨b, rfl⟩ := judged
  obtain ⟨new, events, events'⟩ := twin.events
  refine ⟨twin.alike, twin.alike', twin.good, twin.good', ?_, ⟨b, ?_⟩, ?_, ?_⟩
  · intro sim hsim
    cases hsim
    exact twin.known
  · obtain ⟨c, hc⟩ := h.session
    simp only [Office.store, hc, Session.judged, twin.tape, twin.sim]
    rfl
  · exact h.settings.congr rfl rfl rfl rfl
  · obtain ⟨before, echo, echo'⟩ := h.events
    have same : s'.journal.events = s.journal.events := by
      rw [← Array.toList_inj, events']
      exact events.symm
    refine ⟨before ++ (s.journal.events.filter fun e => !e.isSimulator).toList, ?_, ?_⟩
    · simp [Office.store, Journal.append, Journal.silenceSimulators, echo]
    · simp [Office.store, Journal.append, Journal.silenceSimulators, echo', same]

end Office.Mates

namespace SessionM

variable {α : Type} {w : Workshop} {x x' : List Event}

/-- Work that does the same in mates. -/
abbrev Respectful (w : Workshop) (x x' : List Event) (work : SessionM α) : Prop :=
  Respects (Office.Mates w x x') work

theorem respects_record (level : LogLevel) (message : String) :
    Respectful w x x' (record level message) :=
  .modify fun _ _ h => ⟨h.alike, h.alike', h.good, h.good', h.known, h.session,
    h.settings.congr rfl rfl rfl rfl, h.events⟩

theorem respects_tell (e : Event) : Respectful w x x' (tell e) :=
  .modify fun _ _ h => ⟨h.alike, h.alike', h.good, h.good', h.known, h.session,
    h.settings.congr rfl rfl rfl rfl, h.events.tell e⟩

theorem respects_update {f : Session → Session} (judged : ∀ s b, ∃ c, f (s.judged b) = (f s).judged c)
    (known : ∀ s sim, (f s).simulator = some sim →
      s.simulator = some sim ∨ sim.machine.index < w.machines.length) :
    Respectful w x x' (update f) := by
  refine .modify fun o o' h => ?_
  obtain ⟨b, hb⟩ := h.session
  refine ⟨h.alike, h.alike', h.good, h.good', fun sim hsim => ?_, ?_, h.settings.congr rfl rfl rfl rfl,
    h.events⟩
  · obtain old | new := known _ sim hsim
    · exact h.known sim old
    · exact new
  · simp only [hb]
    exact judged o.session b

theorem respects_ofExcept (r : Except Fault α) : Respectful w x x' (ofExcept r) := by
  cases r with
  | ok a => exact .pure a
  | error e => exact .throw e

theorem respects_onTape (op : Tape.Op) : Respectful w x x' (onTape (Tape.perform op)) := by
  intro o o' h
  have respects : Respects (Reel.Twin x x') (Tape.perform op) := Tape.respects_perform op
  have same := respects ⟨o.session.tape, o.journal⟩ ⟨o'.session.tape, o'.journal⟩ ⟨h.tape, h.events⟩
  obtain ⟨b, hb⟩ := h.session
  have mates {r r' : Reel} (twin : Reel.Twin x x' r r') : Office.Mates w x x'
      { o with session := { o.session with tape := r.tape }, journal := r.journal }
      { o' with session := { o'.session with tape := r'.tape }, journal := r'.journal } :=
    ⟨h.alike, h.alike', h.good, h.good', h.known, ⟨b, by simp only [hb, twin.tape]; rfl⟩,
      h.settings.congr rfl rfl rfl rfl, twin.events⟩
  unfold onTape
  generalize Tape.perform op ⟨o.session.tape, o.journal⟩ = r at same ⊢
  generalize Tape.perform op ⟨o'.session.tape, o'.journal⟩ = r' at same ⊢
  cases same with
  | ok twin => exact .ok (mates twin)
  | error twin => exact .error (mates twin)

theorem respects_observe {f : Workshop → Simulator → Tape → Except Fault α}
    (alike : ∀ {w w' : Workshop}, w.Alike w' → ∀ sim t, f w' sim t = f w sim t)
    (judged : ∀ w sim b t, f w (sim.judged b) t = f w sim t) : Respectful w x x' (observe f) := by
  refine .read (fun o o' h => ?_) fun _ _ _ => respects_ofExcept _
  obtain ⟨b, hb⟩ := h.simulator
  rw [hb, h.tape, alike h.shops, judged]

theorem respects_setting {d : Definition} (hd : d ∈ Definition.all) :
    Respectful w x x' (setting d) := by
  intro o o' h
  obtain ⟨settings, log, gives, stays⟩ := setting_spec hd o
  obtain ⟨settings', log', gives', stays'⟩ := setting_spec hd o'
  rw [gives, gives', h.settings d hd]
  have mates : Office.Mates w x x'
      { o with settings, journal := ⟨o.journal.events, log⟩ }
      { o' with settings := settings', journal := ⟨o'.journal.events, log'⟩ } :=
    ⟨h.alike, h.alike', h.good, h.good', h.known, h.session,
      fun d hd => by rw [stays d hd, stays' d hd, h.settings d hd], h.events⟩
  cases o.reading d with
  | ok v => exact .ok mates
  | error e => exact .error mates

/-! ## Preparing a run -/

theorem respects_restoreTape : Respectful w x x' restoreTape := by
  refine .read (fun o o' h => by rw [h.inputText]) fun _ _ _ => ?_
  exact .bind (respects_ofExcept _) fun _ => respects_onTape _

theorem respects_load {m : MachineId} (hm : m.index < w.machines.length) :
    Respectful w x x' (load m) := by
  refine .bind (respects_update (fun _ _ => ⟨false, rfl⟩) fun _ sim hsim => ?_) fun _ => ?_
  · cases hsim
    exact .inr hm
  · refine .bind respects_restoreTape fun _ => .read (fun o o' h => ?_) fun _ _ _ => ?_
    · rw [h.shops.machine m]
      rfl
    · exact .bind (respects_record _ _) fun _ => respects_tell _

/-- What simulators in the same position have done leaves mates behind. -/
theorem respects_withSimulator {o o' : Office} (h : Office.Mates w x x' o o') {sim : Simulator}
    (loaded : o.session.simulator = some sim) (b : Bool) {work : SimM α}
    (judged : Respects Stage.Judged work) (twin : SimM.Respectful w [] [] work) :
    SameResult (Office.Mates w x x') (withSimulator sim work o)
      (withSimulator (sim.judged b) work o') := by
  have start : Stage.Twin w [] [] (o.stage (sim.judged b)) (o'.stage (sim.judged b)) :=
    ⟨h.alike, h.alike', h.good, h.good', h.known sim loaded, h.tape, rfl, [], rfl, rfl⟩
  have related : Relation.Comp Stage.Judged (Stage.Twin w [] []) (o.stage sim)
      (o'.stage (sim.judged b)) := ⟨_, ⟨b, rfl⟩, start⟩
  obtain ⟨m, judged', twin'⟩ := (judged.comp twin).after_related related
  rw [withSimulator_eq, withSimulator_eq, (judged.comp twin).outcome_eq related]
  cases outcome work (o.stage sim) with
  | ok a => exact .ok (h.store judged' twin')
  | error e => exact .error (h.store judged' twin')

theorem respects_resetSimulator : Respectful w x x' resetSimulator := by
  intro o o' h
  obtain ⟨b, hb⟩ := h.session
  unfold resetSimulator
  rw [bind_of_ok (get_apply o), bind_of_ok (get_apply o'), hb]
  cases loaded : o.session.simulator with
  | none => simpa only [Session.judged, loaded, Option.map_none] using .ok h
  | some sim =>
    simp only [Session.judged, loaded, Option.map_some]
    exact respects_withSimulator h loaded b SimM.congruence_judged.reset SimM.respects_reset

theorem respects_setTape (text : Value) : Respectful w x x' (setTape text) := by
  refine .bind (respects_update (fun _ b => ⟨b, rfl⟩) fun _ _ => .inl) fun _ => ?_
  refine .bind respects_restoreTape fun _ => .bind respects_resetSimulator fun _ => ?_
  exact .read (fun o o' h => by rw [h.tape]) fun _ _ _ => respects_tell _

theorem respects_reset : Respectful w x x' reset :=
  .bind respects_restoreTape fun _ => .bind respects_resetSimulator fun _ => respects_tell _

/-! ## Running -/

theorem respects_publishHalt (accepted : Bool) (message : String) :
    Respectful w x x' (publishHalt accepted message) :=
  .bind (respects_record _ _) fun _ => respects_tell _

theorem respects_publishError (f : MachineFault) : Respectful w x x' (publishError f) :=
  .bind (respects_record _ _) fun _ => respects_tell _

theorem respects_accepted : Respectful w x x' (observe Workshop.isAccepted) :=
  respects_observe Workshop.Alike.isAccepted Workshop.isAccepted_judged

theorem respects_haltMessage : Respectful w x x' haltMessage := by
  refine .read (fun o o' h => ?_) fun o _ _ => .bind (respects_ofExcept _) fun name => ?_
  · obtain ⟨b, hb⟩ := h.simulator
    simp only [hb, h.tape, h.shops.stateName, Workshop.stateName_judged]
    rw [show ((o.session.simulator.getD default).judged b).machine =
      (o.session.simulator.getD default).machine from rfl, h.shops.kind]
  · cases (o.shop.machine (o.session.simulator.getD default).machine).kind with
    | turing => exact .pure _
    | acceptor => exact .bind respects_accepted fun _ => .pure _

theorem respects_kindOf (sim : Simulator) : Respectful w x x' (kindOf sim) :=
  .read (fun o o' h => by rw [h.shops.kind]) fun _ _ _ => .pure _

theorem respects_configuration : Respectful w x x' (observe Workshop.configuration) :=
  respects_observe Workshop.Alike.configuration Workshop.configuration_judged

theorem respects_publishStep (ending : Except MachineFault Unit) :
    Respectful w x x' (publishStep ending) := by
  cases ending with
  | error f =>
    simp only [publishStep]
    split
    · exact .bind respects_accepted fun _ => .bind (respects_publishHalt _ _) fun _ => .pure _
    · split
      · exact .bind (respects_publishHalt _ _) fun _ => .pure _
      · exact .bind (respects_publishError _) fun _ => .pure _
  | ok u =>
    refine .bind respects_configuration fun _ => .bind (respects_tell _) fun _ => ?_
    refine .bind (respects_observe Workshop.Alike.isHalted Workshop.isHalted_judged) fun done => ?_
    cases done with
    | true =>
      exact .bind respects_accepted fun _ => .bind respects_haltMessage fun _ =>
        .bind (respects_publishHalt _ _) fun _ => .pure _
    | false => exact .pure _

theorem respects_budget (limit : Value) : Respectful w x x' (budget limit) := by
  cases limit with
  | null => exact respects_setting (.head _)
  | _ => exact .pure _

/-- Trying work with simulators in the same position gives the same. -/
theorem respects_attempt {o o' : Office} {sim sim' : Simulator} {work : SimM α}
    {R : Office → Office → Prop}
    (same : SameResult R (withSimulator sim work o) (withSimulator sim' work o')) :
    SameResult R (attempt sim work o) (attempt sim' work o') := by
  unfold attempt
  generalize withSimulator sim work o = r at same ⊢
  generalize withSimulator sim' work o' = r' at same ⊢
  cases same with
  | ok related => exact .ok related
  | error related =>
    rename_i e _ _
    cases e with
    | machine f => exact .ok related
    | refusal cause => exact .error related
    | mismatch cause => exact .error related

theorem respects_announceRun (sim : Simulator) (limit : Value) :
    Respectful w x x' (announceRun sim limit) :=
  .bind (respects_budget _) fun _ => .bind (respects_kindOf _) fun _ => .bind (respects_tell _)
    fun _ => .bind (respects_ofExcept _) fun _ => .pure _

theorem respects_announceStart (sim : Simulator) : Respectful w x x' (announceStart sim) := by
  unfold announceStart
  split
  · exact .bind (respects_kindOf _) fun _ => respects_tell _
  · exact .pure _

/-- **A step of a session does the same in mates.** -/
theorem respects_step : Respectful w x x' step := by
  intro o o' h
  obtain ⟨b, hb⟩ := h.session
  cases loaded : o.session.simulator with
  | none =>
    have loaded' : o'.session.simulator = none := by simp [hb, Session.judged, loaded]
    unfold step
    rw [bind_of_ok (get_apply o), bind_of_ok (get_apply o'), loaded, loaded']
    exact Respects.bind (respects_record _ _) (fun _ => .pure _) o o' h
  | some sim =>
    have loaded' : o'.session.simulator = some (sim.judged b) := by simp [hb, Session.judged, loaded]
    rw [step_of_loaded loaded, step_of_loaded loaded']
    refine ((respects_announceStart sim).keeping (fun c _ => c.simulator = some sim)
      (Idles.announceStart sim).preserves o o' ⟨h, loaded⟩).bind (fun _ _ => And.left) ?_
    rintro _ t t' ⟨ht, still⟩
    refine (respects_attempt (respects_withSimulator ht still b SimM.congruence_judged.step
      SimM.respects_step)).bind (fun _ _ => id) fun ending => ?_
    exact respects_publishStep ending

/-- Simulators that have run are in the same position, and have the same verdict on the budget. -/
theorem respects_withSimulator_run {o o' : Office} (h : Office.Mates w x x' o o') {sim : Simulator}
    (loaded : o.session.simulator = some sim) (b : Bool) (limit : Int) (patience : Nat) :
    SameResult (fun o o' => Office.Mates w x x' o o' ∧ o'.session = o.session)
      (withSimulator sim (SimM.run limit patience) o)
      (withSimulator (sim.judged b) (SimM.run limit patience) o') := by
  have start : Stage.Twin w [] [] (o.stage sim) (o'.stage sim) :=
    ⟨h.alike, h.alike', h.good, h.good', h.known sim loaded, h.tape, rfl, [], rfl, rfl⟩
  have twin := (SimM.respects_run limit patience).after_related start
  have gives := (SimM.respects_run limit patience).outcome_eq start
  have forgets : SimM.run limit patience (o'.stage (sim.judged b)) =
      SimM.run limit patience (o'.stage sim) := SimM.run_judged limit patience (o'.stage sim) b
  rw [withSimulator_eq, withSimulator_eq, outcome_congr forgets, after_congr forgets, gives]
  have mates := h.store ⟨_, rfl⟩ twin
  have same : (o'.store (after (SimM.run limit patience) (o'.stage sim))).session =
      (o.store (after (SimM.run limit patience) (o.stage sim))).session := by
    obtain ⟨c, hc⟩ := h.session
    simp only [Office.store, hc, Session.judged, twin.tape, twin.sim]
  cases outcome (SimM.run limit patience) (o.stage sim) with
  | ok a => exact .ok ⟨mates, same⟩
  | error e => exact .error ⟨mates, same⟩

/-- The news of a run is the same if the verdicts on the budget are. -/
theorem respects_publishRun (limit : Value) (ending : Except MachineFault (Option Bool)) {o o' : Office}
    (h : Office.Mates w x x' o o') (same : o'.session = o.session) :
    SameResult (Office.Mates w x x') (publishRun limit ending o) (publishRun limit ending o') := by
  match ending with
  | .error f => exact Respects.bind (respects_publishError f) (fun _ => .pure _) o o' h
  | .ok none => exact .ok h
  | .ok (some accepted) =>
    have kept {β : Type} {work : SessionM β} (respects : Respectful w x x' work)
        (keeps : ∀ c, Preserves (fun o => o.session = c) work) :
        Respects (fun o o' => Office.Mates w x x' o o' ∧ o'.session = o.session) work :=
      respects.keeping (fun c c' => c' = c) keeps
    refine (kept respects_configuration (Idles.observe _).preserves o o' ⟨h, same⟩).bind
      (fun _ _ => And.left) fun text t t' ht => ?_
    refine (kept (respects_tell _) (Idles.tell _).preserves t t' ht).bind (fun _ _ => And.left) ?_
    rintro _ t t' ⟨ht, same'⟩
    rw [bind_of_ok (get_apply t), bind_of_ok (get_apply t'), same']
    simp only
    split
    · exact Respects.bind (respects_record _ _) (fun _ => .bind (respects_tell _) fun _ => .pure _)
        t t' ht
    · exact Respects.bind respects_haltMessage
        (fun _ => .bind (respects_publishHalt _ _) fun _ => .pure _) t t' ht

/-- **A run of a session does the same in mates.** -/
theorem respects_run (limit : Value) (patience : Nat) : Respectful w x x' (run limit patience) := by
  intro o o' h
  obtain ⟨b, hb⟩ := h.session
  cases loaded : o.session.simulator with
  | none =>
    have loaded' : o'.session.simulator = none := by simp [hb, Session.judged, loaded]
    unfold run
    rw [bind_of_ok (get_apply o), bind_of_ok (get_apply o'), loaded, loaded']
    exact Respects.bind (respects_record _ _) (fun _ => .pure _) o o' h
  | some sim =>
    have loaded' : o'.session.simulator = some (sim.judged b) := by simp [hb, Session.judged, loaded]
    rw [run_of_loaded loaded, run_of_loaded loaded']
    refine ((respects_announceRun sim limit).keeping (fun c _ => c.simulator = some sim)
      (Idles.announceRun sim limit).preserves o o' ⟨h, loaded⟩).bind (fun _ _ => And.left) ?_
    rintro ⟨limit, steps⟩ t t' ⟨ht, still⟩
    refine (respects_attempt (respects_withSimulator_run ht still b steps patience)).bind
      (fun _ _ => And.left) fun ending t t' ht => ?_
    exact respects_publishRun limit ending ht.1 ht.2

end SessionM

/-! ## Errands -/

/-- What a session can be asked for while machines stay as they are. -/
inductive Errand where
  | load (m : MachineId)
  | setTape (text : String)
  | step
  | run (limit : Value) (patience : Nat)
  | reset

namespace Errand

/-- The work for an errand, with what it says to the one who asked. -/
def perform : Errand → SessionM (Option Bool)
  | load m => do
    SessionM.load m
    return none
  | setTape text => do
    SessionM.setTape (.text text)
    return none
  | step => return some (← SessionM.step)
  | run limit patience => SessionM.run limit patience
  | reset => do
    SessionM.reset
    return none

/-- The machine of an errand is there. -/
def Known (w : Workshop) : Errand → Prop
  | load m => m.index < w.machines.length
  | _ => True

/-- Run errands one after the other, whether they fail or not. -/
def performAll : List Errand → Office → Office
  | [], o => o
  | errand :: rest, o => performAll rest (after errand.perform o)

/-- **An errand does the same in mates.** -/
theorem respects_perform {w : Workshop} {x x' : List Event} {errand : Errand} (known : errand.Known w) :
    SessionM.Respectful w x x' errand.perform := by
  cases errand with
  | load m => exact .bind (SessionM.respects_load known) fun _ => .pure _
  | setTape text => exact .bind (SessionM.respects_setTape _) fun _ => .pure _
  | step => exact .bind SessionM.respects_step fun _ => .pure _
  | run limit patience => exact SessionM.respects_run limit patience
  | reset => exact .bind SessionM.respects_reset fun _ => .pure _

theorem performAll_related {w : Workshop} {x x' : List Event} {o o' : Office}
    (h : Office.Mates w x x' o o') {errands : List Errand} (known : ∀ errand ∈ errands, errand.Known w) :
    Office.Mates w x x' (performAll errands o) (performAll errands o') := by
  induction errands generalizing o o' with
  | nil => exact h
  | cons errand rest ih =>
    exact ih ((respects_perform (known errand (.head _))).after_related h)
      fun e he => known e (.tail _ he)

end Errand

/-- What can be seen of a session at the end of an errand: what it said, what listeners heard meanwhile,
and the tape. -/
structure Answer where
  reply : Except Fault (Option Bool)
  events : List Event
  tape : Tape

namespace Office

/-- What can be seen of a session at the end of an errand. -/
def answer (o : Office) (errand : Errand) : Answer :=
  let o' := after errand.perform o
  { reply := outcome errand.perform o
    events := o'.journal.events.toList.drop o.journal.events.toList.length
    tape := o'.session.tape }

/-- What comes back from errands. -/
def answers (o : Office) : List Errand → List Answer
  | [] => []
  | errand :: rest => o.answer errand :: (after errand.perform o).answers rest

/-- **Mates answer alike.** -/
theorem Mates.answers_eq {w : Workshop} {o o' : Office} {x x' : List Event} (h : Mates w x x' o o')
    {errands : List Errand} (known : ∀ errand ∈ errands, errand.Known w) :
    o'.answers errands = o.answers errands := by
  induction errands generalizing o o' x x' with
  | nil => rfl
  | cons errand rest ih =>
    -- An answer has the events since the errand was given, so the journals are compared from here on.
    have anew : Mates w o.journal.events.toList o'.journal.events.toList o o' :=
      ⟨h.alike, h.alike', h.good, h.good', h.known, h.session, h.settings, [],
        (List.append_nil _).symm, (List.append_nil _).symm⟩
    have respects : SessionM.Respectful w o.journal.events.toList o'.journal.events.toList
        errand.perform := Errand.respects_perform (known errand (.head _))
    have left := respects.after_related anew
    obtain ⟨new, events, events'⟩ := left.events
    simp only [answers, answer, respects.outcome_eq anew, left.tape, events, events',
      List.drop_left, ih left fun e he => known e (.tail _ he)]

end Office

end MachineLab
