import MachineLab.Proofs.Sessions

/-!
# Starting again

A session that is reset forgets its run: it behaves as a session that has just begun, was given the
same input and has just loaded the same machine.  What a run leaves behind elsewhere makes no difference.
Machines remember that they were validated, settings that were read are remembered, and the simulator
keeps the verdict on its last budget; but the tape is laid out anew, with the capacity and the watcher
that it was given at the beginning.

## Main definitions

* `Session.Begun` — a session that was begun with a given tape.

## Main statements

* `SessionM.start_spec` — how a session begins.
* `Errand.begun_perform` — what errands leave as it was in the beginning.
* `Office.reset_erases_history` — a session that was reset answers as a new one.
-/

namespace MachineLab

/-! ## What work with a simulator leaves as it is -/

theorem Tape.frame_of_apply {t t' : Tape} {op : Op} (h : t.apply op = .ok t') :
    t'.capacity = t.capacity ∧ t'.watcher = t.watcher := by
  cases op with
  | left =>
    simp only [apply] at h
    cases left : t.moveLeft? with
    | none =>
      rw [left] at h
      cases h
    | some t₁ =>
      rw [left] at h
      cases h
      unfold moveLeft? at left
      split at left <;> cases left
      exact ⟨rfl, rfl⟩
  | right =>
    cases h
    unfold moveRight
    split <;> exact ⟨rfl, rfl⟩
  | _ =>
    cases h
    exact ⟨rfl, rfl⟩

/-- Laying out a text makes no difference between tapes but for their capacity and their watcher. -/
theorem Tape.load_congr {t t' : Tape} (capacity : t'.capacity = t.capacity)
    (watcher : t'.watcher = t.watcher) (text : String) : t'.load text = t.load text := by
  obtain ⟨cells, head, n, v, head_lt, n_pos⟩ := t
  obtain ⟨cells', head', n', v', head_lt', n_pos'⟩ := t'
  obtain rfl : n' = n := capacity
  obtain rfl : v' = v := watcher
  rfl

section Frame

variable {m : MachineId} {n : Nat} {v : Option Watcher}

theorem Tape.preserves_perform (op : Op) :
    Preserves (fun r : Reel => r.tape.capacity = n ∧ r.tape.watcher = v) (Tape.perform op) := by
  rintro r ⟨rfl, rfl⟩
  unfold after Tape.perform
  cases happly : r.tape.apply op with
  | error e => exact ⟨rfl, rfl⟩
  | ok t => exact frame_of_apply happly

/-- A simulator goes on with its machine, and its tape keeps the capacity and the watcher. -/
theorem SimM.kept_frame :
    Kept fun s => s.sim.machine = m ∧ s.tape.capacity = n ∧ s.tape.watcher = v where
  update machine _ := .modify fun s h => ⟨(machine s.sim).trans h.1, h.2⟩
  judge _ := .modify fun _ h => h
  tell _ := .modify fun _ h => h
  record _ _ := .modify fun _ h => h
  onTape machine q tr? := by
    intro s ⟨hm, frame⟩
    have kept := machine.preserves_advance Tape.preserves_perform q tr? ⟨s.tape, s.journal⟩ frame
    unfold after at kept
    unfold after SimM.onTape
    cases hwork : machine.advance q tr? ⟨s.tape, s.journal⟩ <;> rw [hwork] at kept <;> exact ⟨hm, kept⟩
  validate m := by
    intro s h
    unfold after SimM.inShop
    cases Work.validate m ⟨s.shop, s.journal⟩ <;> exact h

end Frame

/-! ## How a session begins -/

/-- A session that has just begun. -/
def Session.begun (capacity : Int) (watched : Bool) : Session :=
  { machine := none, simulator := none, inputText := .text ""
    tape := { Tape.ofText "" capacity with watcher := if watched then some .views else none } }

namespace SessionM

variable {o : Office}

theorem start_spec {capacity watched : Value} {n : Int}
    (found : o.reading Definition.tapeCapacity = .ok capacity) (number : capacity.integer = .ok n)
    (found' : o.reading Definition.notifyViews = .ok watched) :
    ∃ settings journal,
      start o = .ok () { o with settings, session := .begun n watched.truth, journal } ∧
        o.SameSettings { o with settings, session := .begun n watched.truth, journal } := by
  have known : Definition.tapeCapacity ∈ Definition.all := by simp [Definition.all]
  have known' : Definition.notifyViews ∈ Definition.all := by simp [Definition.all]
  obtain ⟨settings, log, gives, same⟩ := setting_spec known o
  let o₁ : Office := { o with
    settings
    session := .begun n false
    journal := ⟨o.journal.events, log⟩ }
  have same₁ : o.SameSettings o₁ := same.congr rfl rfl rfl rfl
  obtain ⟨settings', log', gives', same'⟩ := setting_spec known' o₁
  rw [found] at gives
  rw [same₁ _ known', found'] at gives'
  have begins : start o =
      (do if (← setting Definition.notifyViews).truth then onTape (Tape.watch (some .views))
        : SessionM Unit) o₁ := by
    unfold start
    rw [bind_of_ok gives]
    simp only [number]
    rfl
  have same₂ (session : Session) (journal : Journal) :
      o.SameSettings { o with settings := settings', session, journal } := by
    have again : o₁.SameSettings { o with settings := settings', session, journal } :=
      same'.congr rfl rfl rfl rfl
    exact fun d hd => (again d hd).trans (same₁ d hd)
  rw [begins, bind_of_ok gives']
  cases watched.truth with
  | false => exact ⟨_, _, rfl, same₂ _ _⟩
  | true => exact ⟨_, _, rfl, same₂ _ _⟩

/-- A session begins only if the settings of its tape can be read. -/
theorem exists_reading_of_start (begins : outcome start o = .ok ()) :
    ∃ capacity n watched, o.reading Definition.tapeCapacity = .ok capacity ∧
      capacity.integer = .ok n ∧ o.reading Definition.notifyViews = .ok watched := by
  have known : Definition.tapeCapacity ∈ Definition.all := by simp [Definition.all]
  have known' : Definition.notifyViews ∈ Definition.all := by simp [Definition.all]
  obtain ⟨settings, log, gives, same⟩ := setting_spec known o
  unfold start at begins
  cases found : o.reading Definition.tapeCapacity with
  | error e =>
    rw [found] at gives
    rw [outcome_of_error (bind_of_error gives)] at begins
    cases begins
  | ok capacity =>
    rw [found] at gives
    rw [outcome_congr (bind_of_ok gives)] at begins
    cases number : capacity.integer with
    | error e =>
      rw [number] at begins
      cases begins
    | ok n =>
      refine ⟨capacity, n, ?_⟩
      cases found' : o.reading Definition.notifyViews with
      | ok watched => exact ⟨watched, rfl, number, rfl⟩
      | error e =>
        let o₁ : Office := { o with
          settings
          session := .begun n false
          journal := ⟨o.journal.events, log⟩ }
        obtain ⟨settings', log', gives', -⟩ := setting_spec known' o₁
        have same₁ : o.SameSettings o₁ := same.congr rfl rfl rfl rfl
        rw [same₁ _ known', found'] at gives'
        rw [number] at begins
        have fails : outcome (setting Definition.notifyViews >>= fun watched : Value =>
            if watched.truth then onTape (Tape.watch (some .views)) else pure ()) o₁ = .error e :=
          outcome_of_error (bind_of_error gives')
        cases fails.symm.trans begins

end SessionM

/-! ## What errands leave as it was in the beginning -/

/-- A session that was begun with a tape of the given capacity and watcher, works with the machine of its
simulator and has a text for its input. -/
structure Session.Begun (capacity : Nat) (watcher : Option Watcher) (s : Session) : Prop where
  machine : s.machine = s.simulator.map (·.machine)
  input : ∃ text, s.inputText = .text text
  capacity : s.tape.capacity = capacity
  watcher : s.tape.watcher = watcher

section Begun

variable {n : Nat} {v : Option Watcher} {o₀ o : Office}

/-- The session is as it was begun, and its settings read the same. -/
def Office.Begun (n : Nat) (v : Option Watcher) (o₀ o : Office) : Prop :=
  o.session.Begun n v ∧ o₀.SameSettings o

theorem Office.Begun.still {o' : Office} (h : Office.Begun n v o₀ o) (still : o.Still o') :
    Office.Begun n v o₀ o' :=
  ⟨still.session ▸ h.1, fun d hd => (still.settings d hd).trans (h.2 d hd)⟩

theorem Office.Begun.store {α : Type} {sim : Simulator} {work : SimM α} (h : Office.Begun n v o₀ o)
    (loaded : o.session.simulator = some sim)
    (keeps : ∀ m, Preserves (fun s : Stage =>
      s.sim.machine = m ∧ s.tape.capacity = n ∧ s.tape.watcher = v) work) :
    Office.Begun n v o₀ (o.store (after work (o.stage sim))) := by
  obtain ⟨⟨machine, input, capacity, watcher⟩, same⟩ := h
  obtain ⟨machine', frame⟩ := keeps sim.machine (o.stage sim) ⟨rfl, capacity, watcher⟩
  refine ⟨⟨?_, input, frame.1, frame.2⟩, same.congr rfl rfl rfl rfl⟩
  rw [loaded] at machine
  exact machine.trans (congrArg some machine'.symm)

namespace SessionM

theorem begun_load (m : MachineId) : Preserves (Office.Begun n v o₀) (load m) := by
  rintro o ⟨begun, same⟩
  obtain ⟨text, input⟩ := begun.input
  obtain ⟨journal, gives⟩ := load_eq input m
  rw [after_of_ok gives]
  exact ⟨⟨rfl, begun.input, begun.capacity, begun.watcher⟩, same.congr rfl rfl rfl rfl⟩

theorem begun_setTape (text : String) : Preserves (Office.Begun n v o₀) (setTape (.text text)) := by
  rintro o ⟨begun, same⟩
  obtain ⟨journal, gives⟩ := setTape_eq text o
  rw [after_of_ok gives]
  refine ⟨⟨?_, ⟨text, rfl⟩, begun.capacity, begun.watcher⟩, same.congr rfl rfl rfl rfl⟩
  rw [begun.machine, Option.map_map]
  rfl

theorem begun_reset : Preserves (Office.Begun n v o₀) reset := by
  rintro o ⟨begun, same⟩
  obtain ⟨text, input⟩ := begun.input
  obtain ⟨journal, gives⟩ := reset_eq input
  rw [after_of_ok gives]
  refine ⟨⟨?_, begun.input, begun.capacity, begun.watcher⟩, same.congr rfl rfl rfl rfl⟩
  rw [begun.machine, Option.map_map]
  rfl

theorem begun_step : Preserves (Office.Begun n v o₀) step := by
  intro o begun
  cases loaded : o.session.simulator with
  | none =>
    obtain ⟨journal, idle⟩ := step_of_none loaded
    rw [after_of_ok idle]
    exact begun.still (o.still_journal journal)
  | some sim =>
    obtain ⟨o₁, still, still'⟩ := after_step loaded
    rw [← still.stage_eq sim] at still'
    exact ((begun.still still).store (still.session ▸ loaded) fun _ => SimM.kept_frame.step).still still'

theorem begun_run (limit : Value) (patience : Nat) :
    Preserves (Office.Begun n v o₀) (run limit patience) := by
  intro o begun
  cases loaded : o.session.simulator with
  | none =>
    obtain ⟨journal, idle⟩ := run_of_none loaded limit patience
    rw [after_of_ok idle]
    exact begun.still (o.still_journal journal)
  | some sim =>
    obtain still | ⟨o₁, steps, still, still'⟩ := after_run loaded limit patience
    · exact begun.still still
    · rw [← still.stage_eq sim] at still'
      exact ((begun.still still).store (still.session ▸ loaded)
        fun _ => SimM.kept_frame.run steps patience).still still'

end SessionM

/-- **Errands leave the beginnings of a session as they were.** -/
theorem Errand.begun_perform (errand : Errand) : Preserves (Office.Begun n v o₀) errand.perform := by
  cases errand with
  | load m => exact .bind (SessionM.begun_load m) fun _ => .pure _
  | setTape text => exact .bind (SessionM.begun_setTape text) fun _ => .pure _
  | step => exact .bind SessionM.begun_step fun _ => .pure _
  | run limit patience => exact SessionM.begun_run limit patience
  | reset => exact .bind SessionM.begun_reset fun _ => .pure _

theorem Errand.begun_performAll (h : Office.Begun n v o₀ o) (errands : List Errand) :
    Office.Begun n v o₀ (performAll errands o) := by
  induction errands generalizing o with
  | nil => exact h
  | cons errand rest ih => exact ih (errand.begun_perform o h)

end Begun

/-! ## A session that was reset -/

namespace Office

theorem SameSettings.symm {o o' : Office} (h : o.SameSettings o') : o'.SameSettings o :=
  fun d hd => (h d hd).symm

theorem SameSettings.trans {o o' o'' : Office} (h : o.SameSettings o') (h' : o'.SameSettings o'') :
    o.SameSettings o'' := fun d hd => (h' d hd).trans (h d hd)

/-- The input is on the tape, and the machine has a simulator that has not started. -/
theorem performAll_setTape_load (text : String) (m : MachineId) (o : Office) :
    ∃ journal, Errand.performAll [.setTape text, .load m] o = { o with
      session := ⟨some m, some (Simulator.new m), .text text, o.session.tape.load text⟩, journal } := by
  obtain ⟨journal, sets⟩ := SessionM.setTape_eq text o
  let o₁ : Office := { o with
    session := { o.session with
      inputText := .text text
      tape := o.session.tape.load text
      simulator := o.session.simulator.map Simulator.reset }
    journal }
  have given : o₁.session.inputText = .text text := rfl
  obtain ⟨journal', loads⟩ := SessionM.load_eq given m
  have set_after : after (Errand.setTape text).perform o = _ := after_of_ok (bind_of_ok sets)
  refine ⟨journal', ?_⟩
  simp only [Errand.performAll]
  rw [set_after]
  exact after_of_ok (bind_of_ok loads)

/-- A session that has begun knows the machine that it works with, whatever it is asked for. -/
theorem known_of_performAll {o : Office} (reachable : o.shop.Reachable) {n : Int} {watched : Bool}
    (begins : o.session = .begun n watched) {errands : List Errand}
    (known : ∀ errand ∈ errands, errand.Known o.shop) :
    let o' := Errand.performAll errands o
    o.shop.Alike o'.shop ∧ o'.shop.Good ∧
      ∀ sim, o'.session.simulator = some sim → sim.machine.index < o.shop.machines.length := by
  have good := reachable.good
  have itself : Mates o.shop o.journal.events.toList o.journal.events.toList o o := by
    refine ⟨.refl _, .refl _, good, good, ?_, ⟨false, ?_⟩, fun _ _ => rfl, [], ?_, ?_⟩
    · intro sim hsim
      rw [begins] at hsim
      cases hsim
    · rw [begins]
      rfl
    · exact (List.append_nil _).symm
    · exact (List.append_nil _).symm
  have left := Errand.performAll_related itself known
  exact ⟨left.alike, left.good, left.known⟩

/-- **A session that was reset answers as a new one.**  Whatever a session was asked for since it was
begun, once it is reset every sequence of errands gives the same as in another session that has just
begun, was given the same input and has loaded the same machine: the same answers, the same events in
the same order and the same tape.  The other session may be anywhere where the machines are the same,
but for what they remember, and the settings read the same. -/
theorem reset_erases_history {o o' : Office} (reachable : o.shop.Reachable)
    (reachable' : o'.shop.Reachable) (alike : o.shop.Alike o'.shop) (settings : o.SameSettings o')
    (begins : outcome SessionM.start o = .ok ()) {history : List Errand}
    (known : ∀ errand ∈ history, errand.Known o.shop) {m : MachineId}
    (loaded : (Errand.performAll history (after SessionM.start o)).session.machine = some m)
    {later : List Errand} (known' : ∀ errand ∈ later, errand.Known o.shop) :
    let used := after SessionM.reset (Errand.performAll history (after SessionM.start o))
    ∃ text, used.session.inputText = .text text ∧
      let new := Errand.performAll [.setTape text, .load m] (after SessionM.start o')
      new.session.tape = used.session.tape ∧ new.answers later = used.answers later := by
  obtain ⟨capacity, n, watched, found, number, found'⟩ := SessionM.exists_reading_of_start begins
  obtain ⟨ledger, journal, begun, same⟩ := SessionM.start_spec found number found'
  obtain ⟨ledger', journal', begun', same'⟩ := SessionM.start_spec (o := o')
    ((settings _ (by simp [Definition.all])).trans found) number
    ((settings _ (by simp [Definition.all])).trans found')
  rw [after_of_ok begun] at loaded ⊢
  rw [after_of_ok begun']
  obtain ⟨alike₁, good₁, machines₁⟩ := known_of_performAll
    (o := { o with settings := ledger, session := .begun n watched.truth, journal })
    reachable rfl known
  have left : Office.Begun (Session.begun n watched.truth).tape.capacity
      (Session.begun n watched.truth).tape.watcher o
      (Errand.performAll history
        { o with settings := ledger, session := .begun n watched.truth, journal }) :=
    Errand.begun_performAll ⟨⟨rfl, ⟨"", rfl⟩, rfl, rfl⟩, same⟩ history
  generalize Errand.performAll history
    { o with settings := ledger, session := .begun n watched.truth, journal } = old
    at loaded alike₁ good₁ machines₁ left ⊢
  -- All that is left of the history is a machine and an input.
  obtain ⟨⟨machine, ⟨text, input⟩, capacity_eq, watcher_eq⟩, same₁⟩ := left
  obtain ⟨sim, hsim, rfl⟩ : ∃ sim, old.session.simulator = some sim ∧ sim.machine = m :=
    Option.map_eq_some_iff.mp (machine.symm.trans loaded)
  obtain ⟨journal₁, resets⟩ := SessionM.reset_eq input
  obtain ⟨journal₂, prepares⟩ := performAll_setTape_load text sim.machine
    { o' with settings := ledger', session := .begun n watched.truth, journal := journal' }
  rw [after_of_ok resets]
  refine ⟨text, input, ?_⟩
  rw [prepares]
  have tape : (Session.begun n watched.truth).tape.load text = old.session.tape.load text :=
    Tape.load_congr capacity_eq.symm watcher_eq.symm text
  -- The journals so far differ; what counts is that nothing has been added to them since.
  refine ⟨tape, @Mates.answers_eq o.shop _ _ journal₁.events.toList journal₂.events.toList ?_ _ known'⟩
  refine ⟨alike₁, alike, good₁, reachable'.good, ?_, ⟨false, ?_⟩, ?_, [], ?_, ?_⟩
  · intro sim' hsim'
    rw [show sim' = sim.reset by simpa [hsim] using hsim'.symm]
    exact machines₁ sim hsim
  · simp only [Session.judged, hsim, loaded, input, tape]
    rfl
  · exact (same₁.symm.trans (settings.trans same')).congr rfl rfl rfl rfl
  · exact (List.append_nil _).symm
  · exact (List.append_nil _).symm

/-- A session in a workshop, without files and settings. -/
def bare (shop : Workshop) : Office := ⟨shop, .empty, none, default, .empty, default⟩

open Workshop in
/-- A run that was stopped by its budget inside a submachine is forgotten, and it makes no difference
that elsewhere the machine has been validated again. -/
theorem threeLevels_starts_again :
    let old := Errand.performAll [.setTape "10", .load ⟨0⟩, .run (.int 2) 9, .step]
      (after SessionM.start (bare threeLevels.shop))
    let used := after SessionM.reset old
    let new := Errand.performAll [.setTape "10", .load ⟨0⟩]
      (after SessionM.start (bare (after (Work.validate ⟨0⟩) threeLevels).shop))
    threeLevels.shop.Reachable ∧
    old.session.simulator.map (fun sim => (sim.cursors.length, sim.budgetExhausted)) = some (3, true) ∧
    new.session.tape = used.session.tape ∧
    new.answers [.step, .run .null 30] = used.answers [.step, .run .null 30] := by
  have known : 0 < threeLevels.shop.machines.length := by decide +kernel
  have asked : Command.AllKnown [.validate ⟨0⟩] threeLevels := ⟨known, trivial⟩
  have validates := threeLevels_reachable.runAll asked
  have validated : (after (Work.validate ⟨0⟩) threeLevels).shop.Reachable := validates
  have alike : threeLevels.shop.Alike (after (Work.validate ⟨0⟩) threeLevels).shop := by
    obtain ⟨b, alike, -, validates, -⟩ := Work.validate_spec threeLevels_reachable.good (m := ⟨0⟩) known
    rwa [after_of_conclude validates]
  have loaded : (Errand.performAll [.setTape "10", .load ⟨0⟩, .run (.int 2) 9, .step]
      (after SessionM.start (bare threeLevels.shop))).session.machine = some ⟨0⟩ := by decide +kernel
  have input : (after SessionM.reset (Errand.performAll
      [.setTape "10", .load ⟨0⟩, .run (.int 2) 9, .step]
      (after SessionM.start (bare threeLevels.shop)))).session.inputText.display = "10" := by decide +kernel
  have history_known : ∀ errand ∈ [Errand.setTape "10", .load ⟨0⟩, .run (.int 2) 9, .step],
      errand.Known (bare threeLevels.shop).shop := by simp [Errand.Known, bare, known]
  have later_known : ∀ errand ∈ [Errand.step, .run .null 30],
      errand.Known (bare threeLevels.shop).shop := by simp [Errand.Known]
  obtain ⟨text, given, same⟩ := reset_erases_history threeLevels_reachable validated alike
    (fun _ _ => rfl) (eq_ok_of_toOption (by decide +kernel)) history_known loaded later_known
  rw [given] at input
  obtain rfl : text = "10" := input
  exact ⟨threeLevels_reachable, by decide +kernel, same⟩

end Office

end MachineLab
