import MachineLab.Proofs.Stack
import MachineLab.Simulator.Step

/-!
# Steps of a simulator

A step validates the machine, does something to the cursors and the tape, and reports what it did.
Reports go to the journal and the action log and change nothing else.  What is left is the step on
stacks: a step of a simulator whose cursors are those of a stack gives the result of `nextStack`, or
the fault of the validation, and a step that fails leaves cursors and tape alone.

## Main definitions

* `Stage.Reported` — two stages differ in reports only.
* `Stage.Stands` — a stage at a stack and a tape.
* `Workshop.stepResult` — one step, with the validation before it.

## Main statements

* `Stage.Stands.step_eq` — a step of a simulator is a step on stacks.
-/

namespace MachineLab

open Relation

/-! ## Reports -/

/-- Two stages differ in nothing but what was reported. -/
structure Stage.Reported (s s' : Stage) : Prop where
  shop : s'.shop = s.shop
  tape : s'.tape = s.tape
  machine : s'.sim.machine = s.sim.machine
  cursors : s'.sim.cursors = s.sim.cursors

namespace Stage.Reported

variable {s s' s'' : Stage}

theorem refl (s : Stage) : s.Reported s := ⟨rfl, rfl, rfl, rfl⟩

theorem trans (h : s.Reported s') (h' : s'.Reported s'') : s.Reported s'' :=
  ⟨h'.shop.trans h.shop, h'.tape.trans h.tape, h'.machine.trans h.machine,
    h'.cursors.trans h.cursors⟩

theorem cursor? (h : s.Reported s') (m : MachineId) : s'.sim.cursor? m = s.sim.cursor? m := by
  unfold Simulator.cursor?
  rw [h.cursors]

theorem live (h : s.Reported s') (live : s.shop.Live s.sim) : s'.shop.Live s'.sim := by
  intro m id hc
  rw [h.cursor?] at hc
  rw [h.shop]
  exact live m id hc

theorem tracks (h : s.Reported s') {w : Workshop} {stack : List Frame}
    (tracks : w.Tracks s.sim stack) : w.Tracks s'.sim stack :=
  tracks.congr h.machine h.cursor?

end Stage.Reported

namespace SimM

variable {α β : Type} {s : Stage}

/-- Work that succeeds and does nothing but report. -/
def Reports (work : SimM α) (s : Stage) : Prop := ∃ a s', work s = .ok a s' ∧ s.Reported s'

theorem Reports.bind {work : SimM α} {rest : α → SimM β} (h : Reports work s)
    (hrest : ∀ a s', s.Reported s' → Reports (rest a) s') : Reports (work >>= rest) s := by
  obtain ⟨a, s₁, hwork, rep⟩ := h
  obtain ⟨b, s₂, hrest, rep'⟩ := hrest a s₁ rep
  exact ⟨b, s₂, by rw [bind_of_ok hwork, hrest], rep.trans rep'⟩

theorem observe_of_ok {f : Workshop → Simulator → Except Fault α} {a : α}
    (h : f s.shop s.sim = .ok a) : observe f s = .ok a s := by
  simp only [observe, bind, EStateM.bind, get_apply, h]
  rfl

theorem observeTape_of_ok {f : Workshop → Simulator → Tape → Except Fault α} {a : α}
    (h : f s.shop s.sim s.tape = .ok a) : observeTape f s = .ok a s := by
  simp only [observeTape, bind, EStateM.bind, get_apply, h]
  rfl

theorem reports_tell (e : SimulatorEvent) (s : Stage) : Reports (tell e) s :=
  ⟨(), _, rfl, rfl, rfl, rfl, rfl⟩

theorem reports_record (level : LogLevel) (message : String) (s : Stage) :
    Reports (record level message) s :=
  ⟨(), _, rfl, rfl, rfl, rfl, rfl⟩

theorem reports_ofExcept {x : Except Fault α} {a : α} (h : x = .ok a) (s : Stage) :
    Reports (ofExcept x) s := by
  rw [h]
  exact ⟨a, s, rfl, .refl s⟩

theorem reports_nameOf (m : MachineId) (s : Stage) : Reports (nameOf m) s :=
  ⟨_, s, rfl, .refl s⟩

theorem reports_observe {f : Workshop → Simulator → Except Fault α} {a : α}
    (h : f s.shop s.sim = .ok a) : Reports (observe f) s :=
  ⟨a, s, observe_of_ok h, .refl s⟩

theorem reports_update {f : Simulator → Simulator} (machine : (f s.sim).machine = s.sim.machine)
    (cursors : (f s.sim).cursors = s.sim.cursors) : Reports (update f) s :=
  ⟨(), _, rfl, rfl, rfl, machine, cursors⟩

theorem reports_logAction (sane : s.shop.Sane) (live : s.shop.Live s.sim) (message : String) :
    Reports (logAction message) s := by
  obtain ⟨ms, hms⟩ := live.exists_stack sane
  exact (reports_observe hms).bind fun _ _ _ => reports_update rfl rfl

theorem reports_announceState (sane : s.shop.Sane) (live : s.shop.Live s.sim) :
    Reports announceState s := by
  obtain ⟨name, hname⟩ := live.exists_stateName sane
  exact (reports_observe hname).bind fun _ s' _ => reports_tell _ s'

/-! ## The parts of a step -/

/-- Putting a machine on a state changes its cursor and is reported. -/
theorem take_eq (sane : s.shop.Sane) (live : s.shop.Live s.sim) {m : MachineId} {tr : Transition}
    (ht : tr ∈ (s.shop.machine m).transitions) {new : State}
    (hnew : new ∈ (s.shop.machine m).states) {text : String} (htext : tr.action.text = .ok text) :
    ∃ s', take m tr new s = .ok () s' ∧
      Stage.Reported { s with sim := s.sim.setCursor m new.id } s' := by
  obtain ⟨source, hsource, hid⟩ := (sane.arena m).source_live tr ht
  have found : observe (fun w _ => w.stateAt m tr.source) s = .ok source s := by
    rw [← hid]
    exact observe_of_ok (Workshop.stateAt_eq (sane.arena m) hsource)
  have live' := live.setCursor hnew
  obtain ⟨description, described⟩ := (sane.arena m).exists_description ht
  have tail : Reports (do
      logAction (← ofExcept ((s.shop.machine m).describe tr))
      record .debug ("'" ++ (s.shop.machine m).name.display ++ "': " ++
        (← ofExcept ((s.shop.machine m).describe tr)))
      tell (.transitionTaken source.label new.label (← ofExcept tr.action.text))
      announceState) { s with sim := s.sim.setCursor m new.id } := by
    refine (reports_ofExcept described _).bind fun _ s₀ rep₀ => ?_
    refine (reports_logAction (rep₀.shop ▸ sane) (rep₀.live live') _).bind fun _ s₁ rep₁ => ?_
    refine (reports_ofExcept described s₁).bind fun _ s₂ rep₂ => ?_
    refine (reports_record _ _ s₂).bind fun _ s₃ rep₃ => ?_
    refine (reports_ofExcept htext s₃).bind fun _ s₄ rep₄ => ?_
    refine (reports_tell _ s₄).bind fun _ s₅ rep₅ => ?_
    have rep := ((((rep₀.trans rep₁).trans rep₂).trans rep₃).trans rep₄).trans rep₅
    exact reports_announceState (rep.shop ▸ sane) (rep.live live')
  obtain ⟨⟨⟩, s', hs', rep⟩ := tail
  refine ⟨s', ?_, rep⟩
  rw [← hs']
  unfold take
  simp only [bind, EStateM.bind, get_apply]
  rw [found]
  rfl

theorem onTape_of_ok {work : TapeM α} {a : α} {r : Reel} (h : work ⟨s.tape, s.journal⟩ = .ok a r) :
    onTape work s = .ok a { s with tape := r.tape, journal := r.journal } := by
  simp only [onTape, h]

theorem onTape_of_error {work : TapeM α} {e : Fault} {r : Reel}
    (h : work ⟨s.tape, s.journal⟩ = .error e r) :
    onTape work s = .error e { s with tape := r.tape, journal := r.journal } := by
  simp only [onTape, h]

/-- A move that succeeds changes the tape. -/
theorem advance_of_ok {m : MachineId} {q : State} (arena : (s.shop.machine m).Arena)
    {q' : State} {t' : Tape} (hgo : (s.shop.machine m).go q s.tape = .ok (q', t')) :
    ∃ s', advance m q ((s.shop.machine m).choice? q (.text s.tape.read)) s = .ok q' s' ∧
      Stage.Reported { s with tape := t' } s' := by
  obtain ⟨j, hadvance⟩ := arena.advance_eq q s.tape s.journal
  rw [hgo] at hadvance
  refine ⟨{ s with tape := t', journal := j }, ?_, rfl, rfl, rfl, rfl⟩
  rw [advance, bind_of_ok (get_apply s)]
  exact tryCatch_of_ok (onTape_of_ok hadvance)

/-- A move that fails changes nothing. -/
theorem advance_of_error (sane : s.shop.Sane) (live : s.shop.Live s.sim) {m : MachineId} {q : State}
    {e : Fault} (hgo : (s.shop.machine m).go q s.tape = .error e) :
    ∃ s', advance m q ((s.shop.machine m).choice? q (.text s.tape.read)) s = .error e s' ∧
      s.Reported s' := by
  obtain ⟨j, hadvance⟩ := (sane.arena m).advance_eq q s.tape s.journal
  rw [hgo] at hadvance
  have fails : onTape ((s.shop.machine m).advance q
      ((s.shop.machine m).choice? q (.text s.tape.read))) s = .error e s := onTape_of_error hadvance
  rw [advance, bind_of_ok (get_apply s), tryCatch_of_error fails]
  cases e with
  | refusal cause => exact ⟨s, rfl, .refl s⟩
  | mismatch cause => exact ⟨s, rfl, .refl s⟩
  | machine f =>
    simp only
    cases haltNote? (s.shop.machine m).kind q f with
    | none => exact ⟨s, rfl, .refl s⟩
    | some note =>
      obtain ⟨⟨⟩, s', hs', rep⟩ := reports_logAction sane live note
      exact ⟨s', bind_of_ok hs', rep⟩

/-- A machine takes the transition that there is for the symbol under the head. -/
theorem act_eq {m : MachineId} {q : State} (arena : (s.shop.machine m).Arena)
    (hq : q ∈ (s.shop.machine m).states) :
    act m q s = (do
      let new ← advance m q ((s.shop.machine m).choice? q (.text s.tape.read))
      match (s.shop.machine m).choice? q (.text s.tape.read) with
      | some tr => take m tr new
      | none => pure ()) s :=
  bind_of_ok (observeTape_of_ok (Workshop.chosen_eq arena hq s.tape))

/-- A machine that moves changes the tape and its cursor. -/
theorem act_of_ok (sane : s.shop.Sane) (live : s.shop.Live s.sim) {m : MachineId} {a : Alphabet}
    (rules : (s.shop.machine m).Rules a) {q : State} (hq : q ∈ (s.shop.machine m).states)
    {q' : State} {t' : Tape} (hgo : (s.shop.machine m).go q s.tape = .ok (q', t')) :
    ∃ s', act m q s = .ok () s' ∧
      Stage.Reported { s with tape := t', sim := s.sim.setCursor m q'.id } s' := by
  obtain ⟨tr, hr, ht, hq', -, -⟩ := (sane.arena m).go_eq_ok hgo
  obtain ⟨text, htext⟩ := rules.exists_text (sane.arena m) hq (Machine.mem_exits_of_choice? hr)
  obtain ⟨s₁, hadvance, rep₁⟩ := advance_of_ok (sane.arena m) hgo
  have shop₁ : s₁.shop = s.shop := rep₁.shop
  obtain ⟨s₂, htake, rep₂⟩ := take_eq (s := s₁) (shop₁ ▸ sane) (rep₁.live live) (m := m)
    (shop₁ ▸ ht) (shop₁ ▸ hq') htext
  refine ⟨s₂, ?_, ?_⟩
  · rw [hr] at hadvance
    rw [act_eq (sane.arena m) hq, hr]
    exact (bind_of_ok hadvance).trans htake
  · refine ⟨rep₂.shop.trans shop₁, rep₂.tape.trans rep₁.tape, rep₂.machine.trans rep₁.machine, ?_⟩
    rw [rep₂.cursors]
    simp only [Simulator.setCursor, Simulator.clearCursor, rep₁.cursors]

/-- A machine that cannot move changes nothing. -/
theorem act_of_error (sane : s.shop.Sane) (live : s.shop.Live s.sim) {m : MachineId} {q : State}
    (hq : q ∈ (s.shop.machine m).states) {e : Fault}
    (hgo : (s.shop.machine m).go q s.tape = .error e) :
    ∃ s', act m q s = .error e s' ∧ s.Reported s' := by
  obtain ⟨s', hadvance, rep⟩ := advance_of_error sane live hgo
  refine ⟨s', ?_, rep⟩
  rw [act_eq (sane.arena m) hq]
  exact bind_of_error hadvance

theorem startOf_of_some {m : MachineId} {p : State}
    (h : (s.shop.machine m).startState? = some p) : startOf m s = .ok p s := by
  simp only [startOf, bind, EStateM.bind, get_apply, h]
  rfl

/-- The outermost machine is put on its start state. -/
theorem start_eq (sane : s.shop.Sane) (live : s.shop.Live s.sim) {p : State}
    (hp : (s.shop.machine s.sim.machine).startState? = some p)
    (hlive : p ∈ (s.shop.machine s.sim.machine).states) :
    ∃ s', start s = .ok () s' ∧
      Stage.Reported { s with sim := s.sim.setCursor s.sim.machine p.id } s' := by
  have live' := live.setCursor hlive
  have tail : Reports (do
      logAction ("Starting in state " ++ p.label)
      record .info ("Simulation of '" ++ (← nameOf s.sim.machine) ++ "' started in " ++ p.label ++
        ".")
      announceState) { s with sim := s.sim.setCursor s.sim.machine p.id } := by
    refine (reports_logAction (s := { s with sim := s.sim.setCursor s.sim.machine p.id }) sane
      live' _).bind fun _ s₁ rep₁ => ?_
    refine (reports_nameOf _ s₁).bind fun _ s₂ rep₂ => ?_
    refine (reports_record _ _ s₂).bind fun _ s₃ rep₃ => ?_
    have rep := (rep₁.trans rep₂).trans rep₃
    exact reports_announceState (rep.shop ▸ sane) (rep.live live')
  obtain ⟨⟨⟩, s', hs', rep⟩ := tail
  refine ⟨s', ?_, rep⟩
  rw [← hs']
  unfold start
  simp only [bind, EStateM.bind, get_apply]
  rw [startOf_of_some hp]
  rfl

/-- A submachine is put on its start state. -/
theorem enter_eq (sane : s.shop.Sane) (live : s.shop.Live s.sim) {i : MachineId} {p : State}
    (hp : (s.shop.machine i).startState? = some p) (hlive : p ∈ (s.shop.machine i).states)
    (q : State) :
    ∃ s', enter q i s = .ok () s' ∧
      Stage.Reported { s with sim := s.sim.setCursor i p.id } s' := by
  have live' := live.setCursor hlive
  have tail : Reports (do
      logAction ("Entering submachine '" ++ (s.shop.machine i).name.display ++ "' at " ++ p.label)
      record .debug ("Entered submachine '" ++ (s.shop.machine i).name.display ++
        "' from state " ++ q.label ++ ".")
      announceState) { s with sim := s.sim.setCursor i p.id } := by
    refine (reports_logAction (s := { s with sim := s.sim.setCursor i p.id }) sane live' _).bind
      fun _ s₁ rep₁ => ?_
    refine (reports_record _ _ s₁).bind fun _ s₂ rep₂ => ?_
    have rep := rep₁.trans rep₂
    exact reports_announceState (rep.shop ▸ sane) (rep.live live')
  obtain ⟨⟨⟩, s', hs', rep⟩ := tail
  refine ⟨s', ?_, rep⟩
  rw [← hs']
  unfold enter
  rw [bind_of_ok (startOf_of_some hp)]
  rfl

end SimM

/-! ## Steps -/

namespace Workshop

theorem Clean.rules {w : Workshop} {root n : MachineId} (clean : w.Clean root)
    (path : ReflTransGen w.Nests root n) : (w.machine n).Rules (w.alphabetOf n) :=
  clean n path

/-- A clean machine passes the check. -/
theorem Clean.pass {w : Workshop} {root : MachineId} (clean : w.Clean root) (sane : w.Sane)
    (known : root.index < w.machines.length) : verdict (w.defectOf root) = .ok () :=
  verdict_eq_ok_iff.mpr ((sane.defectOf_eq_none_iff known).mpr clean)

/-- Where a step leaves a run: where its result says, or where it was if it failed. -/
def landing (result : Except Fault (List Frame × Tape)) (before : List Frame × Tape) :
    List Frame × Tape :=
  match result with
  | .ok there => there
  | .error _ => before

end Workshop

/-- A simulator of `root` is at a stack and a tape. -/
structure Stage.At (s : Stage) (root : MachineId) (c : List Frame × Tape) : Prop where
  machine : s.sim.machine = root
  tracks : s.shop.Tracks s.sim c.1
  tape : s.tape = c.2

theorem Stage.Reported.stays {s s' : Stage} (h : s.Reported s') {root : MachineId}
    {c : List Frame × Tape} (here : s.At root c) : s'.At root c :=
  ⟨h.machine.trans here.machine, h.shop ▸ h.tracks here.tracks, h.tape.trans here.tape⟩

namespace SimM

variable {s : Stage} {root : MachineId} {stack : List Frame} {t : Tape}

/-- A run that is about to enter a submachine puts a frame on top. -/
theorem proceed_of_enter (sane : s.shop.Sane) (clean : s.shop.Clean s.sim.machine) {g : Frame}
    {below : List Frame} (tracks : s.shop.Tracks s.sim (g :: below))
    (running : g.state.isFinal = true → below = []) {i : MachineId}
    (inner : g.state.submachine = some i)
    (focus : s.shop.focus s.sim = .ok (some (.enter g.machine g.state i))) :
    ∃ s' p, s.shop.enterTop i (g :: below) s.tape = .ok (⟨i, p⟩ :: g :: below, s.tape) ∧
      proceed s = .ok () s' ∧ s'.shop = s.shop ∧
      s'.At s.sim.machine (⟨i, p⟩ :: g :: below, s.tape) := by
  have path : ReflTransGen s.shop.Nests s.sim.machine i :=
    tracks.stacked.path_root.tail ((s.shop.nests_iff _ _).mpr ⟨_, tracks.stacked.live_top, inner⟩)
  obtain ⟨p, hp, hlive⟩ := (clean.rules path).exists_start
  obtain ⟨s', henter, rep⟩ := enter_eq sane (.of_tracks tracks) hp hlive g.state
  refine ⟨s', p, by rw [Workshop.enterTop, hp], ?_, rep.shop, ?_⟩
  · rw [proceed, bind_of_ok (observe_of_ok focus)]
    exact henter
  · refine rep.stays ⟨rfl, ?_, rfl⟩
    exact tracks.setCursor_push (fun f hf => tracks.stacked.inner_absent sane.acyclic inner hf)
      (tracks.stacked.push running inner hlive)

/-- A run whose top frame is about to move replaces it. -/
theorem proceed_of_act (sane : s.shop.Sane) (clean : s.shop.Clean s.sim.machine) {g : Frame}
    {below : List Frame} (tracks : s.shop.Tracks s.sim (g :: below))
    (focus : s.shop.focus s.sim = .ok (some (.act g.machine g.state none))) :
    ∃ s', proceed s = conclude ((s.shop.moveTop g below s.tape).map fun _ => ()) s' ∧
      s'.shop = s.shop ∧
      s'.At s.sim.machine
        (Workshop.landing (s.shop.moveTop g below s.tape) (g :: below, s.tape)) := by
  have live := Workshop.Live.of_tracks tracks
  have hg := tracks.stacked.live_top
  unfold Workshop.moveTop
  cases hgo : (s.shop.machine g.machine).go g.state s.tape with
  | ok there =>
    obtain ⟨q, t'⟩ := there
    obtain ⟨-, -, -, hq, -, -⟩ := (sane.arena _).go_eq_ok hgo
    obtain ⟨s', hact, rep⟩ := act_of_ok sane live (clean.rules tracks.stacked.path_root) hg hgo
    refine ⟨s', ?_, rep.shop, rep.stays ⟨rfl, tracks.setCursor_top sane.acyclic hq, rfl⟩⟩
    rw [proceed, bind_of_ok (observe_of_ok focus)]
    exact bind_of_ok hact
  | error e =>
    obtain ⟨s', hact, rep⟩ := act_of_error sane live hg hgo
    refine ⟨s', ?_, rep.shop, rep.stays ⟨rfl, tracks, rfl⟩⟩
    rw [proceed, bind_of_ok (observe_of_ok focus)]
    exact bind_of_error hact

/-- A run whose top frame has finished drops it and replaces the one below it. -/
theorem proceed_of_finished (sane : s.shop.Sane) (clean : s.shop.Clean s.sim.machine) {f g : Frame}
    {rest : List Frame} (tracks : s.shop.Tracks s.sim (g :: f :: rest))
    (focus : s.shop.focus s.sim = .ok (some (.act f.machine f.state (some g.machine)))) :
    ∃ s', proceed s = conclude ((s.shop.moveTop f rest s.tape).map fun _ => ()) s' ∧
      s'.shop = s.shop ∧
      s'.At s.sim.machine
        (Workshop.landing (s.shop.moveTop f rest s.tape) (g :: f :: rest, s.tape)) := by
  have live := Workshop.Live.of_tracks tracks
  have hf := tracks.stacked.tail.live_top
  unfold Workshop.moveTop
  cases hgo : (s.shop.machine f.machine).go f.state s.tape with
  | ok there =>
    obtain ⟨q, t'⟩ := there
    obtain ⟨-, -, -, hq, -, -⟩ := (sane.arena _).go_eq_ok hgo
    obtain ⟨s', hact, rep⟩ := act_of_ok sane live (clean.rules tracks.stacked.tail.path_root) hf hgo
    refine ⟨{ s' with sim := s'.sim.clearCursor g.machine }, ?_, rep.shop, rep.machine, ?_, rep.tape⟩
    · rw [proceed, bind_of_ok (observe_of_ok focus)]
      exact bind_of_ok hact
    · -- The finished machine is given up after the move; it could as well be before it.
      have apart : f.machine ≠ g.machine := by
        intro same
        have edge := tracks.stacked.nests
        rw [same] at edge
        exact sane.acyclic _ (.single edge)
      have dropped := (tracks.clearCursor_top sane.acyclic).setCursor_top sane.acyclic hq
      rw [show Stage.shop _ = s.shop from rep.shop]
      refine dropped.congr rep.machine fun m => ?_
      simp only [Simulator.cursor?_clearCursor, Simulator.cursor?_setCursor, rep.cursor?]
      by_cases hm : m = g.machine
      · have hne : m ≠ f.machine := fun e => apart (e.symm.trans hm)
        simp [hm, hm ▸ hne]
      · simp [hm]
  | error e =>
    obtain ⟨s', hact, rep⟩ := act_of_error sane live hf hgo
    refine ⟨s', ?_, rep.shop, rep.stays ⟨rfl, tracks, rfl⟩⟩
    rw [proceed, bind_of_ok (observe_of_ok focus)]
    exact bind_of_error hact

/-- A run goes on as `nextStack` says. -/
theorem proceed_eq (sane : s.shop.Sane) (known : root.index < s.shop.machines.length)
    (clean : s.shop.Clean root) {g : Frame} {below : List Frame} (h : s.At root (g :: below, t)) :
    ∃ s', proceed s = conclude ((s.shop.nextStack root t (g :: below)).map fun _ => ()) s' ∧
      s'.shop = s.shop ∧
      s'.At root (Workshop.landing (s.shop.nextStack root t (g :: below)) (g :: below, t)) := by
  obtain ⟨rfl, tracks, rfl⟩ := h
  by_cases running : g.state.isFinal = true → below = []
  · rw [Workshop.nextStack_of_running running, Workshop.workTop]
    have focus := tracks.focus_of_running sane known running
    cases inner : g.state.submachine with
    | some i =>
      rw [inner] at focus
      obtain ⟨s', p, henter, hproceed, here⟩ :=
        proceed_of_enter sane clean tracks running inner focus
      simp only [henter]
      exact ⟨s', hproceed, here⟩
    | none =>
      rw [inner] at focus
      exact proceed_of_act sane clean tracks focus
  · obtain ⟨final, hbelow⟩ := Classical.not_imp.mp running
    obtain ⟨f, rest, rfl⟩ := List.exists_cons_of_ne_nil hbelow
    rw [Workshop.nextStack_of_finished final]
    exact proceed_of_finished sane clean tracks (tracks.focus_of_finished sane known final)

/-- The part of a step between the validation and the last report: start, or go on. -/
def startOrProceed : SimM Unit := fun s =>
  match s.sim.cursor? s.sim.machine with
  | none => start s
  | some _ => proceed s

/-- A run of a clean machine starts or goes on as `nextStack` says. -/
theorem startOrProceed_eq (sane : s.shop.Sane) (known : root.index < s.shop.machines.length)
    (clean : s.shop.Clean root) (h : s.At root (stack, t)) :
    ∃ s', startOrProceed s = conclude ((s.shop.nextStack root t stack).map fun _ => ()) s' ∧
      s'.shop = s.shop ∧ s'.At root (Workshop.landing (s.shop.nextStack root t stack) (stack, t)) := by
  unfold startOrProceed
  cases stack with
  | nil =>
    obtain ⟨rfl, tracks, rfl⟩ := h
    have idle := tracks.cursor_of_absent (m := s.sim.machine) fun f hf => by cases hf
    obtain ⟨p, hp, hlive⟩ := (clean.rules .refl).exists_start
    obtain ⟨s', hstart, rep⟩ := start_eq sane (.of_tracks tracks) hp hlive
    rw [idle, Workshop.nextStack, Workshop.enterTop, hp]
    refine ⟨s', hstart, rep.shop, rep.stays ⟨rfl, ?_, rfl⟩⟩
    exact tracks.setCursor_push (f := ⟨s.sim.machine, p⟩) (fun f hf => by cases hf) ⟨rfl, hlive⟩
  | cons g below =>
    obtain ⟨id, hid⟩ := h.tracks.exists_cursor_root
    rw [hid]
    exact proceed_eq sane known clean h

/-- A step of a machine that is not valid ends with the fault of the validation. -/
theorem step_of_invalid {s₁ : Stage} {e : Fault}
    (h : inShop (Work.validate s.sim.machine) s = .error e s₁) : step s = .error e s₁ := by
  unfold step
  simp only [bind, EStateM.bind, get_apply, h]

/-- A step of a valid machine is counted, carried out and reported. -/
theorem step_of_valid {s₁ : Stage} {u : Unit}
    (h : inShop (Work.validate s.sim.machine) s = .ok u s₁) :
    step s = (startOrProceed >>= fun _ => do
      tell (.stepProcessed (← get).sim.stepCount (← observeTape Workshop.configuration)))
      { s₁ with sim := { s₁.sim with stepCount := s₁.sim.stepCount + 1 } } := by
  unfold step startOrProceed
  simp only [bind, EStateM.bind, get_apply, h, update, modify_apply, Simulator.cursor?]
  cases s₁.sim.cursors.lookup s₁.sim.machine <;> rfl

end SimM

/-! ## Runs -/

namespace Workshop

/-- One step with the validation before it. -/
def stepResult (w : Workshop) (root : MachineId) (c : List Frame × Tape) :
    Except Fault (List Frame × Tape) :=
  match verdict (w.defectOf root) with
  | .ok _ => w.nextStack root c.2 c.1
  | .error e => .error e

namespace Alike

variable {w w' : Workshop}

theorem defectTo (h : w.Alike w') (d : Nat) (m : MachineId) : w'.defectTo d m = w.defectTo d m := by
  induction d generalizing m with
  | zero => rfl
  | succ d ih =>
    have nested : w'.defectTo d = w.defectTo d := funext ih
    simp only [Workshop.defectTo, nested, h.alphabetOf, h.states]
    rw [h.machine m, defectAmong_remembering, Machine.acceptorDefect_remembering]
    rfl

theorem defectOf (h : w.Alike w') (m : MachineId) : w'.defectOf m = w.defectOf m := by
  unfold Workshop.defectOf
  rw [h.length, h.defectTo]

theorem enterTop (h : w.Alike w') (i : MachineId) (below : List Frame) (t : Tape) :
    w'.enterTop i below t = w.enterTop i below t := by
  unfold Workshop.enterTop
  rw [h.machine i]
  rfl

theorem moveTop (h : w.Alike w') (f : Frame) (below : List Frame) (t : Tape) :
    w'.moveTop f below t = w.moveTop f below t := by
  unfold Workshop.moveTop
  rw [h.machine f.machine]
  rfl

theorem nextStack (h : w.Alike w') (root : MachineId) (t : Tape) (stack : List Frame) :
    w'.nextStack root t stack = w.nextStack root t stack := by
  unfold Workshop.nextStack Workshop.workTop
  simp only [h.enterTop, h.moveTop]

theorem stacked (h : w.Alike w') {root : MachineId} {stack : List Frame}
    (stacked : w.Stacked root stack) : w'.Stacked root stack := by
  induction stack with
  | nil => trivial
  | cons g below ih =>
    have live := stacked.live_top
    rw [← h.states] at live
    cases below with
    | nil => exact ⟨stacked.1, live⟩
    | cons f rest => exact ⟨live, stacked.2.1, stacked.2.2.1, ih stacked.tail⟩

theorem tracks (h : w.Alike w') {sim : Simulator} {stack : List Frame}
    (tracks : w.Tracks sim stack) : w'.Tracks sim stack :=
  ⟨h.stacked tracks.stacked, tracks.cursor⟩

end Alike

end Workshop

/-- A simulator of `root` in a sound workshop, which is `w` but for what machines remember, is at a
stack and a tape. -/
structure Stage.Stands (s : Stage) (w : Workshop) (root : MachineId) (c : List Frame × Tape) :
    Prop where
  alike : w.Alike s.shop
  good : s.shop.Good
  here : s.At root c

/-- A simulator that has not started. -/
def Stage.fresh (w : Workshop) (m : MachineId) (t : Tape) (j : Journal) : Stage := ⟨w, t, .new m, j⟩

namespace Stage.Stands

variable {s : Stage} {w : Workshop} {root : MachineId} {c : List Frame × Tape}

/-- A simulator that has not started stands at the empty stack. -/
theorem fresh (good : w.Good) (root : MachineId) (t : Tape) (j : Journal) :
    (Stage.fresh w root t j).Stands w root ([], t) :=
  ⟨.refl w, good, rfl, .new w root, rfl⟩

theorem reported {s' : Stage} (h : s.Stands w root c) (rep : s.Reported s') :
    s'.Stands w root c :=
  ⟨rep.shop ▸ h.alike, rep.shop ▸ h.good, rep.stays h.here⟩

/-! What can be seen of a simulator is what can be seen of its stack and tape. -/

theorem configuration_eq (h : s.Stands w root c) (known : root.index < w.machines.length) :
    s.shop.configuration s.sim s.tape = .ok (Workshop.configurationText (w.machine root).kind
      (c.1.map (·.state.label)).reverse c.2) := by
  obtain ⟨stack, t⟩ := c
  obtain ⟨alike, good, rfl, tracks, rfl⟩ := h
  rw [tracks.configuration_eq good.sane (alike.length ▸ known), alike.kind]

theorem isHalted_eq (h : s.Stands w root c) :
    s.shop.isHalted s.sim s.tape =
      .ok (Workshop.haltedIn (w.machine root).kind (c.1.getLast?.map (·.state)) c.2) := by
  obtain ⟨stack, t⟩ := c
  obtain ⟨alike, good, rfl, tracks, rfl⟩ := h
  rw [tracks.isHalted_eq good.sane, alike.kind]

theorem isAccepted_eq (h : s.Stands w root c) :
    s.shop.isAccepted s.sim s.tape =
      .ok (Workshop.acceptedIn (w.machine root).kind (c.1.getLast?.map (·.state)) c.2) := by
  obtain ⟨stack, t⟩ := c
  obtain ⟨alike, good, rfl, tracks, rfl⟩ := h
  rw [tracks.isAccepted_eq good.sane, alike.kind]

/-- The validation at the beginning of a step gives the verdict on the machine. -/
theorem validate_eq (h : s.Stands w root c) (known : root.index < w.machines.length) :
    ∃ b : Bench, SimM.inShop (Work.validate s.sim.machine) s =
        conclude (Workshop.verdict (w.defectOf root))
          { s with shop := b.shop, journal := b.journal } ∧
      s.shop.Alike b.shop ∧ b.shop.Good := by
  obtain ⟨b, alike, changes, hvalidate, -⟩ :=
    Work.validate_spec (b := ⟨s.shop, s.journal⟩) h.good
      (show s.sim.machine.index < s.shop.machines.length from
        h.here.machine ▸ h.alike.length ▸ known)
  refine ⟨b, ?_, alike, changes.good h.good⟩
  rw [h.alike.defectOf, h.here.machine] at hvalidate
  unfold SimM.inShop
  rw [h.here.machine, hvalidate]
  cases Workshop.verdict (w.defectOf root) <;> rfl

/-- **A step of a simulator is a step on stacks.**  Its outcome is that of the step on stacks, and it
leaves the simulator where that step says; a step that fails leaves it where it was. -/
theorem step_eq (h : s.Stands w root c) (known : root.index < w.machines.length) :
    ∃ s', SimM.step s = conclude ((w.stepResult root c).map fun _ => ()) s' ∧
      s'.Stands w root (Workshop.landing (w.stepResult root c) c) := by
  obtain ⟨b, hshop, alike', good₁⟩ := h.validate_eq known
  obtain ⟨stack, t⟩ := c
  obtain ⟨alike, good, rfl, tracks, rfl⟩ := h
  have known' : s.sim.machine.index < s.shop.machines.length := alike.length ▸ known
  have alike₁ : w.Alike b.shop := alike.trans alike'
  unfold Workshop.stepResult
  cases hverdict : Workshop.verdict (w.defectOf s.sim.machine) with
  | error e =>
    rw [hverdict] at hshop
    refine ⟨{ s with shop := b.shop, journal := b.journal }, ?_, alike₁, good₁, rfl,
      alike'.tracks tracks, rfl⟩
    exact SimM.step_of_invalid hshop
  | ok u =>
    rw [hverdict] at hshop
    have clean : b.shop.Clean s.sim.machine :=
      (alike₁.clean _).mpr (((alike.symm.sane good.sane).defectOf_eq_none_iff known).mp
        (Workshop.verdict_eq_ok_iff.mp hverdict))
    have here : Stage.At { s with
        shop := b.shop, journal := b.journal,
        sim := { s.sim with stepCount := s.sim.stepCount + 1 } } s.sim.machine (stack, s.tape) :=
      ⟨rfl, (alike'.tracks tracks).congr rfl fun _ => rfl, rfl⟩
    obtain ⟨s₂, hstep, shop₂, here₂⟩ :=
      SimM.startOrProceed_eq good₁.sane (alike'.length ▸ known') clean here
    simp only [alike₁.nextStack] at hstep here₂
    have stands : s₂.Stands w s.sim.machine (Workshop.landing (w.nextStack s.sim.machine s.tape stack)
        (stack, s.tape)) := ⟨shop₂ ▸ alike₁, shop₂ ▸ good₁, here₂⟩
    rw [SimM.step_of_valid hshop]
    cases hresult : w.nextStack s.sim.machine s.tape stack with
    | error e =>
      rw [hresult] at hstep stands
      exact ⟨s₂, bind_of_error hstep, stands⟩
    | ok there =>
      rw [hresult] at hstep stands
      rw [bind_of_ok hstep]
      obtain ⟨text, htext⟩ :=
        (Workshop.Live.of_tracks stands.here.tracks).exists_configuration stands.good.sane s₂.tape
      refine ⟨_, bind_of_ok (SimM.observeTape_of_ok htext), ?_⟩
      exact ⟨stands.alike, stands.good, stands.here.machine, stands.here.tracks, stands.here.tape⟩

end Stage.Stands

end MachineLab
