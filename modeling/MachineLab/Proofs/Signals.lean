import MachineLab.Proofs.Calls

/-!
# What steps count and tell

A simulator counts its steps, remembers whether its last run used up a budget, and tells its listeners
of each transition that is taken.  These stand apart from everything else that a step does.  The count
changes only where a step begins, the verdict on the budget only where a run ends, and a transition is
told only by the machine that has taken it: validation, the tape, the cursors and the other reports
have nothing to do with any of them.

## Main definitions

* `Simulator.tally` — the count and the verdict on the budget.
* `Journal.told` — the transitions that listeners were told of.
* `SimM.Aloof` — what depends on nothing else.

## Main statements

* `Work.silent_validate` — listeners do not hear of validation.
* `SimM.told_take` — a transition that is taken is told once.
* `Stage.Stands.tally_step` — a step of a valid machine is counted once.
-/

namespace MachineLab

/-- The number of steps so far, and whether the last run used up its budget. -/
def Simulator.tally (sim : Simulator) : Nat × Bool := (sim.stepCount, sim.budgetExhausted)

/-- The transition that an event is about: the labels of its ends and its action. -/
def Event.transition? : Event → Option (String × String × String)
  | .simulator (.transitionTaken source target action) => some (source, target, action)
  | _ => none

/-- The transitions that listeners were told of, the oldest first. -/
def Journal.told (j : Journal) : List (String × String × String) :=
  j.events.toList.filterMap Event.transition?

theorem Journal.told_tell (j : Journal) (e : Event) :
    (j.tell e).told = j.told ++ e.transition?.toList := by
  unfold told tell
  cases he : e.transition? <;> simp [List.filterMap_append, he]

/-! ## Validation -/

namespace Work

variable {α : Type} {x : Array Event}

/-- Work that listeners do not hear of. -/
abbrev Silent (x : Array Event) (work : Work α) : Prop :=
  Preserves (fun b : Bench => b.journal.events = x) work

theorem silent_ofExcept (r : Except Fault α) : Silent x (ofExcept r) := by
  cases r with
  | ok a => exact .pure a
  | error e => exact .throw e

/-- Looking at a nested machine leaves behind what its validation does. -/
theorem after_nestedDefect {inner : MachineId → Work Unit} {s : State} {i : MachineId}
    (hi : s.submachine = some i) (b : Bench) : after (nestedDefect inner s) b = after (inner i) b := by
  unfold after nestedDefect
  simp only [hi]
  cases inner i b with
  | ok u b' => rfl
  | error e b' => rcases e with ⟨_ | _⟩ | _ | _ <;> rfl

theorem silent_nestedDefect {inner : MachineId → Work Unit} (h : ∀ i, Silent x (inner i)) (s : State) :
    Silent x (nestedDefect inner s) := by
  cases hi : s.submachine with
  | none =>
    unfold nestedDefect
    rw [hi]
    exact .pure _
  | some i =>
    intro b hb
    rw [after_nestedDefect hi]
    exact h i b hb

theorem silent_turingDefect {inner : MachineId → Work Unit} (h : ∀ i, Silent x (inner i))
    (m : Machine) (a : Alphabet) (starts finals : Nat) (ss : List State) :
    Silent x (turingDefect inner m a starts finals ss) := by
  induction ss generalizing starts finals with
  | nil => exact .pure _
  | cons s rest ih =>
    refine .bind (silent_nestedDefect h s) fun nested? => ?_
    cases nested? with
    | some d => exact .pure _
    | none =>
      refine .bind (silent_ofExcept _) fun own? => ?_
      cases own? with
      | some d => exact .pure _
      | none => exact ih _ _

theorem silent_findDefect {inner : MachineId → Work Unit} (h : ∀ i, Silent x (inner i))
    (m : MachineId) : Silent x (findDefect inner m) := by
  refine .bind .get fun b => ?_
  simp only
  split
  · exact silent_turingDefect h _ _ _ _ _
  · exact silent_ofExcept _

theorem silent_validateTo (d : Nat) (m : MachineId) : Silent x (validateTo d m) := by
  induction d generalizing m with
  | zero => exact .pure _
  | succ d ih =>
    refine .bind .get fun b => ?_
    simp only
    split
    · exact .pure _
    · refine .bind (silent_findDefect ih m) fun defect? => ?_
      cases defect? with
      | some d => exact .bind (.modify fun _ h => h) fun _ => .throw _
      | none =>
        refine .bind ?_ fun _ => .modify fun _ h => h
        exact .bind (.bind .get fun _ => .pure _) fun _ => .modify fun _ h => h

/-- Listeners do not hear of validation. -/
theorem silent_validate (m : MachineId) : Silent x (validate m) :=
  .bind .get fun _ => silent_validateTo _ m

end Work

/-! ## The tape -/

section Tape

variable {x : List (String × String × String)}

/-- What is done to a tape is news only for those who watch it. -/
theorem Tape.quiet_perform {β : Type} {news : Event → Option β}
    (deaf : ∀ watcher, news (.tapeChanged watcher) = none) {x : List β} (op : Op) :
    Preserves (fun r : Reel => r.journal.events.toList.filterMap news = x) (Tape.perform op) := by
  have notify (t : Tape) (j : Journal) :
      (t.notify j).events.toList.filterMap news = j.events.toList.filterMap news := by
    unfold Tape.notify
    split
    · simp [Journal.tell, deaf]
    · rfl
  have growth (t t' : Tape) (j : Journal) : (t.recordGrowth t' j).events = j.events := by
    unfold recordGrowth
    split <;> rfl
  rintro r rfl
  unfold after Tape.perform
  cases r.tape.apply op with
  | error e => rfl
  | ok t =>
    simp only [notify]
    cases op with
    | right => simp only [growth]
    | _ => rfl

theorem Tape.told_perform (op : Op) :
    Preserves (fun r : Reel => r.journal.told = x) (Tape.perform op) :=
  quiet_perform (fun _ => rfl) op

/-- What all operations on a tape keep, a machine that moves keeps. -/
theorem Machine.preserves_advance {P : Reel → Prop} (h : ∀ op, Preserves P (Tape.perform op))
    (m : Machine) (q : State) (tr? : Option Transition) : Preserves P (m.advance q tr?) := by
  have follow (tr : Transition) : Preserves P (m.follow tr) := by
    refine .bind ?_ fun _ => ?_
    · unfold Action.perform
      split
      · exact h _
      · exact .pure _
      · exact .throw _
    · split
      · exact .pure _
      · exact .throw _
  refine .bind .get fun r => ?_
  cases m.kind <;> cases tr? <;> simp only
  case turing.none => exact .throw _
  case turing.some tr => exact follow tr
  case acceptor.none => split <;> exact .throw _
  case acceptor.some tr =>
    split
    · exact follow tr
    · exact .throw _

theorem Machine.told_advance (m : Machine) (q : State) (tr? : Option Transition) :
    Preserves (fun r : Reel => r.journal.told = x) (m.advance q tr?) :=
  m.preserves_advance Tape.told_perform q tr?

end Tape

namespace SimM

variable {α : Type} {P : Stage → Prop}

/-- A property of stages that depends on nothing but the tally and the transitions told. -/
def Aloof (P : Stage → Prop) : Prop :=
  ∀ s s' : Stage, s'.sim.tally = s.sim.tally → s'.journal.told = s.journal.told → P s → P s'

theorem ofExcept_eq_ok_iff {r : Except Fault α} {s s' : Stage} {a : α} :
    ofExcept r s = .ok a s' ↔ r = .ok a ∧ s = s' := by
  cases r with
  | ok b =>
    change EStateM.Result.ok b s = _ ↔ _
    simp
  | error e =>
    change EStateM.Result.error e s = _ ↔ _
    simp

theorem observe_eq_ok_iff {f : Workshop → Simulator → Except Fault α} {s s' : Stage} {a : α} :
    observe f s = .ok a s' ↔ f s.shop s.sim = .ok a ∧ s = s' := ofExcept_eq_ok_iff

/-! ## The parts of a step -/

namespace Aloof

theorem tally (x : Nat × Bool) : Aloof fun s => s.sim.tally = x := fun _ _ same _ h => same.trans h

theorem told (x : List (String × String × String)) : Aloof fun s => s.journal.told = x :=
  fun _ _ _ same h => same.trans h

variable (h : Aloof P)

include h

theorem update {f : Simulator → Simulator} (same : ∀ sim, (f sim).tally = sim.tally) :
    Preserves P (update f) := .modify fun s hs => h s _ (same s.sim) rfl hs

theorem tell {e : SimulatorEvent} (other : (Event.simulator e).transition? = none) :
    Preserves P (tell e) := by
  refine .modify fun s hs => h s _ rfl ?_ hs
  rw [Journal.told_tell, other]
  exact List.append_nil _

theorem record (level : LogLevel) (message : String) : Preserves P (record level message) :=
  .modify fun s hs => h s _ rfl rfl hs

omit h in
theorem ofExcept (r : Except Fault α) : Preserves P (ofExcept r) := by
  cases r with
  | ok a => exact .pure a
  | error e => exact .throw e

omit h in
theorem observeTape (f : Workshop → Simulator → Tape → Except Fault α) : Preserves P (observeTape f) :=
  .bind .get fun _ => ofExcept _

omit h in
theorem observe (f : Workshop → Simulator → Except Fault α) : Preserves P (observe f) :=
  observeTape fun w sim _ => f w sim

omit h in
theorem nameOf (m : MachineId) : Preserves P (nameOf m) := .bind .get fun _ => .pure _

omit h in
theorem startOf (m : MachineId) : Preserves P (startOf m) := by
  refine .bind .get fun s => ?_
  cases (s.shop.machine m).startState? with
  | some q => exact .pure q
  | none => exact .throw _

theorem logAction (message : String) : Preserves P (logAction message) :=
  .bind (observe _) fun _ => h.update fun _ => rfl

theorem announceState : Preserves P announceState := .bind (observe _) fun _ => h.tell rfl

theorem start : Preserves P start := by
  refine .bind .get fun s => .bind (startOf _) fun q => ?_
  refine .bind (h.update fun _ => rfl) fun _ => .bind (h.logAction _) fun _ => ?_
  exact .bind (nameOf _) fun _ => .bind (h.record _ _) fun _ => h.announceState

theorem enter (q : State) (inner : MachineId) : Preserves P (enter q inner) := by
  refine .bind (startOf _) fun p => .bind (nameOf _) fun name => ?_
  refine .bind (h.update fun _ => rfl) fun _ => .bind (h.logAction _) fun _ => ?_
  exact .bind (h.record _ _) fun _ => h.announceState

theorem onTape {work : TapeM α}
    (quiet : ∀ x, Preserves (fun r : Reel => r.journal.told = x) work) :
    Preserves P (onTape work) := by
  intro s hs
  have told := quiet _ ⟨s.tape, s.journal⟩ rfl
  unfold after at told
  unfold after SimM.onTape
  cases hwork : work ⟨s.tape, s.journal⟩ with
  | ok a r =>
    rw [hwork] at told
    exact h s _ rfl told hs
  | error e r =>
    rw [hwork] at told
    exact h s _ rfl told hs

theorem validate (m : MachineId) : Preserves P (inShop (Work.validate m)) := by
  intro s hs
  have events := Work.silent_validate m ⟨s.shop, s.journal⟩ rfl
  unfold after at events
  unfold after inShop
  cases hwork : Work.validate m ⟨s.shop, s.journal⟩ with
  | ok u b =>
    rw [hwork] at events
    exact h s _ rfl (congrArg (·.toList.filterMap Event.transition?) events) hs
  | error e b =>
    rw [hwork] at events
    exact h s _ rfl (congrArg (·.toList.filterMap Event.transition?) events) hs

theorem advance (m : MachineId) (q : State) (tr : Option Transition) :
    Preserves P (advance m q tr) := by
  refine .bind .get fun s =>
    .tryCatch (h.onTape fun _ => Machine.told_advance _ _ _) fun e => ?_
  cases e with
  | machine f =>
    simp only
    cases haltNote? (s.shop.machine m).kind q f with
    | some note => exact .bind (h.logAction _) fun _ => .throw _
    | none => exact .bind (.pure _) fun _ => .throw _
  | refusal cause => exact .bind (.pure _) fun _ => .throw _
  | mismatch cause => exact .bind (.pure _) fun _ => .throw _

/-! A property that depends on the tally alone is kept also where transitions are told. -/

variable (deaf : ∀ s e, P s → P { s with journal := s.journal.tell (.simulator e) })

include deaf

theorem take (m : MachineId) (tr : Transition) (new : State) : Preserves P (take m tr new) := by
  refine .bind .get fun s => .bind (observe _) fun source => ?_
  refine .bind (h.update fun _ => rfl) fun _ => .bind (ofExcept _) fun _ => ?_
  refine .bind (h.logAction _) fun _ => .bind (ofExcept _) fun _ => ?_
  refine .bind (h.record _ _) fun _ => .bind (ofExcept _) fun _ => ?_
  exact .bind (.modify fun s hs => deaf s _ hs) fun _ => h.announceState

theorem act (m : MachineId) (q : State) : Preserves P (act m q) := by
  refine .bind (preserves_observeTape _) fun chosen => .bind (h.advance _ _ _) fun new => ?_
  cases chosen with
  | some tr => exact h.take deaf m tr new
  | none => exact .pure _

theorem proceed : Preserves P proceed := by
  refine .bind (observe _) fun focus => ?_
  cases focus with
  | none => exact .pure _
  | some focus =>
    cases focus with
    | enter m q inner => exact h.enter q inner
    | act m q finished =>
      refine .bind (h.act deaf m q) fun _ => ?_
      cases finished with
      | some inner => exact h.update fun _ => rfl
      | none => exact .pure _

theorem startOrProceed : Preserves P startOrProceed := by
  intro s hs
  unfold after SimM.startOrProceed
  cases s.sim.cursor? s.sim.machine with
  | none => exact h.start s hs
  | some id => exact h.proceed deaf s hs

end Aloof

/-- What tells of no transition adds nothing to what was told before it. -/
theorem told_bind {β : Type} {work : SimM α} {rest : α → SimM β} (s : Stage)
    (quiet : ∀ x a, Preserves (fun s : Stage => s.journal.told = x) (rest a)) :
    (after (work >>= rest) s).journal.told = (after work s).journal.told :=
  Preserves.after_bind (P := fun s' : Stage => s'.journal.told = (after work s).journal.told) rfl
    (quiet _)

/-- **A transition that is taken is told once**, with the labels of its ends and its action. -/
theorem told_take {m : MachineId} {tr : Transition} {new : State} {s s' : Stage}
    (h : take m tr new s = .ok () s') :
    ∃ source text, s.shop.stateAt m tr.source = .ok source ∧ tr.action.text = .ok text ∧
      s'.journal.told = s.journal.told ++ [(source.label, new.label, text)] := by
  have quiet := Aloof.told s.journal.told
  obtain ⟨_, _, ⟨⟩, h⟩ := bind_eq_ok_iff.mp h
  obtain ⟨source, s₁, hsource, h⟩ := bind_eq_ok_iff.mp h
  obtain ⟨found, rfl⟩ := observe_eq_ok_iff.mp hsource
  obtain ⟨_, _, ⟨⟩, h⟩ := bind_eq_ok_iff.mp h
  obtain ⟨_, _, hdescribe, h⟩ := bind_eq_ok_iff.mp h
  obtain ⟨-, rfl⟩ := ofExcept_eq_ok_iff.mp hdescribe
  obtain ⟨_, _, hlog, h⟩ := bind_eq_ok_iff.mp h
  obtain ⟨_, _, hagain, h⟩ := bind_eq_ok_iff.mp h
  obtain ⟨-, rfl⟩ := ofExcept_eq_ok_iff.mp hagain
  obtain ⟨_, _, hrecord, h⟩ := bind_eq_ok_iff.mp h
  obtain ⟨text, _, htext, h⟩ := bind_eq_ok_iff.mp h
  obtain ⟨written, rfl⟩ := ofExcept_eq_ok_iff.mp htext
  obtain ⟨_, s₂, ⟨⟩, hannounce⟩ := bind_eq_ok_iff.mp h
  refine ⟨source, text, found, written, ?_⟩
  -- Before and after the transition is told, nothing is told.
  have before := (quiet.record _ _).of_ok hrecord ((quiet.logAction _).of_ok hlog rfl)
  rw [(Aloof.told _).announceState.of_ok hannounce rfl, Journal.told_tell, before]
  rfl

end SimM

/-! ## Steps -/

namespace Stage.Stands

variable {s : Stage} {w : Workshop} {root : MachineId} {c : List Frame × Tape}

/-- **A step of a valid machine is counted once**, whether it fails or not, and is no verdict on the
budget. -/
theorem tally_step (h : s.Stands w root c) (known : root.index < w.machines.length)
    (pass : Workshop.verdict (w.defectOf root) = .ok ()) :
    (after SimM.step s).sim.tally = (s.sim.stepCount + 1, s.sim.budgetExhausted) := by
  obtain ⟨b, hvalidate, -, -⟩ := h.validate_eq known
  rw [pass] at hvalidate
  unfold after
  rw [SimM.step_of_valid hvalidate]
  have aloof := SimM.Aloof.tally (s.sim.stepCount + 1, s.sim.budgetExhausted)
  have rest := (aloof.startOrProceed fun _ _ hs => hs).bind fun _ => Preserves.bind .get fun s' =>
    .bind (SimM.preserves_observeTape Workshop.configuration) fun text =>
      aloof.tell (e := .stepProcessed s'.sim.stepCount text) rfl
  exact rest _ rfl

end Stage.Stands

end MachineLab
