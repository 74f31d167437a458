import MachineLab.Proofs.Signals
import MachineLab.Proofs.Turns

/-!
# Work in related stages

Work with a simulator looks at little of the stage that it finds.  It reads the machines, the cursors,
the step count and the tape; it does not read the journal, it asks what machines remember in validation
only, and the verdict on the last budget is for others to read.  So two stages that agree in what is
read are treated alike, and a relation between such stages is kept if each single thing that is done to
a stage keeps it.

## Main definitions

* `Respects` — work does the same in related states.
* `Simulator.judged` — a simulator with another verdict on its budget.
* `SimM.Congruence` — a relation between stages that agree, kept by each single thing that is done.
* `SimM.Kept` — a property that is kept by each single thing that is done.

## Main statements

* `SimM.Congruence.step`, `SimM.Congruence.run`, `SimM.Congruence.reset` — such a relation is kept by
  all work with a simulator.
* `SimM.Kept.step`, `SimM.Kept.run`, `SimM.Kept.reset` — and so is such a property.
-/

namespace MachineLab

/-! ## Work in related states -/

section Respects

variable {ε σ α β : Type} {R : σ → σ → Prop}

/-- Two results with the same outcome, which leave related states behind. -/
inductive SameResult (R : σ → σ → Prop) : EStateM.Result ε σ α → EStateM.Result ε σ α → Prop
  | ok {a : α} {s s' : σ} (related : R s s') : SameResult R (.ok a s) (.ok a s')
  | error {e : ε} {s s' : σ} (related : R s s') : SameResult R (.error e s) (.error e s')

/-- Two pieces of work have the same result if their parts do; what is known after the first part may be
more than what is asked for in the end. -/
theorem SameResult.bind {R' : σ → σ → Prop} {work work' : EStateM ε σ α}
    {rest rest' : α → EStateM ε σ β} {s s' : σ} (h : SameResult R (work s) (work' s'))
    (enough : ∀ t t', R t t' → R' t t')
    (hrest : ∀ a t t', R t t' → SameResult R' (rest a t) (rest' a t')) :
    SameResult R' ((work >>= rest) s) ((work' >>= rest') s') := by
  simp only [Bind.bind, EStateM.bind]
  generalize work s = r at h ⊢
  generalize work' s' = r' at h ⊢
  cases h with
  | ok related => exact hrest _ _ _ related
  | error related => exact .error (enough _ _ related)

theorem SameResult.outcome_eq {work work' : EStateM ε σ α} {s s' : σ}
    (h : SameResult R (work s) (work' s')) : outcome work' s' = outcome work s := by
  unfold outcome
  generalize work s = r at h ⊢
  generalize work' s' = r' at h ⊢
  cases h <;> rfl

theorem SameResult.after_related {work work' : EStateM ε σ α} {s s' : σ}
    (h : SameResult R (work s) (work' s')) : R (after work s) (after work' s') := by
  unfold after
  generalize work s = r at h ⊢
  generalize work' s' = r' at h ⊢
  cases h <;> assumption

/-- Work does the same in related states. -/
def Respects (R : σ → σ → Prop) (work : EStateM ε σ α) : Prop :=
  ∀ s s', R s s' → SameResult R (work s) (work s')

namespace Respects

variable {work : EStateM ε σ α}

theorem outcome_eq (h : Respects R work) {s s' : σ} (related : R s s') :
    outcome work s' = outcome work s := (h s s' related).outcome_eq

theorem after_related (h : Respects R work) {s s' : σ} (related : R s s') :
    R (after work s) (after work s') := (h s s' related).after_related

theorem pure (a : α) : Respects R (Pure.pure a : EStateM ε σ α) := fun _ _ related => .ok related

theorem throw (e : ε) : Respects R (throw e : EStateM ε σ α) := fun _ _ related => .error related

theorem modify {f : σ → σ} (h : ∀ s s', R s s' → R (f s) (f s')) :
    Respects R (modify f : EStateM ε σ PUnit) := fun s s' related => .ok (h s s' related)

theorem bind {rest : α → EStateM ε σ β} (h : Respects R work) (hrest : ∀ a, Respects R (rest a)) :
    Respects R (work >>= rest) := fun s s' related => (h s s' related).bind (fun _ _ => id) hrest

/-- What related states have in common stays so if the work leaves it as it is. -/
theorem keeping {γ : Type} {f : σ → γ} (Q : γ → γ → Prop) (h : Respects R work)
    (keeps : ∀ c, Preserves (fun s => f s = c) work) :
    Respects (fun s s' => R s s' ∧ Q (f s) (f s')) work := by
  rintro s s' ⟨related, common⟩
  have same := h s s' related
  have kept := keeps _ s rfl
  have kept' := keeps _ s' rfl
  unfold after at kept kept'
  generalize work s = r at same kept ⊢
  generalize work s' = r' at same kept' ⊢
  cases same with
  | ok related' => exact .ok ⟨related', by rwa [kept, kept']⟩
  | error related' => exact .error ⟨related', by rwa [kept, kept']⟩

/-- Work that does the same along each of two relations does the same along both of them. -/
theorem comp {R' : σ → σ → Prop} (h : Respects R work) (h' : Respects R' work) :
    Respects (Relation.Comp R R') work := by
  rintro s s'' ⟨s', first, second⟩
  have same := h s s' first
  have same' := h' s' s'' second
  generalize work s = r at same
  generalize work s' = r' at same same'
  generalize work s'' = r'' at same'
  cases same with
  | ok related =>
    cases same' with
    | ok related' => exact .ok ⟨_, related, related'⟩
  | error related =>
    cases same' with
    | error related' => exact .error ⟨_, related, related'⟩

/-- Work that looks at the state does the same if it takes from there only what related states have
in common. -/
theorem read {rest : σ → EStateM ε σ β} (common : ∀ s s', R s s' → rest s' = rest s)
    (h : ∀ s s', R s s' → Respects R (rest s)) : Respects R (get >>= rest) := by
  intro s s' related
  change SameResult R (rest s s) (rest s' s')
  rw [common s s' related]
  exact h s s' related s s' related

theorem tryCatch {handle : ε → EStateM ε σ α} (h : Respects R work)
    (hhandle : ∀ e, Respects R (handle e)) : Respects R (tryCatch work handle) := by
  intro s s' related
  have same := h s s' related
  rw [tryCatch_apply, tryCatch_apply]
  generalize work s = r at same ⊢
  generalize work s' = r' at same ⊢
  cases same with
  | ok related' => exact .ok related'
  | error related' => exact hhandle _ _ _ related'

end Respects

end Respects

/-! ## What can be seen does not depend on what machines remember -/

namespace Workshop.Alike

variable {w w' : Workshop} (h : w.Alike w')

include h

theorem stateAt (m : MachineId) (id : Nat) : w'.stateAt m id = w.stateAt m id := by
  unfold Workshop.stateAt Workshop.state
  rw [h.machine m]
  rfl

theorem current? (sim : Simulator) (m : MachineId) : w'.current? sim m = w.current? sim m := by
  unfold Workshop.current?
  simp only [h.stateAt]

theorem stackFrom (sim : Simulator) (d : Nat) (m : MachineId) :
    w'.stackFrom sim d m = w.stackFrom sim d m := by
  induction d generalizing m with
  | zero => rfl
  | succ d ih => simp only [Workshop.stackFrom, stackBody, h.current?, ih]

theorem stack (sim : Simulator) : w'.stack sim = w.stack sim := by
  unfold Workshop.stack
  rw [h.kind, h.length, h.stackFrom]

theorem currentLabels (sim : Simulator) (ms : List MachineId) :
    w'.currentLabels sim ms = w.currentLabels sim ms := by
  induction ms with
  | nil => rfl
  | cons m rest ih => simp only [Workshop.currentLabels, h.current?, ih]

theorem stateName (sim : Simulator) : w'.stateName sim = w.stateName sim := by
  unfold Workshop.stateName
  simp only [h.stack, h.currentLabels]

theorem focusFrom (sim : Simulator) (d : Nat) (m : MachineId) :
    w'.focusFrom sim d m = w.focusFrom sim d m := by
  induction d generalizing m with
  | zero => rfl
  | succ d ih => simp only [Workshop.focusFrom, focusBody, h.current?, ih]

theorem focus (sim : Simulator) : w'.focus sim = w.focus sim := by
  unfold Workshop.focus
  rw [h.length, h.focusFrom]

theorem nextTransition (sim : Simulator) (t : Tape) :
    w'.nextTransition sim t = w.nextTransition sim t := by
  have same : Focus.transition? w' t = Focus.transition? w t := by
    funext focus
    cases focus with
    | none => rfl
    | some focus =>
      cases focus with
      | act m q finished => exact h.chosen m q t
      | enter m q inner => rfl
  rw [nextTransition_eq_focus, nextTransition_eq_focus, h.focus, same]

theorem isHalted (sim : Simulator) (t : Tape) : w'.isHalted sim t = w.isHalted sim t := by
  unfold Workshop.isHalted
  simp only [h.kind, h.current?]

theorem isAccepted (sim : Simulator) (t : Tape) : w'.isAccepted sim t = w.isAccepted sim t := by
  unfold Workshop.isAccepted
  simp only [h.isHalted, h.kind, h.current?]

theorem configuration (sim : Simulator) (t : Tape) :
    w'.configuration sim t = w.configuration sim t := by
  unfold Workshop.configuration
  simp only [h.stateName, h.kind]

end Workshop.Alike

/-! ## What can be seen does not depend on the verdict on the budget -/

/-- The simulator with a verdict on its last budget. -/
def Simulator.judged (sim : Simulator) (exhausted : Bool) : Simulator :=
  { sim with budgetExhausted := exhausted }

namespace Workshop

variable (w : Workshop) (sim : Simulator) (b : Bool)

theorem current?_judged (m : MachineId) : w.current? (sim.judged b) m = w.current? sim m := rfl

theorem stackFrom_judged (d : Nat) (m : MachineId) :
    w.stackFrom (sim.judged b) d m = w.stackFrom sim d m := by
  induction d generalizing m with
  | zero => rfl
  | succ d ih =>
    simp only [stackFrom, stackBody, current?_judged, ih]
    rfl

theorem stack_judged : w.stack (sim.judged b) = w.stack sim := by
  unfold stack
  rw [stackFrom_judged]
  rfl

theorem currentLabels_judged (ms : List MachineId) :
    w.currentLabels (sim.judged b) ms = w.currentLabels sim ms := by
  induction ms with
  | nil => rfl
  | cons m rest ih => simp only [currentLabels, current?_judged, ih]

theorem stateName_judged : w.stateName (sim.judged b) = w.stateName sim := by
  unfold stateName
  simp only [stack_judged, currentLabels_judged]

theorem focusFrom_judged (d : Nat) (m : MachineId) :
    w.focusFrom (sim.judged b) d m = w.focusFrom sim d m := by
  induction d generalizing m with
  | zero => rfl
  | succ d ih => simp only [focusFrom, focusBody, current?_judged, ih]

theorem focus_judged : w.focus (sim.judged b) = w.focus sim := focusFrom_judged w sim b _ _

theorem isHalted_judged (t : Tape) : w.isHalted (sim.judged b) t = w.isHalted sim t := rfl

theorem isAccepted_judged (t : Tape) : w.isAccepted (sim.judged b) t = w.isAccepted sim t := rfl

theorem configuration_judged (t : Tape) :
    w.configuration (sim.judged b) t = w.configuration sim t := by
  unfold configuration
  rw [stateName_judged]
  rfl

end Workshop

/-! ## Congruences -/

/-- Two stages agree in all that work with a simulator reads, except through validation. -/
structure Stage.Resembles (s s' : Stage) : Prop where
  shops : s.shop.Alike s'.shop
  tape : s'.tape = s.tape
  sim : ∃ b, s'.sim = s.sim.judged b

namespace Stage.Resembles

variable {s s' : Stage} (h : s.Resembles s')

include h

theorem machine : s'.sim.machine = s.sim.machine := by
  obtain ⟨b, hb⟩ := h.sim
  rw [hb]
  rfl

theorem stepCount : s'.sim.stepCount = s.sim.stepCount := by
  obtain ⟨b, hb⟩ := h.sim
  rw [hb]
  rfl

theorem cursor? (m : MachineId) : s'.sim.cursor? m = s.sim.cursor? m := by
  obtain ⟨b, hb⟩ := h.sim
  rw [hb]
  rfl

end Stage.Resembles

namespace SimM

variable {α : Type} {R : Stage → Stage → Prop}

/-- A relation between stages that agree, kept by each single thing that is done to a stage. -/
structure Congruence (R : Stage → Stage → Prop) : Prop where
  resembles : ∀ {s s'}, R s s' → s.Resembles s'
  update : ∀ {f : Simulator → Simulator}, (∀ sim, (f sim).machine = sim.machine) →
    (∀ sim b, f (sim.judged b) = (f sim).judged b) → Respects R (update f)
  judge : ∀ b, Respects R (SimM.update (·.judged b))
  tell : ∀ e, Respects R (tell e)
  record : ∀ level message, Respects R (record level message)
  onTape : ∀ (m : Machine) q tr?, Respects R (onTape (m.advance q tr?))
  validate : ∀ {s s'}, R s s' → Respects R (inShop (Work.validate s.sim.machine))

namespace Congruence

theorem ofExcept (r : Except Fault α) : Respects R (ofExcept r) := by
  cases r with
  | ok a => exact .pure a
  | error e => exact .throw e

variable (h : Congruence R)

include h

theorem observe {f : Workshop → Simulator → Except Fault α}
    (alike : ∀ {w w' : Workshop}, w.Alike w' → ∀ sim, f w' sim = f w sim)
    (judged : ∀ w sim b, f w (sim.judged b) = f w sim) : Respects R (observe f) := by
  refine .read (fun s s' r => ?_) fun _ _ _ => ofExcept _
  obtain ⟨b, hb⟩ := (h.resembles r).sim
  rw [hb, alike (h.resembles r).shops, judged]

theorem observeTape {f : Workshop → Simulator → Tape → Except Fault α}
    (alike : ∀ {w w' : Workshop}, w.Alike w' → ∀ sim t, f w' sim t = f w sim t)
    (judged : ∀ w sim b t, f w (sim.judged b) t = f w sim t) : Respects R (observeTape f) := by
  refine .read (fun s s' r => ?_) fun _ _ _ => ofExcept _
  obtain ⟨b, hb⟩ := (h.resembles r).sim
  rw [hb, (h.resembles r).tape, alike (h.resembles r).shops, judged]

theorem nameOf (m : MachineId) : Respects R (nameOf m) :=
  .read (fun s s' r => by rw [(h.resembles r).shops.machine m]; rfl) fun _ _ _ => .pure _

theorem startOf (m : MachineId) : Respects R (startOf m) := by
  refine .read (fun s s' r => by rw [(h.resembles r).shops.machine m]; rfl) fun s _ _ => ?_
  cases (s.shop.machine m).startState? with
  | some q => exact .pure q
  | none => exact .throw _

theorem logAction (message : String) : Respects R (logAction message) :=
  .bind (h.observe Workshop.Alike.stack Workshop.stack_judged) fun _ =>
    h.update (fun _ => rfl) fun _ _ => rfl

theorem announceState : Respects R announceState :=
  .bind (h.observe Workshop.Alike.stateName Workshop.stateName_judged) fun _ => h.tell _

theorem setCursor (m : MachineId) (id : Nat) : Respects R (SimM.update (·.setCursor m id)) :=
  h.update (fun _ => rfl) fun _ _ => rfl

/-! ## The parts of a step -/

theorem start : Respects R start := by
  refine .read (fun s s' r => by rw [(h.resembles r).machine]) fun s _ _ => ?_
  refine .bind (h.startOf _) fun q => .bind (h.setCursor _ _) fun _ => .bind (h.logAction _) fun _ => ?_
  exact .bind (h.nameOf _) fun _ => .bind (h.record _ _) fun _ => h.announceState

theorem enter (q : State) (inner : MachineId) : Respects R (enter q inner) := by
  refine .bind (h.startOf _) fun p => .bind (h.nameOf _) fun name => ?_
  refine .bind (h.setCursor _ _) fun _ => .bind (h.logAction _) fun _ => ?_
  exact .bind (h.record _ _) fun _ => h.announceState

theorem take (m : MachineId) (tr : Transition) (new : State) : Respects R (take m tr new) := by
  refine .read (fun s s' r => by rw [(h.resembles r).shops.machine m]; rfl) fun s _ _ => ?_
  refine .bind (h.observe (fun alike _ => alike.stateAt m tr.source) fun _ _ _ => rfl) fun source => ?_
  refine .bind (h.setCursor _ _) fun _ => .bind (ofExcept _) fun _ => .bind (h.logAction _) fun _ => ?_
  refine .bind (ofExcept _) fun _ => .bind (h.record _ _) fun _ => .bind (ofExcept _) fun _ => ?_
  exact .bind (h.tell _) fun _ => h.announceState

theorem advance (m : MachineId) (q : State) (tr? : Option Transition) :
    Respects R (advance m q tr?) := by
  refine .read (fun s s' r => by rw [(h.resembles r).shops.machine m]; rfl) fun s _ _ => ?_
  refine .tryCatch (h.onTape _ _ _) fun e => ?_
  cases e with
  | machine f =>
    simp only
    cases haltNote? (s.shop.machine m).kind q f with
    | some note => exact .bind (h.logAction _) fun _ => .throw _
    | none => exact .bind (.pure _) fun _ => .throw _
  | refusal cause => exact .bind (.pure _) fun _ => .throw _
  | mismatch cause => exact .bind (.pure _) fun _ => .throw _

theorem act (m : MachineId) (q : State) : Respects R (act m q) := by
  refine .bind (h.observeTape (fun alike _ => alike.chosen m q) fun _ _ _ _ => rfl) fun chosen => ?_
  refine .bind (h.advance _ _ _) fun new => ?_
  cases chosen with
  | some tr => exact h.take m tr new
  | none => exact .pure _

theorem proceed : Respects R proceed := by
  refine .bind (h.observe Workshop.Alike.focus Workshop.focus_judged) fun focus => ?_
  cases focus with
  | none => exact .pure _
  | some focus =>
    cases focus with
    | enter m q inner => exact h.enter q inner
    | act m q finished =>
      refine .bind (h.act m q) fun _ => ?_
      cases finished with
      | some inner => exact h.update (fun _ => rfl) fun _ _ => rfl
      | none => exact .pure _

/-- **A step does the same in stages that are related by a congruence.** -/
theorem step : Respects R step := by
  have last : Respects R (do
      SimM.tell
        (.stepProcessed (← get).sim.stepCount (← SimM.observeTape Workshop.configuration))) :=
    .read (fun s s' r => by rw [(h.resembles r).stepCount]) fun _ _ _ =>
      .bind (h.observeTape Workshop.Alike.configuration Workshop.configuration_judged) fun _ =>
        h.tell _
  refine .read (fun s s' r => by rw [(h.resembles r).machine]) fun s _ r => ?_
  refine .bind (h.validate r) fun _ => .bind (h.update (fun _ => rfl) fun _ _ => rfl) fun _ => ?_
  refine .read (fun s s' r => by simp only [(h.resembles r).machine, (h.resembles r).cursor?])
    fun s _ _ => ?_
  simp only
  cases s.sim.cursor? s.sim.machine with
  | none => exact .bind h.start fun _ => last
  | some id => exact .bind h.proceed fun _ => last

theorem reset : Respects R reset := by
  refine .bind (h.update (fun _ => rfl) fun _ _ => rfl) fun _ => ?_
  refine .read (fun s s' r => by rw [(h.resembles r).machine]) fun _ _ _ => ?_
  exact .bind (h.nameOf _) fun _ => h.record _ _

/-! ## Runs -/

theorem attempt : Respects R attempt := by
  intro s s' r
  have same := h.step s s' r
  unfold SimM.attempt
  generalize SimM.step s = x at same ⊢
  generalize SimM.step s' = x' at same ⊢
  cases same with
  | ok related => exact .ok related
  | error related =>
    rename_i e _ _
    cases e with
    | machine f =>
      simp only
      split
      · exact .ok related
      · exact .error related
    | refusal cause => exact .error related
    | mismatch cause => exact .error related

theorem halted : Respects R halted := h.observeTape Workshop.Alike.isHalted Workshop.isHalted_judged

theorem accepted : Respects R accepted :=
  h.observeTape Workshop.Alike.isAccepted Workshop.isAccepted_judged

theorem loop (limit : Int) (n count : Nat) : Respects R (loop limit n count) := by
  induction n generalizing count with
  | zero => exact .pure _
  | succ n ih =>
    refine .bind h.halted fun done => ?_
    cases done with
    | true => exact .pure _
    | false =>
      refine .bind h.attempt fun report => ?_
      cases report with
      | some f => exact .pure _
      | none =>
        simp only
        split
        · exact .bind h.halted fun done => .bind (h.judge _) fun _ => .pure _
        · exact ih (count + 1)

/-- **A run does the same** in stages that are related by a congruence, if they agree also in the
verdict on the budget, which is logged at the end. -/
theorem run (verdicts : ∀ s s', R s s' → s'.sim = s.sim) (limit : Int) (patience : Nat) :
    Respects R (run limit patience) := by
  have recorded (count : Nat) (verdict : Bool) :
      Respects R (do recordEnd count verdict; return some verdict) := by
    refine .bind ?_ fun _ => .pure _
    refine .read (fun s s' r => by rw [verdicts s s' r]) fun s _ _ => .bind (h.nameOf _) fun _ => ?_
    exact h.record _ _
  refine .bind (h.judge _) fun _ => .bind (h.loop limit _ 0) fun ending => ?_
  cases ending with
  | unfinished => exact .pure _
  | stopped count =>
    refine .bind h.halted fun done => ?_
    cases done with
    | true => exact .bind h.accepted fun _ => recorded _ _
    | false => exact .bind (.pure _) fun _ => recorded _ _
  | completed count => exact .bind h.accepted fun _ => recorded _ _
  | failed count cause =>
    refine .read (fun s s' r => by rw [verdicts s s' r]) fun _ _ _ => .bind (h.nameOf _) fun _ => ?_
    exact .bind (h.record _ _) fun _ => recorded _ _

end Congruence

/-! ## What work with a simulator keeps -/

/-- A property of stages that is kept by each single thing that is done to a stage. -/
structure Kept (P : Stage → Prop) : Prop where
  update : ∀ {f : Simulator → Simulator}, (∀ sim, (f sim).machine = sim.machine) →
    (∀ sim b, f (sim.judged b) = (f sim).judged b) → Preserves P (update f)
  judge : ∀ b, Preserves P (SimM.update (·.judged b))
  tell : ∀ e, Preserves P (tell e)
  record : ∀ level message, Preserves P (record level message)
  onTape : ∀ (m : Machine) q tr?, Preserves P (onTape (m.advance q tr?))
  validate : ∀ m, Preserves P (inShop (Work.validate m))

namespace Kept

variable {P : Stage → Prop}

/-- Work does the same twice, and keeps what it keeps. -/
theorem respects {work : SimM α} (h : Preserves P work) :
    Respects (fun s s' => s' = s ∧ P s) work := by
  rintro _ s ⟨rfl, hs⟩
  have kept := h s hs
  unfold after at kept
  cases hwork : work s with
  | ok a s' =>
    rw [hwork] at kept
    exact .ok ⟨rfl, kept⟩
  | error e s' =>
    rw [hwork] at kept
    exact .error ⟨rfl, kept⟩

theorem preserves {work : SimM α} (h : Respects (fun s s' => s' = s ∧ P s) work) :
    Preserves P work := fun s hs => (h.after_related (show s = s ∧ P s from ⟨rfl, hs⟩)).2

theorem congruence (h : Kept P) : Congruence fun s s' => s' = s ∧ P s where
  resembles := by
    rintro _ s ⟨rfl, -⟩
    exact ⟨.refl _, rfl, s.sim.budgetExhausted, rfl⟩
  update machine judged := respects (h.update machine judged)
  judge b := respects (h.judge b)
  tell e := respects (h.tell e)
  record level message := respects (h.record level message)
  onTape m q tr? := respects (h.onTape m q tr?)
  validate _ := respects (h.validate _)

variable (h : Kept P)

include h

theorem step : Preserves P step := preserves h.congruence.step

theorem run (limit : Int) (patience : Nat) : Preserves P (run limit patience) :=
  preserves (h.congruence.run (fun _ _ same => congrArg Stage.sim same.1) limit patience)

end Kept

end SimM

end MachineLab
