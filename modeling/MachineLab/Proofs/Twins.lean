import MachineLab.Proofs.Congruence

/-!
# Simulators in the same position

Two stages are twins if they have the same tape and the same simulator, and their workshops differ in
nothing but what machines remember.  Work with a simulator does the same in both: it has the same
outcome, adds the same events to the journals, and leaves twins behind.  What machines remember is
looked at by validation only, and its verdict does not depend on it.

## Main definitions

* `Stage.Twin` — two stages differ in what machines remember and in their journals so far.

## Main statements

* `SimM.congruence_twin` — twins are treated alike.
* `SimM.respects_step`, `SimM.respects_run`, `SimM.respects_reset`, `SimM.respects_observeTape` — work
  with a simulator does the same in twins.
-/

namespace MachineLab

/-! ## Twins -/

/-- Two journals have had the same events since they held the given ones. -/
def Journal.Echoes (x x' : List Event) (j j' : Journal) : Prop :=
  ∃ new, j.events.toList = x ++ new ∧ j'.events.toList = x' ++ new

theorem Journal.Echoes.tell {x x' : List Event} {j j' : Journal} (h : Journal.Echoes x x' j j')
    (e : Event) : Journal.Echoes x x' (j.tell e) (j'.tell e) := by
  obtain ⟨new, events, events'⟩ := h
  refine ⟨new ++ [e], ?_, ?_⟩
  · simp [Journal.tell, events]
  · simp [Journal.tell, events']

/-- Two reels have the same tape. -/
structure Reel.Twin (x x' : List Event) (r r' : Reel) : Prop where
  tape : r'.tape = r.tape
  events : Journal.Echoes x x' r.journal r'.journal

/-- Two stages have the same tape and the same simulator of a known machine, in sound workshops that are
`w` but for what machines remember. -/
structure Stage.Twin (w : Workshop) (x x' : List Event) (s s' : Stage) : Prop where
  alike : w.Alike s.shop
  alike' : w.Alike s'.shop
  good : s.shop.Good
  good' : s'.shop.Good
  known : s.sim.machine.index < w.machines.length
  tape : s'.tape = s.tape
  sim : s'.sim = s.sim
  events : Journal.Echoes x x' s.journal s'.journal

theorem Stage.Twin.shops {w : Workshop} {x x' : List Event} {s s' : Stage}
    (h : Stage.Twin w x x' s s') : s.shop.Alike s'.shop := h.alike.symm.trans h.alike'

section Tape

variable {x x' : List Event}

theorem Tape.respects_perform (op : Op) : Respects (Reel.Twin x x') (Tape.perform op) := by
  have notify (t : Tape) {j j' : Journal} (h : Journal.Echoes x x' j j') :
      Journal.Echoes x x' (t.notify j) (t.notify j') := by
    unfold Tape.notify
    split
    · exact h.tell _
    · exact h
  have growth (t t' : Tape) {j j' : Journal} (h : Journal.Echoes x x' j j') :
      Journal.Echoes x x' (t.recordGrowth t' j) (t.recordGrowth t' j') := by
    unfold recordGrowth
    split <;> exact h
  rintro ⟨t, j⟩ ⟨t', j'⟩ ⟨rfl, events⟩
  unfold Tape.perform
  cases t'.apply op with
  | error e => exact .error ⟨rfl, events⟩
  | ok t₁ =>
    refine .ok ⟨rfl, notify t₁ ?_⟩
    cases op with
    | right => exact growth t' t₁ events
    | _ => exact events

theorem Machine.respects_advance (m : Machine) (q : State) (tr? : Option Transition) :
    Respects (Reel.Twin x x') (m.advance q tr?) := by
  have follow (tr : Transition) : Respects (Reel.Twin x x') (m.follow tr) := by
    refine .bind ?_ fun _ => ?_
    · unfold Action.perform
      split
      · exact Tape.respects_perform _
      · exact .pure _
      · exact .throw _
    · split
      · exact .pure _
      · exact .throw _
  refine .read (fun r r' twin => by rw [twin.tape]) fun r _ _ => ?_
  cases m.kind <;> cases tr? <;> simp only
  case turing.none => exact .throw _
  case turing.some tr => exact follow tr
  case acceptor.none => split <;> exact .throw _
  case acceptor.some tr =>
    split
    · exact follow tr
    · exact .throw _

end Tape

namespace SimM

variable {α : Type} {w : Workshop} {x x' : List Event}

/-- Work that does the same in twins. -/
abbrev Respectful (w : Workshop) (x x' : List Event) (work : SimM α) : Prop :=
  Respects (Stage.Twin w x x') work

theorem respects_update {f : Simulator → Simulator} (same : ∀ sim, (f sim).machine = sim.machine) :
    Respectful w x x' (update f) :=
  .modify fun s _ h => ⟨h.alike, h.alike', h.good, h.good', same s.sim ▸ h.known, h.tape,
    congrArg f h.sim, h.events⟩

theorem respects_tell (e : SimulatorEvent) : Respectful w x x' (tell e) :=
  .modify fun _ _ h => ⟨h.alike, h.alike', h.good, h.good', h.known, h.tape, h.sim, h.events.tell _⟩

theorem respects_record (level : LogLevel) (message : String) :
    Respectful w x x' (record level message) :=
  .modify fun _ _ h => ⟨h.alike, h.alike', h.good, h.good', h.known, h.tape, h.sim, h.events⟩

theorem respects_observeTape {f : Workshop → Simulator → Tape → Except Fault α}
    (same : ∀ {w w' : Workshop}, w.Alike w' → ∀ sim t, f w' sim t = f w sim t) :
    Respectful w x x' (observeTape f) :=
  .read (fun s s' h => by rw [h.sim, h.tape, same h.shops]) fun _ _ _ => Congruence.ofExcept _

theorem respects_onTape {work : TapeM α} (h : Respects (Reel.Twin x x') work) :
    Respectful w x x' (onTape work) := by
  intro s s' twin
  have same := h ⟨s.tape, s.journal⟩ ⟨s'.tape, s'.journal⟩ ⟨twin.tape, twin.events⟩
  unfold onTape
  generalize work ⟨s.tape, s.journal⟩ = r at same ⊢
  generalize work ⟨s'.tape, s'.journal⟩ = r' at same ⊢
  obtain ⟨alike, alike', good, good', known, -, sim, -⟩ := twin
  cases same with
  | ok reels => exact .ok ⟨alike, alike', good, good', known, reels.tape, sim, reels.events⟩
  | error reels => exact .error ⟨alike, alike', good, good', known, reels.tape, sim, reels.events⟩

/-- **The verdict of a validation does not depend on what machines remember**, and listeners do not hear
of it. -/
theorem respects_validate {m : MachineId} (hm : m.index < w.machines.length) :
    Respectful w x x' (inShop (Work.validate m)) := by
  intro s s' twin
  obtain ⟨b, alike, changes, hvalidate, -⟩ :=
    Work.validate_spec (b := ⟨s.shop, s.journal⟩) twin.good (twin.alike.length ▸ hm)
  obtain ⟨b', alike', changes', hvalidate', -⟩ :=
    Work.validate_spec (b := ⟨s'.shop, s'.journal⟩) twin.good' (twin.alike'.length ▸ hm)
  have silent := Work.silent_validate m ⟨s.shop, s.journal⟩ rfl
  have silent' := Work.silent_validate m ⟨s'.shop, s'.journal⟩ rfl
  rw [after_of_conclude hvalidate] at silent
  rw [after_of_conclude hvalidate'] at silent'
  have events : Journal.Echoes x x' b.journal b'.journal := by
    unfold Journal.Echoes
    rw [silent, silent']
    exact twin.events
  have left : Stage.Twin w x x' { s with shop := b.shop, journal := b.journal }
      { s' with shop := b'.shop, journal := b'.journal } :=
    ⟨twin.alike.trans alike, twin.alike'.trans alike', changes.good twin.good,
      changes'.good twin.good', twin.known, twin.tape, twin.sim, events⟩
  simp only [twin.shops.defectOf] at hvalidate'
  simp only [inShop, hvalidate, hvalidate']
  cases Workshop.verdict (s.shop.defectOf m) with
  | ok u => exact .ok left
  | error e => exact .error left

/-- **Twins are treated alike.** -/
theorem congruence_twin : Congruence (Stage.Twin w x x') where
  resembles h := ⟨h.shops, h.tape, _, h.sim⟩
  update machine _ := respects_update machine
  judge _ := respects_update fun _ => rfl
  tell := respects_tell
  record := respects_record
  onTape m q tr? := respects_onTape (m.respects_advance q tr?)
  validate h := respects_validate h.known

theorem respects_step : Respectful w x x' step := congruence_twin.step

theorem respects_reset : Respectful w x x' reset := congruence_twin.reset

theorem respects_run (limit : Int) (patience : Nat) : Respectful w x x' (run limit patience) :=
  congruence_twin.run (fun _ _ h => h.sim) limit patience

end SimM

end MachineLab
