import MachineLab.Proofs.Language
import MachineLab.Proofs.Preview
import MachineLab.Proofs.Strays

/-!
# The transition that comes next in an acceptor

An acceptor can be asked which transition its next step would take, as a Turing machine can.  The answer
looks for a transition with the symbol under the head.  The step looks at the head first: on a blank the
input is at its end, and the step says whether it is accepted.  An alphabet may have the blank, and a
valid acceptor may then have transitions for it; such a transition is foretold on a blank and never
taken.

Everywhere else the answer is exact.  That is shown for every simulator of an acceptor, whatever was
asked of it and whatever was done to the workshop since it was made, as long as the acceptor is valid at
the time.  An acceptor holds no machines, so it alone has a cursor; if the state of the cursor has been
deleted, the answer and the step fail alike.

## Main definitions

* `Stage.InUse` — the simulators of an acceptor that there can be.
* `Stage.Solo` — no machine but the acceptor has a cursor.

## Main statements

* `Workshop.Changes.kind_eq` — a machine keeps its kind.
* `Stage.InUse.solo` — an acceptor is always alone.
* `Stage.Solo.step_cases` — what is foretold and what a step does.
* `Stage.acceptor_preview_is_exact_off_blanks` — the answer is exact but for the blank.
-/

namespace MachineLab

open Relation

/-! ## Kinds -/

namespace Workshop

variable {w w' : Workshop} {n : MachineId}

/-- A machine that is replaced by one of its kind keeps its kind. -/
theorem kind_setMachine {m : MachineId} (hm : m.index < w.machines.length) {new : Machine}
    (kind : new.kind = (w.machine m).kind) (n : MachineId) :
    ((w.setMachine m new).machine n).kind = (w.machine n).kind := by
  rw [machine_setMachine hm]
  split
  · rename_i here
    rw [here, kind]
  · rfl

theorem Change.kind_eq (c : w.Change w') (hn : n.index < w.machines.length) :
    (w'.machine n).kind = (w.machine n).kind := by
  cases c with
  | addAlphabet new => rfl
  | editAlphabet known newer => rfl
  | addMachine kind name known => rw [machine_addMachine_of_lt _ _ hn]
  | edit known e => exact kind_setMachine known e.kind_eq n
  | setAlphabet known knownAlphabet =>
    refine kind_setMachine known ?_ n
    rfl
  | attach id known knownInner outer inner back =>
    refine kind_setMachine known ?_ n
    rfl
  | remember known clean =>
    refine kind_setMachine known ?_ n
    rfl

/-- No number of changes turns a machine into one of the other kind. -/
theorem Changes.kind_eq (c : w.Changes w') (hn : n.index < w.machines.length) :
    (w'.machine n).kind = (w.machine n).kind := by
  induction c with
  | refl => rfl
  | tail changes c ih =>
    exact (c.kind_eq (Nat.lt_of_lt_of_le hn (Changes.evolves changes).machines_le)).trans ih

end Workshop

/-! ## Moves of an acceptor -/

namespace Machine

variable {m : Machine} {a : Alphabet} {q : State} {t : Tape}

/-- On a blank an acceptor that follows the rules gives its verdict, whatever transitions it has;
elsewhere it goes along the transition for the symbol, or is stuck without one. -/
theorem AcceptorRules.go_eq (rules : m.AcceptorRules a) (acceptor : m.kind = .acceptor)
    (hq : q ∈ m.states) (t : Tape) :
    m.go q t =
      if t.read = blankCell then .error (.machine (if q.isFinal then .accepted else .rejected))
      else match m.choice? q (.text t.read) with
        | some tr => m.goAlong tr t
        | none => .error (.machine (.stuck q.label t.read)) := by
  unfold go
  rw [acceptor]
  cases found : m.choice? q (.text t.read) with
  | none => rfl
  | some tr =>
    obtain ⟨used, -, notEmpty, -⟩ := rules.fits hq (mem_exits_of_choice? found)
    have reads : tr.input.eqv Symbol.emptyInput = false := notEmpty
    by_cases blank : t.read = blankCell <;> simp [reads, blank]

/-- An acceptor goes along a transition to its target, one cell on. -/
theorem AcceptorRules.exists_goAlong_eq (rules : m.AcceptorRules a) (arena : m.Arena)
    (acceptor : m.kind = .acceptor) (hq : q ∈ m.states) {tr : Transition}
    (htr : tr ∈ m.transitions) (source : tr.source = q.id) :
    ∃ q' ∈ m.states, tr.target = q'.id ∧ tr.action.effect t = .ok t.moveRight ∧
      m.goAlong tr t = .ok (q', t.moveRight) := by
  have effect := rules.effect_eq arena acceptor hq htr source (t := t)
  obtain ⟨q', hq', target⟩ := arena.target_live tr htr
  have there := arena.state?_eq_some_iff.mpr ⟨hq', target⟩
  refine ⟨q', hq', target.symm, effect, ?_⟩
  simp [goAlong, effect, Machine.endpoint, there, Except.map]

end Machine

/-- The text of an acceptor's action is its input. -/
theorem Action.input_of_text {action : Action} {text : String} (kind : action.kind = .acceptor)
    (h : action.text = .ok text) : action.input = .text text := by
  cases action with
  | turing d inp out => cases kind
  | acceptor inp =>
    cases inp with
    | text s =>
      cases h
      rfl
    | _ => cases h

/-! ## Simulators of acceptors -/

/-- A simulator of the acceptor `m`: since it was made, it was called and the workshop was worked on. -/
inductive Stage.InUse (m : MachineId) : Stage → Prop
  | fresh {w : Workshop} (h : w.Reachable) (known : m.index < w.machines.length)
      (acceptor : (w.machine m).kind = .acceptor) (t : Tape) (j : Journal) :
      InUse m (.fresh w m t j)
  | call {s : Stage} (h : InUse m s) (call : Call) : InUse m (after call.perform s)
  | edit {s : Stage} (h : InUse m s) (c : Command) (known : c.Known s.shop) :
      InUse m (after (SimM.inShop c.run) s)

/-- A simulator of the acceptor `m` in which nothing else has a cursor. -/
structure Stage.Solo (m : MachineId) (s : Stage) : Prop where
  good : s.shop.Good
  known : m.index < s.shop.machines.length
  acceptor : (s.shop.machine m).kind = .acceptor
  machine : s.sim.machine = m
  alone : ∀ n, n ≠ m → s.sim.cursor? n = none

namespace Stage.Solo

open Workshop

variable {s : Stage} {m : MachineId}

/-- A simulator of an acceptor that stands at a stack is alone. -/
theorem of_stands {w : Workshop} {c : List Frame × Tape} (h : s.Stands w m c)
    (known : m.index < w.machines.length) (acceptor : (w.machine m).kind = .acceptor) : s.Solo m where
  good := h.good
  known := h.alike.length ▸ known
  acceptor := (h.alike.kind m).trans acceptor
  machine := h.here.machine
  alone := by
    intro n other
    obtain ⟨stack, t⟩ := c
    have tracks := h.here.tracks
    refine tracks.cursor_of_absent fun f hf => ?_
    cases stack with
    | nil => cases hf
    | cons g below =>
      have single : below = [] := tracks.rest_eq_nil_of_acceptor h.good.sane
        (h.here.machine ▸ (h.alike.kind m).trans acceptor)
      subst single
      rw [List.mem_singleton.mp hf, tracks.stacked.1, h.here.machine]
      exact other.symm

/-- An acceptor has not started, is in one of its states, or is where it has no state any more. -/
theorem stands_or_astray (h : s.Solo m) :
    s.Stands s.shop m ([], s.tape) ∨
    (∃ q ∈ (s.shop.machine m).states, s.Stands s.shop m ([⟨m, q⟩], s.tape)) ∨
    ∃ id cause, s.sim.cursor? m = some id ∧ s.shop.stateAt m id = .error (.refusal cause) := by
  cases hcursor : s.sim.cursor? m with
  | none =>
    refine .inl ⟨.refl _, h.good, h.machine, ⟨trivial, fun n id => ?_⟩, rfl⟩
    have none : s.sim.cursor? n = none := by
      by_cases hn : n = m
      · rw [hn, hcursor]
      · exact h.alone n hn
    simp [none]
  | some id =>
    have looked := s.shop.stateAt_eq_match m id
    cases hstate : (s.shop.machine m).state? id with
    | none =>
      rw [hstate] at looked
      exact .inr (.inr ⟨id, _, rfl, looked⟩)
    | some q =>
      obtain ⟨hq, rfl⟩ := (h.good.sane.arena m).state?_eq_some_iff.mp hstate
      refine .inr (.inl ⟨q, hq, .refl _, h.good, h.machine, ⟨⟨h.machine.symm, hq⟩, fun n id => ?_⟩, rfl⟩)
      by_cases hn : n = m
      · rw [hn, hcursor]
        simp
      · rw [h.alone n hn]
        simp [Ne.symm hn]

/-! ## A cursor at a deleted state -/

/-- Validation at the beginning of a step gives the verdict on the machine. -/
theorem exists_validate_eq (h : s.Solo m) :
    ∃ b : Bench, SimM.inShop (Work.validate s.sim.machine) s =
        conclude (verdict (s.shop.defectOf m)) { s with shop := b.shop, journal := b.journal } ∧
      s.shop.Alike b.shop ∧ b.shop.Good := by
  obtain ⟨b, alike, changes, hvalidate, -⟩ :=
    Work.validate_spec (b := ⟨s.shop, s.journal⟩) h.good h.known
  refine ⟨b, ?_, alike, changes.good h.good⟩
  unfold SimM.inShop
  rw [h.machine, hvalidate]
  cases verdict (s.shop.defectOf m) <;> rfl

/-- What an acceptor is about cannot be told if it has lost its state. -/
theorem focus_of_astray (h : s.Solo m) {id : Nat} {e : Fault} (cursor : s.sim.cursor? m = some id)
    (astray : s.shop.stateAt m id = .error e) : s.shop.focus s.sim = .error e := by
  obtain ⟨d, hd⟩ : ∃ d, s.shop.machines.length = d + 1 :=
    Nat.exists_eq_succ_of_ne_zero (Nat.ne_of_gt (Nat.lt_of_le_of_lt (Nat.zero_le _) h.known))
  simp only [focus, hd, focusFrom, focusBody, h.machine, current?, cursor, astray]
  rfl

/-- A step of an acceptor that has lost its state leaves the cursors as they are, and if the acceptor is
valid the step fails over the lost state. -/
theorem step_of_astray (h : s.Solo m) {id : Nat} {e : Fault} (cursor : s.sim.cursor? m = some id)
    (astray : s.shop.stateAt m id = .error e) :
    (after SimM.step s).Solo m ∧ (s.shop.Clean m → outcome SimM.step s = .error e) := by
  obtain ⟨b, validated, alike, good⟩ := h.exists_validate_eq
  have kept (sim : Simulator) (machine : sim.machine = s.sim.machine)
      (cursors : ∀ n, sim.cursor? n = s.sim.cursor? n) :
      Stage.Solo m ⟨b.shop, s.tape, sim, b.journal⟩ :=
    ⟨good, alike.length ▸ h.known, (alike.kind m).trans h.acceptor, machine.trans h.machine,
      fun n other => (cursors n).trans (h.alone n other)⟩
  cases hverdict : verdict (s.shop.defectOf m) with
  | error e' =>
    rw [hverdict] at validated
    refine ⟨after_of_error (SimM.step_of_invalid validated) ▸ kept s.sim rfl fun _ => rfl, ?_⟩
    intro clean
    rw [clean.pass h.good.sane h.known] at hverdict
    cases hverdict
  | ok u =>
    rw [hverdict] at validated
    let s₁ : Stage := { s with
      shop := b.shop, journal := b.journal, sim := { s.sim with stepCount := s.sim.stepCount + 1 } }
    have solo₁ : s₁.Solo m := kept _ rfl fun _ => rfl
    have cursor₁ : s₁.sim.cursor? m = some id := cursor
    have astray₁ : s₁.shop.stateAt m id = .error e := (alike.stateAt m id).trans astray
    have proceeds : SimM.startOrProceed s₁ = SimM.proceed s₁ := by
      unfold SimM.startOrProceed
      rw [solo₁.machine, cursor₁]
    have fails : SimM.proceed s₁ = .error e s₁ := by
      refine bind_of_error ?_
      simp only [SimM.observe, bind, EStateM.bind, get_apply, solo₁.focus_of_astray cursor₁ astray₁]
      rfl
    have hstep : SimM.step s = .error e s₁ := by
      rw [SimM.step_of_valid validated]
      exact bind_of_error (proceeds.trans fails)
    exact ⟨after_of_error hstep ▸ solo₁, fun _ => outcome_of_error hstep⟩

/-! ## Whatever is done -/

theorem preserves_step : Preserves (Stage.Solo m) SimM.step := by
  intro s h
  have standing (c : List Frame × Tape) (stands : s.Stands s.shop m c) : (after SimM.step s).Solo m := by
    obtain ⟨s', hstep, stands'⟩ := stands.step_eq h.known
    rw [after_of_conclude hstep]
    exact of_stands stands' h.known h.acceptor
  obtain stands | ⟨q, -, stands⟩ | ⟨id, cause, cursor, astray⟩ := h.stands_or_astray
  · exact standing _ stands
  · exact standing _ stands
  · exact (h.step_of_astray cursor astray).1

theorem preserves_call (call : Call) : Preserves (Stage.Solo m) call.perform := by
  cases call with
  | step => exact preserves_step
  | run limit patience =>
    refine .bind (SimM.preserves_run preserves_step ?_ limit patience) fun _ => .pure _
    exact fun s exhausted journal h => ⟨h.good, h.known, h.acceptor, h.machine, h.alone⟩
  | reset => exact fun s h => ⟨h.good, h.known, h.acceptor, h.machine, fun n _ => rfl⟩
  | setTape t => exact fun s h => ⟨h.good, h.known, h.acceptor, h.machine, h.alone⟩

theorem preserves_edit (h : s.Solo m) (c : Command) (known : c.Known s.shop) :
    (after (SimM.inShop c.run) s).Solo m := by
  have changes := c.changes (b := ⟨s.shop, s.journal⟩) h.good known
  have worked : ∃ j, after (SimM.inShop c.run) s =
      { s with shop := (after c.run ⟨s.shop, s.journal⟩).shop, journal := j } := by
    unfold after SimM.inShop
    cases c.run ⟨s.shop, s.journal⟩ <;> exact ⟨_, rfl⟩
  obtain ⟨j, worked⟩ := worked
  rw [worked]
  exact ⟨changes.good h.good, Nat.lt_of_lt_of_le h.known (Changes.evolves changes).machines_le,
    (Changes.kind_eq changes h.known).trans h.acceptor, h.machine, h.alone⟩

end Stage.Solo

/-- **An acceptor is always alone**, whatever is asked of its simulator and done to the workshop. -/
theorem Stage.InUse.solo {s : Stage} {m : MachineId} (h : s.InUse m) : s.Solo m := by
  induction h with
  | fresh reachable known acceptor t j => exact ⟨reachable.good, known, acceptor, rfl, fun _ _ => rfl⟩
  | call _ call ih => exact Solo.preserves_call call _ ih
  | edit _ c known ih => exact ih.preserves_edit c known

/-! ## What is foretold and what a step does -/

namespace Stage

open Workshop

variable {s : Stage} {m : MachineId}

/-- A running acceptor that is valid takes the transition that is foretold, unless its head is on a
blank or none is foretold: then it comes to its end. -/
theorem Solo.step_of_running (h : s.Solo m) (clean : s.shop.Clean m) {q : State}
    (hq : q ∈ (s.shop.machine m).states) (stands : s.Stands s.shop m ([⟨m, q⟩], s.tape)) :
    let choice := (s.shop.machine m).choice? q (.text s.tape.read)
    s.shop.nextTransition s.sim s.tape = .ok choice ∧
    ((s.tape.read ≠ blankCell ∧ ∃ tr, choice = some tr ∧
        tr ∈ (s.shop.machine m).transitions ∧ s.sim.cursor? m = some tr.source ∧
        outcome SimM.step s = .ok () ∧ s.Takes (after SimM.step s) m tr ∧
        (after SimM.step s).tape.head = s.tape.head + 1) ∨
      ((s.tape.read = blankCell ∨ choice = none) ∧
        ∃ f, outcome SimM.step s = .error (.machine f) ∧ (f.isCompletion || f.isFailure) = true ∧
          s.Rests (after SimM.step s))) := by
  intro choice
  have arena := h.good.sane.arena m
  have rules := (FitAcceptor.mk h.good.sane h.known h.acceptor clean).rules
  have chosen : s.shop.chosen m q s.tape = .ok choice := Workshop.chosen_eq arena hq s.tape
  have hturn : turn m [⟨m, q⟩] = .move ⟨m, q⟩ [] := by
    simp [turn, Frame.turn, arena.flat h.acceptor q hq]
  have foretold := stands.nextTransition_eq h.known
  rw [hturn] at foretold
  refine ⟨foretold.trans chosen, ?_⟩
  have hgo := rules.go_eq h.acceptor hq s.tape
  by_cases blank : s.tape.read = blankCell
  · rw [if_pos blank] at hgo
    obtain ⟨gives, rests⟩ := stands.rests h.known clean hturn hgo
    refine .inr ⟨.inl blank, _, gives, ?_, rests⟩
    cases q.isFinal <;> rfl
  rw [if_neg blank] at hgo
  cases found : choice with
  | none =>
    rw [show (s.shop.machine m).choice? q (.text s.tape.read) = none from found] at hgo
    obtain ⟨gives, rests⟩ := stands.rests h.known clean hturn hgo
    exact .inr ⟨.inr rfl, _, gives, rfl, rests⟩
  | some tr =>
    rw [show (s.shop.machine m).choice? q (.text s.tape.read) = some tr from found] at hgo
    obtain ⟨htr, source, -⟩ := (rules.choice?_eq_some_iff h.acceptor hq).mp found
    obtain ⟨q', hq', target, effect, along⟩ :=
      rules.exists_goAlong_eq arena h.acceptor hq htr source (t := s.tape)
    have goes := hgo.trans along
    obtain ⟨gives, takes⟩ :=
      stands.takes h.known clean hturn (chosen.trans (congrArg _ found)) source target hq' effect goes
    obtain ⟨-, landed⟩ := stands.step_of_move h.known clean hturn
    rw [goes] at landed
    refine .inl ⟨blank, tr, rfl, htr, ?_, gives, takes, ?_⟩
    · rw [source]
      exact stands.here.tracks.cursor_of_mem (.head _)
    · rw [landed.here.tape, Tape.head_moveRight]

/-- Listeners are told enough of a step of an acceptor to know which transition it took. -/
theorem Takes.unique (h : s.Solo m) (clean : s.shop.Clean m) {s' : Stage} {tr tr' : Transition}
    (htr : tr ∈ (s.shop.machine m).transitions) (htr' : tr' ∈ (s.shop.machine m).transitions)
    (source : tr.source = tr'.source) (takes : s.Takes s' m tr) (takes' : s.Takes s' m tr') :
    tr = tr' := by
  have arena := h.good.sane.arena m
  have rules := (FitAcceptor.mk h.good.sane h.known h.acceptor clean).rules
  obtain ⟨_, _, text, -, -, written, told⟩ := takes.told
  obtain ⟨_, _, text', -, -, written', told'⟩ := takes'.told
  have same : text = text' := by
    have news := List.append_cancel_left (told.symm.trans told')
    exact congrArg (·.2.2) (List.cons.inj news).1
  have input : tr.input = .text text :=
    Action.input_of_text ((arena.action_kind tr htr).trans h.acceptor) written
  have input' : tr'.input = .text text :=
    Action.input_of_text ((arena.action_kind tr' htr').trans h.acceptor) (same ▸ written')
  obtain ⟨q, hq, hid⟩ := arena.source_live tr htr
  exact rules.eq_of_input_eq hq htr htr' hid.symm (source ▸ hid.symm) input input'

/-- What is foretold and what the next step does, of any simulator of a valid acceptor: it starts, takes
the transition that is foretold, comes to its end, or has lost its state. -/
theorem Solo.step_cases (h : s.Solo m) (clean : s.shop.Clean m) :
    (s.shop.nextTransition s.sim s.tape = .ok none ∧ outcome SimM.step s = .ok () ∧
      s.Starts (after SimM.step s) m) ∨
    (∃ tr, s.shop.nextTransition s.sim s.tape = .ok (some tr) ∧ s.tape.read ≠ blankCell ∧
      tr ∈ (s.shop.machine m).transitions ∧ s.sim.cursor? m = some tr.source ∧
      outcome SimM.step s = .ok () ∧ s.Takes (after SimM.step s) m tr ∧
      (after SimM.step s).tape.head = s.tape.head + 1) ∨
    (∃ next f, s.shop.nextTransition s.sim s.tape = .ok next ∧
      (s.tape.read = blankCell ∨ next = none) ∧ outcome SimM.step s = .error (.machine f) ∧
      (f.isCompletion || f.isFailure) = true ∧ s.Rests (after SimM.step s)) ∨
    (∃ cause, s.shop.nextTransition s.sim s.tape = .error (.refusal cause) ∧
      outcome SimM.step s = .error (.refusal cause)) := by
  obtain stands | ⟨q, hq, stands⟩ | ⟨id, cause, cursor, astray⟩ := h.stands_or_astray
  · exact .inl ⟨stands.nextTransition_eq h.known, stands.starts h.known clean rfl⟩
  · obtain ⟨foretold, ⟨character, tr, chosen, taken⟩ | ⟨ended, f, stops⟩⟩ :=
      h.step_of_running clean hq stands
    · exact .inr (.inl ⟨tr, chosen ▸ foretold, character, taken⟩)
    · exact .inr (.inr (.inl ⟨_, f, foretold, ended, stops⟩))
  · refine .inr (.inr (.inr ⟨cause, ?_, (h.step_of_astray cursor astray).2 clean⟩))
    rw [nextTransition_eq_focus, h.focus_of_astray cursor astray]
    rfl

/-- **But for the blank, the transition that is foretold is the one that is taken.**  Take a simulator of
an acceptor that is valid now, whatever was asked of it and done to the workshop since it was made.  If
the head is not on a blank, it foretells a transition exactly if the next step takes that one, from its
source to its target and one cell on, and tells listeners of it.  It foretells none, or has its head on a
blank and foretells one, exactly if the next step puts it on its start state or ends in completion or
failure and changes nothing. -/
theorem acceptor_preview_is_exact_off_blanks (used : s.InUse m) {j : Journal}
    (valid : outcome (Work.validate m) ⟨s.shop, j⟩ = .ok ()) :
    let next := s.shop.nextTransition s.sim s.tape
    let s' := after SimM.step s
    (∀ tr, next = .ok (some tr) ∧ s.tape.read ≠ blankCell ↔
      tr ∈ (s.shop.machine m).transitions ∧ s.sim.cursor? m = some tr.source ∧
        outcome SimM.step s = .ok () ∧ s.Takes s' m tr ∧ s'.tape.head = s.tape.head + 1) ∧
    (next = .ok none ∨ (∃ tr, next = .ok (some tr)) ∧ s.tape.read = blankCell ↔
      (outcome SimM.step s = .ok () ∧ s.Starts s' m) ∨
        ∃ f, outcome SimM.step s = .error (.machine f) ∧ (f.isCompletion || f.isFailure) = true ∧
          s.Rests s') := by
  intro next s'
  have solo := used.solo
  have clean := solo.good.clean_of_valid solo.known valid
  obtain ⟨foretold, gives, starts⟩ | ⟨tr, foretold, character, htr, cursor, gives, takes, head⟩ |
    ⟨next?, f, foretold, ended, gives, kind, rests⟩ | ⟨cause, foretold, gives⟩ := solo.step_cases clean
  · refine ⟨fun tr => ⟨?_, ?_⟩, fun _ => .inl ⟨gives, starts⟩, fun _ => .inl foretold⟩
    · rintro ⟨some, -⟩
      cases foretold.symm.trans some
    · rintro ⟨-, cursor, -⟩
      cases starts.idle.symm.trans cursor
  · refine ⟨fun tr' => ⟨?_, ?_⟩, ?_, ?_⟩
    · rintro ⟨some, -⟩
      cases foretold.symm.trans some
      exact ⟨htr, cursor, gives, takes, head⟩
    · rintro ⟨htr', cursor', -, takes', -⟩
      have source : tr.source = tr'.source := Option.some.inj (cursor.symm.trans cursor')
      cases takes.unique solo clean htr htr' source takes'
      exact ⟨foretold, character⟩
    · rintro (none | ⟨-, blank⟩)
      · cases foretold.symm.trans none
      · exact absurd blank character
    · rintro (⟨-, starts⟩ | ⟨f, fails, -⟩)
      · cases starts.idle.symm.trans cursor
      · cases gives.symm.trans fails
  · refine ⟨fun tr => ⟨?_, ?_⟩, fun _ => .inr ⟨f, gives, kind, rests⟩, fun _ => ?_⟩
    · rintro ⟨some, character⟩
      cases foretold.symm.trans some
      rcases ended with blank | none
      · exact absurd blank character
      · cases none
    · rintro ⟨-, -, succeeds, -⟩
      cases gives.symm.trans succeeds
    · cases next? with
      | none => exact .inl foretold
      | some tr => exact .inr ⟨⟨tr, foretold⟩, ended.resolve_right nofun⟩
  · refine ⟨fun tr => ⟨?_, ?_⟩, ?_, ?_⟩
    · rintro ⟨some, -⟩
      cases foretold.symm.trans some
    · rintro ⟨-, -, succeeds, -⟩
      cases gives.symm.trans succeeds
    · rintro (none | ⟨⟨tr, some⟩, -⟩)
      · cases foretold.symm.trans none
      · cases foretold.symm.trans some
    · rintro (⟨succeeds, -⟩ | ⟨f, fails, -⟩)
      · cases gives.symm.trans succeeds
      · cases gives.symm.trans fails

/-- A simulator of the acceptor that counts ones, after its first step on a text. -/
def counting (text : String) : Stage :=
  Call.performAll [.step] (.fresh parity.shop ⟨0⟩ (.ofText text) Journal.empty)

theorem inUse_counting (text : String) : (counting text).InUse ⟨0⟩ := by
  have reachable : parity.shop.Reachable := .runAll .empty (by decide +kernel)
  have known : 0 < parity.shop.machines.length := by decide +kernel
  have acceptor : (parity.shop.machine ⟨0⟩).kind = .acceptor := by decide +kernel
  exact .call (.fresh reachable known acceptor (.ofText text) Journal.empty) .step

/-- A transition can be recognised by its target. -/
theorem exists_foretold {s : Stage} {target : Nat}
    (h : (s.shop.nextTransition s.sim s.tape).toOption.join.map (·.target) = some target) :
    ∃ tr, s.shop.nextTransition s.sim s.tape = .ok (some tr) ∧ tr.target = target := by
  obtain ⟨tr, found, same⟩ := Option.map_eq_some_iff.mp h
  exact ⟨tr, eq_ok_of_toOption (Option.join_eq_some_iff.mp found), same⟩

/-- After a state has been renamed in the middle of its run, the acceptor takes the transition that it
foretells for a one. -/
theorem counting_takes_what_it_foretells :
    let s := after (SimM.inShop (Command.setLabel ⟨0⟩ (.state ⟨0⟩ 1) "uneven").run) (counting "10")
    s.InUse ⟨0⟩ ∧ outcome (Work.validate ⟨0⟩) ⟨s.shop, s.journal⟩ = .ok () ∧
    s.tape.read ≠ blankCell ∧
    ∃ tr, s.shop.nextTransition s.sim s.tape = .ok (some tr) ∧ tr.target = 1 ∧
      tr ∈ (s.shop.machine ⟨0⟩).transitions ∧ s.sim.cursor? ⟨0⟩ = some tr.source ∧
      outcome SimM.step s = .ok () ∧ s.Takes (after SimM.step s) ⟨0⟩ tr ∧
      (after SimM.step s).tape.head = s.tape.head + 1 := by
  intro s
  have used : s.InUse ⟨0⟩ := .edit (inUse_counting "10") _ (by decide +kernel)
  have valid : outcome (Work.validate ⟨0⟩) ⟨s.shop, s.journal⟩ = .ok () :=
    eq_ok_of_toOption (by decide +kernel)
  have character : s.tape.read ≠ blankCell := by decide +kernel
  obtain ⟨tr, foretold, target⟩ := exists_foretold (s := s)
    (show _ = some 1 by decide +kernel)
  have takes := ((acceptor_preview_is_exact_off_blanks used valid).1 tr).mp ⟨foretold, character⟩
  exact ⟨used, valid, character, tr, foretold, target, takes⟩

/-- At the end of its input a valid acceptor foretells a transition for the blank, and the next step
does not take it but accepts. -/
theorem counting_foretells_on_a_blank :
    let s := counting ""
    s.InUse ⟨0⟩ ∧ outcome (Work.validate ⟨0⟩) ⟨s.shop, s.journal⟩ = .ok () ∧
    (∃ tr, s.shop.nextTransition s.sim s.tape = .ok (some tr) ∧ tr.target = 1) ∧
    (outcome SimM.step s).mapError Fault.message = .error "The input string was accepted." ∧
    (after SimM.step s).sim.cursor? ⟨0⟩ = some 0 := by
  intro s
  exact ⟨inUse_counting "", eq_ok_of_toOption (by decide +kernel), exists_foretold (by decide +kernel),
    by decide +kernel, by decide +kernel⟩

end Stage

end MachineLab
