import MachineLab.Proofs.Removal

/-!
# Edits that fail

An edit of a machine looks things up and checks its arguments before it writes anything, so an edit that
fails leaves every machine as it was.  Removals are carried out record by record and could stop half-way,
but do not.

## Main definitions

* `AllOrNothing` — work that fails on a condition, and then leaves no trace.
* `Command.isEdit` — the edits of a machine that can fail.
* `Command.Fails` — what makes an edit fail.

## Main statements

* `AllOrNothing.look`, `AllOrNothing.write` — looks come first, and what is written last does not fail.
* `Command.allOrNothing` — every edit looks first and writes last.
* `Workshop.failed_edits_leave_no_trace` — an edit fails exactly on its condition, and then nothing has
  changed.
-/

namespace MachineLab

open Relation

/-! ## All or nothing -/

/-- Work fails exactly on a condition, and then leaves everything as it was. -/
def AllOrNothing {ε σ α : Type} (work : EStateM ε σ α) (s : σ) (fails : Prop) : Prop :=
  (fails ∧ ∃ e, work s = .error e s) ∨ (¬ fails ∧ ∃ a s', work s = .ok a s')

namespace AllOrNothing

variable {ε σ α β : Type} {s : σ} {fails : Prop}

theorem write {work : EStateM ε σ α} {a : α} {s' : σ} (h : work s = .ok a s') :
    AllOrNothing work s False := .inr ⟨not_false, a, s', h⟩

/-- A look can fail, and so can what comes after it. -/
theorem look {work : EStateM ε σ α} {rest : α → EStateM ε σ β} {result : Except ε α}
    (h : work s = conclude result s)
    (hrest : ∀ a, result = .ok a → AllOrNothing (rest a) s fails) :
    AllOrNothing (work >>= rest) s ((¬ ∃ a, result = .ok a) ∨ fails) := by
  cases result with
  | error e => exact .inl ⟨.inl nofun, e, bind_of_error h⟩
  | ok a =>
    have found : ¬ ¬ ∃ a', (Except.ok a : Except ε α) = .ok a' := not_not_intro ⟨a, rfl⟩
    rcases hrest a rfl with ⟨hfails, e, he⟩ | ⟨hfails, a', s', ha'⟩
    · exact .inl ⟨.inr hfails, e, (bind_of_ok h).trans he⟩
    · exact .inr ⟨not_or.mpr ⟨found, hfails⟩, a', s', (bind_of_ok h).trans ha'⟩

/-- A check is a look that gives nothing. -/
theorem check {work : EStateM ε σ Unit} {rest : Unit → EStateM ε σ β} {p : Prop} [Decidable p] {e : ε}
    (h : work s = conclude (if p then .ok () else .error e) s)
    (hrest : p → AllOrNothing (rest ()) s fails) :
    AllOrNothing (work >>= rest) s (¬ p ∨ fails) := by
  by_cases hp : p
  · rw [if_pos hp] at h
    simpa [hp] using look h fun _ _ => hrest hp
  · rw [if_neg hp] at h
    exact .inl ⟨.inl hp, e, bind_of_error h⟩

theorem discard {work : EStateM ε σ α} (h : AllOrNothing work s fails) :
    AllOrNothing (Functor.discard work) s fails := by
  refine h.imp (And.imp_right ?_) (And.imp_right ?_)
  · rintro ⟨e, he⟩
    refine ⟨e, ?_⟩
    simp only [Functor.discard, Functor.mapConst, Function.comp_apply, EStateM.map, he]
  · rintro ⟨a, s', ha⟩
    refine ⟨⟨⟩, s', ?_⟩
    simp only [Functor.discard, Functor.mapConst, Function.comp_apply, EStateM.map, ha]

theorem fails_iff {work : EStateM ε σ α} (h : AllOrNothing work s fails) :
    (∃ e s', work s = .error e s') ↔ fails := by
  rcases h with ⟨hfails, e, he⟩ | ⟨hfails, a, s', ha⟩
  · exact iff_of_true ⟨e, s, he⟩ hfails
  · refine iff_of_false ?_ hfails
    rintro ⟨e, s', he⟩
    rw [ha] at he
    cases he

theorem eq_of_error {work : EStateM ε σ α} (h : AllOrNothing work s fails) {e : ε} {s' : σ}
    (he : work s = .error e s') : s' = s := by
  rcases h with ⟨-, e', he'⟩ | ⟨-, a, s'', ha⟩
  · rw [he'] at he
    exact (EStateM.Result.error.inj he).2.symm
  · rw [ha] at he
    cases he

end AllOrNothing

/-! ## The edits -/

namespace Command

/-- The edits of a machine that can fail. -/
def isEdit : Command → Bool
  | .addTransition .. | .setAction .. | .setStart .. | .setFinal .. | .setLabel ..
  | .deleteState .. | .deleteTransition .. | .attach .. | .detach .. | .removeInconsistent .. => true
  | _ => false

/-- What makes an edit fail: a reference that leads nowhere, where one is needed, or that cannot be
looked up; an action of the other kind; a machine that cannot be put there; and for pruning, a transition
about which the alphabet cannot decide. -/
def Fails (w : Workshop) : Command → Prop
  | .addTransition m source target action =>
    (¬ ∃ s, w.state m source = .ok s) ∨ (¬ ∃ s, w.state m target = .ok s) ∨
      action.kind ≠ (w.machine m).kind
  | .setAction m transition action =>
    (¬ ∃ t, w.transition m transition = .ok t) ∨ action.kind ≠ (w.machine m).kind
  | .setStart m state _ | .setFinal m state _ | .setLabel m state _ => ¬ ∃ s, w.state m state = .ok s
  | .deleteState _ r | .deleteTransition _ r => ¬ r.IsKey
  | .attach m state inner =>
    (w.machine m).kind ≠ .turing ∨ (¬ ∃ s, w.state m state = .ok s) ∨
      ¬ ∃ i, inner = some i ∧ (w.machine i).kind = .turing ∧ ¬ ReflTransGen w.Nests i m
  | .detach m state => (w.machine m).kind ≠ .turing ∨ ¬ ∃ s, w.state m state = .ok s
  | .removeInconsistent m a =>
    ∃ t ∈ (w.machine m).transitions, ∃ e, t.action.isConsistent (w.measureOf m a) = .error e
  | _ => False

end Command

namespace Workshop

variable {w : Workshop} {m : MachineId} {r : Ref}

theorem transition_of_isKey (key : r.IsKey) :
    (∃ t, w.transition m r = .ok t) ∨ ∃ why, w.transition m r = .error (.refusal why) := by
  unfold transition
  cases r with
  | value v =>
    have looked : idOf v = .ok v.index? := if_pos key
    simp only [looked, Except.map]
    cases v.index?.bind (w.machine m).transition? with
    | none => exact .inr ⟨_, rfl⟩
    | some t => exact .inl ⟨t, rfl⟩
  | state owner id => exact .inr ⟨_, rfl⟩
  | transition owner id =>
    dsimp only
    cases if owner = m then (w.machine m).transition? id else none with
    | none => exact .inr ⟨_, rfl⟩
    | some t => exact .inl ⟨t, rfl⟩

theorem transition_of_not_isKey (key : ¬ r.IsKey) :
    ∃ kind, w.transition m r = .error (.mismatch (.notKey kind)) := by
  cases r with
  | value v =>
    refine ⟨v.kind, ?_⟩
    simp only [transition, idOf, if_neg (show ¬ v.isKey = true from key), Except.map]
  | state owner id => exact absurd trivial key
  | transition owner id => exact absurd trivial key

end Workshop

namespace Work

variable {b : Bench} {m : MachineId}

/-- Two references, an action, and then the transition. -/
theorem allOrNothing_addTransition (m : MachineId) (source target : Ref) (action : Action) (b : Bench) :
    AllOrNothing (addTransition m source target action) b
      ((Command.addTransition m source target action).Fails b.shop) := by
  have staged : AllOrNothing (addTransition m source target action) b _ :=
    .look (state_eq m source b) fun s _ => .look (state_eq m target b) fun t _ =>
      .check (checkAction_eq m action b) fun _ => .write rfl
  simpa only [Command.Fails, ne_eq, or_false] using staged

theorem allOrNothing_setAction (m : MachineId) (r : Ref) (action : Action) (b : Bench) :
    AllOrNothing (setAction m r action) b ((Command.setAction m r action).Fails b.shop) := by
  have staged : AllOrNothing (setAction m r action) b _ :=
    .look (transition_eq m r b) fun t _ => .check (checkAction_eq m action b) fun _ => .write rfl
  simpa only [Command.Fails, ne_eq, or_false] using staged

/-- A reference to a state, and then something that is done to it. -/
theorem allOrNothing_update (m : MachineId) (r : Ref) (b : Bench) (f : Machine → Nat → Machine) :
    AllOrNothing (do let s ← state m r; setMachine m (f (← machine m) s.id)) b
      (¬ ∃ s, b.shop.state m r = .ok s) := by
  have staged : AllOrNothing (do let s ← state m r; setMachine m (f (← machine m) s.id)) b _ :=
    .look (state_eq m r b) fun s _ => .write rfl
  simpa only [Command.Fails, ne_eq, or_false] using staged

theorem allOrNothing_detach (m : MachineId) (r : Ref) (b : Bench) :
    AllOrNothing (detach m r) b ((Command.detach m r).Fails b.shop) := by
  have staged : AllOrNothing (detach m r) b _ :=
    .check (requireNesting_eq m b) fun _ => .look (state_eq m r b) fun s _ => .write rfl
  simpa only [Command.Fails, ne_eq, or_false] using staged

/-- The graph is searched before a link is set. -/
theorem allOrNothing_attach (m : MachineId) (r : Ref) (inner : Option MachineId) (b : Bench) :
    AllOrNothing (attach m r inner) b ((Command.attach m r inner).Fails b.shop) := by
  refine .check (requireNesting_eq m b) fun outer => .look (state_eq m r b) fun q hq => ?_
  simp only [AllOrNothing, bind, EStateM.bind, get_apply]
  cases chosen : inner.filter fun i => (b.shop.machine i).kind == .turing with
  | none =>
    refine .inl ⟨?_, _, rfl⟩
    rintro ⟨i, rfl, turing, -⟩
    simp [turing] at chosen
  | some i =>
    obtain ⟨rfl, turing⟩ := Option.filter_eq_some_iff.mp chosen
    have nestable : (b.shop.machine i).kind = .turing := eq_of_beq turing
    have back : (decide (i = m) || b.shop.containsMachine i m) = true ↔
        ReflTransGen b.shop.Nests i m := by
      rw [Bool.or_eq_true, decide_eq_true_eq, Workshop.containsMachine_iff,
        reflTransGen_iff_eq_or_transGen, eq_comm]
    dsimp only
    split
    · rename_i cycle
      refine .inl ⟨?_, _, rfl⟩
      rintro ⟨_, ⟨⟩, -, forward⟩
      exact forward (back.mp cycle)
    · rename_i forward
      exact .inr ⟨not_not_intro ⟨i, rfl, nestable, fun cycle => forward (back.mpr cycle)⟩, _, _, rfl⟩

/-- A removal fails on what cannot be looked up, and on nothing else. -/
theorem allOrNothing_removal {α : Type} {work : Work Bool} {found : Except Fault α} {left : α → Bench}
    {key : Prop} (h : work b = removal found left b)
    (ofKey : key → (∃ a, found = .ok a) ∨ ∃ why, found = .error (.refusal why))
    (ofNoKey : ¬ key → ∃ kind, found = .error (.mismatch (.notKey kind))) :
    AllOrNothing work b (¬ key) := by
  by_cases hkey : key
  · refine .inr ⟨not_not_intro hkey, ?_⟩
    rcases ofKey hkey with ⟨a, rfl⟩ | ⟨why, rfl⟩
    · exact ⟨true, _, h⟩
    · exact ⟨false, _, h⟩
  · obtain ⟨kind, rfl⟩ := ofNoKey hkey
    exact .inl ⟨hkey, _, h⟩

theorem allOrNothing_deleteState (arena : (b.shop.machine m).Arena) (r : Ref) :
    AllOrNothing (deleteState m r) b (¬ r.IsKey) :=
  allOrNothing_removal (deleteState_eq arena r) Workshop.state_of_isKey Workshop.state_of_not_isKey

theorem allOrNothing_deleteTransition (arena : (b.shop.machine m).Arena) (r : Ref) :
    AllOrNothing (deleteTransition m r) b (¬ r.IsKey) :=
  allOrNothing_removal (deleteTransition_eq arena r) Workshop.transition_of_isKey
    Workshop.transition_of_not_isKey

/-- Whether an alphabet allows a transition can be decided unless the test fails. -/
theorem exists_inconsistent_eq_ok_iff (m : MachineId) (a : Option AlphabetId) (b : Bench) :
    (∃ doomed, b.shop.inconsistent m a = .ok doomed) ↔
      ¬ (Command.removeInconsistent m a).Fails b.shop := by
  unfold Workshop.inconsistent Machine.inconsistent
  simp only [exists_filterM_eq_ok_iff, Command.Fails, not_exists, not_and]
  refine forall_congr' fun t => forall_congr' fun _ => ?_
  cases t.action.isConsistent (b.shop.measureOf m a) with
  | ok verdict => exact iff_of_true ⟨!verdict, rfl⟩ nofun
  | error e => exact iff_of_false nofun fun h => h e rfl

/-- All transitions are looked at before the first one is removed. -/
theorem allOrNothing_removeInconsistent (arena : (b.shop.machine m).Arena)
    (hm : m.index < b.shop.machines.length) (a : Option AlphabetId) :
    AllOrNothing (removeInconsistent m a) b ((Command.removeInconsistent m a).Fails b.shop) := by
  rw [← not_not (a := Command.Fails _ _), ← exists_inconsistent_eq_ok_iff]
  cases found : b.shop.inconsistent m a with
  | error e => exact .inl ⟨nofun, e, removeInconsistent_of_error found⟩
  | ok doomed =>
    obtain ⟨j, done, -⟩ := removeInconsistent_eq arena hm found
    exact .inr ⟨not_not_intro ⟨doomed, rfl⟩, _, _, done⟩

end Work

namespace Command

/-- **Every edit looks first and writes last.** -/
theorem allOrNothing {c : Command} (edit : c.isEdit = true) {b : Bench} (sane : b.shop.Sane)
    (known : c.Known b.shop) : AllOrNothing c.run b (c.Fails b.shop) := by
  cases c with
  | addTransition m source target action =>
    exact (Work.allOrNothing_addTransition m source target action b).discard
  | setAction m transition action => exact Work.allOrNothing_setAction m transition action b
  | setStart m state value => exact Work.allOrNothing_update m state b (·.setStart · value)
  | setFinal m state value => exact Work.allOrNothing_update m state b (·.setFinal · value)
  | setLabel m state label => exact Work.allOrNothing_update m state b (·.setLabel · label)
  | deleteState m state => exact (Work.allOrNothing_deleteState (sane.arena m) state).discard
  | deleteTransition m transition =>
    exact (Work.allOrNothing_deleteTransition (sane.arena m) transition).discard
  | attach m state inner => exact Work.allOrNothing_attach m state inner b
  | detach m state => exact (Work.allOrNothing_detach m state b).discard
  | removeInconsistent m a => exact (Work.allOrNothing_removeInconsistent (sane.arena m) known.1 a).discard
  | _ => cases edit

end Command

namespace Workshop

variable {w : Workshop}

/-- **Failed edits leave no trace.**  Take any workshop with a history and any edit with any arguments,
carried out record by record.  It fails exactly if a reference, an action, a machine or a symbol makes
it fail; and then every machine, every alphabet and the journal are as they were. -/
theorem failed_edits_leave_no_trace (h : w.Reachable) {c : Command} (edit : c.isEdit = true)
    (known : c.Known w) (j : Journal) :
    ((∃ e b, c.run ⟨w, j⟩ = .error e b) ↔ c.Fails w) ∧
    ∀ e b, c.run ⟨w, j⟩ = .error e b → b = ⟨w, j⟩ := by
  have staged := Command.allOrNothing edit (b := ⟨w, j⟩) h.good.sane known
  exact ⟨staged.fails_iff, fun e b => staged.eq_of_error⟩

/-- A machine with a transition that its alphabet does not allow, and after it one about which the
alphabet cannot decide. -/
def foreignThenLigature : Bench :=
  Command.runAll
    [ .parseAlphabet "01_", .newMachine .turing (.text "machine") (some ⟨0⟩),
      .addState ⟨0⟩ "a" true false, .addState ⟨0⟩ "b" false true,
      .addTransition ⟨0⟩ (.state ⟨0⟩ 0) (.state ⟨0⟩ 1) (.move .right (.text "Z")),
      .addTransition ⟨0⟩ (.state ⟨0⟩ 1) (.state ⟨0⟩ 0) (.move .right (.text "ﬅ")) ]
    ⟨Workshop.empty, Journal.empty⟩

/-- The transition that the alphabet does not allow is still there after pruning has failed. -/
theorem foreignThenLigature_is_not_pruned :
    foreignThenLigature.shop.Reachable ∧
    (Command.removeInconsistent ⟨0⟩ none).Fails foreignThenLigature.shop ∧
    ((foreignThenLigature.shop.machine ⟨0⟩).transitions.map fun t =>
      (t.action.isConsistent (foreignThenLigature.shop.alphabetOf ⟨0⟩)).toOption) = [some false, none] ∧
    ∃ e, (Command.removeInconsistent ⟨0⟩ none).run foreignThenLigature = .error e foreignThenLigature := by
  have reachable : foreignThenLigature.shop.Reachable := .runAll .empty (by decide +kernel)
  obtain ⟨fails_iff, unchanged⟩ := failed_edits_leave_no_trace reachable
    (c := .removeInconsistent ⟨0⟩ none) rfl (by decide +kernel) foreignThenLigature.journal
  have failed :
      (outcome (Command.removeInconsistent ⟨0⟩ none).run foreignThenLigature).toOption = none := by
    decide +kernel
  cases hrun : (Command.removeInconsistent ⟨0⟩ none).run foreignThenLigature with
  | ok a b =>
    rw [outcome_of_ok hrun] at failed
    cases failed
  | error e b =>
    exact ⟨reachable, fails_iff.mp ⟨e, b, hrun⟩, by decide +kernel, e, unchanged e b hrun ▸ rfl⟩

end Workshop

end MachineLab
