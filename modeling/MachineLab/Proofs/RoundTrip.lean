import MachineLab.Proofs.Invariants
import MachineLab.Proofs.Loading

/-!
# A machine and its document

A machine that is written as a document and read again comes back as a copy: the same rule is broken
first, and two simulators, one of the machine and one of what was read, show the same after every
step.  The two work in one workshop and may take turns, since a step changes nothing in the workshop
but what machines remember.

Validation ends with a success or the report of a broken rule, unless it comes to a symbol that no
alphabet can look up.  Of all texts only two are such symbols: two ligatures, whose upper case has two
letters.

## Main definitions

* `Workshop.Illegible` — a machine has a symbol that no alphabet can look up.
* `Stage.round` — two simulators take a step each.
* `Stage.LooksLike` — two simulators show the same.

## Main statements

* `Workshop.document_read_back_runs_alike` — the machine of a document behaves as the machine that was
  written.
-/

namespace MachineLab

open Relation

/-! ## Symbols that can be looked up -/

/-- A text that is not one of the ligatures whose upper case has two letters. -/
def Value.isLegible : Value → Bool
  | .text s => s != "ﬅ" && s != "ﬆ"
  | _ => false

/-- The symbols that validation looks up are legible: the input, and the output of an action that
writes. -/
def Action.isLegible : Action → Bool
  | .turing d inp out => inp.isLegible && (d != .stay || out.isLegible)
  | .acceptor inp => inp.isLegible

theorem Alphabet.exists_contains_of_isLegible (a : Alphabet) {v : Value} (h : v.isLegible = true) :
    ∃ known, a.contains v = .ok known := by
  cases v with
  | text s =>
    cases hc : a.contains (.text s) with
    | ok known => exact ⟨known, rfl⟩
    | error e =>
      rcases (a.contains_text_eq_error_iff s).mp ⟨e, hc⟩ with rfl | rfl <;> cases h
  | _ => cases h

/-- Validation can decide about a transition with legible symbols. -/
theorem Transition.Baffles.not_isLegible {kind : Kind} {a : Alphabet} {t : Transition} {e : Fault}
    (h : t.Baffles kind a e) (same : t.action.kind = kind) : t.action.isLegible = false := by
  have input (legible : t.action.isLegible = true) : t.input.isLegible = true := by
    unfold Transition.input
    cases hact : t.action <;> simp_all [Action.isLegible, Action.input]
  rw [← Bool.not_eq_true]
  intro legible
  cases h with
  | action differ => exact differ same
  | key hkey =>
    have text := input legible
    cases hv : t.input <;> simp_all [Value.isLegible, Value.isKey]
  | input hc =>
    obtain ⟨known, hknown⟩ := a.exists_contains_of_isLegible (input legible)
    rw [hknown] at hc
    cases hc
  | @output inp out _ stay hc =>
    have written : out.isLegible = true := by simp_all [Action.isLegible]
    obtain ⟨known, hknown⟩ := a.exists_contains_of_isLegible written
    rw [hknown] at hc
    cases hc

namespace Workshop

variable {w : Workshop} {m : MachineId}

/-- A machine that has a transition is one of the workshop. -/
theorem machine_mem_of_mem_transitions {t : Transition} (ht : t ∈ (w.machine m).transitions) :
    w.machine m ∈ w.machines := by
  unfold machine at ht ⊢
  rw [List.getD_eq_getElem?_getD] at ht ⊢
  cases hm : w.machines[m.index]? with
  | none =>
    rw [hm] at ht
    cases ht
  | some machine => exact List.mem_of_getElem? hm

/-- A machine, or one below it, has a transition with a symbol that is not legible, and validation can
only fail on that transition with the given fault. -/
def Illegible (w : Workshop) (m : MachineId) (e : Fault) : Prop :=
  ∃ i, ReflTransGen w.Nests m i ∧ ∃ t ∈ (w.machine i).transitions,
    t.action.isLegible = false ∧ t.Baffles (w.machine i).kind (w.alphabetOf i) e

/-- Validation succeeds or reports a broken rule exactly if the check comes to a decision. -/
theorem verdict_reports_iff (sane : w.Sane) :
    (verdict (w.defectOf m) = .ok () ∨
      ∃ defect, verdict (w.defectOf m) = .error (.machine (.nondeterministic defect))) ↔
    ∃ found, w.defectOf m = .ok found := by
  cases hfound : w.defectOf m with
  | ok found => cases found <;> simp [verdict]
  | error e =>
    have foreign := defectTo_foreign sane.arena hfound
    simp [verdict, foreign _]

/-- The check comes to no decision only over a symbol that is not legible. -/
theorem illegible_of_defectOf_eq_error (sane : w.Sane) {e : Fault} (h : w.defectOf m = .error e) :
    w.Illegible m e := by
  obtain ⟨i, path, t, ht, baffles⟩ := defectTo_eq_error sane.arena h
  exact ⟨i, path, t, ht, baffles.not_isLegible ((sane.arena i).action_kind t ht), baffles⟩

end Workshop

/-! ## Two simulators in one workshop -/

namespace Stage

variable {s s' o : Stage} {w : Workshop} {m m' root root' : MachineId} {c c' : List Frame × Tape}
  {d : Nat}

/-- A simulator in the workshop that another one has left behind. -/
def beside (s o : Stage) : Stage := { s with shop := o.shop, journal := o.journal }

/-- Two simulators in one workshop take a step each, whether or not the steps fail. -/
def round (p : Stage × Stage) : Stage × Stage :=
  let s := after SimM.step p.1
  let s' := after SimM.step (p.2.beside s)
  (s.beside s', s')

/-- Two simulators show the same. -/
structure LooksLike (s s' : Stage) : Prop where
  tape : s'.tape = s.tape
  configuration : s'.shop.configuration s'.sim s'.tape = s.shop.configuration s.sim s.tape
  halted : s'.shop.isHalted s'.sim s'.tape = s.shop.isHalted s.sim s.tape
  accepted : s'.shop.isAccepted s'.sim s'.tape = s.shop.isAccepted s.sim s.tape

/-- Where a simulator stands does not depend on what machines remember. -/
theorem Stands.beside (h : s.Stands w root c) (other : o.Stands w root' c') :
    (s.beside o).Stands w root c :=
  ⟨other.alike, other.good, h.here.machine,
    (h.alike.symm.trans other.alike).tracks h.here.tracks, h.here.tape⟩

/-- A simulator of a machine and one of its copy stand at corresponding stacks. -/
def Abreast (w : Workshop) (m m' : MachineId) (p : Stage × Stage) : Prop :=
  ∃ c c', p.1.Stands w m c ∧ p.2.Stands w m' c' ∧ Workshop.RunsAlike w w c c'

namespace Abreast

variable {p : Stage × Stage}

theorem fresh (good : w.Good) (t : Tape) (j : Journal) :
    Abreast w m m' (.fresh w m t j, .fresh w m' t j) :=
  ⟨_, _, .fresh good m t j, .fresh good m' t j, .nil, rfl⟩

theorem looksLike (copy : Workshop.Copy w w d m m') (h : Abreast w m m' p) : p.1.LooksLike p.2 := by
  obtain ⟨c, c', left, right, alike⟩ := h
  constructor
  · rw [left.here.tape, right.here.tape, alike.2]
  · rw [left.configuration_eq copy.known.1, right.configuration_eq copy.known.2, copy.kind_eq,
      alike.labels_eq, alike.2]
  · rw [left.isHalted_eq, right.isHalted_eq, copy.kind_eq, alike.haltedIn_eq, alike.2]
  · rw [left.isAccepted_eq, right.isAccepted_eq, copy.kind_eq, alike.acceptedIn_eq, alike.2]

/-- **The two steps of a round turn out alike**, and the simulators stay abreast. -/
theorem step (sane : w.Sane) (copy : Workshop.Copy w w d m m') (h : Abreast w m m' p) :
    outcome SimM.step (p.2.beside (after SimM.step p.1)) = outcome SimM.step p.1 ∧
      Abreast w m m' (round p) := by
  obtain ⟨c, c', left, right, alike⟩ := h
  have agree := Workshop.stepResult_agree sane sane copy alike
  obtain ⟨s₁, hstep, left₁⟩ := left.step_eq copy.known.1
  have after₁ := after_of_conclude hstep
  obtain ⟨s₂, hstep', right₁⟩ := (right.beside left₁).step_eq copy.known.2
  rw [← after₁] at hstep'
  refine ⟨?_, _, _, ?_, ?_, alike.landing agree⟩
  · rw [outcome_of_conclude hstep', outcome_of_conclude hstep, agree.forget]
  · rw [round, after_of_conclude hstep', after₁]
    exact left₁.beside right₁
  · rw [round, after_of_conclude hstep']
    exact right₁

theorem iterate (sane : w.Sane) (copy : Workshop.Copy w w d m m') (h : Abreast w m m' p) (n : Nat) :
    Abreast w m m' (round^[n] p) := by
  induction n with
  | zero => exact h
  | succ n ih =>
    rw [Function.iterate_succ_apply']
    exact (ih.step sane copy).2

end Abreast

end Stage

/-! ## Reading a document back -/

namespace Workshop

variable {w w' v : Workshop} {d : Nat} {m m' : MachineId}

/-- A copy of a machine stays one of it while the machine and all others are kept. -/
theorem Copy.keep_left (sane : w.Sane) (keeps : Keeps (fun _ => True) w v) (h : Copy w w' d m m') :
    Copy v w' d m m' := by
  induction d generalizing m m' with
  | zero => exact h.elim
  | succ d ih =>
    obtain ⟨known, ⟨ρ, copies⟩, same⟩ := h
    have kept := keeps.machine m known.1 trivial
    refine ⟨⟨Nat.lt_of_lt_of_le known.1 keeps.machines_le, known.2⟩, ⟨ρ, ?_⟩, ?_⟩
    · rw [kept]
      exact copies.mono fun _ _ _ _ _ hi => ih hi
    · rw [keeps.alphabetOf sane known.1 (by rw [kept])]
      exact same

/-- **The machine of a document behaves as the machine that was written.**  Reading succeeds and
leaves all other machines alone.  Validation of the two has the same outcome.  This is a success or
the report of a broken rule exactly if the check comes to a decision, which it does unless it is
stopped by a symbol that is not legible.  On every tape, and however many steps were taken before,
simulators of the two show the same, and their next steps have the same outcome. -/
theorem document_read_back_runs_alike (h : w.Reachable) (known : m.index < w.machines.length)
    (j : Journal) :
    ∃ m' b, Work.readDocument (w.document m) ⟨w, j⟩ = .ok m' b ∧
      (∀ i, i.index < w.machines.length → b.shop.machine i = w.machine i) ∧
      outcome (Work.validate m') b = outcome (Work.validate m) b ∧
      ((outcome (Work.validate m) b = .ok () ∨
          ∃ defect, outcome (Work.validate m) b = .error (.machine (.nondeterministic defect))) ↔
        ∃ found, w.defectOf m = .ok found) ∧
      (∀ e, w.defectOf m = .error e → w.Illegible m e) ∧
      ∀ t n,
        let p := Stage.round^[n] (.fresh b.shop m t b.journal, .fresh b.shop m' t b.journal)
        p.1.LooksLike p.2 ∧
          outcome SimM.step (p.2.beside (after SimM.step p.1)) = outcome SimM.step p.1 := by
  have good := h.good
  obtain ⟨b, hread, brought⟩ := Work.readTo_document good.sane known (good.sane.within known)
    (Nat.lt_succ_self _) (b := ⟨w, j⟩) good
  have copy : Copy b.shop b.shop w.machines.length m ⟨w.machines.length⟩ :=
    brought.copy.keep_left good.sane brought.keeps
  have sane := brought.good.sane
  obtain ⟨_, -, -, hvalidate, -⟩ := Work.validate_spec brought.good copy.known.1
  obtain ⟨_, -, -, hvalidate', -⟩ := Work.validate_spec brought.good copy.known.2
  have same := copy.defectOf_eq sane sane
  have asBefore := brought.copy.defectOf_eq good.sane sane
  have houtcome : outcome (Work.validate m) b = verdict (w.defectOf m) := by
    rw [outcome_of_conclude hvalidate, ← same, asBefore]
  refine ⟨⟨w.machines.length⟩, b, ?_, fun i hi => brought.keeps.machine i hi trivial, ?_, ?_,
    fun e => illegible_of_defectOf_eq_error good.sane, ?_⟩
  · unfold Work.readDocument Work.atomically document
    rw [hread]
  · rw [outcome_of_conclude hvalidate', houtcome, asBefore]
  · rw [houtcome]
    exact verdict_reports_iff good.sane
  · intro t n p
    have start : Stage.Abreast b.shop m ⟨w.machines.length⟩
        (.fresh b.shop m t b.journal, .fresh b.shop ⟨w.machines.length⟩ t b.journal) :=
      .fresh brought.good t b.journal
    have abreast := start.iterate sane copy n
    exact ⟨abreast.looksLike copy, (abreast.step sane copy).1⟩

/-- The first machine of the three holds the second one twice. -/
theorem threeLevels_read_back_runs_alike :
    threeLevels.shop.Reachable ∧
    ∃ m' b, Work.readDocument (threeLevels.shop.document ⟨0⟩) ⟨threeLevels.shop, threeLevels.journal⟩ =
        .ok m' b ∧
      outcome (Work.validate m') b = outcome (Work.validate ⟨0⟩) b ∧
      (outcome (Work.validate ⟨0⟩) b = .ok () ∨
        ∃ defect, outcome (Work.validate ⟨0⟩) b = .error (.machine (.nondeterministic defect))) ∧
      ∀ t n,
        let p := Stage.round^[n] (.fresh b.shop ⟨0⟩ t b.journal, .fresh b.shop m' t b.journal)
        p.1.LooksLike p.2 := by
  obtain ⟨m', b, hread, -, same, reports, -, runs⟩ :=
    document_read_back_runs_alike threeLevels_reachable (m := ⟨0⟩) (by decide +kernel) threeLevels.journal
  have decided : threeLevels.shop.defectOf ⟨0⟩ = .ok none := rfl
  exact ⟨threeLevels_reachable, m', b, hread, same, reports.mpr ⟨none, decided⟩, fun t n => (runs t n).1⟩

/-- A machine with a ligature for an input. -/
def ligature : Bench :=
  Command.runAll
    [ .newMachine .turing (.text "M") none, .addState ⟨0⟩ "s" true false,
      .addState ⟨0⟩ "f" false true,
      .addTransition ⟨0⟩ (.state ⟨0⟩ 0) (.state ⟨0⟩ 1) (.move .right (.text "ﬅ")) ]
    ⟨Workshop.empty, Journal.empty⟩

/-- Validation can end with neither a success nor the report of a broken rule. -/
theorem ligature_defeats_validation :
    ligature.shop.Reachable ∧
      outcome (Work.validate ⟨0⟩) ligature = .error (.mismatch (.notOneCharacter 2)) :=
  ⟨.runAll .empty (by decide +kernel), rfl⟩

end Workshop

end MachineLab
