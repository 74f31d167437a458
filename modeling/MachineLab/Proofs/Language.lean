import MachineLab.Proofs.Signals
import MachineLab.Proofs.Endless
import MachineLab.Proofs.Execution

/-!
# The language of an acceptor

An acceptor reads its input from the tape, one character for each step, up to the first blank.  What
it accepts is usually said by extending its transitions from characters to words: a word leads from a
state to another if its characters are the labels of transitions one after the other.
`Machine.Spells` says this, without tapes, cursors or steps.

A valid acceptor has at most one transition for each character in each state, so a word leads to at
most one state, and a run comes to that state.  If a character has no transition the run ends there
and rejects.

## Main definitions

* `Tape.inputOf`, `Tape.Ahead` — the input on a tape.
* `Machine.Leads`, `Machine.Spells` — characters and words as ways through a machine.

## Main statements

* `Machine.AcceptorRules.go_of_leads`, `go_of_not_leads` — a move of an acceptor.
* `SimM.loop_scans` — the steps of an acceptor follow its input.
* `Workshop.acceptor_decides_its_language` — a run of a valid acceptor decides its language.
-/

namespace MachineLab

open Relation

/-! ## The input on a tape -/

namespace Tape

variable {t : Tape}

/-- The input in a text: what stands before its first blank. -/
def inputOf (text : String) : List Char :=
  text.toList.takeWhile fun c => c != blankChar && c != ' '

/-- A word is what lies ahead of the head, up to the first blank. -/
def Ahead (t : Tape) : List Char → Prop
  | [] => t.read = blankCell
  | c :: rest => c ≠ blankChar ∧ t.read = String.singleton c ∧ t.moveRight.Ahead rest

/-- Ahead of the head of a tape that holds some characters lies what stands before their first
blank. -/
theorem ahead_of_cells {text : List Char}
    (h : ∀ i, t.cellAt (t.head + i) = cellOf (text.getD i blankChar)) :
    t.Ahead (text.takeWhile fun c => c != blankChar && c != ' ') := by
  induction text generalizing t with
  | nil =>
    have here := h 0
    rwa [Nat.add_zero, ← read_eq_cellAt] at here
  | cons c rest ih =>
    have here : t.read = cellOf c := by simpa [read_eq_cellAt] using h 0
    by_cases blank : c = blankChar ∨ c = ' '
    · have stops : (c != blankChar && c != ' ') = false := by
        rcases blank with rfl | rfl <;> rfl
      rw [List.takeWhile_cons, stops]
      rcases blank with rfl | rfl <;> exact here
    · obtain ⟨notBlank, notSpace⟩ := not_or.mp blank
      have goes : (c != blankChar && c != ' ') = true := by simp [notBlank, notSpace]
      rw [List.takeWhile_cons, goes]
      refine ⟨notBlank, by rw [here, cellOf, if_neg notSpace], ih fun i => ?_⟩
      have there := h (i + 1)
      rw [head_moveRight, cellAt_moveRight, Nat.add_assoc, Nat.add_comm 1 i]
      simpa using there

theorem ahead_ofText (text : String) (capacity : Int) :
    (ofText text capacity).Ahead (inputOf text) := by
  refine ahead_of_cells fun i => ?_
  rw [cellAt_ofText]
  exact congrArg (fun i => cellOf (text.toList.getD i blankChar)) (Nat.zero_add i)

theorem read_ne_blankCell {c : Char} (read : t.read = String.singleton c) (notBlank : c ≠ blankChar) :
    t.read ≠ blankCell := by
  rw [read]
  exact fun same => notBlank (String.singleton_inj (d := blankChar).mp same)

end Tape

/-! ## Words -/

namespace Machine

variable {m : Machine} {a : Alphabet} {q r r' : State} {c : Char} {u : List Char} {t : Tape}

/-- A transition labelled with a character leads from a state to another. -/
def Leads (m : Machine) (q : State) (c : Char) (r : State) : Prop :=
  ∃ tr ∈ m.transitions, tr.source = q.id ∧ tr.input = .text (String.singleton c) ∧
    r ∈ m.states ∧ r.id = tr.target

/-- The characters of a word, one after the other, lead from a state to another. -/
inductive Spells (m : Machine) : State → List Char → State → Prop
  | nil (q : State) : Spells m q [] q
  | cons {q r s : State} {c : Char} {u : List Char} (first : m.Leads q c r) (rest : Spells m r u s) :
      Spells m q (c :: u) s

theorem Leads.live (h : m.Leads q c r) : r ∈ m.states := by
  obtain ⟨-, -, -, -, live, -⟩ := h
  exact live

namespace AcceptorRules

variable (rules : m.AcceptorRules a) (arena : m.Arena)

include rules

/-- There is one start state. -/
theorem startState?_eq {p : State} (hp : p ∈ m.states) (start : p.isStart = true) :
    m.startState? = some p := find?_eq_some_of_countP rules.one_start hp start

theorem eq_of_input_eq (hq : q ∈ m.states) {tr tr' : Transition} (htr : tr ∈ m.transitions)
    (htr' : tr' ∈ m.transitions) (source : tr.source = q.id) (source' : tr'.source = q.id)
    {s : String} (input : tr.input = .text s) (input' : tr'.input = .text s) : tr = tr' :=
  (rules.edges_fit q hq).eq_of_input_eq (fun _ _ fits => fits.2.2.2.1)
    (mem_exits.mpr ⟨htr, source⟩) (mem_exits.mpr ⟨htr', source'⟩) input input'

/-- In an acceptor that follows the rules, the search finds the transition that there is. -/
theorem choice?_eq_some_iff (acceptor : m.kind = .acceptor) (hq : q ∈ m.states) {symbol : String}
    {tr : Transition} :
    m.choice? q (.text symbol) = some tr ↔
      tr ∈ m.transitions ∧ tr.source = q.id ∧ tr.input = .text symbol := by
  unfold choice? pick
  simp only [acceptor]
  cases hfind : (m.exits q).find? (·.input.eqv (.text symbol)) with
  | some x =>
    obtain ⟨leaves, input⟩ := find?_input_eq_some hfind
    obtain ⟨hx, source⟩ := mem_exits.mp leaves
    constructor
    · rintro ⟨rfl⟩
      exact ⟨hx, source, input⟩
    · rintro ⟨htr, source', input'⟩
      rw [rules.eq_of_input_eq hq hx htr source source' input input']
  | none =>
    have noExact := find?_input_eq_none_iff.mp hfind
    constructor
    · intro h
      cases h
    · rintro ⟨htr, source, input⟩
      exact absurd input (noExact tr (mem_exits.mpr ⟨htr, source⟩))

include arena

/-- A character leads from a state to at most one other. -/
theorem leads_unique (hq : q ∈ m.states) (h : m.Leads q c r) (h' : m.Leads q c r') : r = r' := by
  obtain ⟨tr, htr, source, input, hr, target⟩ := h
  obtain ⟨tr', htr', source', input', hr', target'⟩ := h'
  cases rules.eq_of_input_eq hq htr htr' source source' input input'
  exact arena.state_eq_of_id_eq hr hr' (target.trans target'.symm)

/-- A word leads from a state to at most one other. -/
theorem spells_unique (hq : q ∈ m.states) (h : m.Spells q u r) (h' : m.Spells q u r') : r = r' := by
  induction h with
  | nil q =>
    cases h'
    rfl
  | cons first _ ih =>
    cases h' with
    | cons first' rest' =>
      cases rules.leads_unique arena hq first first'
      exact ih first.live rest'

/-- Every symbol of the alphabet leads on from every state. -/
theorem exists_leads (hq : q ∈ m.states) (hc : c ∈ a.symbols) : ∃ r, m.Leads q c r := by
  have complete := rules.complete q hq c hc
  rw [Value.isIn, List.any_eq_true] at complete
  obtain ⟨input, listed, same⟩ := complete
  simp only [List.mem_reverse, List.mem_map] at listed
  obtain ⟨tr, leaves, rfl⟩ := listed
  obtain ⟨htr, source⟩ := mem_exits.mp leaves
  obtain ⟨r, hr, target⟩ := arena.target_live tr htr
  exact ⟨r, tr, htr, source, Value.samePart_text_iff.mp same, hr, target⟩

/-- So does every word over the alphabet. -/
theorem exists_spells (hq : q ∈ m.states) (hu : ∀ c ∈ u, c ∈ a.symbols) : ∃ r, m.Spells q u r := by
  induction u generalizing q with
  | nil => exact ⟨q, .nil q⟩
  | cons c rest ih =>
    obtain ⟨r, first⟩ := rules.exists_leads arena hq (hu c (.head _))
    obtain ⟨s, last⟩ := ih first.live fun d hd => hu d (.tail _ hd)
    exact ⟨s, .cons first last⟩

/-- Every transition of an acceptor that follows the rules moves the head on. -/
theorem effect_eq (acceptor : m.kind = .acceptor) (hq : q ∈ m.states) {tr : Transition}
    (htr : tr ∈ m.transitions) (source : tr.source = q.id) :
    tr.action.effect t = .ok t.moveRight := by
  obtain ⟨used, -, notEmpty, -⟩ := rules.fits hq (mem_exits.mpr ⟨htr, source⟩)
  have kind := arena.action_kind tr htr
  cases haction : tr.action with
  | turing d inp out =>
    rw [haction, acceptor] at kind
    cases kind
  | acceptor inp =>
    rw [haction] at notEmpty
    have moves : inp.eqv Symbol.emptyInput = false := notEmpty
    simp [Action.effect, Action.op?, moves, Tape.apply]

/-- A move of an acceptor whose head is on a character that leads on. -/
theorem go_of_leads (acceptor : m.kind = .acceptor) (hq : q ∈ m.states)
    (read : t.read = String.singleton c) (notBlank : c ≠ blankChar) (h : m.Leads q c r) :
    m.go q t = .ok (r, t.moveRight) := by
  obtain ⟨tr, htr, source, input, hr, target⟩ := h
  have found := (rules.choice?_eq_some_iff acceptor hq).mpr ⟨htr, source, read ▸ input⟩
  have goes := Tape.read_ne_blankCell read notBlank
  have there := arena.state?_eq_some_iff.mpr ⟨hr, target⟩
  simp [go, acceptor, found, goes, goAlong, rules.effect_eq arena acceptor hq htr source,
    Machine.endpoint, there, Except.map]

/-- A move of an acceptor whose head is on a character that does not lead on. -/
theorem go_of_not_leads (acceptor : m.kind = .acceptor) (hq : q ∈ m.states)
    (read : t.read = String.singleton c) (notBlank : c ≠ blankChar) (h : ∀ r, ¬ m.Leads q c r) :
    m.go q t = .error (.machine (.stuck q.label t.read)) := by
  have missing : m.choice? q (.text t.read) = none := by
    rw [Option.eq_none_iff_forall_ne_some]
    intro tr found
    obtain ⟨htr, source, input⟩ := (rules.choice?_eq_some_iff acceptor hq).mp found
    obtain ⟨r, hr, target⟩ := arena.target_live tr htr
    exact h r ⟨tr, htr, source, read ▸ input, hr, target⟩
  have goes := Tape.read_ne_blankCell read notBlank
  simp [go, acceptor, missing, goes]

end AcceptorRules

end Machine

/-! ## Steps of an acceptor -/

namespace Workshop

variable {w : Workshop} {m : MachineId} {q r : State} {c : Char} {t : Tape}

/-- An acceptor that passes the check. -/
structure FitAcceptor (w : Workshop) (m : MachineId) : Prop where
  sane : w.Sane
  known : m.index < w.machines.length
  acceptor : (w.machine m).kind = .acceptor
  clean : w.Clean m

namespace FitAcceptor

variable (fit : w.FitAcceptor m)

include fit

theorem rules : (w.machine m).AcceptorRules (w.alphabetOf m) := by
  have rules := fit.clean.rules .refl
  unfold Machine.Rules at rules
  rwa [fit.acceptor] at rules

theorem pass : verdict (w.defectOf m) = .ok () := fit.clean.pass fit.sane fit.known

/-- The first step puts an acceptor on its start state. -/
theorem stepResult_start {p : State} (hp : p ∈ (w.machine m).states) (start : p.isStart = true) :
    w.stepResult m ([], t) = .ok ([⟨m, p⟩], t) := by
  simp [stepResult, fit.pass, nextStack, enterTop, fit.rules.startState?_eq hp start]

/-- Every later step is a move. -/
theorem stepResult_eq (hq : q ∈ (w.machine m).states) :
    w.stepResult m ([⟨m, q⟩], t) = w.moveTop ⟨m, q⟩ [] t := by
  have alone := (fit.sane.arena m).flat fit.acceptor q hq
  simp [stepResult, fit.pass, nextStack, workTop, alone]

end FitAcceptor

/-- How the steps of an acceptor end that was in a state with a word ahead of its head: the word is
used up, or it does not lead anywhere. -/
inductive Scanned (w : Workshop) (m : MachineId) (q : State) (u : List Char) (t : Tape) (s : Stage) :
    RunEnd → Prop
  | usedUp {r : State} {k : Nat} (spells : (w.machine m).Spells q u r)
      (stands : s.Stands w m ([⟨m, r⟩], s.tape)) (head : s.tape.head = t.head + u.length)
      (blank : s.tape.read = blankCell) : Scanned w m q u t s (.stopped k)
  | stuck {k : Nat} {f : MachineFault} (never : ∀ r, ¬ (w.machine m).Spells q u r) :
      Scanned w m q u t s (.failed k f)

/-- What becomes of a word is what becomes of the rest of it after its first character. -/
theorem Scanned.cons (fit : w.FitAcceptor m) (hq : q ∈ (w.machine m).states)
    (first : (w.machine m).Leads q c r) {u : List Char} {s : Stage} {ending : RunEnd}
    (h : w.Scanned m r u t.moveRight s ending) : w.Scanned m q (c :: u) t s ending := by
  cases h with
  | usedUp spells stands head blank =>
    refine .usedUp (.cons first spells) stands ?_ blank
    rw [head, Tape.head_moveRight, List.length_cons]
    omega
  | stuck never =>
    refine .stuck fun last spells => ?_
    cases spells with
    | cons first' rest =>
      cases fit.rules.leads_unique (fit.sane.arena m) hq first first'
      exact never last rest

end Workshop

/-! ## Runs of an acceptor -/

namespace SimM

variable {s : Stage} {w : Workshop} {m : MachineId} {q : State} {u : List Char} {t : Tape} {n : Nat}

section
variable (fit : w.FitAcceptor m) (h : s.Stands w m ([⟨m, q⟩], t))
include fit h

theorem isHalted_acceptor : s.shop.isHalted s.sim s.tape = .ok (t.read == blankCell) := by
  rw [h.isHalted_eq, fit.acceptor]
  rfl

theorem halted_of_blank (blank : t.read = blankCell) : halted s = .ok true s := by
  apply observeTape_of_ok
  rw [isHalted_acceptor fit h, blank]
  rfl

theorem halted_of_character (character : t.read ≠ blankCell) : halted s = .ok false s := by
  apply observeTape_of_ok
  rw [isHalted_acceptor fit h, beq_eq_false_iff_ne.mpr character]

theorem accepted_acceptor (blank : t.read = blankCell) : accepted s = .ok q.isFinal s := by
  apply observeTape_of_ok
  rw [h.isAccepted_eq, fit.acceptor]
  simp [Workshop.acceptedIn, Workshop.haltedIn, blank]

end

/-- **The steps of an acceptor follow its input.**  They end within one look for each character and a
last one, having counted at most one step for each character and changed no cell. -/
theorem loop_scans (fit : w.FitAcceptor m) (hq : q ∈ (w.machine m).states)
    (h : s.Stands w m ([⟨m, q⟩], t)) (ahead : t.Ahead u) (count : Nat) :
    ∃ ending s', loop 0 (n + (u.length + 1)) count s = .ok ending s' ∧
      w.Scanned m q u t s' ending ∧ s'.sim.stepCount ≤ s.sim.stepCount + u.length ∧
      ∀ i, s'.tape.cellAt i = t.cellAt i := by
  induction u generalizing s q t count with
  | nil =>
    have blank : t.read = blankCell := ahead
    have tape : s.tape = t := h.here.tape
    refine ⟨_, s, loop_of_halted (halted_of_blank fit h blank) count, .usedUp (.nil q) ?_ ?_ ?_,
      Nat.le_refl _, ?_⟩
    · rwa [tape]
    · simp [tape]
    · rw [tape, blank]
    · simp [tape]
  | cons c rest ih =>
    obtain ⟨notBlank, read, ahead'⟩ := ahead
    have hhalted := halted_of_character fit h (Tape.read_ne_blankCell read notBlank)
    obtain ⟨s₁, hstep, stands₁⟩ := h.step_eq fit.known
    have counted := h.tally_step fit.known fit.pass
    rw [fit.stepResult_eq hq, Workshop.moveTop] at hstep stands₁
    by_cases leads : ∃ r, (w.machine m).Leads q c r
    · obtain ⟨r, first⟩ := leads
      have hgo := fit.rules.go_of_leads (fit.sane.arena m) fit.acceptor hq read notBlank first
      rw [hgo] at hstep stands₁
      rw [after_of_ok hstep] at counted
      obtain ⟨ending, s', hloop, scanned, steps, cells⟩ :=
        ih first.live stands₁ ahead' (count + 1)
      refine ⟨ending, s', (loop_of_ok hhalted hstep count).trans hloop,
        scanned.cons fit hq first, ?_, ?_⟩
      · have one : s₁.sim.stepCount = s.sim.stepCount + 1 := congrArg Prod.fst counted
        simp only [List.length_cons]
        omega
      · intro i
        rw [cells, Tape.cellAt_moveRight]
    · have never := not_exists.mp leads
      have hgo := fit.rules.go_of_not_leads (fit.sane.arena m) fit.acceptor hq read notBlank never
      rw [hgo] at hstep stands₁
      rw [after_of_error hstep] at counted
      refine ⟨_, s₁, loop_of_report hhalted hstep rfl count, .stuck fun last spells => ?_, ?_, ?_⟩
      · cases spells with
        | cons first _ => exact never _ first
      · have one : s₁.sim.stepCount = s.sim.stepCount + 1 := congrArg Prod.fst counted
        simp only [List.length_cons]
        omega
      · intro i
        rw [show s₁.tape = t from stands₁.here.tape]

/-- The steps of an acceptor that has not started put it on its start state and then follow its
input. -/
theorem loop_scans_text (fit : w.FitAcceptor m) {p : State} (hp : p ∈ (w.machine m).states)
    (start : p.isStart = true) (good : w.Good) (text : String) (capacity : Int) (j : Journal)
    (enough : (Tape.inputOf text).length + 2 ≤ n) :
    ∃ ending s', loop 0 n 0 (.fresh w m (.ofText text capacity) j) = .ok ending s' ∧
      w.Scanned m p (Tape.inputOf text) (.ofText text capacity) s' ending ∧
      s'.sim.stepCount ≤ (Tape.inputOf text).length + 1 ∧
      ∀ i, s'.tape.cellAt i = (Tape.ofText text capacity).cellAt i := by
  let s := Stage.fresh w m (.ofText text capacity) j
  have fresh : s.Stands w m ([], .ofText text capacity) := .fresh good m _ j
  have hhalted : halted s = .ok false s := by
    apply observeTape_of_ok
    rw [fresh.isHalted_eq, fit.acceptor]
    rfl
  obtain ⟨s₁, hstep, stands₁⟩ := fresh.step_eq fit.known
  have counted := fresh.tally_step fit.known fit.pass
  rw [fit.stepResult_start hp start] at hstep stands₁
  rw [after_of_ok hstep] at counted
  obtain ⟨spare, rfl⟩ := Nat.exists_eq_add_of_le' enough
  obtain ⟨ending, s', hloop, scanned, steps, cells⟩ :=
    loop_scans (n := spare) fit hp stands₁ (Tape.ahead_ofText text capacity) 1
  refine ⟨ending, s', (loop_of_ok hhalted hstep 0).trans hloop, scanned, ?_, cells⟩
  have one : s₁.sim.stepCount = 1 := congrArg Prod.fst counted
  omega

end SimM

namespace Workshop

variable {w : Workshop} {m : MachineId}

/-- **A run of a valid acceptor decides its language.**  There is one start state, and a word leads
from it to at most one state.  Whatever is on the tape, the run ends with at most one step more than
its input has characters; it accepts exactly if the input leads from the start state to a final state;
and it changes no cell.  If every character of the input is a symbol of the alphabet, the input is
used up. -/
theorem acceptor_decides_its_language (h : w.Reachable) (hm : m.index < w.machines.length)
    (acceptor : (w.machine m).kind = .acceptor) {j₀ : Journal}
    (valid : outcome (Work.validate m) ⟨w, j₀⟩ = .ok ()) :
    ∃ p ∈ (w.machine m).states, (∀ s ∈ (w.machine m).states, s.isStart = true ↔ s = p) ∧
      (∀ u q q', (w.machine m).Spells p u q → (w.machine m).Spells p u q' → q = q') ∧
      ∀ (text : String) (capacity : Int) (j : Journal) (n : Nat),
        (Tape.inputOf text).length + 2 ≤ n →
        let u := Tape.inputOf text
        let s := Stage.fresh w m (.ofText text capacity) j
        let s' := after (SimM.run 0 n) s
        ∃ accepted, outcome (SimM.run 0 n) s = .ok (some accepted) ∧
          (accepted = true ↔ ∃ q, (w.machine m).Spells p u q ∧ q.isFinal = true) ∧
          s'.sim.stepCount ≤ u.length + 1 ∧
          (∀ i, s'.tape.cellAt i = s.tape.cellAt i) ∧
          ((∀ c ∈ u, c ∈ (w.alphabetOf m).symbols) →
            s'.tape.head = u.length ∧ s'.shop.isHalted s'.sim s'.tape = .ok true) := by
  have good := h.good
  have fit : w.FitAcceptor m := ⟨good.sane, hm, acceptor, good.clean_of_valid hm valid⟩
  have arena := good.sane.arena m
  obtain ⟨p, found, hp⟩ := (fit.clean.rules .refl).exists_start
  have start : p.isStart = true := List.find?_some found
  have unique {u : List Char} {q q' : State} (one : (w.machine m).Spells p u q)
      (other : (w.machine m).Spells p u q') : q = q' := fit.rules.spells_unique arena hp one other
  refine ⟨p, hp, fun s hs => ⟨fun other => ?_, fun same => same ▸ start⟩, fun u q q' => unique, ?_⟩
  · exact Option.some.inj ((fit.rules.startState?_eq hs other).symm.trans found)
  intro text capacity j n enough u s s'
  obtain ⟨ending, s₁, hloop, scanned, steps, cells⟩ :=
    SimM.loop_scans_text fit hp start good text capacity j enough
  cases scanned with
  | usedUp spells stands head blank =>
    rename_i r k
    obtain ⟨j', hrun⟩ := SimM.run_of_stopped (s := s) hloop (SimM.halted_of_blank fit stands blank)
      (SimM.accepted_acceptor fit stands blank)
    have ends : s' = { s₁ with journal := j' } := after_of_ok hrun
    rw [ends]
    refine ⟨r.isFinal, outcome_of_ok hrun, ⟨fun final => ⟨r, spells, final⟩, ?_⟩, steps, cells,
      fun _ => ⟨?_, ?_⟩⟩
    · rintro ⟨q, other, final⟩
      exact unique spells other ▸ final
    · exact head.trans (Nat.zero_add _)
    · exact (SimM.isHalted_acceptor fit stands).trans (by rw [blank]; rfl)
  | stuck never =>
    obtain ⟨j', hrun⟩ := SimM.run_of_failed (s := s) hloop
    have ends : s' = { s₁ with journal := j' } := after_of_ok hrun
    rw [ends]
    refine ⟨false, outcome_of_ok hrun, ⟨fun final => ?_, ?_⟩, steps, cells, fun all => ?_⟩
    · cases final
    · rintro ⟨q, spells, -⟩
      exact absurd spells (never q)
    · obtain ⟨r, spells⟩ := fit.rules.exists_spells arena hp all
      exact absurd spells (never r)

/-- An acceptor of the words with an even number of ones, which has a transition for the blank too. -/
def parity : Bench :=
  Command.runAll
    [ .parseAlphabet "01_",
      .newMachine .acceptor (.text "parity") (some ⟨0⟩),
      .addState ⟨0⟩ "even" true true, .addState ⟨0⟩ "odd" false false,
      .addTransition ⟨0⟩ (.state ⟨0⟩ 0) (.state ⟨0⟩ 0) (.acceptor (.text "0")),
      .addTransition ⟨0⟩ (.state ⟨0⟩ 0) (.state ⟨0⟩ 1) (.acceptor (.text "1")),
      .addTransition ⟨0⟩ (.state ⟨0⟩ 1) (.state ⟨0⟩ 1) (.acceptor (.text "0")),
      .addTransition ⟨0⟩ (.state ⟨0⟩ 1) (.state ⟨0⟩ 0) (.acceptor (.text "1")),
      .addTransition ⟨0⟩ (.state ⟨0⟩ 0) (.state ⟨0⟩ 1) (.acceptor (.text "_")) ]
    ⟨Workshop.empty, Journal.empty⟩

/-- The run on `101 1` ends at the space and accepts, as the word `101` leads back to the start. -/
theorem parity_decides :
    parity.shop.Reachable ∧ 0 < parity.shop.machines.length ∧
    (parity.shop.machine ⟨0⟩).kind = .acceptor ∧
    outcome (Work.validate ⟨0⟩) ⟨parity.shop, Journal.empty⟩ = .ok () ∧
    Tape.inputOf "101 1" = ['1', '0', '1'] ∧
    outcome (SimM.run 0 5) (.fresh parity.shop ⟨0⟩ (.ofText "101 1" 1) Journal.empty) =
      .ok (some true) ∧
    ∃ p q, (parity.shop.machine ⟨0⟩).Spells p ['1', '0', '1'] q ∧ q.isFinal = true := by
  have reachable : parity.shop.Reachable := Workshop.Reachable.runAll .empty (by decide +kernel)
  have known : 0 < parity.shop.machines.length := by decide +kernel
  have acceptor : (parity.shop.machine ⟨0⟩).kind = .acceptor := by decide +kernel
  have valid : outcome (Work.validate ⟨0⟩) ⟨parity.shop, Journal.empty⟩ = .ok () :=
    eq_ok_of_toOption (by decide +kernel)
  have input : Tape.inputOf "101 1" = ['1', '0', '1'] := by decide +kernel
  have accepts : outcome (SimM.run 0 5) (.fresh parity.shop ⟨0⟩ (.ofText "101 1" 1) Journal.empty) =
      .ok (some true) := eq_ok_of_toOption (by decide +kernel)
  obtain ⟨p, -, -, -, decides⟩ :=
    acceptor_decides_its_language reachable (m := ⟨0⟩) known acceptor valid
  obtain ⟨accepted, hrun, iff, -⟩ := decides "101 1" 1 Journal.empty 5 (by decide +kernel)
  cases accepts.symm.trans hrun
  obtain ⟨q, spells, final⟩ := iff.mp rfl
  exact ⟨reachable, known, acceptor, valid, input, accepts, p, q, input ▸ spells, final⟩

end Workshop

end MachineLab
