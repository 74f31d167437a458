import MachineLab.Proofs.Calls
import MachineLab.Proofs.Endless
import MachineLab.Proofs.Turns
import MachineLab.Proofs.WellFormed

/-!
# The symbols on the tape

A valid Turing machine writes nothing but what its alphabet has, and each machine inside it has an
alphabet of its own.  So if every cell is blank or has a symbol of one of these machines, it stays so
for as long as the machine works.  Some symbols are reserved for transitions, and no alphabet has them:
they never come onto the tape.

## Main definitions

* `Workshop.Legal`, `Workshop.LegalTape` — cells and tapes that a machine and those inside it account
  for.
* `Symbol.reserved` — the symbols that only transitions have.

## Main statements

* `Alphabet.length_eq_one_of_contains`, `Alphabet.contains_reserved` — what an alphabet has.
* `Stage.Stands.legalTape_step` — one step of a valid machine.
* `Workshop.cells_stay_legal` — all the work of a valid machine.
-/

namespace MachineLab

open Relation

/-- The symbols that only transitions have. -/
def Symbol.reserved : List Symbol := [undefined, otherwise, noWrite, emptyInput]

namespace Alphabet

/-- Only texts of one character are members of an alphabet. -/
theorem length_eq_one_of_contains {a : Alphabet} {s : String}
    (h : a.contains (.text s) = .ok true) : s.length = 1 := by
  have text : a.containsText s = .ok true := by
    unfold contains at h
    split at h
    · cases h
    · exact h
  unfold containsText at text
  split at text
  · rename_i c one
    rw [← String.length_toList, one, List.length_singleton]
  · cases text

/-- No alphabet has a reserved symbol. -/
theorem contains_reserved (a : Alphabet) {symbol : Symbol} (h : symbol ∈ Symbol.reserved) :
    a.contains symbol = .ok false := by
  have reserved : symbol = Symbol.undefined ∨ symbol = Symbol.otherwise ∨ symbol = Symbol.noWrite ∨
      symbol = Symbol.emptyInput := by simpa [Symbol.reserved] using h
  rcases reserved with rfl | rfl | rfl | rfl <;> rfl

end Alphabet

theorem Tape.cellAt_of_moveLeft? {t t' : Tape} (h : t.moveLeft? = some t') (i : Nat) :
    t'.cellAt i = t.cellAt i := by
  unfold moveLeft? at h
  split at h <;> cases h
  rfl

namespace Workshop

/-! ## Legal cells -/

/-- A cell that machine `m` and the machines inside it account for: it has one character, which is blank
or belongs to the alphabet of one of them. -/
def Legal (w : Workshop) (m : MachineId) (cell : String) : Prop :=
  cell.length = 1 ∧ (cell = blankCell ∨
    ∃ n, ReflTransGen w.Nests m n ∧ (w.alphabetOf n).contains (.text cell) = .ok true)

/-- A tape all of whose cells are legal. -/
def LegalTape (w : Workshop) (m : MachineId) (t : Tape) : Prop := ∀ i, w.Legal m (t.cellAt i)

variable {w : Workshop} {m n : MachineId} {cell : String} {t t' : Tape}

theorem legal_blank : w.Legal m blankCell := ⟨rfl, .inl rfl⟩

theorem legal_of_contains (path : ReflTransGen w.Nests m n)
    (member : (w.alphabetOf n).contains (.text cell) = .ok true) : w.Legal m cell :=
  ⟨Alphabet.length_eq_one_of_contains member, .inr ⟨n, path, member⟩⟩

/-- A legal cell has none of the symbols that only transitions have. -/
theorem Legal.not_reserved (h : w.Legal m cell) : .text cell ∉ Symbol.reserved := by
  intro reserved
  obtain ⟨-, rfl | ⟨n, -, member⟩⟩ := h
  · simp [Symbol.reserved, Symbol.undefined, Symbol.otherwise, Symbol.noWrite, Symbol.emptyInput,
      blankCell] at reserved
  · rw [Alphabet.contains_reserved _ reserved] at member
    cases member

/-- A legal symbol may be written. -/
theorem LegalTape.write (h : w.LegalTape m t) (legal : w.Legal m cell) :
    w.LegalTape m (t.write cell) := by
  intro i
  rw [Tape.cellAt_write]
  split_ifs
  · exact legal_blank
  · exact legal
  · exact h i

/-- What an action of a valid machine does to a tape leaves it legal. -/
theorem LegalTape.writes {action : Action} {used : List Symbol}
    (h : w.LegalTape m t) (path : ReflTransGen w.Nests m n)
    (fits : action.FitsTuring (w.alphabetOf n) used) (writes : Machine.Writes action t t') :
    w.LegalTape m t' := by
  cases writes with
  | left left =>
    intro i
    rw [Tape.cellAt_of_moveLeft? left]
    exact h i
  | right =>
    intro i
    rw [Tape.cellAt_moveRight]
    exact h i
  | nothing => exact h
  | symbol other =>
    -- What is written is a member, since it is not the sign for writing nothing.
    have member := (fits.2.2.2.2.2 rfl).member_or_reserved.resolve_right other
    exact h.write (legal_of_contains path member)

/-- A move of a valid machine leaves the tape legal. -/
theorem LegalTape.go {q q' : State} (h : w.LegalTape m t) (path : ReflTransGen w.Nests m n)
    (fit : w.Fit n) (sane : w.Sane) (hq : q ∈ (w.machine n).states)
    (hgo : (w.machine n).go q t = .ok (q', t')) : w.LegalTape m t' := by
  obtain ⟨tr, chosen, -, -, -, effect⟩ := (sane.arena n).go_eq_ok hgo
  obtain ⟨used, fits⟩ := fit.turingRules.fits hq (Machine.mem_exits_of_choice? chosen)
  exact h.writes path fits ((Machine.effect_eq_ok_iff fits).mp effect)

end Workshop

/-! ## Legal tapes at work -/

namespace Stage.Stands

open Workshop

/-- **A step of a valid machine leaves the tape legal**, whether it fails or not. -/
theorem legalTape_step {s : Stage} {w : Workshop} {root : MachineId} {c : List Frame × Tape}
    (h : s.Stands w root c) (known : root.index < w.machines.length) (fit : w.Fit root)
    (legal : w.LegalTape root s.tape) : w.LegalTape root (after SimM.step s).tape := by
  obtain ⟨stack, t⟩ := c
  have before : s.tape = t := h.here.tape
  rw [before] at legal
  cases hturn : turn root stack with
  | enter i =>
    obtain ⟨p, -, -, stands⟩ := h.step_of_enter known fit.clean hturn
    rw [stands.here.tape]
    exact legal
  | move f below =>
    obtain ⟨-, stands⟩ := h.step_of_move known fit.clean hturn
    rw [stands.here.tape]
    cases hgo : (w.machine f.machine).go f.state t with
    | error e => exact legal
    | ok there =>
      have path := (h.stacked.of_turn hturn).path_root
      exact legal.go path (fit.of_path h.sane path) h.sane (h.stacked.live (mem_of_turn hturn)) hgo

end Stage.Stands

/-- A simulator of `root` is at some stack and on a legal tape. -/
def Stage.AtWork (w : Workshop) (root : MachineId) (s : Stage) : Prop :=
  s.Standing w root ∧ w.LegalTape root s.tape

namespace Stage.AtWork

variable {s : Stage} {w : Workshop} {root : MachineId} (known : root.index < w.machines.length)
  (fit : w.Fit root)

include known fit

theorem preserves_step : Preserves (Stage.AtWork w root) SimM.step := by
  rintro s ⟨standing, legal⟩
  have stands' := Stage.Standing.preserves_step known s standing
  obtain ⟨c, stands⟩ := standing
  exact ⟨stands', stands.legalTape_step known fit legal⟩

theorem preserves_call (call : Call) (given : ∀ t, call = .setTape t → w.LegalTape root t) :
    Preserves (Stage.AtWork w root) call.perform := by
  rintro s ⟨standing, legal⟩
  refine ⟨Stage.Standing.preserves_call known call s standing, ?_⟩
  cases call with
  | step => exact (preserves_step known fit s ⟨standing, legal⟩).2
  | run limit patience =>
    have run : Preserves (Stage.AtWork w root) (SimM.run limit patience) := by
      refine SimM.preserves_run (preserves_step known fit) ?_ limit patience
      exact fun s exhausted journal h => ⟨h.1.reported ⟨rfl, rfl, rfl, rfl⟩, h.2⟩
    exact (Preserves.bind run (fun _ => .pure _) s ⟨standing, legal⟩).2
  | reset => exact legal
  | setTape t => exact given t rfl

theorem performAll (h : s.AtWork w root) (calls : List Call)
    (given : ∀ t, .setTape t ∈ calls → w.LegalTape root t) :
    (Call.performAll calls s).AtWork w root := by
  induction calls generalizing s with
  | nil => exact h
  | cons call rest ih =>
    refine ih (preserves_call known fit call (fun t here => given t (here ▸ .head _)) s h) ?_
    exact fun t there => given t (.tail _ there)

end Stage.AtWork

namespace Workshop

variable {w : Workshop} {m : MachineId}

/-- **Only legal symbols come onto the tape.**  Take a simulator of a valid Turing machine, whatever was
asked of it before, at a moment when every cell of its tape is legal.  However often it steps or runs
from then on, whether that fails or not, and whatever legal tapes it is given in between, every cell is
legal, and none has a reserved symbol. -/
theorem cells_stay_legal (h : w.Reachable) (hm : m.index < w.machines.length)
    (turing : (w.machine m).kind = .turing) {j₀ : Journal}
    (valid : outcome (Work.validate m) ⟨w, j₀⟩ = .ok ()) (t : Tape) (j : Journal)
    (earlier : List Call) (legal : w.LegalTape m (Call.performAll earlier (.fresh w m t j)).tape)
    (calls : List Call) (given : ∀ t', .setTape t' ∈ calls → w.LegalTape m t') (i : Nat) :
    let s := Call.performAll calls (Call.performAll earlier (.fresh w m t j))
    w.Legal m (s.tape.cellAt i) ∧ .text (s.tape.cellAt i) ∉ Symbol.reserved := by
  intro s
  have fit : w.Fit m := ⟨turing, h.good.clean_of_valid hm valid⟩
  have atWork : s.AtWork w m :=
    Stage.AtWork.performAll hm fit ⟨h.standing hm t j earlier, legal⟩ calls given
  exact ⟨atWork.2 i, (atWork.2 i).not_reserved⟩

/-- A machine over `0` in whose first state another one, over `AB`, writes `B` in the place of `A`. -/
def twoAlphabets : Bench :=
  Command.runAll
    [ .parseAlphabet "0", .parseAlphabet "AB",
      .newMachine .turing (.text "outer") (some ⟨0⟩),
      .addState ⟨0⟩ "a" true false, .addState ⟨0⟩ "b" false true,
      .addTransition ⟨0⟩ (.state ⟨0⟩ 0) (.state ⟨0⟩ 1) (.move .right Symbol.otherwise),
      .newMachine .turing (.text "inner") (some ⟨1⟩),
      .addState ⟨1⟩ "p" true false, .addState ⟨1⟩ "q" false true,
      .addTransition ⟨1⟩ (.state ⟨1⟩ 0) (.state ⟨1⟩ 1) (.write (.text "A") (.text "B")),
      .attach ⟨0⟩ (.state ⟨0⟩ 0) (some ⟨1⟩) ]
    ⟨Workshop.empty, Journal.empty⟩

theorem twoAlphabets_reachable : twoAlphabets.shop.Reachable := .runAll .empty (by decide +kernel)

/-- What the machine inside writes is legal for the outer one, which does not have it itself, also after
steps that fail. -/
theorem twoAlphabets_stay_legal :
    let s := Call.performAll [.step, .step, .step, .step, .step, .run 0 2]
      (.fresh twoAlphabets.shop ⟨0⟩ (.ofText "A0") Journal.empty)
    twoAlphabets.shop.LegalTape ⟨0⟩ (.ofText "A0") ∧ s.tape.cellAt 0 = "B" ∧ s.tape.head = 1 ∧
    (twoAlphabets.shop.alphabetOf ⟨0⟩).contains (.text "B") = .ok false ∧
    (outcome SimM.step s).toOption = none ∧
    twoAlphabets.shop.Legal ⟨0⟩ (s.tape.cellAt 0) ∧ .text (s.tape.cellAt 0) ∉ Symbol.reserved := by
  intro s
  have valid : outcome (Work.validate ⟨0⟩) ⟨twoAlphabets.shop, Journal.empty⟩ = .ok () :=
    eq_ok_of_toOption (by decide +kernel)
  have inside : ⟨1⟩ ∈ twoAlphabets.shop.links ⟨0⟩ := by decide +kernel
  have member : (twoAlphabets.shop.alphabetOf ⟨1⟩).contains (.text "A") = .ok true :=
    eq_ok_of_toOption (by decide +kernel)
  have digit : (twoAlphabets.shop.alphabetOf ⟨0⟩).contains (.text "0") = .ok true :=
    eq_ok_of_toOption (by decide +kernel)
  have legal : twoAlphabets.shop.LegalTape ⟨0⟩ (.ofText "A0") := by
    intro i
    have cell : (Tape.ofText "A0").cellAt i = blankCell ∨ (Tape.ofText "A0").cellAt i = "A" ∨
        (Tape.ofText "A0").cellAt i = "0" :=
      Tape.forall_cellAt (P := fun cell => cell = blankCell ∨ cell = "A" ∨ cell = "0") (.inl rfl)
        (by decide +kernel) i
    rcases cell with cell | cell | cell <;> rw [cell]
    · exact legal_blank
    · exact legal_of_contains (.single inside) member
    · exact legal_of_contains .refl digit
  have stays := cells_stay_legal twoAlphabets_reachable (m := ⟨0⟩) (by decide +kernel) (by decide +kernel)
    valid (.ofText "A0") Journal.empty [] legal [.step, .step, .step, .step, .step, .run 0 2]
    (fun t' => by simp) 0
  exact ⟨legal, by decide +kernel, by decide +kernel, eq_ok_of_toOption (by decide +kernel),
    by decide +kernel, stays⟩

end Workshop

end MachineLab
