import MachineLab.Proofs.History

/-!
# What every workshop with a history keeps

Two facts hold of every workshop that commands can lead to.  No machine ever comes to lie below
itself, and what validation remembers is never out of date, whichever machine or shared alphabet was
edited since.  Both are stated against something simpler than the code: the first against the graph
with one link replaced, the second against the determinism check without a memory.

## Main definitions

* `Workshop.Relinked` — the nesting graph with the link of one state replaced.

## Main statements

* `Workshop.attach_refused_iff_cycle` — nesting is acyclic, and attaching is refused exactly if it
  would not stay so.
* `Workshop.validate_agrees_with_unremembered_check` — validation agrees with the check that remembers
  nothing.
-/

namespace MachineLab

open Relation

namespace Workshop

variable {w : Workshop}

/-! ## A history to look at -/

/-- Three machines over one alphabet: the second is held by two states of the first, and the third by
a state of the second.  The first has been validated, and a state of the third renamed since. -/
def threeLevels : Bench :=
  Command.runAll
    [ .parseAlphabet "01_",
      .newMachine .turing (.text "outer") (some ⟨0⟩),
      .addState ⟨0⟩ "a" true false, .addState ⟨0⟩ "b" false false, .addState ⟨0⟩ "c" false true,
      .addTransition ⟨0⟩ (.state ⟨0⟩ 0) (.state ⟨0⟩ 1) (.move .right (.text "0")),
      .addTransition ⟨0⟩ (.state ⟨0⟩ 1) (.state ⟨0⟩ 2) (.write Symbol.otherwise (.text "1")),
      .newMachine .turing (.text "middle") (some ⟨0⟩),
      .addState ⟨1⟩ "d" true false, .addState ⟨1⟩ "e" false true,
      .addTransition ⟨1⟩ (.state ⟨1⟩ 0) (.state ⟨1⟩ 1) (.move .right Symbol.otherwise),
      .newMachine .turing (.text "inner") (some ⟨0⟩),
      .addState ⟨2⟩ "f" true true,
      .attach ⟨0⟩ (.state ⟨0⟩ 0) (some ⟨1⟩), .attach ⟨0⟩ (.state ⟨0⟩ 1) (some ⟨1⟩),
      .attach ⟨1⟩ (.state ⟨1⟩ 0) (some ⟨2⟩),
      .validate ⟨0⟩, .setLabel ⟨2⟩ (.state ⟨2⟩ 0) "g" ]
    ⟨Workshop.empty, Journal.empty⟩

theorem threeLevels_reachable : threeLevels.shop.Reachable := by
  apply Workshop.Reachable.runAll .empty
  decide +kernel

/-! ## Nesting stays acyclic -/

/-- The nesting graph in which state `q` of machine `m` holds `i` instead of what it held. -/
def Relinked (w : Workshop) (m : MachineId) (q : Nat) (i outer inner : MachineId) : Prop :=
  if outer = m then
    ∃ s ∈ (w.machine m).states, if s.id = q then inner = i else s.submachine = some inner
  else w.Nests outer inner

/-- Putting a machine into a state replaces the link of that state and no other. -/
theorem nests_setSubmachine {m : MachineId} (hm : m.index < w.machines.length) (q : Nat)
    (i outer inner : MachineId) :
    (w.setMachine m ((w.machine m).setSubmachine q (some i))).Nests outer inner ↔
      w.Relinked m q i outer inner := by
  rw [nests_setMachine hm, Relinked]
  by_cases h : outer = m
  swap
  · rw [if_neg h, if_neg h]
  rw [if_pos h, if_pos h, Machine.mem_submachines]
  have field (s : State) :
      (if s.id = q then { s with submachine := some i } else s).submachine = some inner ↔
        if s.id = q then inner = i else s.submachine = some inner := by
    by_cases hq : s.id = q <;> simp [hq, eq_comm]
  simp only [Machine.setSubmachine, Machine.touch, Machine.updateState, List.mem_map,
    exists_exists_and_eq_and, field]

/-- Replacing a link closes a cycle exactly if there is a way back along the new one. -/
theorem exists_cycle_relinked_iff (acyclic : w.Acyclic) {m : MachineId} {q : State}
    (hq : q ∈ (w.machine m).states) (i : MachineId) :
    (∃ x, TransGen (w.Relinked m q.id i) x x) ↔ ReflTransGen w.Nests i m := by
  constructor
  · rintro ⟨x, cycle⟩
    by_contra back
    refine acyclic_add_edge (r := w.Nests) (a := m) (b := i) ?_ acyclic back x cycle
    intro outer inner edge
    unfold Relinked at edge
    split at edge
    case isFalse => exact .inl edge
    case isTrue h =>
      obtain ⟨s, hs, link⟩ := edge
      split at link
      · exact .inr ⟨h, link⟩
      · exact .inl ((w.nests_iff outer inner).mpr ⟨s, h ▸ hs, link⟩)
  · intro back
    refine ⟨m, exists_cycle_add_edge (r := w.Nests) (b := i) ?_ ?_ back⟩
    · intro outer inner edge ne
      rwa [Relinked, if_neg ne]
    · rw [Relinked, if_pos rfl]
      exact ⟨q, hq, by rw [if_pos rfl]⟩

/-- **Nesting is acyclic, and attaching keeps it so.**  Attaching is refused exactly if replacing the
state's link would close a cycle, and then the workshop stays as it is; otherwise that one link is
replaced. -/
theorem attach_refused_iff_cycle (h : w.Reachable) :
    (∀ x, ¬ TransGen w.Nests x x) ∧
    ∀ (j : Journal) (m i : MachineId) (r : Ref) (q : State),
      m.index < w.machines.length → (w.machine m).kind = .turing → (w.machine i).kind = .turing →
      w.state m r = .ok q →
      ((∃ inner label outer, outcome (Work.attach m r (some i)) ⟨w, j⟩ =
          .error (.machine (.submachineCycle inner label outer))) ↔
        ∃ x, TransGen (w.Relinked m q.id i) x x) ∧
      ((∃ x, TransGen (w.Relinked m q.id i) x x) →
        (after (Work.attach m r (some i)) ⟨w, j⟩).shop = w) ∧
      ((¬ ∃ x, TransGen (w.Relinked m q.id i) x x) →
        outcome (Work.attach m r (some i)) ⟨w, j⟩ = .ok () ∧
        ∀ outer inner, (after (Work.attach m r (some i)) ⟨w, j⟩).shop.Nests outer inner ↔
          w.Relinked m q.id i outer inner) := by
  have sane := h.good.sane
  refine ⟨sane.acyclic, ?_⟩
  intro j m i r q hm outer inner hq
  rw [exists_cycle_relinked_iff sane.acyclic (mem_of_state hq)]
  by_cases back : ReflTransGen w.Nests i m
  · have refused := Work.attach_of_back (b := ⟨w, j⟩) outer hq inner back
    rw [outcome_of_error refused, after_of_error refused]
    exact ⟨⟨fun _ => back, fun _ => ⟨_, _, _, rfl⟩⟩, fun _ => rfl, fun no => absurd back no⟩
  · obtain ⟨j', done⟩ := Work.attach_of_not_back (b := ⟨w, j⟩) outer hq inner back
    rw [outcome_of_ok done, after_of_ok done]
    refine ⟨⟨?_, fun yes => absurd yes back⟩, fun yes => absurd yes back, fun _ => ⟨rfl, ?_⟩⟩
    · rintro ⟨_, _, _, impossible⟩
      cases impossible
    · exact nests_setSubmachine hm q.id i

/-- The innermost machine cannot come to hold the outermost one. -/
theorem attach_refused_in_threeLevels :
    threeLevels.shop.Reachable ∧
    (∀ x, ¬ TransGen threeLevels.shop.Nests x x) ∧
    ((∃ inner label outer,
        outcome (Work.attach ⟨2⟩ (.state ⟨2⟩ 0) (some ⟨0⟩)) ⟨threeLevels.shop, Journal.empty⟩ =
          .error (.machine (.submachineCycle inner label outer))) ↔
      ∃ x, TransGen (threeLevels.shop.Relinked ⟨2⟩ 0 ⟨0⟩) x x) :=
  ⟨threeLevels_reachable, (attach_refused_iff_cycle threeLevels_reachable).1,
    ((attach_refused_iff_cycle threeLevels_reachable).2 Journal.empty ⟨2⟩ ⟨0⟩ (.state ⟨2⟩ 0)
      { id := 0, label := "g", isStart := true, isFinal := true, outgoing := [], submachine := none }
      (by decide +kernel) (by decide +kernel) (by decide +kernel) rfl).1⟩

/-! ## What validation remembers is true -/

/-- **Validation agrees with the check that remembers nothing.**  A machine that counts as validated
passes that check; validating gives its verdict, so it succeeds exactly if the check passes; and the
check passes exactly if the machine and everything below it follow the rules of their kinds. -/
theorem validate_agrees_with_unremembered_check (h : w.Reachable) {m : MachineId}
    (hm : m.index < w.machines.length) (j : Journal) :
    (w.isValidated m = true → w.defectOf m = .ok none) ∧
    (outcome (Work.validate m) ⟨w, j⟩ = .ok () ↔ w.defectOf m = .ok none) ∧
    outcome (Work.validate m) ⟨w, j⟩ = verdict (w.defectOf m) ∧
    (w.defectOf m = .ok none ↔
      ∀ n, ReflTransGen w.Nests m n → (w.machine n).Rules (w.alphabetOf n)) := by
  have good := h.good
  obtain ⟨b', -, -, hvalidate, -⟩ := Work.validate_spec (b := ⟨w, j⟩) good hm
  have houtcome := outcome_of_conclude hvalidate
  have hclean := good.sane.defectOf_eq_none_iff hm
  refine ⟨fun remembered => hclean.mpr (good.memo.clean hm (eq_of_beq remembered)), ?_, houtcome,
    hclean⟩
  rw [houtcome, verdict_eq_ok_iff]

/-- The memory outlives the renaming of a state further down. -/
theorem validate_agrees_in_threeLevels :
    threeLevels.shop.Reachable ∧ threeLevels.shop.isValidated ⟨0⟩ = true ∧
      threeLevels.shop.defectOf ⟨0⟩ = .ok none ∧
      outcome (Work.validate ⟨0⟩) ⟨threeLevels.shop, Journal.empty⟩ = .ok () := by
  have remembered : threeLevels.shop.isValidated ⟨0⟩ = true := by decide +kernel
  have agrees := validate_agrees_with_unremembered_check threeLevels_reachable (m := ⟨0⟩)
    (by decide +kernel) Journal.empty
  exact ⟨threeLevels_reachable, remembered, agrees.1 remembered, agrees.2.1.mpr (agrees.1 remembered)⟩

end Workshop

end MachineLab
