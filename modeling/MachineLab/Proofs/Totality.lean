import MachineLab.Proofs.Removal

/-!
# Checks that come to an answer

Validation and the tests for consistency look up symbols in an alphabet.  Membership is settled for every
text but two: a ligature that becomes two letters in upper case is neither found nor known to be absent.
Here is what the checks answer where all symbols are texts, and that nothing else can stop them.

## Main definitions

* `Fault.tooWide` — what stops a check.
* `Action.isText`, `Action.hasLigature` — which actions there are, and which stop a check.
* `Settles` — a check comes to an answer with a meaning, or is stopped.

## Main statements

* `Action.settles_isConsistent`, `Machine.settles_allConsistent`, `Machine.settles_inconsistent` — the
  tests for consistency, of an action and of a machine.
* `Workshop.checks_stop_only_at_ligatures` — validation and the tests in a workshop.
-/

namespace MachineLab

open Relation

/-! ## Symbols and actions -/

/-- The fault of a symbol that becomes two letters in upper case. -/
def Fault.tooWide : Fault := .mismatch (.notOneCharacter 2)

/-- A check comes to an answer with a meaning, unless it is stopped by a ligature. -/
def Settles {α : Type} (result : Except Fault α) (meaning : α → Prop) (ligature : Prop) : Prop :=
  (∃ answer, result = .ok answer ∧ meaning answer) ∨ (result = .error .tooWide ∧ ligature)

namespace Value

/-- Whether a value is a text. -/
def isText : Value → Bool
  | .text _ => true
  | _ => false

/-- Whether a value is a text that becomes two letters in upper case. -/
def isLigature : Value → Bool
  | .text s => s == "ﬅ" || s == "ﬆ"
  | _ => false

theorem isLegible_of_isText {v : Value} (text : v.isText = true) : v.isLegible = !v.isLigature := by
  cases v with
  | text s => rw [isLegible, isLigature, Bool.not_or, bne, bne]
  | _ => cases text

end Value

/-- Membership of a ligature fails, whatever the alphabet is. -/
theorem Alphabet.contains_of_isLigature (a : Alphabet) {v : Value} (h : v.isLigature = true) :
    a.contains v = .error .tooWide := by
  cases v with
  | text s =>
    rw [Value.isLigature, Bool.or_eq_true, beq_iff_eq, beq_iff_eq] at h
    rcases h with rfl | rfl <;> rfl
  | _ => cases h

/-- Membership of a text fails with one fault only. -/
theorem Alphabet.eq_tooWide_of_contains {a : Alphabet} {v : Value} {e : Fault} (text : v.isText = true)
    (h : a.contains v = .error e) : e = .tooWide := by
  cases ligature : v.isLigature with
  | true =>
    rw [a.contains_of_isLigature ligature] at h
    exact (Except.error.inj h).symm
  | false =>
    obtain ⟨known, hknown⟩ := a.exists_contains_of_isLegible (v := v) (by
      rw [Value.isLegible_of_isText text, ligature]
      rfl)
    rw [hknown] at h
    cases h

namespace Action

/-- Whether the symbols of an action are texts. -/
def isText : Action → Bool
  | .turing _ inp out => inp.isText && out.isText
  | .acceptor inp => inp.isText

/-- Whether one of the symbols that are looked up is a ligature: the input, or the output of an action
that writes. -/
def hasLigature : Action → Bool
  | .turing d inp out => inp.isLigature || d == .stay && out.isLigature
  | .acceptor inp => inp.isLigature

theorem isLegible_of_isText {action : Action} (text : action.isText = true) :
    action.isLegible = !action.hasLigature := by
  cases action with
  | acceptor inp => exact Value.isLegible_of_isText text
  | turing d inp out =>
    rw [isText, Bool.and_eq_true] at text
    rw [isLegible, hasLigature, Value.isLegible_of_isText text.1, Value.isLegible_of_isText text.2,
      Bool.not_or, Bool.not_and, bne]

/-- **The test of an action.**  It says whether the action is allowed, or is stopped by a ligature. -/
theorem settles_isConsistent (a : Alphabet) {action : Action} (text : action.isText = true) :
    Settles (action.isConsistent a) (fun answer => answer = true ↔ action.Allowed a)
      (action.hasLigature = true) := by
  cases ligature : action.hasLigature with
  | false =>
    refine .inl (exists_isConsistent_eq a ?_)
    rw [isLegible_of_isText text, ligature]
    rfl
  | true =>
    cases action with
    | acceptor inp =>
      refine .inr ⟨?_, rfl⟩
      simp [isConsistent, a.contains_of_isLigature ligature, bind, Except.bind]
    | turing d inp out =>
      rw [isText, Bool.and_eq_true] at text
      rw [hasLigature, Bool.or_eq_true, Bool.and_eq_true, beq_iff_eq] at ligature
      by_cases input : inp.isLigature = true
      · refine .inr ⟨?_, rfl⟩
        simp [isConsistent, a.contains_of_isLigature input, bind, Except.bind]
      -- The output is only looked up if the input is allowed.
      obtain ⟨rfl, output⟩ := ligature.resolve_left input
      have readable : inp.isLegible = true := by
        rw [Value.isLegible_of_isText text.1, Bool.eq_false_iff.mpr input]
        rfl
      obtain ⟨known, hknown, allows⟩ := a.exists_known_iff_allows readable Symbol.otherwise
      by_cases passes : (known || inp.isIn [Symbol.undefined, Symbol.otherwise]) = true
      · have goesOn : (!known && !inp.isIn [Symbol.undefined, Symbol.otherwise]) = false := by
          rw [← Bool.not_or, passes]
          rfl
        refine .inr ⟨?_, rfl⟩
        simp [isConsistent, hknown, goesOn, a.contains_of_isLigature output, bind, Except.bind]
      · have stops : (!known && !inp.isIn [Symbol.undefined, Symbol.otherwise]) = true := by
          rw [← Bool.not_or, Bool.not_eq_true', ← Bool.not_eq_true]
          exact passes
        refine .inl ⟨false, ?_, iff_of_false Bool.false_ne_true fun h => passes (allows.mpr h.1)⟩
        simp only [isConsistent, hknown, bind, Except.bind, stops]
        rfl

end Action

/-! ## Transitions -/

/-- A filter that fails has failed on an entry. -/
theorem exists_error_of_filterM {ε α : Type} {f : α → Except ε Bool} {l : List α} {e : ε}
    (h : l.filterM f = .error e) : ∃ x ∈ l, f x = .error e := by
  have failed (l done : List α) (h : l.filterAuxM f done = .error e) : ∃ x ∈ l, f x = .error e := by
    induction l generalizing done with
    | nil => cases h
    | cons y rest ih =>
      simp only [List.filterAuxM, bind, Except.bind] at h
      split at h
      · rename_i hy
        exact ⟨y, .head _, hy.trans (congrArg _ (Except.error.inj h))⟩
      · obtain ⟨x, hx, hfx⟩ := ih _ h
        exact ⟨x, .tail _ hx, hfx⟩
  simp only [List.filterM, bind, Except.bind] at h
  split at h
  · rename_i hl
    exact failed l [] (hl.trans (congrArg _ (Except.error.inj h)))
  · cases h

namespace Machine

variable {m : Machine}

/-- **The test of all transitions** says whether all are allowed. -/
theorem settles_allConsistent (a : Alphabet) {ts : List Transition}
    (texts : ∀ t ∈ ts, t.action.isText = true) :
    Settles (allConsistent a ts) (fun answer => answer = true ↔ ∀ t ∈ ts, t.action.Allowed a)
      (∃ t ∈ ts, t.action.hasLigature = true) := by
  induction ts with
  | nil => exact .inl ⟨true, rfl, by simp⟩
  | cons t rest ih =>
    rw [List.forall_mem_cons] at texts
    rcases Action.settles_isConsistent a texts.1 with ⟨answer, here, allowed⟩ | ⟨stopped, ligature⟩
    swap
    · exact .inr ⟨by simp only [allConsistent, bind, Except.bind, stopped], t, .head _, ligature⟩
    cases answer with
    | false =>
      refine .inl ⟨false, by simp only [allConsistent, bind, Except.bind, here]; rfl, ?_⟩
      exact iff_of_false Bool.false_ne_true fun all =>
        Bool.false_ne_true (allowed.mpr (all t (.head _)))
    | true =>
      have onwards : allConsistent a (t :: rest) = allConsistent a rest := by
        simp only [allConsistent, bind, Except.bind, here, if_true]
      rw [onwards]
      refine (ih texts.2).imp ?_ (And.imp_right ?_)
      · rintro ⟨answer, later, all⟩
        refine ⟨answer, later, all.trans ?_⟩
        rw [List.forall_mem_cons, and_iff_right (allowed.mp rfl)]
      · rintro ⟨t', ht', ligature⟩
        exact ⟨t', .tail _ ht', ligature⟩

/-- **The search for transitions that are not allowed** finds them all, in order. -/
theorem settles_inconsistent (a : Alphabet)
    (texts : ∀ t ∈ m.transitions, t.action.isText = true) :
    Settles (m.inconsistent a) (fun doomed => doomed.Sublist m.transitions ∧
        ∀ t, t ∈ doomed ↔ t ∈ m.transitions ∧ ¬ t.action.Allowed a)
      (∃ t ∈ m.transitions, t.action.hasLigature = true) := by
  have stops {t : Transition} {e : Fault} (h : t.action.isConsistent a = .error e) :
      (do return !(← t.action.isConsistent a)) = Except.error e := by
    rw [h]
    rfl
  cases found : m.inconsistent a with
  | error e =>
    obtain ⟨t, ht, failed⟩ := exists_error_of_filterM found
    rcases Action.settles_isConsistent a (texts t ht) with ⟨answer, here, -⟩ | ⟨stopped, ligature⟩
    · rw [here] at failed
      cases failed
    · rw [stops stopped] at failed
      exact .inr ⟨congrArg _ (Except.error.inj failed).symm, t, ht, ligature⟩
  | ok doomed =>
    rw [← found]
    refine .inl (exists_inconsistent_eq fun t ht => ?_)
    refine (Action.settles_isConsistent a (texts t ht)).resolve_right fun stopped => ?_
    obtain ⟨verdict, passed⟩ := exists_filterM_eq_ok_iff.mp ⟨doomed, found⟩ t ht
    rw [stops stopped.1] at passed
    cases passed

end Machine

/-- If the symbols are texts, nothing but a ligature leaves validation without a decision. -/
theorem Transition.Baffles.eq_tooWide {kind : Kind} {a : Alphabet} {t : Transition} {e : Fault}
    (h : t.Baffles kind a e) (same : t.action.kind = kind) (text : t.action.isText = true) :
    e = .tooWide := by
  have input : t.input.isText = true := by
    unfold Transition.input
    cases haction : t.action <;> simp_all [Action.isText, Action.input]
  cases h with
  | action differ => exact absurd same differ
  | key hkey => cases hv : t.input <;> simp_all [Value.isText, Value.isKey]
  | input hc => exact Alphabet.eq_tooWide_of_contains input hc
  | @output inp out _ stay hc =>
    rw [stay, Action.isText, Bool.and_eq_true] at text
    exact Alphabet.eq_tooWide_of_contains text.2 hc

/-! ## In a workshop -/

namespace Workshop

variable {w : Workshop} {m : MachineId}

/-- **Nothing but a ligature stops a check.**  Take a machine whose symbols, down to the innermost machine,
are texts.  Validation succeeds, and does so exactly if all rules are kept, or reports a broken one; the
test for consistency says whether all transitions are allowed; and those that are not are found in order
and can be pruned, for any alphabet.  Otherwise there is a ligature among the symbols, the check fails with
one fault and no other, and pruning has changed nothing. -/
theorem checks_stop_only_at_ligatures (h : w.Reachable) (hm : m.index < w.machines.length)
    (texts : ∀ i, ReflTransGen w.Nests m i →
      ∀ t ∈ (w.machine i).transitions, t.action.isText = true) (j : Journal) :
    let validated := outcome (Work.validate m) ⟨w, j⟩
    (validated = .ok () ↔
      ∀ i, ReflTransGen w.Nests m i → (w.machine i).Rules (w.alphabetOf i)) ∧
    (validated = .ok () ∨ (∃ defect, validated = .error (.machine (.nondeterministic defect))) ∨
      validated = .error .tooWide ∧
        ∃ i, ReflTransGen w.Nests m i ∧ ∃ t ∈ (w.machine i).transitions, t.action.hasLigature = true) ∧
    ∀ a,
      let allowed := fun t : Transition => t.action.Allowed (w.measureOf m a)
      let ligature := ∃ t ∈ (w.machine m).transitions, t.action.hasLigature = true
      Settles (w.isConsistent m a)
        (fun answer => answer = true ↔ ∀ t ∈ (w.machine m).transitions, allowed t) ligature ∧
      Settles (w.inconsistent m a)
        (fun doomed => doomed.Sublist (w.machine m).transitions ∧
          (∀ t, t ∈ doomed ↔ t ∈ (w.machine m).transitions ∧ ¬ allowed t) ∧
          outcome (Work.removeInconsistent m a) ⟨w, j⟩ = .ok doomed.length)
        (ligature ∧ Work.removeInconsistent m a ⟨w, j⟩ = .error .tooWide ⟨w, j⟩) := by
  intro validated
  have good := h.good
  obtain ⟨b, -, -, hvalidate, -⟩ := Work.validate_spec (b := ⟨w, j⟩) good hm
  rw [show validated = verdict (w.defectOf m) from outcome_of_conclude hvalidate]
  refine ⟨?_, ?_, fun a => ⟨Machine.settles_allConsistent _ (texts m .refl), ?_⟩⟩
  · exact verdict_eq_ok_iff.trans (good.sane.defectOf_eq_none_iff hm)
  · cases found : w.defectOf m with
    | ok found? =>
      rw [← or_assoc, ← found]
      exact .inl ((verdict_reports_iff good.sane).mpr ⟨found?, found⟩)
    | error e =>
      obtain ⟨i, path, t, ht, illegible, baffles⟩ := illegible_of_defectOf_eq_error good.sane found
      have text := texts i path t ht
      obtain rfl := baffles.eq_tooWide ((good.sane.arena i).action_kind t ht) text
      rw [Action.isLegible_of_isText text, Bool.not_eq_false'] at illegible
      exact .inr (.inr ⟨rfl, i, path, t, ht, illegible⟩)
  · refine (Machine.settles_inconsistent (w.measureOf m a) (texts m .refl)).imp ?_ ?_
    · rintro ⟨doomed, found, sub, mem⟩
      obtain ⟨j', done, -⟩ :=
        Work.removeInconsistent_eq (b := ⟨w, j⟩) (good.sane.arena m) hm found
      exact ⟨doomed, found, sub, mem, outcome_of_ok done⟩
    · rintro ⟨failed, ligature⟩
      exact ⟨failed, ligature, Work.removeInconsistent_of_error failed⟩

/-- A machine inside another one, with symbols that are long, empty or change their length in upper
case. -/
def oddSymbols : Bench :=
  Command.runAll
    [ .parseAlphabet "01S_", .newMachine .turing (.text "inner") (some ⟨0⟩),
      .addState ⟨0⟩ "p" true false, .addState ⟨0⟩ "q" false true,
      .addTransition ⟨0⟩ (.state ⟨0⟩ 0) (.state ⟨0⟩ 1) (.write (.text "ſ") (.text "ß")),
      .addTransition ⟨0⟩ (.state ⟨0⟩ 0) (.state ⟨0⟩ 1) (.write (.text "0") (.text "s")),
      .addTransition ⟨0⟩ (.state ⟨0⟩ 0) (.state ⟨0⟩ 0) (.move .left (.text "01")),
      .addTransition ⟨0⟩ (.state ⟨0⟩ 1) (.state ⟨0⟩ 0) (.move .right (.text "")),
      .newMachine .turing (.text "outer") (some ⟨0⟩),
      .addState ⟨1⟩ "a" true false, .addState ⟨1⟩ "b" false true,
      .addTransition ⟨1⟩ (.state ⟨1⟩ 0) (.state ⟨1⟩ 1) (.move .right (.text "ŉ")),
      .attach ⟨1⟩ (.state ⟨1⟩ 0) (some ⟨0⟩) ]
    ⟨Workshop.empty, Journal.empty⟩

/-- A defect of the inner machine is reported, and three of its transitions are found and pruned. -/
theorem oddSymbols_are_checked :
    oddSymbols.shop.Reachable ∧
    (∃ defect, outcome (Work.validate ⟨1⟩) oddSymbols = .error (.machine (.nondeterministic defect))) ∧
    (∃ answer, oddSymbols.shop.isConsistent ⟨0⟩ none = .ok answer) ∧
    ∃ doomed, oddSymbols.shop.inconsistent ⟨0⟩ none = .ok doomed ∧ doomed.map (·.id) = [0, 2, 3] ∧
      outcome (Work.removeInconsistent ⟨0⟩ none) oddSymbols = .ok doomed.length := by
  have reachable : oddSymbols.shop.Reachable := .runAll .empty (by decide +kernel)
  have all : ∀ machine ∈ oddSymbols.shop.machines, ∀ t ∈ machine.transitions,
      t.action.isText = true ∧ t.action.hasLigature = false := by decide +kernel
  have plain (i : MachineId) (t : Transition) (ht : t ∈ (oddSymbols.shop.machine i).transitions) :=
    all _ (machine_mem_of_mem_transitions ht) t ht
  have noLigature (i : MachineId) :
      ¬ ∃ t ∈ (oddSymbols.shop.machine i).transitions, t.action.hasLigature = true := by
    rintro ⟨t, ht, ligature⟩
    rw [(plain i t ht).2] at ligature
    cases ligature
  obtain ⟨-, reports, -⟩ := checks_stop_only_at_ligatures reachable (m := ⟨1⟩) (by decide +kernel)
    (fun i _ t ht => (plain i t ht).1) oddSymbols.journal
  obtain ⟨-, -, tests⟩ := checks_stop_only_at_ligatures reachable (m := ⟨0⟩) (by decide +kernel)
    (fun i _ t ht => (plain i t ht).1) oddSymbols.journal
  have broken : (outcome (Work.validate ⟨1⟩) oddSymbols).toOption = none := by decide +kernel
  have three : (oddSymbols.shop.inconsistent ⟨0⟩ none).toOption.map (·.map (·.id)) = some [0, 2, 3] := by
    decide +kernel
  refine ⟨reachable, ?_, ?_, ?_⟩
  · rcases reports with valid | reported | ⟨-, i, -, ligature⟩
    · rw [valid] at broken
      cases broken
    · exact reported
    · exact absurd ligature (noLigature i)
  · rcases (tests none).1 with ⟨answer, ok, -⟩ | ⟨-, ligature⟩
    · exact ⟨answer, ok⟩
    · exact absurd ligature (noLigature ⟨0⟩)
  · rcases (tests none).2 with ⟨doomed, found, -, -, pruned⟩ | ⟨-, ligature, -⟩
    · rw [found] at three
      exact ⟨doomed, found, Option.some.inj three, pruned⟩
    · exact absurd ligature (noLigature ⟨0⟩)

/-- A machine that writes a ligature, inside another one, and beside them an acceptor that reads one. -/
def nestedLigature : Bench :=
  Command.runAll
    [ .newMachine .turing (.text "I") none,
      .addState ⟨0⟩ "p" true false, .addState ⟨0⟩ "q" false true,
      .addTransition ⟨0⟩ (.state ⟨0⟩ 0) (.state ⟨0⟩ 1) (.write (.text "0") (.text "ﬆ")),
      .newMachine .turing (.text "M") none, .addState ⟨1⟩ "a" true false,
      .attach ⟨1⟩ (.state ⟨1⟩ 0) (some ⟨0⟩),
      .newMachine .acceptor (.text "D") none, .addState ⟨2⟩ "s" true false,
      .addTransition ⟨2⟩ (.state ⟨2⟩ 0) (.state ⟨2⟩ 0) (.acceptor (.text "ﬅ")) ]
    ⟨Workshop.empty, Journal.empty⟩

/-- No check of these machines comes to an answer, not even validation of the one outside. -/
theorem nestedLigature_stops_every_check :
    nestedLigature.shop.Reachable ∧
    outcome (Work.validate ⟨1⟩) nestedLigature = .error .tooWide ∧
    outcome (Work.validate ⟨2⟩) nestedLigature = .error .tooWide ∧
    nestedLigature.shop.isConsistent ⟨0⟩ none = .error .tooWide ∧
    nestedLigature.shop.inconsistent ⟨0⟩ none = .error .tooWide ∧
    Work.removeInconsistent ⟨0⟩ none nestedLigature = .error .tooWide nestedLigature :=
  ⟨.runAll .empty (by decide +kernel), rfl, rfl, rfl, rfl, rfl⟩

end Workshop

end MachineLab
