import MachineLab.Proofs.RoundTrip

/-!
# Well-formed machines

Validation walks through the states of a machine, counts as it goes, remembers the inputs it has met and
stops at the first rule that is broken.  What it accepts can be said without any of that: how many start
and final states there are, that no two transitions of a state have the same input, and which symbols may
stand in a transition.  The check and the description agree as long as every symbol is a text that the
alphabet can look up.  One direction needs no such assumption: whatever is accepted is well formed.

## Main definitions

* `Machine.TuringForm`, `Machine.AcceptorForm` — the description of a machine of each kind.
* `Workshop.WellFormed` — a machine and everything nested in it fit their descriptions.
* `Alphabet.Reads` — a symbol is a text that the alphabet can look up.

## Main statements

* `Machine.Rules.form`, `Machine.Form.rules` — the rules that the check enforces, against the description.
* `Workshop.validation_accepts_the_well_formed` — validation accepts exactly the well-formed machines.
-/

namespace MachineLab

open Relation

/-- In a list without repetitions, a test that one entry passes is one that exactly one entry passes. -/
theorem countP_eq_one_iff {α : Type} {l : List α} (nodup : l.Nodup) (p : α → Bool) :
    l.countP p = 1 ↔ ∃! x, x ∈ l ∧ p x = true := by
  rw [List.countP_eq_length_filter]
  constructor
  · intro one
    obtain ⟨x, hx⟩ := List.length_eq_one_iff.mp one
    have only (y : α) : y ∈ l ∧ p y = true ↔ y = x := by
      rw [← List.mem_filter, hx, List.mem_singleton]
    exact ⟨x, (only x).mpr rfl, fun y hy => (only y).mp hy⟩
  · rintro ⟨x, hx, only⟩
    have same : l.filter p = List.replicate (l.filter p).length x :=
      List.eq_replicate_iff.mpr ⟨rfl, fun y hy => only y (List.mem_filter.mp hy)⟩
    have atMost : (l.filter p).length ≤ 1 := by
      have filtered := nodup.filter p
      rw [same] at filtered
      exact List.nodup_replicate.mp filtered
    have atLeast : 0 < (l.filter p).length := List.length_pos_of_mem (List.mem_filter.mpr hx)
    omega

/-! ## Symbols -/

namespace Alphabet

variable {a : Alphabet} {v : Value}

/-- A symbol is a text that the alphabet can look up. -/
def Reads (a : Alphabet) (v : Value) : Prop :=
  (∃ s, v = .text s) ∧ ∃ known, a.contains v = .ok known

/-- Which texts can be looked up does not depend on the alphabet. -/
theorem reads_iff : a.Reads v ↔ v.isLegible = true := by
  constructor
  · rintro ⟨⟨s, rfl⟩, known, hknown⟩
    have found (e : Fault) : a.contains (.text s) ≠ .error e := by
      rw [hknown]
      exact fun h => nomatch h
    have other : ¬ (s = "ﬅ" ∨ s = "ﬆ") := by
      rw [← a.contains_text_eq_error_iff]
      exact fun ⟨e, he⟩ => found e he
    simpa [Value.isLegible] using other
  · intro legible
    refine ⟨?_, a.exists_contains_of_isLegible legible⟩
    cases v with
    | text s => exact ⟨s, rfl⟩
    | _ => cases legible

/-- A symbol that may stand in a place is in the alphabet or reserved for that place. -/
theorem Admits.member_or_reserved {reserved : String} (h : a.Admits v (.text reserved)) :
    a.contains v = .ok true ∨ v = .text reserved := by
  obtain ⟨known, hknown, rfl | same⟩ := h
  · exact .inl hknown
  · exact .inr (Value.eqv_text_iff.mp same)

theorem admits_of_member_or_reserved (legible : v.isLegible = true) {reserved : String}
    (h : a.contains v = .ok true ∨ v = .text reserved) : a.Admits v (.text reserved) := by
  rcases h with member | same
  · exact ⟨true, member, .inl rfl⟩
  · obtain ⟨known, hknown⟩ := a.exists_contains_of_isLegible legible
    exact ⟨known, hknown, .inr (Value.eqv_text_iff.mpr same)⟩

end Alphabet

namespace Value

variable {v : Value} {s : String}

theorem eqv_text_eq_false_iff : v.eqv (.text s) = false ↔ v ≠ .text s := by
  rw [← Bool.not_eq_true, eqv_text_iff]

/-- A text is found among other values exactly if it is one of them. -/
theorem text_isIn_eq_false_iff {items : List Value} :
    (Value.text s).isIn items = false ↔ .text s ∉ items := by
  rw [← Bool.not_eq_true]
  refine not_congr ⟨fun h => ?_, fun h => ?_⟩
  · obtain ⟨other, hother, same⟩ := List.any_eq_true.mp h
    exact samePart_text_iff.mp same ▸ hother
  · exact List.any_eq_true.mpr ⟨_, h, samePart_text_self s⟩

theorem isKey_of_isLegible (h : v.isLegible = true) : v.isKey = true := by
  cases v with
  | text s => rfl
  | _ => cases h

theorem isIn_eq_false_of_isLegible {items : List Value} (h : v.isLegible = true) (new : v ∉ items) :
    v.isIn items = false := by
  cases v with
  | text s => exact text_isIn_eq_false_iff.mpr new
  | _ => cases h

end Value

/-! ## Actions -/

namespace Action

variable {a : Alphabet} {used : List Symbol} {action : Action}

/-- The symbols that validation looks up can be looked up: the input, and the output of an action that
does not move the head. -/
def Readable (a : Alphabet) : Action → Prop
  | .turing d inp out => a.Reads inp ∧ (d = .stay → a.Reads out)
  | .acceptor inp => a.Reads inp

theorem readable_iff : action.Readable a ↔ action.isLegible = true := by
  cases action with
  | acceptor inp => exact Alphabet.reads_iff
  | turing d inp out =>
    simp only [Readable, isLegible, Alphabet.reads_iff, Bool.and_eq_true, Bool.or_eq_true, bne_iff_ne]
    refine and_congr_right fun _ => ?_
    by_cases stay : d = .stay <;> simp [stay]

/-- The symbols that may stand in a transition of a Turing machine. -/
def SuitsTuring (a : Alphabet) : Action → Prop
  | .acceptor _ => False
  | .turing d inp out =>
    inp ≠ Symbol.undefined ∧ out ≠ Symbol.undefined ∧
      (a.contains inp = .ok true ∨ inp = Symbol.otherwise) ∧
      (d = .stay → a.contains out = .ok true ∨ out = Symbol.noWrite)

/-- The symbols that may stand in a transition of an acceptor. -/
def SuitsAcceptor (a : Alphabet) (action : Action) : Prop :=
  action.input ≠ Symbol.undefined ∧ action.input ≠ Symbol.emptyInput ∧
    a.contains action.input = .ok true

theorem FitsTuring.suits (h : action.FitsTuring a used) : action.SuitsTuring a := by
  cases action with
  | acceptor inp => exact h
  | turing d inp out =>
    obtain ⟨input, output, -, -, admits, writes⟩ := h
    exact ⟨Value.eqv_text_eq_false_iff.mp input, Value.eqv_text_eq_false_iff.mp output,
      admits.member_or_reserved, fun stay => (writes stay).member_or_reserved⟩

theorem SuitsTuring.fits (h : action.SuitsTuring a) (legible : action.isLegible = true)
    (new : action.input ∉ used) : action.FitsTuring a used := by
  cases action with
  | acceptor inp => exact h
  | turing d inp out =>
    obtain ⟨input, output, member, writes⟩ := h
    simp only [isLegible, Bool.and_eq_true, Bool.or_eq_true, bne_iff_ne] at legible
    refine ⟨Value.eqv_text_eq_false_iff.mpr input, Value.eqv_text_eq_false_iff.mpr output,
      Value.isKey_of_isLegible legible.1, Value.isIn_eq_false_of_isLegible legible.1 new,
      Alphabet.admits_of_member_or_reserved legible.1 member, fun stay => ?_⟩
    exact Alphabet.admits_of_member_or_reserved (legible.2.resolve_left fun moves => moves stay)
      (writes stay)

/-- The input of an action that suits a Turing machine is a text. -/
theorem SuitsTuring.exists_text (h : action.SuitsTuring a) : ∃ s, action.input = .text s := by
  cases action with
  | acceptor inp => exact h.elim
  | turing d inp out =>
    obtain ⟨-, -, member | same, -⟩ := h
    · exact Alphabet.exists_text_of_contains member
    · exact ⟨_, same⟩

theorem FitsAcceptor.fresh (used : List Symbol) (action : Action) (h : action.FitsAcceptor a used) :
    action.input.isIn used = false := h.2.2.2.1

theorem FitsAcceptor.suits (h : action.FitsAcceptor a used) : action.SuitsAcceptor a :=
  ⟨Value.eqv_text_eq_false_iff.mp h.1, Value.eqv_text_eq_false_iff.mp h.2.1, h.2.2.2.2⟩

theorem SuitsAcceptor.exists_text (h : action.SuitsAcceptor a) : ∃ s, action.input = .text s :=
  Alphabet.exists_text_of_contains h.2.2

/-- Members of an alphabet are legible, so nothing else is needed here. -/
theorem SuitsAcceptor.fits (h : action.SuitsAcceptor a) (new : action.input ∉ used) :
    action.FitsAcceptor a used := by
  have legible : action.input.isLegible = true :=
    Alphabet.reads_iff.mp ⟨h.exists_text, true, h.2.2⟩
  exact ⟨Value.eqv_text_eq_false_iff.mpr h.1, Value.eqv_text_eq_false_iff.mpr h.2.1,
    Value.isKey_of_isLegible legible, Value.isIn_eq_false_of_isLegible legible new, h.2.2⟩

end Action

/-- Transitions fit one after another if each fits by itself and no two have the same input. -/
theorem edgesFit_of_pairwise {fits : List Symbol → Action → Prop} {used : List Symbol}
    {ts : List Transition} (each : ∀ t ∈ ts, ∀ used, t.input ∉ used → fits used t.action)
    (distinct : ts.Pairwise fun t t' => t.input ≠ t'.input) (new : ∀ t ∈ ts, t.input ∉ used) :
    EdgesFit fits used ts := by
  induction ts generalizing used with
  | nil => trivial
  | cons t rest ih =>
    rw [List.pairwise_cons] at distinct
    rw [List.forall_mem_cons] at each new
    refine ⟨each.1 used new.1, ih each.2 distinct.2 ?_⟩
    intro t' ht' repeated
    rcases List.mem_cons.mp repeated with same | old
    · exact distinct.1 t' ht' same.symm
    · exact new.2 t' ht' old

/-! ## One machine -/

namespace Machine

variable {m : Machine} {a : Alphabet}

/-- No two transitions that leave the same state have the same input. -/
def InputsDistinct (m : Machine) : Prop :=
  ∀ t ∈ m.transitions, ∀ t' ∈ m.transitions, t.source = t'.source → t.input = t'.input → t = t'

/-- A Turing machine has one start state, one final state that nothing leaves, different inputs in each
state, and suitable symbols. -/
structure TuringForm (m : Machine) (a : Alphabet) : Prop where
  one_start : ∃! s, s ∈ m.states ∧ s.isStart = true
  one_final : ∃! s, s ∈ m.states ∧ s.isFinal = true
  final_stays : ∀ s ∈ m.states, s.isFinal = true → ∀ t ∈ m.transitions, t.source ≠ s.id
  inputs_distinct : m.InputsDistinct
  symbols_suit : ∀ t ∈ m.transitions, t.action.SuitsTuring a

/-- An acceptor has one start state, different inputs in each state, suitable symbols, and in each state
a transition for every symbol of the alphabet. -/
structure AcceptorForm (m : Machine) (a : Alphabet) : Prop where
  one_start : ∃! s, s ∈ m.states ∧ s.isStart = true
  inputs_distinct : m.InputsDistinct
  symbols_suit : ∀ t ∈ m.transitions, t.action.SuitsAcceptor a
  complete : ∀ s ∈ m.states, ∀ c ∈ a.symbols,
    ∃ t ∈ m.transitions, t.source = s.id ∧ t.input = .text (String.singleton c)

/-- The description of a machine of its kind. -/
def Form (m : Machine) (a : Alphabet) : Prop :=
  match m.kind with
  | .turing => m.TuringForm a
  | .acceptor => m.AcceptorForm a

theorem exits_eq_nil_iff {s : State} :
    m.exits s = [] ↔ ∀ t ∈ m.transitions, t.source ≠ s.id := by
  rw [List.eq_nil_iff_forall_not_mem]
  refine forall_congr' fun t => ?_
  rw [mem_exits, not_and]

/-- A state has met a symbol exactly if one of its transitions has it as its input. -/
theorem isIn_inputs_iff {s : State} {symbol : String} :
    Value.isIn (.text symbol) ((m.exits s).map Transition.input).reverse = true ↔
      ∃ t ∈ m.transitions, t.source = s.id ∧ t.input = .text symbol := by
  rw [← not_iff_not, Bool.not_eq_true, Value.text_isIn_eq_false_iff, List.mem_reverse, List.mem_map]
  simp only [mem_exits, and_assoc]

namespace Arena

variable {fits : List Symbol → Action → Prop}

theorem states_nodup (arena : m.Arena) : m.states.Nodup :=
  arena.states_increasing.imp fun lt same => Nat.ne_of_lt lt (congrArg State.id same)

/-- What holds of the transitions of every state holds of all transitions. -/
theorem forall_transitions {P : Transition → Prop} (arena : m.Arena)
    (each : ∀ s ∈ m.states, ∀ t ∈ m.exits s, P t) : ∀ t ∈ m.transitions, P t := by
  intro t ht
  obtain ⟨s, hs, source⟩ := arena.source_live t ht
  exact each s hs t (mem_exits.mpr ⟨ht, source.symm⟩)

/-- Transitions that fit have different inputs. -/
theorem inputsDistinct (arena : m.Arena)
    (fresh : ∀ used action, fits used action → action.input.isIn used = false)
    (text : ∀ t ∈ m.transitions, ∃ s, t.input = .text s)
    (edges : ∀ s ∈ m.states, EdgesFit fits [] (m.exits s)) : m.InputsDistinct := by
  intro t ht t' ht' source input
  obtain ⟨s, hs, hid⟩ := arena.source_live t ht
  have leaves := mem_exits.mpr ⟨ht, hid.symm⟩
  have leaves' := mem_exits.mpr ⟨ht', source.symm.trans hid.symm⟩
  obtain ⟨symbol, hsymbol⟩ := text t ht
  exact (edges s hs).eq_of_input_eq fresh leaves leaves' hsymbol (input.symm.trans hsymbol)

/-- Transitions with different inputs, each of which fits by itself, fit together. -/
theorem edgesFit (arena : m.Arena) (distinct : m.InputsDistinct)
    (each : ∀ t ∈ m.transitions, ∀ used, t.input ∉ used → fits used t.action) (s : State) :
    EdgesFit fits [] (m.exits s) := by
  have here (t : Transition) (ht : t ∈ m.exits s) := mem_exits.mp ht
  refine edgesFit_of_pairwise (fun t ht => each t (here t ht).1) ?_ fun t _ => List.not_mem_nil
  refine (arena.transitions_increasing.filter _).imp_of_mem ?_
  intro t t' ht ht' lt same
  have eq := distinct t (here t ht).1 t' (here t' ht').1 ((here t ht).2.trans (here t' ht').2.symm) same
  exact Nat.ne_of_lt lt (congrArg Transition.id eq)

end Arena

theorem TuringRules.form (arena : m.Arena) (rules : m.TuringRules a) : m.TuringForm a := by
  have suits : ∀ t ∈ m.transitions, t.action.SuitsTuring a := arena.forall_transitions fun s hs t ht =>
    let ⟨_, fit⟩ := rules.fits hs ht
    fit.suits
  constructor
  · exact (countP_eq_one_iff arena.states_nodup _).mp rules.one_start
  · exact (countP_eq_one_iff arena.states_nodup _).mp rules.one_final
  · intro s hs final
    exact exits_eq_nil_iff.mp (rules.final_stays s hs final)
  · exact arena.inputsDistinct Action.FitsTuring.fresh (fun t ht => (suits t ht).exists_text)
      rules.edges_fit
  · exact suits

theorem TuringForm.rules (arena : m.Arena) (legible : ∀ t ∈ m.transitions, t.action.isLegible = true)
    (form : m.TuringForm a) : m.TuringRules a := by
  constructor
  · exact (countP_eq_one_iff arena.states_nodup _).mpr form.one_start
  · exact (countP_eq_one_iff arena.states_nodup _).mpr form.one_final
  · intro s hs final
    exact exits_eq_nil_iff.mpr (form.final_stays s hs final)
  · intro s hs
    exact arena.edgesFit form.inputs_distinct
      (fun t ht _ new => (form.symbols_suit t ht).fits (legible t ht) new) s

theorem AcceptorRules.form (arena : m.Arena) (rules : m.AcceptorRules a) : m.AcceptorForm a := by
  have suits : ∀ t ∈ m.transitions, t.action.SuitsAcceptor a := arena.forall_transitions fun s hs t ht =>
    let ⟨_, fit⟩ := rules.fits hs ht
    fit.suits
  constructor
  · exact (countP_eq_one_iff arena.states_nodup _).mp rules.one_start
  · exact arena.inputsDistinct Action.FitsAcceptor.fresh (fun t ht => (suits t ht).exists_text)
      rules.edges_fit
  · exact suits
  · intro s hs c hc
    exact isIn_inputs_iff.mp (rules.complete s hs c hc)

theorem AcceptorForm.rules (arena : m.Arena) (form : m.AcceptorForm a) : m.AcceptorRules a := by
  constructor
  · exact (countP_eq_one_iff arena.states_nodup _).mpr form.one_start
  · intro s hs
    exact arena.edgesFit form.inputs_distinct (fun t ht _ new => (form.symbols_suit t ht).fits new) s
  · intro s hs c hc
    exact isIn_inputs_iff.mpr (form.complete s hs c hc)

/-- **A machine that follows the rules of its kind fits the description.** -/
theorem Rules.form (arena : m.Arena) (rules : m.Rules a) : m.Form a := by
  unfold Rules at rules
  unfold Form
  cases hkind : m.kind with
  | turing =>
    rw [hkind] at rules
    exact TuringRules.form arena rules
  | acceptor =>
    rw [hkind] at rules
    exact AcceptorRules.form arena rules

/-- **A machine that fits the description follows the rules**, if its symbols are legible. -/
theorem Form.rules (arena : m.Arena) (legible : ∀ t ∈ m.transitions, t.action.isLegible = true)
    (form : m.Form a) : m.Rules a := by
  unfold Form at form
  unfold Rules
  cases hkind : m.kind with
  | turing =>
    rw [hkind] at form
    exact TuringForm.rules arena legible form
  | acceptor =>
    rw [hkind] at form
    exact AcceptorForm.rules arena form

end Machine

/-! ## A machine and everything nested in it -/

namespace Workshop

variable {w : Workshop} {m : MachineId}

/-- A machine fits the description of its kind, and so does every machine nested in it, at any depth. -/
inductive WellFormed (w : Workshop) : MachineId → Prop
  | intro {m : MachineId} (own : (w.machine m).Form (w.alphabetOf m))
      (nested : ∀ i, w.Nests m i → WellFormed w i) : WellFormed w m

/-- Clean machines are well formed: the depth of the nesting bounds the descent. -/
theorem Sane.wellFormed_of_clean (sane : w.Sane) {d : Nat} (deep : w.Within d m) (clean : w.Clean m) :
    w.WellFormed m := by
  induction d generalizing m with
  | zero => exact deep.elim
  | succ d ih =>
    obtain ⟨own, nested⟩ := (w.clean_iff m).mp clean
    exact ⟨own.form (sane.arena m), fun i edge => ih (deep i edge) (nested i edge)⟩

theorem WellFormed.clean (sane : w.Sane)
    (legible : ∀ i, ReflTransGen w.Nests m i → ∀ t ∈ (w.machine i).transitions,
      t.action.isLegible = true) (h : w.WellFormed m) : w.Clean m := by
  induction h with
  | @intro m own _ ih =>
    refine (w.clean_iff m).mpr ⟨?_, fun i edge => ?_⟩
    · exact own.rules (sane.arena m) (legible m .refl)
    · exact ih i edge fun n path => legible n (.head edge path)

/-- **Validation accepts exactly the well-formed machines**, if the symbols of the machine and of all
those below it are texts that their alphabets can look up.  Every other machine is reported as
nondeterministic.  Either way all states, transitions, alphabets and revisions stay as they are. -/
theorem validation_accepts_the_well_formed (h : w.Reachable) (known : m.index < w.machines.length)
    (readable : ∀ i, ReflTransGen w.Nests m i → ∀ t ∈ (w.machine i).transitions,
      t.action.Readable (w.alphabetOf i)) (j : Journal) :
    (outcome (Work.validate m) ⟨w, j⟩ = .ok () ↔ w.WellFormed m) ∧
    ((∃ defect, outcome (Work.validate m) ⟨w, j⟩ = .error (.machine (.nondeterministic defect))) ↔
      ¬ w.WellFormed m) ∧
    let w' := (after (Work.validate m) ⟨w, j⟩).shop
    w'.alphabets = w.alphabets ∧ w'.machines.length = w.machines.length ∧
      ∀ i, (w'.machine i).states = (w.machine i).states ∧
        (w'.machine i).transitions = (w.machine i).transitions ∧
        (w'.machine i).alphabet = (w.machine i).alphabet ∧
        (w'.machine i).revision = (w.machine i).revision := by
  have good := h.good
  have legible (i : MachineId) (path : ReflTransGen w.Nests m i) (t : Transition)
      (ht : t ∈ (w.machine i).transitions) : t.action.isLegible = true :=
    Action.readable_iff.mp (readable i path t ht)
  obtain ⟨b, alike, -, hvalidate, -⟩ := Work.validate_spec (b := ⟨w, j⟩) good known
  -- Only an illegible symbol can keep the check from a decision.
  obtain ⟨found, decided⟩ : ∃ found, w.defectOf m = .ok found := by
    cases hfound : w.defectOf m with
    | ok found => exact ⟨found, rfl⟩
    | error e =>
      obtain ⟨i, path, t, ht, illegible, -⟩ := illegible_of_defectOf_eq_error good.sane hfound
      rw [legible i path t ht] at illegible
      cases illegible
  have accepts : found = none ↔ w.WellFormed m := by
    have passes : w.defectOf m = .ok none ↔ found = none := by
      rw [decided]
      exact ⟨Except.ok.inj, congrArg _⟩
    rw [← passes, good.sane.defectOf_eq_none_iff known]
    exact ⟨good.sane.wellFormed_of_clean (good.sane.within known),
      fun form => form.clean good.sane legible⟩
  rw [outcome_of_conclude hvalidate, after_of_conclude hvalidate, decided, ← accepts]
  refine ⟨?_, ?_, alike.alphabets, alike.length, fun i => ?_⟩
  · cases found <;> simp [verdict]
  · cases found <;> simp [verdict]
  · rw [alike.machine i]
    exact ⟨rfl, rfl, rfl, rfl⟩

/-- The machine that holds two others is accepted, so all three are well formed. -/
theorem threeLevels_is_well_formed :
    threeLevels.shop.Reachable ∧
    (∀ i, ReflTransGen threeLevels.shop.Nests ⟨0⟩ i → ∀ t ∈ (threeLevels.shop.machine i).transitions,
      t.action.Readable (threeLevels.shop.alphabetOf i)) ∧
    outcome (Work.validate ⟨0⟩) ⟨threeLevels.shop, Journal.empty⟩ = .ok () ∧
    threeLevels.shop.WellFormed ⟨0⟩ := by
  have legible : ∀ machine ∈ threeLevels.shop.machines, ∀ t ∈ machine.transitions,
      t.action.isLegible = true := by decide +kernel
  have readable : ∀ i, ReflTransGen threeLevels.shop.Nests ⟨0⟩ i →
      ∀ t ∈ (threeLevels.shop.machine i).transitions,
        t.action.Readable (threeLevels.shop.alphabetOf i) := fun i _ t ht =>
    Action.readable_iff.mpr (legible _ (machine_mem_of_mem_transitions ht) t ht)
  have valid : outcome (Work.validate ⟨0⟩) ⟨threeLevels.shop, Journal.empty⟩ = .ok () :=
    eq_ok_of_toOption (by decide +kernel)
  exact ⟨threeLevels_reachable, readable, valid, (validation_accepts_the_well_formed threeLevels_reachable
    (m := ⟨0⟩) (by decide +kernel) readable Journal.empty).1.mp valid⟩

end Workshop

end MachineLab
