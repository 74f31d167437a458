import MachineLab.Proofs.Language
import MachineLab.Proofs.WellFormed

/-!
# Pruning

A machine can be given another alphabet, and the transitions that the new alphabet does not allow can
then be pruned.  Pruning goes over the doomed transitions one by one; each deletion takes one record out
of the machine and one identifier out of a state.  Together they leave a machine with the same states
and, in their old order, the transitions that are allowed.

What is left of a valid Turing machine is valid: nothing that the rules ask for is pruned.  An acceptor
must have a transition for every letter and digit of its alphabet in every state, so it stays valid if
the new alphabet brings no new ones.

## Main definitions

* `Action.Allowed` — what an alphabet allows.
* `Machine.Pruned` — a machine is what is left of another one.

## Main statements

* `Action.exists_isConsistent_eq` — the test for consistency decides what is allowed.
* `Machine.Arena.pruned_deleteAll` — what deletions leave of a machine.
* `Machine.Pruned.form` — pruning keeps the form of a machine.
* `Workshop.pruning_keeps_validity` — another alphabet, pruning, and validation.
-/

namespace MachineLab

open Relation

/-! ## What an alphabet allows -/

/-- An alphabet allows its members in a place, the symbol that is reserved for the place, and the sign
that nothing has been chosen for it yet. -/
def Alphabet.Allows (a : Alphabet) (reserved symbol : Symbol) : Prop :=
  a.contains symbol = .ok true ∨ symbol = Symbol.undefined ∨ symbol = reserved

/-- An alphabet allows an action if it allows the input, and the output of an action that does not move
the head. -/
def Action.Allowed (a : Alphabet) : Action → Prop
  | .turing d inp out =>
    a.Allows Symbol.otherwise inp ∧ (d = .stay → a.Allows Symbol.noWrite out)
  | .acceptor inp => a.Allows Symbol.emptyInput inp

theorem Value.isIn_iff_of_isLegible {v : Value} {items : List Value} (legible : v.isLegible = true) :
    v.isIn items = true ↔ v ∈ items := by
  cases v with
  | text s => rw [← not_iff_not, Bool.not_eq_true, text_isIn_eq_false_iff]
  | _ => cases legible

/-- Whether a legible symbol is allowed can be looked up. -/
theorem Alphabet.exists_known_iff_allows (a : Alphabet) {v : Value} (legible : v.isLegible = true)
    (reserved : Symbol) :
    ∃ known, a.contains v = .ok known ∧
      ((known || v.isIn [Symbol.undefined, reserved]) = true ↔ a.Allows reserved v) := by
  obtain ⟨known, hknown⟩ := a.exists_contains_of_isLegible legible
  refine ⟨known, hknown, ?_⟩
  rw [Bool.or_eq_true, Value.isIn_iff_of_isLegible legible, Allows, hknown]
  simp

/-- **The test for consistency decides what is allowed**, if the symbols are legible. -/
theorem Action.exists_isConsistent_eq (a : Alphabet) {action : Action}
    (legible : action.isLegible = true) :
    ∃ verdict, action.isConsistent a = .ok verdict ∧ (verdict = true ↔ action.Allowed a) := by
  cases action with
  | acceptor inp =>
    obtain ⟨known, hknown, allows⟩ := a.exists_known_iff_allows legible Symbol.emptyInput
    refine ⟨_, ?_, allows⟩
    simp only [isConsistent, hknown]
    rfl
  | turing d inp out =>
    simp only [isLegible, Bool.and_eq_true, Bool.or_eq_true, bne_iff_ne] at legible
    obtain ⟨known, hknown, allows⟩ := a.exists_known_iff_allows legible.1 Symbol.otherwise
    by_cases input : (known || inp.isIn [Symbol.undefined, Symbol.otherwise]) = true
    · have passes : (!known && !inp.isIn [Symbol.undefined, Symbol.otherwise]) = false := by
        rw [← Bool.not_or, input]
        rfl
      by_cases stay : d = .stay
      · obtain ⟨written, hwritten, writes⟩ := a.exists_known_iff_allows
          (legible.2.resolve_left fun moves => moves stay) Symbol.noWrite
        refine ⟨_, ?_, writes.trans ⟨fun h => ⟨allows.mp input, fun _ => h⟩, fun h => h.2 stay⟩⟩
        simp [isConsistent, hknown, hwritten, passes, stay, bind, Except.bind, pure, Except.pure]
      · refine ⟨true, ?_, fun _ => ⟨allows.mp input, fun h => absurd h stay⟩, fun _ => rfl⟩
        simp [isConsistent, hknown, passes, stay, bind, Except.bind, pure, Except.pure]
    · have fails : (!known && !inp.isIn [Symbol.undefined, Symbol.otherwise]) = true := by
        rw [← Bool.not_or, Bool.not_eq_true', ← Bool.not_eq_true]
        exact input
      refine ⟨false, ?_, fun h => absurd h Bool.false_ne_true,
        fun h => absurd (allows.mpr h.1) input⟩
      simp only [isConsistent, hknown, bind, Except.bind, fails]
      rfl

/-- The transitions of a machine that follows the rules have legible symbols. -/
theorem Machine.Rules.isLegible {m : Machine} {a : Alphabet} (rules : m.Rules a) (arena : m.Arena) :
    ∀ t ∈ m.transitions, t.action.isLegible = true := by
  have admitted {v : Value} {reserved : String} (h : a.Admits v (.text reserved)) :
      v.isLegible = true := by
    obtain ⟨known, hknown, -⟩ := id h
    exact Alphabet.reads_iff.mp ⟨h.exists_text, known, hknown⟩
  refine arena.forall_transitions fun s hs t ht => ?_
  have kind := arena.action_kind t (Machine.mem_exits.mp ht).1
  unfold Rules at rules
  cases haction : t.action with
  | turing d inp out =>
    rw [haction] at kind
    rw [← kind] at rules
    obtain ⟨used, fits⟩ := TuringRules.fits rules hs ht
    rw [haction] at fits
    obtain ⟨-, -, -, -, input, output⟩ := fits
    simp only [Action.isLegible, admitted input, Bool.true_and, Bool.or_eq_true, bne_iff_ne]
    by_cases stay : d = .stay
    · exact .inr (admitted (output stay))
    · exact .inl stay
  | acceptor inp =>
    rw [haction] at kind
    rw [← kind] at rules
    obtain ⟨used, fits⟩ := AcceptorRules.fits rules hs ht
    rw [haction] at fits
    exact Alphabet.reads_iff.mp ⟨fits.suits.exists_text, true, fits.2.2.2.2⟩

/-! ## Looking for what is doomed -/

/-- The transitions that an alphabet does not allow are found, in order. -/
theorem Machine.exists_inconsistent_eq {m : Machine} {a : Alphabet}
    (decided : ∀ t ∈ m.transitions,
      ∃ verdict, t.action.isConsistent a = .ok verdict ∧ (verdict = true ↔ t.action.Allowed a)) :
    ∃ doomed, m.inconsistent a = .ok doomed ∧ doomed.Sublist m.transitions ∧
      ∀ t, t ∈ doomed ↔ t ∈ m.transitions ∧ ¬ t.action.Allowed a := by
  classical
  refine ⟨m.transitions.filter fun t => !decide (t.action.Allowed a), filterM_eq_ok fun t ht => ?_,
    List.filter_sublist, fun t => by simp [List.mem_filter]⟩
  obtain ⟨verdict, hverdict, decides⟩ := decided t ht
  have same : verdict = decide (t.action.Allowed a) := by
    rw [Bool.eq_iff_iff, decide_eq_true_eq]
    exact decides
  simp [hverdict, same, bind, Except.bind, pure, Except.pure]

/-! ## What deletions leave -/

namespace Machine

variable {m m' m'' : Machine} {keep keep' : Transition → Prop}

/-- A machine is what is left of another one: its transitions are those that are to be kept, in their
old order, and its states are the old ones without the identifiers of the others. -/
structure Pruned (m m' : Machine) (keep : Transition → Prop) : Prop where
  kind : m'.kind = m.kind
  name : m'.name = m.name
  alphabet : m'.alphabet = m.alphabet
  sublist : m'.transitions.Sublist m.transitions
  mem_iff : ∀ t, t ∈ m'.transitions ↔ t ∈ m.transitions ∧ keep t
  states : m'.states = m.states.map fun s =>
    { s with outgoing := s.outgoing.filter (· ∈ m'.transitions.map (·.id)) }

/-- The states list no identifiers but those of transitions. -/
theorem Arena.outgoing_subset (h : m.Arena) {s : State} (hs : s ∈ m.states) :
    s.outgoing ⊆ m.transitions.map (·.id) := by
  rw [h.outgoing_eq s hs]
  exact List.map_subset _ List.filter_sublist.subset

namespace Pruned

theorem refl (arena : m.Arena) : m.Pruned m fun _ => True where
  kind := rfl
  name := rfl
  alphabet := rfl
  sublist := List.Sublist.refl _
  mem_iff t := (and_iff_left trivial).symm
  states := by
    have same : ∀ s ∈ m.states,
        { s with outgoing := s.outgoing.filter (· ∈ m.transitions.map (·.id)) } = s := by
      intro s hs
      have all : s.outgoing.filter (· ∈ m.transitions.map (·.id)) = s.outgoing := by
        rw [List.filter_eq_self]
        exact fun id hid => decide_eq_true (arena.outgoing_subset hs hid)
      rw [all]
    rw [List.map_congr_left same, List.map_id']

/-- What is left of what is left. -/
theorem trans (h : m.Pruned m' keep) (h' : m'.Pruned m'' keep') :
    m.Pruned m'' fun t => keep t ∧ keep' t where
  kind := h'.kind.trans h.kind
  name := h'.name.trans h.name
  alphabet := h'.alphabet.trans h.alphabet
  sublist := h'.sublist.trans h.sublist
  mem_iff t := by rw [h'.mem_iff, h.mem_iff, and_assoc]
  states := by
    rw [h'.states, h.states, List.map_map]
    refine List.map_congr_left fun s _ => ?_
    have kept : m''.transitions.map (·.id) ⊆ m'.transitions.map (·.id) :=
      List.map_subset _ h'.sublist.subset
    simp only [Function.comp_apply, List.filter_filter]
    congr 1
    refine List.filter_congr fun id _ => ?_
    by_cases there : id ∈ m''.transitions.map (·.id)
    · simp [there, kept there]
    · simp [there]

theorem congr (h : m.Pruned m' keep) (same : ∀ t ∈ m.transitions, keep t ↔ keep' t) :
    m.Pruned m' keep' :=
  ⟨h.kind, h.name, h.alphabet, h.sublist,
    fun t => (h.mem_iff t).trans (and_congr_right fun ht => same t ht), h.states⟩

end Pruned

/-- One deletion. -/
theorem Arena.pruned_deleteTransition (h : m.Arena) (id : Nat) :
    m.Pruned (m.deleteTransition id) (·.id ≠ id) where
  kind := rfl
  name := rfl
  alphabet := rfl
  sublist := List.filter_sublist
  mem_iff t := by
    change t ∈ m.transitions.filter _ ↔ _
    simp [List.mem_filter]
  states := by
    refine List.map_congr_left fun s hs => ?_
    congr 1
    refine List.filter_congr fun x hx => ?_
    obtain ⟨t, ht, rfl⟩ := List.mem_map.mp (h.outgoing_subset hs hx)
    -- A live identifier is gone exactly if it is the one that was deleted.
    have gone : t.id ∈ (m.transitions.filter (·.id == id)).map (·.id) ↔ t.id = id := by
      simp only [List.mem_map, List.mem_filter, beq_iff_eq]
      constructor
      · rintro ⟨t', ⟨-, hid⟩, same⟩
        exact same ▸ hid
      · exact fun same => ⟨t, ⟨ht, same⟩, rfl⟩
    have left : t.id ∈ (m.deleteTransition id).transitions.map (·.id) ↔ t.id ≠ id := by
      change t.id ∈ (m.transitions.filter (!·.id == id)).map (·.id) ↔ _
      simp only [List.mem_map, List.mem_filter, Bool.not_eq_true', beq_eq_false_iff_ne]
      constructor
      · rintro ⟨t', ⟨-, hid⟩, same⟩
        exact same ▸ hid
      · exact fun other => ⟨t, ⟨ht, other⟩, rfl⟩
    rw [Bool.eq_iff_iff, decide_eq_true_eq, left, Bool.not_eq_true', ← Bool.not_eq_true,
      List.contains_iff_mem, gone]

/-- **Deletions leave all transitions but those with the deleted identifiers.** -/
theorem Arena.pruned_deleteAll (h : m.Arena) (doomed : List Transition) :
    m.Pruned (m.deleteAll doomed) fun t => ∀ t' ∈ doomed, t.id ≠ t'.id := by
  induction doomed generalizing m with
  | nil => exact (Pruned.refl h).congr fun t _ => by simp
  | cons d rest ih =>
    refine ((h.pruned_deleteTransition d.id).trans (ih (h.deleteTransition d.id))).congr fun t _ => ?_
    rw [List.forall_mem_cons]

/-! ## What is left of a valid machine -/

namespace Pruned

theorem mem_states (h : m.Pruned m' keep) {s' : State} (hs' : s' ∈ m'.states) :
    ∃ s ∈ m.states, s'.id = s.id ∧ s'.isFinal = s.isFinal := by
  rw [h.states] at hs'
  obtain ⟨s, hs, rfl⟩ := List.mem_map.mp hs'
  exact ⟨s, hs, rfl, rfl⟩

theorem submachines (h : m.Pruned m' keep) : m'.submachines = m.submachines := by
  rw [Machine.submachines, Machine.submachines, h.states, List.filterMap_map]
  rfl

theorem existsUnique_state (h : m.Pruned m' keep) {p : State → Bool}
    (flag : ∀ s outgoing, p { s with outgoing } = p s)
    (one : ∃! s, s ∈ m.states ∧ p s = true) : ∃! s, s ∈ m'.states ∧ p s = true := by
  obtain ⟨s, ⟨hs, ps⟩, only⟩ := one
  rw [h.states]
  refine ⟨_, ⟨List.mem_map_of_mem hs, (flag s _).trans ps⟩, ?_⟩
  rintro s' ⟨hs', ps'⟩
  obtain ⟨s₀, hs₀, rfl⟩ := List.mem_map.mp hs'
  rw [only s₀ ⟨hs₀, (flag s₀ _).symm.trans ps'⟩]

theorem inputsDistinct (h : m.Pruned m' keep) (distinct : m.InputsDistinct) : m'.InputsDistinct :=
  fun t ht t' ht' => distinct t (h.sublist.subset ht) t' (h.sublist.subset ht')

end Pruned

end Machine

/-- Members have upper-case characters of their own. -/
theorem Alphabet.contains_of_mem_symbols {a : Alphabet} {c : Char} (h : c ∈ a.symbols) :
    a.contains (.text (String.singleton c)) = .ok true := by
  rw [symbols_eq] at h
  obtain ⟨slot, hslot, rfl⟩ := List.mem_map.mp h
  have taken := ((a.mem_slots slot).mp hslot).2
  have text : a.containsText (String.singleton slot.char) = .ok true := by
    simp only [containsText, String.toList_singleton, upperChar_char, place, slot?_char, taken]
  unfold contains
  rw [if_neg (by simp [Value.truth])]
  exact text

/-- A transition that suited its machine and is still allowed suits it again. -/
theorem Action.SuitsTuring.of_allowed {a a' : Alphabet} {action : Action} (h : action.SuitsTuring a)
    (allowed : action.Allowed a') : action.SuitsTuring a' := by
  cases action with
  | acceptor inp => exact h
  | turing d inp out =>
    obtain ⟨input, output, -, -⟩ := h
    refine ⟨input, output, ?_, fun stay => ?_⟩
    · exact allowed.1.imp_right fun other => other.resolve_left input
    · exact (allowed.2 stay).imp_right fun other => other.resolve_left output

theorem Action.SuitsAcceptor.of_allowed {a a' : Alphabet} {action : Action}
    (h : action.SuitsAcceptor a) (kind : action.kind = .acceptor) (allowed : action.Allowed a') :
    action.SuitsAcceptor a' := by
  cases action with
  | turing d inp out => cases kind
  | acceptor inp =>
    obtain ⟨chosen, read, -⟩ := h
    refine ⟨chosen, read, ?_⟩
    rcases allowed with member | unchosen | empty
    · exact member
    · exact absurd unchosen chosen
    · exact absurd empty read

namespace Machine

variable {m m' : Machine} {a a' : Alphabet}

theorem Pruned.turingForm (h : m.Pruned m' (·.action.Allowed a')) (form : m.TuringForm a) :
    m'.TuringForm a' where
  one_start := h.existsUnique_state (fun _ _ => rfl) form.one_start
  one_final := h.existsUnique_state (fun _ _ => rfl) form.one_final
  final_stays := by
    intro s' hs' final t ht
    obtain ⟨s, hs, id, same⟩ := h.mem_states hs'
    rw [id]
    exact form.final_stays s hs (same ▸ final) t (h.sublist.subset ht)
  inputs_distinct := h.inputsDistinct form.inputs_distinct
  symbols_suit := by
    intro t ht
    obtain ⟨old, allowed⟩ := (h.mem_iff t).mp ht
    exact (form.symbols_suit t old).of_allowed allowed

theorem Pruned.acceptorForm (h : m.Pruned m' (·.action.Allowed a')) (arena : m.Arena)
    (acceptor : m.kind = .acceptor) (fewer : ∀ c ∈ a'.symbols, c ∈ a.symbols)
    (form : m.AcceptorForm a) : m'.AcceptorForm a' where
  one_start := h.existsUnique_state (fun _ _ => rfl) form.one_start
  inputs_distinct := h.inputsDistinct form.inputs_distinct
  symbols_suit := by
    intro t ht
    obtain ⟨old, allowed⟩ := (h.mem_iff t).mp ht
    exact (form.symbols_suit t old).of_allowed ((arena.action_kind t old).trans acceptor) allowed
  complete := by
    intro s' hs' c hc
    obtain ⟨s, hs, id, -⟩ := h.mem_states hs'
    obtain ⟨t, ht, source, input⟩ := form.complete s hs c (fewer c hc)
    -- The transition for a symbol that the new alphabet has is not pruned.
    have allowed : t.action.Allowed a' := by
      have kind := (arena.action_kind t ht).trans acceptor
      have member : a'.contains t.input = .ok true := input ▸ Alphabet.contains_of_mem_symbols hc
      unfold Transition.input at member
      cases haction : t.action with
      | turing d inp out =>
        rw [haction] at kind
        cases kind
      | acceptor inp =>
        rw [haction] at member
        exact .inl member
    exact ⟨t, (h.mem_iff t).mpr ⟨ht, allowed⟩, source.trans id.symm, input⟩

/-- **Pruning keeps the form of a machine**, of an acceptor if there are no new letters and digits. -/
theorem Pruned.form (h : m.Pruned m' (·.action.Allowed a')) (arena : m.Arena)
    (fewer : m.kind = .acceptor → ∀ c ∈ a'.symbols, c ∈ a.symbols) (form : m.Form a) :
    m'.Form a' := by
  unfold Form at form ⊢
  rw [h.kind]
  cases kind : m.kind with
  | turing =>
    rw [kind] at form
    exact h.turingForm form
  | acceptor =>
    rw [kind] at form
    exact h.acceptorForm arena kind (fewer kind) form

/-- The form of a machine is measured by a given alphabet, not by the one that it names. -/
theorem Form.setAlphabet (form : m.Form a) (id : AlphabetId) : (m.setAlphabet id).Form a := by
  unfold Form at form ⊢
  rw [show (m.setAlphabet id).kind = m.kind from rfl]
  cases kind : m.kind with
  | turing =>
    rw [kind] at form
    exact ⟨form.1, form.2, form.3, form.4, form.5⟩
  | acceptor =>
    rw [kind] at form
    exact ⟨form.1, form.2, form.3, form.4⟩

theorem Arena.transitions_nodup (arena : m.Arena) : m.transitions.Nodup :=
  arena.transitions_increasing.imp fun lt same => Nat.ne_of_lt lt (congrArg Transition.id same)

end Machine

/-! ## Pruning in a workshop -/

/-- The entries of a list that have a property and those that do not make up the list. -/
theorem length_add_length_of_parts {α : Type} {l l₁ l₂ : List α} {p : α → Prop} (nodup : l.Nodup)
    (sub₁ : l₁.Sublist l) (sub₂ : l₂.Sublist l) (mem₁ : ∀ x, x ∈ l₁ ↔ x ∈ l ∧ ¬ p x)
    (mem₂ : ∀ x, x ∈ l₂ ↔ x ∈ l ∧ p x) : l₁.length + l₂.length = l.length := by
  have apart : (l₁ ++ l₂).Nodup := by
    refine List.nodup_append'.mpr ⟨nodup.sublist sub₁, nodup.sublist sub₂, ?_⟩
    exact fun x hx hx' => ((mem₁ x).mp hx).2 ((mem₂ x).mp hx').2
  have all : (l₁ ++ l₂).Perm l := by
    rw [List.perm_ext_iff_of_nodup apart nodup]
    intro x
    rw [List.mem_append, mem₁, mem₂, ← and_or_left]
    exact and_iff_left (Classical.em _).symm
  rw [← List.length_append, all.length_eq]

namespace Work

variable {b : Bench} {m : MachineId}

/-- Pruning deletes what the alphabet of the machine does not allow, and tells how much that was. -/
theorem exists_removeInconsistent_eq (arena : (b.shop.machine m).Arena)
    (hm : m.index < b.shop.machines.length)
    (legible : ∀ t ∈ (b.shop.machine m).transitions, t.action.isLegible = true) :
    ∃ doomed j, doomed.Sublist (b.shop.machine m).transitions ∧
      (∀ t, t ∈ doomed ↔
        t ∈ (b.shop.machine m).transitions ∧ ¬ t.action.Allowed (b.shop.alphabetOf m)) ∧
      removeInconsistent m none b = .ok doomed.length
        ⟨b.shop.setMachine m ((b.shop.machine m).deleteAll doomed), j⟩ ∧
      (doomed = [] → j = b.journal) := by
  obtain ⟨doomed, found, sub, mem⟩ := Machine.exists_inconsistent_eq fun t ht =>
    Action.exists_isConsistent_eq (b.shop.alphabetOf m) (legible t ht)
  obtain ⟨j, done, quiet⟩ := removeInconsistent_eq arena hm (a := none) found
  exact ⟨doomed, j, sub, mem, done, quiet⟩

/-- What pruning leaves of a machine and of its workshop. -/
theorem exists_pruned (arena : (b.shop.machine m).Arena) (hm : m.index < b.shop.machines.length)
    (legible : ∀ t ∈ (b.shop.machine m).transitions, t.action.isLegible = true) :
    ∃ n new j, removeInconsistent m none b = .ok n ⟨b.shop.setMachine m new, j⟩ ∧ new.Arena ∧
      (b.shop.machine m).Pruned new (·.action.Allowed (b.shop.alphabetOf m)) ∧
      n + new.transitions.length = (b.shop.machine m).transitions.length := by
  obtain ⟨doomed, j, sub, mem, hprune, -⟩ := exists_removeInconsistent_eq arena hm legible
  have pruned : (b.shop.machine m).Pruned ((b.shop.machine m).deleteAll doomed)
      (·.action.Allowed (b.shop.alphabetOf m)) := by
    refine (arena.pruned_deleteAll doomed).congr fun t ht => ?_
    constructor
    · intro other
      by_contra forbidden
      exact other t ((mem t).mpr ⟨ht, forbidden⟩) rfl
    · intro allowed t' ht' same
      obtain ⟨there, forbidden⟩ := (mem t').mp ht'
      exact forbidden (arena.transition_eq_of_id_eq ht there same ▸ allowed)
  exact ⟨doomed.length, _, j, hprune, arena.deleteAll doomed, pruned,
    length_add_length_of_parts arena.transitions_nodup sub pruned.sublist mem pruned.mem_iff⟩

/-- Where everything is allowed, pruning does nothing. -/
theorem removeInconsistent_of_allowed (arena : (b.shop.machine m).Arena)
    (hm : m.index < b.shop.machines.length)
    (legible : ∀ t ∈ (b.shop.machine m).transitions, t.action.isLegible = true)
    (allowed : ∀ t ∈ (b.shop.machine m).transitions, t.action.Allowed (b.shop.alphabetOf m)) :
    removeInconsistent m none b = .ok 0 b := by
  obtain ⟨doomed, j, sub, mem, hprune, quiet⟩ := exists_removeInconsistent_eq arena hm legible
  have none : doomed = [] := by
    refine List.eq_nil_iff_forall_not_mem.mpr fun t ht => ?_
    exact ((mem t).mp ht).2 (allowed t ((mem t).mp ht).1)
  rw [hprune, none, quiet none]
  simp only [Machine.deleteAll, List.foldl_nil, b.shop.setMachine_self hm]
  rfl

end Work

namespace Workshop

variable {w : Workshop} {m : MachineId} {a : AlphabetId}

/-- A clean machine is found valid. -/
theorem Good.valid_of_clean (good : w.Good) (hm : m.index < w.machines.length) (clean : w.Clean m)
    (j : Journal) : outcome (Work.validate m) ⟨w, j⟩ = .ok () := by
  obtain ⟨b, -, -, hvalidate, -⟩ := Work.validate_spec (b := ⟨w, j⟩) good hm
  rw [outcome_of_conclude hvalidate, (good.sane.defectOf_eq_none_iff hm).mpr clean]
  rfl

/-- A clean machine stays clean when it is replaced by one that follows the rules and holds the same
machines. -/
theorem Clean.setMachine (clean : w.Clean m) (hm : m.index < w.machines.length) {new : Machine}
    (rules : new.Rules (w.alphabet new.alphabet))
    (submachines : new.submachines = (w.machine m).submachines) : (w.setMachine m new).Clean m := by
  have nests {x i : MachineId} (edge : (w.setMachine m new).Nests x i) : w.Nests x i := by
    rw [nests_setMachine hm] at edge
    split at edge
    · rename_i here
      rw [submachines] at edge
      exact here ▸ edge
    · exact edge
  intro n path
  have reached : ReflTransGen w.Nests m n := path.lift id fun _ _ => nests
  rw [alphabetOf, machine_setMachine hm]
  split
  · exact rules
  · exact clean n reached

/-- **A machine that is given another alphabet and pruned stays valid.**  Take a machine that is found
valid, and any alphabet; for an acceptor, one without new letters and digits.  Pruning leaves exactly
the transitions that the new alphabet allows, with their identifiers and actions and in their order, and
tells how many it took out.  It touches nothing else in the workshop; the machine is found valid again;
and to prune it once more does nothing. -/
theorem pruning_keeps_validity (h : w.Reachable) (hm : m.index < w.machines.length)
    (ha : a.index < w.alphabets.length) {j₀ : Journal}
    (valid : outcome (Work.validate m) ⟨w, j₀⟩ = .ok ()) (j : Journal) :
    let b₁ := after (Work.setAlphabet m a) ⟨w, j⟩
    let b₂ := after (Work.removeInconsistent m none) b₁
    let new := b₂.shop.machine m
    outcome (Work.setAlphabet m a) ⟨w, j⟩ = .ok () ∧
    (∃ n, outcome (Work.removeInconsistent m none) b₁ = .ok n ∧
      n + new.transitions.length = (w.machine m).transitions.length) ∧
    ((w.machine m).setAlphabet a).Pruned new (·.action.Allowed (w.alphabet a)) ∧
    b₂.shop.alphabets = w.alphabets ∧ (∀ n, n ≠ m → b₂.shop.machine n = w.machine n) ∧
    (((w.machine m).kind = .acceptor →
        ∀ c ∈ (w.alphabet a).symbols, c ∈ (w.alphabetOf m).symbols) →
      outcome (Work.validate m) b₂ = .ok ()) ∧
    Work.removeInconsistent m none b₂ = .ok 0 b₂ := by
  intro b₁ b₂ new
  have sane := h.good.sane
  have clean := h.good.clean_of_valid hm valid
  have rules := clean.rules .refl
  have legible := rules.isLegible (sane.arena m)
  -- The machine with its new alphabet.
  have hm₁ : m.index < b₁.shop.machines.length := by
    change m.index < (w.setMachine m _).machines.length
    simpa [Workshop.setMachine] using hm
  have machine₁ : b₁.shop.machine m = (w.machine m).setAlphabet a := w.machine_setMachine_self m _ hm
  have alphabet₁ : b₁.shop.alphabetOf m = w.alphabet a := by rw [alphabetOf, machine₁]; rfl
  -- The machine that is left.
  have arena₁ : (b₁.shop.machine m).Arena := machine₁ ▸ (sane.arena m).setAlphabet a
  obtain ⟨n, left, j', hprune, arena, pruned, count⟩ :=
    Work.exists_pruned arena₁ hm₁ (machine₁ ▸ legible)
  rw [machine₁] at pruned count
  rw [alphabet₁] at pruned
  have shop₂ : b₂.shop = w.setMachine m left := by
    rw [show b₂ = _ from after_of_ok hprune]
    exact w.setMachine_setMachine m _ left
  have machine₂ : new = left := by
    change b₂.shop.machine m = left
    rw [shop₂, w.machine_setMachine_self m left hm]
  have alphabet₂ : left.alphabet = a := pruned.alphabet
  have kept (t : Transition) (ht : t ∈ left.transitions) := (pruned.mem_iff t).mp ht
  have legible₂ (t : Transition) (ht : t ∈ left.transitions) := legible t (kept t ht).1
  have good₂ : b₂.shop.Good := by
    refine (Work.changes_removeInconsistent arena₁ hm₁ none).good ?_
    exact Changes.good (.single (.setAlphabet hm ha)) h.good
  have hm₂ : m.index < b₂.shop.machines.length := by
    rw [shop₂]
    simpa [Workshop.setMachine] using hm
  refine ⟨rfl, ⟨n, outcome_of_ok hprune, machine₂ ▸ count⟩, machine₂ ▸ pruned, ?_, fun n other => ?_,
    fun fewer => ?_, ?_⟩
  · rw [shop₂]
    rfl
  · rw [shop₂, w.machine_setMachine_of_ne m n left other]
  · have form : left.Form (w.alphabet a) :=
      pruned.form ((sane.arena m).setAlphabet a) fewer ((rules.form (sane.arena m)).setAlphabet a)
    refine good₂.valid_of_clean hm₂ ?_ b₂.journal
    rw [shop₂]
    exact clean.setMachine hm (alphabet₂ ▸ form.rules arena legible₂) pruned.submachines
  · have alphabetOf₂ : b₂.shop.alphabetOf m = w.alphabet a := by
      rw [alphabetOf, show b₂.shop.machine m = left from machine₂, alphabet₂, shop₂]
      rfl
    refine Work.removeInconsistent_of_allowed (good₂.sane.arena m) hm₂ ?_ ?_
    · rw [show b₂.shop.machine m = left from machine₂]
      exact legible₂
    · rw [show b₂.shop.machine m = left from machine₂, alphabetOf₂]
      exact fun t ht => (kept t ht).2

/-- The acceptor that counts ones, beside an alphabet without ones and without the blank. -/
def narrowed : Bench := Command.runAll [.parseAlphabet "0"] parity

/-- Of the five transitions of the acceptor, those for zero are left. -/
theorem narrowed_is_pruned :
    let b₁ := after (Work.setAlphabet ⟨0⟩ ⟨1⟩) narrowed
    let b₂ := after (Work.removeInconsistent ⟨0⟩ none) b₁
    narrowed.shop.Reachable ∧ outcome (Work.validate ⟨0⟩) narrowed = .ok () ∧
    outcome (Work.removeInconsistent ⟨0⟩ none) b₁ = .ok 3 ∧
    (b₂.shop.machine ⟨0⟩).transitions.map (·.id) = [0, 2] ∧
    ((narrowed.shop.machine ⟨0⟩).setAlphabet ⟨1⟩).Pruned (b₂.shop.machine ⟨0⟩)
      (·.action.Allowed (narrowed.shop.alphabet ⟨1⟩)) ∧
    outcome (Work.validate ⟨0⟩) b₂ = .ok () ∧ Work.removeInconsistent ⟨0⟩ none b₂ = .ok 0 b₂ := by
  intro b₁ b₂
  have reachable : narrowed.shop.Reachable :=
    .runAll (.runAll .empty (by decide +kernel)) (by decide +kernel)
  have valid : outcome (Work.validate ⟨0⟩) narrowed = .ok () := eq_ok_of_toOption (by decide +kernel)
  have five : (narrowed.shop.machine ⟨0⟩).transitions.length = 5 := by decide +kernel
  have two : (b₂.shop.machine ⟨0⟩).transitions.length = 2 := by decide +kernel
  obtain ⟨-, ⟨n, counted, count⟩, pruned, -, -, stays, again⟩ := pruning_keeps_validity reachable
    (m := ⟨0⟩) (a := ⟨1⟩) (by decide +kernel) (by decide +kernel) valid narrowed.journal
  have three : n + 2 = 5 := (two ▸ count).trans five
  obtain rfl : n = 3 := by omega
  have old : (narrowed.shop.alphabetOf ⟨0⟩).symbols = ['0', '1'] := by decide +kernel
  have new : (narrowed.shop.alphabet ⟨1⟩).symbols = ['0'] := by decide +kernel
  have fewer : ∀ c ∈ (narrowed.shop.alphabet ⟨1⟩).symbols,
      c ∈ (narrowed.shop.alphabetOf ⟨0⟩).symbols := by
    intro c hc
    rw [new, List.mem_singleton] at hc
    rw [old, hc]
    exact .head _
  exact ⟨reachable, valid, counted, by decide +kernel, pruned, stays fun _ => fewer, again⟩

end Workshop

end MachineLab
