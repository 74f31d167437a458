import MachineLab.Proofs.Arena
import MachineLab.Proofs.Nesting
import MachineLab.Workshop.Validation

/-!
# The determinism check without a memory

Validation remembers which machines it has found valid.  Here is the same check without that memory,
and what it means to pass it.  `Workshop.defectTo` looks at the states and transitions of a machine,
descends into the machines nested in the states, in the order in which validation does, and reports the
same first defect.

## Main definitions

* `Machine.TuringRules`, `Machine.AcceptorRules` — the rules of each kind.
* `Workshop.defectOf` — the first defect of a machine and everything nested in it.
* `Workshop.Clean` — neither a machine nor anything below it breaks a rule.

## Main statements

* `Workshop.defectAmong_eq_none_iff`, `Machine.acceptorDefect_eq_none_iff` — the check of a machine
  passes exactly if the rules of its kind hold.
* `Workshop.defectTo_eq_none_iff` — the descending check passes exactly if the machine is clean.
* `Workshop.defectTo_eq_error` — what the check can fail on.
-/

namespace MachineLab

open Relation

/-! ## Transitions -/

/-- Whether a symbol may stand in a transition: the alphabet has it, or it is the given reserved
one. -/
def Alphabet.Admits (a : Alphabet) (symbol reserved : Symbol) : Prop :=
  ∃ known, a.contains symbol = .ok known ∧ (known = true ∨ symbol.eqv reserved = true)

/-- A transition of a Turing machine breaks no rule, given the inputs of those before it. -/
def Action.FitsTuring (a : Alphabet) (used : List Symbol) : Action → Prop
  | .acceptor _ => False
  | .turing d inp out =>
    inp.eqv Symbol.undefined = false ∧ out.eqv Symbol.undefined = false ∧ inp.isKey = true ∧
      inp.isIn used = false ∧ a.Admits inp Symbol.otherwise ∧
      (d = .stay → a.Admits out Symbol.noWrite)

/-- A transition of an acceptor breaks no rule, given the inputs of those before it. -/
def Action.FitsAcceptor (a : Alphabet) (used : List Symbol) (action : Action) : Prop :=
  action.input.eqv Symbol.undefined = false ∧ action.input.eqv Symbol.emptyInput = false ∧
    action.input.isKey = true ∧ action.input.isIn used = false ∧
    a.contains action.input = .ok true

/-- Each transition in a list fits, given the inputs of those before it. -/
def EdgesFit (fits : List Symbol → Action → Prop) : List Symbol → List Transition → Prop
  | _, [] => True
  | used, t :: rest => fits used t.action ∧ EdgesFit fits (t.input :: used) rest

namespace Machine

variable {m : Machine}

theorem turingEdgeDefect_eq_none_iff (arena : m.Arena) (a : Alphabet) (s : State)
    (used : List Symbol) {ts : List Transition} (live : ts ⊆ m.transitions) :
    m.turingEdgeDefect a s used ts = .ok none ↔ EdgesFit (Action.FitsTuring a) used ts := by
  induction ts generalizing used with
  | nil => simp [turingEdgeDefect, EdgesFit]
  | cons t rest ih =>
    rw [List.cons_subset] at live
    obtain ⟨text, described⟩ := arena.exists_description live.1
    replace ih := fun used => ih used live.2
    rw [turingEdgeDefect, EdgesFit]
    simp only [bind, Except.bind, pure, Except.pure, throw, throwThe, MonadExceptOf.throw, described]
    cases hact : t.action with
    | acceptor inp => simp [Action.FitsTuring]
    | turing d inp out =>
      have hinp : t.input = inp := by simp [Transition.input, hact, Action.input]
      simp only [hinp, ← ih, Action.FitsTuring, Alphabet.Admits]
      by_cases hu : inp.eqv Symbol.undefined = true
      · simp [hu]
      by_cases ho : out.eqv Symbol.undefined = true
      · simp [hu, ho]
      by_cases hk : inp.isKey = true
      swap
      · simp [hu, ho, hk]
      by_cases hin : inp.isIn used = true
      · simp [hu, ho, hk, hin]
      cases hc : a.contains inp with
      | error e => simp [hu, ho, hk, hin]
      | ok known =>
        by_cases hknown : known = true ∨ inp.eqv Symbol.otherwise = true
        swap
        · have : (!known && !inp.eqv Symbol.otherwise) = true := by
            simpa using hknown
          simp [hu, ho, hk, hin, this, hknown]
        have hfit : (!known && !inp.eqv Symbol.otherwise) = false := by
          rcases hknown with h | h <;> simp [h]
        by_cases hd : d = .stay
        swap
        · simp [hu, ho, hk, hin, hfit, hknown, hd]
        cases hco : a.contains out with
        | error e => simp [hu, ho, hk, hin, hfit, hknown, hd]
        | ok known' =>
          by_cases hout : known' = true ∨ out.eqv Symbol.noWrite = true
          · have : (!known' && !out.eqv Symbol.noWrite) = false := by
              rcases hout with h | h <;> simp [h]
            simp [hu, ho, hk, hin, hfit, hknown, hd, this, hout]
          · have : (!known' && !out.eqv Symbol.noWrite) = true := by simpa using hout
            simp [hu, ho, hk, hin, hfit, hknown, hd, this, hout]

theorem acceptorEdgeDefect_eq_none_iff (arena : m.Arena) (a : Alphabet) (s : State)
    (used : List Symbol) {ts : List Transition} (live : ts ⊆ m.transitions) (matched : List Symbol) :
    m.acceptorEdgeDefect a s used ts = .ok (none, matched) ↔
      EdgesFit (Action.FitsAcceptor a) used ts ∧
        matched = (ts.map Transition.input).reverse ++ used := by
  induction ts generalizing used with
  | nil => simp [acceptorEdgeDefect, EdgesFit, eq_comm]
  | cons t rest ih =>
    rw [List.cons_subset] at live
    obtain ⟨text, described⟩ := arena.exists_description live.1
    replace ih := fun used => ih used live.2
    rw [acceptorEdgeDefect, EdgesFit]
    simp only [bind, Except.bind, pure, Except.pure, throw, throwThe, MonadExceptOf.throw, described]
    have hinp : t.action.input = t.input := rfl
    simp only [Action.FitsAcceptor, hinp]
    by_cases hu : t.input.eqv Symbol.undefined = true
    · simp [hu]
    by_cases he : t.input.eqv Symbol.emptyInput = true
    · simp [hu, he]
    by_cases hk : t.input.isKey = true
    swap
    · simp [hu, he, hk]
    by_cases hin : t.input.isIn used = true
    · simp [hu, he, hk, hin]
    cases hc : a.contains t.input with
    | error e => simp [hu, he, hk, hin]
    | ok known =>
      cases known with
      | false => simp [hu, he, hk, hin]
      | true =>
        simp [hu, he, hk, hin, ih]

theorem turingStateDefect_eq_none_iff (arena : m.Arena) (a : Alphabet) (starts finals : Nat)
    {s : State} (hs : s ∈ m.states) :
    m.turingStateDefect a starts finals s = .ok none ↔
      (s.isStart = true → starts = 0) ∧ (s.isFinal = true → finals = 0) ∧
        (s.isFinal = true → m.exits s = []) ∧
        EdgesFit (Action.FitsTuring a) [] (m.exits s) := by
  rw [turingStateDefect, arena.leaving_eq hs,
    ← turingEdgeDefect_eq_none_iff arena a s [] (m.exits_subset s)]
  simp only [bind, Except.bind, pure, Except.pure]
  by_cases hstart : s.isStart = true ∧ 0 < starts
  · have : starts ≠ 0 := by omega
    simp [hstart.1, hstart.2, this]
  by_cases hf : s.isFinal = true ∧ 0 < finals
  · have : finals ≠ 0 := by omega
    simp only [Bool.and_eq_true, decide_eq_true_eq, hstart, hf, if_false, if_true, and_self]
    simp [this]
  have hstart' : s.isStart = true → starts = 0 := fun h => by
    by_contra hne
    exact hstart ⟨h, by omega⟩
  have hf' : s.isFinal = true → finals = 0 := fun h => by
    by_contra hne
    exact hf ⟨h, by omega⟩
  simp only [Bool.and_eq_true, decide_eq_true_eq, hstart, hf, if_false]
  by_cases hl : s.isFinal = true ∧ m.exits s ≠ []
  · simp [hl.1, hl.2]
  · have hl' : s.isFinal = true → m.exits s = [] := fun h => by
      by_contra hne
      exact hl ⟨h, hne⟩
    have hcond : ¬ (s.isFinal = true ∧ (!(m.exits s).isEmpty) = true) := by
      simpa using hl'
    simp only [hcond, if_false]
    exact ⟨fun h => ⟨hstart', hf', hl', h⟩, fun h => h.2.2.2⟩

/-! ## One machine -/

/-- The rules of a Turing machine: one start state, one final state that nothing leaves, and
transitions that fit. -/
structure TuringRules (m : Machine) (a : Alphabet) : Prop where
  one_start : m.states.countP (·.isStart) = 1
  one_final : m.states.countP (·.isFinal) = 1
  final_stays : ∀ s ∈ m.states, s.isFinal = true → m.exits s = []
  edges_fit : ∀ s ∈ m.states, EdgesFit (Action.FitsTuring a) [] (m.exits s)

/-- The rules of an acceptor: one start state, transitions that fit, and one for each symbol of the
alphabet in each state. -/
structure AcceptorRules (m : Machine) (a : Alphabet) : Prop where
  one_start : m.states.countP (·.isStart) = 1
  edges_fit : ∀ s ∈ m.states, EdgesFit (Action.FitsAcceptor a) [] (m.exits s)
  complete : ∀ s ∈ m.states, ∀ c ∈ a.symbols,
    Value.isIn (.text (String.singleton c)) ((m.exits s).map Transition.input).reverse = true

/-- The rules of a machine's kind. -/
def Rules (m : Machine) (a : Alphabet) : Prop :=
  match m.kind with
  | .turing => m.TuringRules a
  | .acceptor => m.AcceptorRules a

theorem countIf_eq (n : Nat) (flag : Bool) : countIf n flag = n + if flag then 1 else 0 := by
  cases flag <;> rfl

theorem acceptorStateDefect_eq_none_iff (arena : m.Arena) (a : Alphabet) (starts : Nat) {s : State}
    (hs : s ∈ m.states) :
    m.acceptorStateDefect a starts s = .ok none ↔
      (s.isStart = true → starts = 0) ∧ EdgesFit (Action.FitsAcceptor a) [] (m.exits s) ∧
        ∀ c ∈ a.symbols, Value.isIn (.text (String.singleton c))
          ((m.exits s).map Transition.input).reverse = true := by
  rw [acceptorStateDefect, arena.leaving_eq hs]
  by_cases hstart : s.isStart = true ∧ 0 < starts
  · have : starts ≠ 0 := by omega
    simp [hstart.1, hstart.2, this]
  have hstart' : s.isStart = true → starts = 0 := fun h => by
    by_contra hne
    exact hstart ⟨h, by omega⟩
  simp only [Bool.and_eq_true, decide_eq_true_eq, hstart, if_false, bind, Except.bind, pure,
    Except.pure]
  have hedges := acceptorEdgeDefect_eq_none_iff arena a s [] (m.exits_subset s)
  cases hres : m.acceptorEdgeDefect a s [] (m.exits s) with
  | error e =>
    have : ¬ EdgesFit (Action.FitsAcceptor a) [] (m.exits s) := fun h => by
      have := (hedges _).mpr ⟨h, rfl⟩
      rw [hres] at this
      cases this
    simp [this]
  | ok found =>
    obtain ⟨defect, matched⟩ := found
    cases defect with
    | some d =>
      have : ¬ EdgesFit (Action.FitsAcceptor a) [] (m.exits s) := fun h => by
        have := (hedges _).mpr ⟨h, rfl⟩
        rw [hres] at this
        cases this
      simp [this]
    | none =>
      obtain ⟨hfit, rfl⟩ := (hedges matched).mp hres
      simp only [List.append_nil]
      cases hfind : a.symbols.find? fun c => !Value.isIn (.text (String.singleton c))
          ((m.exits s).map Transition.input).reverse with
      | some c =>
        have hc := List.find?_some hfind
        have hmem := List.mem_of_find?_eq_some hfind
        simp only [Bool.not_eq_true'] at hc
        constructor
        · intro h
          cases h
        · rintro ⟨-, -, h⟩
          rw [h c hmem] at hc
          cases hc
      | none =>
        rw [List.find?_eq_none] at hfind
        simp only [Bool.not_eq_true, Bool.not_eq_false'] at hfind
        exact ⟨fun _ => ⟨hstart', hfit, hfind⟩, fun _ => rfl⟩

theorem acceptorDefect_eq_none_iff (arena : m.Arena) (a : Alphabet) {starts : Nat}
    (hs : starts ≤ 1) {ss : List State} (live : ss ⊆ m.states) :
    m.acceptorDefect a starts ss = .ok none ↔
      starts + ss.countP (·.isStart) = 1 ∧
        ∀ s ∈ ss, EdgesFit (Action.FitsAcceptor a) [] (m.exits s) ∧
          ∀ c ∈ a.symbols, Value.isIn (.text (String.singleton c))
            ((m.exits s).map Transition.input).reverse = true := by
  induction ss generalizing starts with
  | nil =>
    by_cases h : starts = 0
    · simp [acceptorDefect, h]
    · simp [acceptorDefect, h]
      omega
  | cons s rest ih =>
    rw [List.cons_subset] at live
    rw [acceptorDefect]
    have hstate := acceptorStateDefect_eq_none_iff arena a starts live.1
    simp only [List.countP_cons, List.forall_mem_cons]
    split
    · rename_i hnone
      obtain ⟨h1, h2, h3⟩ := hstate.mp hnone
      have hs' : countIf starts s.isStart ≤ 1 := by
        rw [countIf_eq]
        split
        · have := h1 ‹_›
          omega
        · omega
      rw [ih hs' live.2, countIf_eq]
      constructor
      · rintro ⟨e1, rules⟩
        exact ⟨by omega, ⟨h2, h3⟩, rules⟩
      · rintro ⟨e1, -, rules⟩
        exact ⟨by omega, rules⟩
    · rename_i hsome
      constructor
      · intro h
        exact absurd h hsome
      · rintro ⟨e1, ⟨h2, h3⟩, -⟩
        refine absurd (hstate.mpr ⟨?_, h2, h3⟩) hsome
        intro h
        simp only [h, if_true] at e1
        omega

theorem acceptorRules_iff (arena : m.Arena) (a : Alphabet) :
    m.acceptorDefect a 0 m.states = .ok none ↔ m.AcceptorRules a := by
  rw [acceptorDefect_eq_none_iff arena a (Nat.zero_le 1) (List.Subset.refl _), Nat.zero_add]
  constructor
  · rintro ⟨start, rules⟩
    exact ⟨start, fun s hs => (rules s hs).1, fun s hs => (rules s hs).2⟩
  · exact fun h => ⟨h.one_start, fun s hs => ⟨h.edges_fit s hs, h.complete s hs⟩⟩

end Machine

/-! ## Faults of the check

The check itself can fail on a transition with a symbol that cannot be looked up.  Such a fault is
never one of the reports that a machine makes. -/

/-- A fault that is no report of a machine. -/
def Fault.Foreign (e : Fault) : Prop := ∀ f, e ≠ .machine f

theorem Alphabet.contains_foreign {a : Alphabet} {symbol : Symbol} {e : Fault}
    (h : a.contains symbol = .error e) : e.Foreign := by
  intro f hf
  subst hf
  unfold contains at h
  split at h
  · cases h
  · split at h
    · rename_i s _
      unfold containsText at h
      split at h
      · split at h
        · cases h
        · cases h
        · rename_i hplace
          rw [Except.error.inj h] at hplace
          unfold place at hplace
          split at hplace
          · cases hplace
          · split at hplace <;> cases hplace
      · cases h
    · split at h <;> cases h
    · split at h <;> cases h
    · cases h

/-- The check can come to no decision about a transition in a machine of some kind. -/
inductive Transition.Baffles (kind : Kind) (a : Alphabet) (t : Transition) : Fault → Prop
  | action (h : t.action.kind ≠ kind) : Baffles kind a t (.refusal (.wrongAction kind t.action.kind))
  | key (h : t.input.isKey = false) : Baffles kind a t (.mismatch (.notKey t.input.kind))
  | input {e : Fault} (h : a.contains t.input = .error e) : Baffles kind a t e
  | output {inp out : Symbol} {e : Fault} (stay : t.action = .turing .stay inp out)
      (h : a.contains out = .error e) : Baffles kind a t e

theorem Transition.Baffles.foreign {kind : Kind} {a : Alphabet} {t : Transition} {e : Fault}
    (h : t.Baffles kind a e) : e.Foreign := by
  cases h with
  | action _ => exact fun f hf => by cases hf
  | key _ => exact fun f hf => by cases hf
  | input h => exact Alphabet.contains_foreign h
  | output _ h => exact Alphabet.contains_foreign h

namespace Machine

variable {m : Machine}

theorem turingEdgeDefect_eq_error (arena : m.Arena) {a : Alphabet} {s : State} {used : List Symbol}
    {ts : List Transition} (live : ts ⊆ m.transitions) {e : Fault}
    (h : m.turingEdgeDefect a s used ts = .error e) : ∃ t ∈ ts, t.Baffles .turing a e := by
  induction ts generalizing used with
  | nil => cases h
  | cons t rest ih =>
    rw [List.cons_subset] at live
    obtain ⟨text, described⟩ := arena.exists_description live.1
    have later {used : List Symbol} (h : m.turingEdgeDefect a s used rest = .error e) :
        ∃ t' ∈ t :: rest, t'.Baffles .turing a e := by
      obtain ⟨t', ht', baffles⟩ := ih live.2 h
      exact ⟨t', .tail _ ht', baffles⟩
    rw [turingEdgeDefect] at h
    simp only [bind, Except.bind, pure, Except.pure, throw, throwThe, MonadExceptOf.throw,
      described] at h
    split at h
    · rename_i i hact
      cases h
      have kind : t.action.kind = .acceptor := by rw [hact]; rfl
      exact ⟨t, .head _, kind ▸ .action (by simp [kind])⟩
    · rename_i d inp out hact
      have input : t.input = inp := by rw [Transition.input, hact]; rfl
      split at h
      · cases h
      split at h
      · cases h
      split at h
      · rename_i hkey
        cases h
        exact ⟨t, .head _, input ▸ .key (by simpa [input] using hkey)⟩
      split at h
      · cases h
      split at h
      · rename_i hc
        cases h
        exact ⟨t, .head _, .input (input ▸ hc)⟩
      split at h
      · cases h
      split at h
      · rename_i hstay
        split at h
        · rename_i hc
          cases h
          exact ⟨t, .head _, .output (beq_iff_eq.mp hstay ▸ hact) hc⟩
        split at h
        · cases h
        · exact later h
      · exact later h

theorem turingStateDefect_eq_error (arena : m.Arena) {a : Alphabet} {starts finals : Nat} {s : State}
    (hs : s ∈ m.states) {e : Fault} (h : m.turingStateDefect a starts finals s = .error e) :
    ∃ t ∈ m.transitions, t.Baffles .turing a e := by
  unfold turingStateDefect at h
  simp only [arena.leaving_eq hs, bind, Except.bind, pure, Except.pure] at h
  split at h
  · cases h
  split at h
  · cases h
  split at h
  · cases h
  · obtain ⟨t, ht, baffles⟩ := turingEdgeDefect_eq_error arena (m.exits_subset s) h
    exact ⟨t, m.exits_subset s ht, baffles⟩

theorem acceptorEdgeDefect_eq_error (arena : m.Arena) {a : Alphabet} {s : State} {used : List Symbol}
    {ts : List Transition} (live : ts ⊆ m.transitions) {e : Fault}
    (h : m.acceptorEdgeDefect a s used ts = .error e) : ∃ t ∈ ts, t.Baffles .acceptor a e := by
  induction ts generalizing used with
  | nil => cases h
  | cons t rest ih =>
    rw [List.cons_subset] at live
    obtain ⟨text, described⟩ := arena.exists_description live.1
    rw [acceptorEdgeDefect] at h
    simp only [bind, Except.bind, pure, Except.pure, throw, throwThe, MonadExceptOf.throw,
      described] at h
    split at h
    · cases h
    split at h
    · cases h
    split at h
    · rename_i hkey
      cases h
      exact ⟨t, .head _, .key (by simpa using hkey)⟩
    split at h
    · cases h
    split at h
    · rename_i hc
      cases h
      exact ⟨t, .head _, .input hc⟩
    split at h
    · cases h
    · obtain ⟨t', ht', baffles⟩ := ih live.2 h
      exact ⟨t', .tail _ ht', baffles⟩

theorem acceptorDefect_eq_error (arena : m.Arena) {a : Alphabet} {starts : Nat} {ss : List State}
    (live : ss ⊆ m.states) {e : Fault} (h : m.acceptorDefect a starts ss = .error e) :
    ∃ t ∈ m.transitions, t.Baffles .acceptor a e := by
  induction ss generalizing starts with
  | nil => cases h
  | cons s rest ih =>
    rw [List.cons_subset] at live
    rw [acceptorDefect] at h
    split at h
    · exact ih live.2 h
    · unfold acceptorStateDefect at h
      simp only [arena.leaving_eq live.1, bind, Except.bind, pure, Except.pure] at h
      split at h
      · cases h
      split at h
      · rename_i he
        cases h
        obtain ⟨t, ht, baffles⟩ := acceptorEdgeDefect_eq_error arena (m.exits_subset s) he
        exact ⟨t, m.exits_subset s ht, baffles⟩
      split at h
      · cases h
      · split at h <;> cases h

end Machine

/-! ## A machine and everything nested in it -/

namespace Workshop

/-- What a verdict on the machine nested in a state means for the machine around it. -/
def nestedVerdict (inner : MachineId → Except Fault (Option Defect)) (s : State) :
    Except Fault (Option Defect) :=
  match s.submachine with
  | none => .ok none
  | some i => (inner i).map (Option.map (Defect.nested s.label))

/-- The first defect of a Turing machine among the given states, with that of a nested machine
before that of the state that holds it. -/
def defectAmong (inner : MachineId → Except Fault (Option Defect)) (m : Machine) (a : Alphabet)
    (starts finals : Nat) : List State → Except Fault (Option Defect)
  | [] => .ok (if starts = 0 then some .noStart else if finals = 0 then some .noFinal else none)
  | s :: rest =>
    match nestedVerdict inner s with
    | .ok none =>
      match m.turingStateDefect a starts finals s with
      | .ok none =>
        defectAmong inner m a (Machine.countIf starts s.isStart)
          (Machine.countIf finals s.isFinal) rest
      | found => found
    | found => found

/-- The first defect of a machine and everything nested in it, descending at most `depth` levels and
remembering nothing. -/
def defectTo (w : Workshop) : Nat → MachineId → Except Fault (Option Defect)
  | 0, _ => .ok none
  | depth + 1, m =>
    match (w.machine m).kind with
    | .turing =>
      defectAmong (w.defectTo depth) (w.machine m) (w.alphabetOf m) 0 0 (w.machine m).states
    | .acceptor => (w.machine m).acceptorDefect (w.alphabetOf m) 0 (w.machine m).states

/-- The first defect of a machine and everything nested in it. -/
def defectOf (w : Workshop) (m : MachineId) : Except Fault (Option Defect) :=
  w.defectTo w.machines.length m

/-- Neither a machine nor any machine nested below it breaks a rule. -/
def Clean (w : Workshop) (m : MachineId) : Prop :=
  ∀ n, ReflTransGen w.Nests m n → (w.machine n).Rules (w.alphabetOf n)

/-- Only Turing machines hold others. -/
def Flat (w : Workshop) : Prop := ∀ m i, w.Nests m i → (w.machine m).kind = .turing

variable {w : Workshop}

theorem clean_iff (w : Workshop) (m : MachineId) :
    w.Clean m ↔ (w.machine m).Rules (w.alphabetOf m) ∧ ∀ i, w.Nests m i → w.Clean i := by
  constructor
  · intro h
    exact ⟨h m .refl, fun i edge n path => h n (.head edge path)⟩
  · rintro ⟨own, nested⟩ n path
    rcases ReflTransGen.cases_head path with rfl | ⟨i, edge, path⟩
    · exact own
    · exact nested i edge n path

theorem Clean.below {m n : MachineId} (h : w.Clean m) (path : ReflTransGen w.Nests m n) :
    w.Clean n := fun k path' => h k (path.trans path')

theorem nestedVerdict_eq_none_iff (inner : MachineId → Except Fault (Option Defect)) (s : State) :
    nestedVerdict inner s = .ok none ↔ ∀ i, s.submachine = some i → inner i = .ok none := by
  unfold nestedVerdict
  cases s.submachine with
  | none => simp
  | some i =>
    cases h : inner i with
    | error e => simp [Except.map, h]
    | ok found => cases found <;> simp [Except.map, h]

theorem defectAmong_eq_none_iff (inner : MachineId → Except Fault (Option Defect)) {m : Machine}
    (arena : m.Arena) (a : Alphabet) {starts finals : Nat} (hs : starts ≤ 1) (hf : finals ≤ 1)
    {ss : List State} (live : ss ⊆ m.states) :
    defectAmong inner m a starts finals ss = .ok none ↔
      starts + ss.countP (·.isStart) = 1 ∧ finals + ss.countP (·.isFinal) = 1 ∧
        ∀ s ∈ ss, (s.isFinal = true → m.exits s = []) ∧
          EdgesFit (Action.FitsTuring a) [] (m.exits s) ∧
          ∀ i, s.submachine = some i → inner i = .ok none := by
  induction ss generalizing starts finals with
  | nil =>
    by_cases h : starts = 0
    · simp [defectAmong, h]
    · by_cases h' : finals = 0
      · simp [defectAmong, h, h']
      · simp [defectAmong, h, h']
        omega
  | cons s rest ih =>
    rw [List.cons_subset] at live
    rw [defectAmong]
    have hnested := nestedVerdict_eq_none_iff inner s
    have hstate := Machine.turingStateDefect_eq_none_iff arena a starts finals live.1
    simp only [List.countP_cons, List.forall_mem_cons]
    split
    · rename_i passed
      have nested := hnested.mp passed
      split
      · rename_i hnone
        obtain ⟨h1, h2, h3, h4⟩ := hstate.mp hnone
        have hs' : Machine.countIf starts s.isStart ≤ 1 := by
          rw [Machine.countIf_eq]
          split
          · have := h1 ‹_›
            omega
          · omega
        have hf' : Machine.countIf finals s.isFinal ≤ 1 := by
          rw [Machine.countIf_eq]
          split
          · have := h2 ‹_›
            omega
          · omega
        rw [ih hs' hf' live.2, Machine.countIf_eq, Machine.countIf_eq]
        constructor
        · rintro ⟨e1, e2, rules⟩
          exact ⟨by omega, by omega, ⟨h3, h4, nested⟩, rules⟩
        · rintro ⟨e1, e2, -, rules⟩
          exact ⟨by omega, by omega, rules⟩
      · rename_i hsome
        constructor
        · intro h
          exact absurd h hsome
        · rintro ⟨e1, e2, ⟨h3, h4, -⟩, -⟩
          refine absurd (hstate.mpr ⟨?_, ?_, h3, h4⟩) hsome
          · intro h
            simp only [h, if_true] at e1
            omega
          · intro h
            simp only [h, if_true] at e2
            omega
    · rename_i failed
      constructor
      · intro h
        exact absurd h failed
      · rintro ⟨-, -, ⟨-, -, nested⟩, -⟩
        exact absurd (hnested.mpr nested) failed

theorem turingRules_iff (inner : MachineId → Except Fault (Option Defect)) {m : Machine}
    (arena : m.Arena) (a : Alphabet) :
    defectAmong inner m a 0 0 m.states = .ok none ↔
      m.TuringRules a ∧ ∀ s ∈ m.states, ∀ i, s.submachine = some i → inner i = .ok none := by
  rw [defectAmong_eq_none_iff inner arena a (Nat.zero_le 1) (Nat.zero_le 1) (List.Subset.refl _),
    Nat.zero_add, Nat.zero_add]
  constructor
  · rintro ⟨start, final, rules⟩
    exact ⟨⟨start, final, fun s hs => (rules s hs).1, fun s hs => (rules s hs).2.1⟩,
      fun s hs => (rules s hs).2.2⟩
  · rintro ⟨rules, nested⟩
    exact ⟨rules.one_start, rules.one_final,
      fun s hs => ⟨rules.final_stays s hs, rules.edges_fit s hs, nested s hs⟩⟩

/-- The verdict depends on nested machines only through those that the states hold. -/
theorem defectAmong_congr {inner inner' : MachineId → Except Fault (Option Defect)} (m : Machine)
    (a : Alphabet) (starts finals : Nat) (ss : List State)
    (same : ∀ s ∈ ss, ∀ i, s.submachine = some i → inner i = inner' i) :
    defectAmong inner m a starts finals ss = defectAmong inner' m a starts finals ss := by
  induction ss generalizing starts finals with
  | nil => rfl
  | cons s rest ih =>
    rw [List.forall_mem_cons] at same
    have hnested : nestedVerdict inner s = nestedVerdict inner' s := by
      unfold nestedVerdict
      cases hsub : s.submachine with
      | none => rfl
      | some i => simp only [same.1 i hsub]
    simp only [defectAmong, hnested, ih _ _ same.2]

/-- Descending further than a machine is nested changes no verdict. -/
theorem defectTo_eq_of_within {d d' : Nat} {m : MachineId} (h : w.Within d m) (le : d ≤ d') :
    w.defectTo d' m = w.defectTo d m := by
  induction d generalizing d' m with
  | zero => exact h.elim
  | succ d ih =>
    obtain ⟨e, rfl⟩ : ∃ e, d' = e + 1 := ⟨d' - 1, by omega⟩
    have inner : ∀ s ∈ (w.machine m).states, ∀ i, s.submachine = some i →
        w.defectTo e i = w.defectTo d i := by
      intro s hs i hi
      exact ih (h i ((w.nests_iff m i).mpr ⟨s, hs, hi⟩)) (by omega)
    simp only [defectTo, defectAmong_congr _ _ _ _ _ inner]

/-- **The descending check passes exactly if neither the machine nor anything below it breaks a
rule.** -/
theorem defectTo_eq_none_iff (arenas : ∀ m, (w.machine m).Arena) (flat : w.Flat) {d : Nat}
    {m : MachineId} (h : w.Within d m) : w.defectTo d m = .ok none ↔ w.Clean m := by
  induction d generalizing m with
  | zero => exact h.elim
  | succ d ih =>
    rw [clean_iff, defectTo, Machine.Rules]
    cases hk : (w.machine m).kind with
    | turing =>
      rw [turingRules_iff _ (arenas m)]
      refine and_congr_right fun _ => ?_
      constructor
      · intro nested i edge
        obtain ⟨s, hs, hi⟩ := (w.nests_iff m i).mp edge
        exact (ih (h i edge)).mp (nested s hs i hi)
      · intro nested s hs i hi
        have edge : w.Nests m i := (w.nests_iff m i).mpr ⟨s, hs, hi⟩
        exact (ih (h i edge)).mpr (nested i edge)
    | acceptor =>
      rw [Machine.acceptorRules_iff (arenas m)]
      refine ⟨fun own => ⟨own, fun i edge => ?_⟩, fun h => h.1⟩
      have turing := flat m i edge
      rw [hk] at turing
      cases turing

theorem defectAmong_eq_error {inner : MachineId → Except Fault (Option Defect)} {m : Machine}
    (arena : m.Arena) {a : Alphabet} {starts finals : Nat} {ss : List State} (live : ss ⊆ m.states)
    {e : Fault} (h : defectAmong inner m a starts finals ss = .error e) :
    (∃ t ∈ m.transitions, t.Baffles .turing a e) ∨
      ∃ s ∈ ss, ∃ i, s.submachine = some i ∧ inner i = .error e := by
  induction ss generalizing starts finals with
  | nil => cases h
  | cons s rest ih =>
    rw [List.cons_subset] at live
    rw [defectAmong] at h
    split at h
    · split at h
      · rcases ih live.2 h with own | ⟨s', hs', nested⟩
        · exact .inl own
        · exact .inr ⟨s', .tail _ hs', nested⟩
      · exact .inl (Machine.turingStateDefect_eq_error arena live.1 h)
    · unfold nestedVerdict at h
      cases hsub : s.submachine with
      | none =>
        rw [hsub] at h
        cases h
      | some i =>
        rw [hsub] at h
        cases hi : inner i with
        | error e' =>
          simp only [hi, Except.map] at h
          cases h
          exact .inr ⟨s, .head _, i, hsub, hi⟩
        | ok found =>
          simp only [hi, Except.map] at h
          cases h

/-- **The check fails only on a transition that it cannot decide about.** -/
theorem defectTo_eq_error (arenas : ∀ m, (w.machine m).Arena) {d : Nat} {m : MachineId} {e : Fault}
    (h : w.defectTo d m = .error e) :
    ∃ i, ReflTransGen w.Nests m i ∧ ∃ t ∈ (w.machine i).transitions,
      t.Baffles (w.machine i).kind (w.alphabetOf i) e := by
  induction d generalizing m with
  | zero => cases h
  | succ d ih =>
    rw [defectTo] at h
    split at h
    · rename_i kind
      rcases defectAmong_eq_error (arenas m) (List.Subset.refl _) h with
        ⟨t, ht, baffles⟩ | ⟨s, hs, i, hi, nested⟩
      · exact ⟨m, .refl, t, ht, kind ▸ baffles⟩
      · obtain ⟨n, path, baffled⟩ := ih nested
        exact ⟨n, .head ((w.nests_iff m i).mpr ⟨s, hs, hi⟩) path, baffled⟩
    · rename_i kind
      obtain ⟨t, ht, baffles⟩ := Machine.acceptorDefect_eq_error (arenas m) (List.Subset.refl _) h
      exact ⟨m, .refl, t, ht, kind ▸ baffles⟩

theorem defectTo_foreign (arenas : ∀ m, (w.machine m).Arena) {d : Nat} {m : MachineId} {e : Fault}
    (h : w.defectTo d m = .error e) : e.Foreign :=
  let ⟨_, _, _, _, baffles⟩ := defectTo_eq_error arenas h
  baffles.foreign

end Workshop

end MachineLab
