import MachineLab.Proofs.Members
import MachineLab.Proofs.Stepping
import Mathlib.Data.List.Forall2

/-!
# Copies of machines

A machine can be copied under other identifiers.  A copy has the same states and transitions in the
same order, up to a renaming of the states; where a state holds a machine, its copy holds a copy of
that machine.  One machine held by several states may be copied several times.

A copy breaks the same rule first and takes the same steps, so a run of a copy shows what a run of the
machine shows.  The stacks of the two runs are related frame by frame.

## Main definitions

* `Machine.Copies` — a copy, given what a copy of a submachine is.
* `Workshop.Copy` — a copy together with everything nested in it.
* `Agree` — two outcomes are the same fault or related results.

## Main statements

* `Machine.Copies.go` — a move of a copy.
* `Workshop.Copy.defectTo_eq` — the first defect of a copy.
* `Workshop.nextStack_agree` — a step of a copy.
-/

namespace MachineLab

open Relation

/-! ## Lists and outcomes that agree -/

section Agreement

variable {α β γ δ ε : Type} {R : α → β → Prop}

theorem forall₂_find? {p : α → Bool} {q : β → Bool} (same : ∀ a b, R a b → q b = p a)
    {l : List α} {l' : List β} (h : List.Forall₂ R l l') :
    Option.Rel R (l.find? p) (l'.find? q) := by
  induction h with
  | nil => exact .none
  | @cons a b _ _ hab _ ih =>
    rw [List.find?_cons, List.find?_cons, same a b hab]
    cases p a with
    | true => exact .some hab
    | false => exact ih

theorem exists_of_forall₂ {l : List α} {l' : List β} (h : List.Forall₂ R l l') {a : α}
    (ha : a ∈ l) : ∃ b ∈ l', R a b := by
  induction h with
  | nil => cases ha
  | @cons x y _ _ hxy _ ih =>
    rcases List.mem_cons.mp ha with rfl | ha
    · exact ⟨y, List.mem_cons_self .., hxy⟩
    · obtain ⟨b, hb, hab⟩ := ih ha
      exact ⟨b, .tail _ hb, hab⟩

theorem exists_of_forall₂_right {l : List α} {l' : List β} (h : List.Forall₂ R l l') {b : β}
    (hb : b ∈ l') : ∃ a ∈ l, R a b :=
  exists_of_forall₂ (R := flip R) h.flip hb

theorem exists_of_rel_some {a : α} {y : Option β} (h : Option.Rel R (some a) y) :
    ∃ b, y = some b ∧ R a b := by
  cases h with
  | some hab => exact ⟨_, rfl, hab⟩

theorem exists_of_rel_some_right {x : Option α} {b : β} (h : Option.Rel R x (some b)) :
    ∃ a, x = some a ∧ R a b := by
  cases h with
  | some hab => exact ⟨_, rfl, hab⟩

/-- Two outcomes are the same fault or related results. -/
inductive Agree (R : α → β → Prop) : Except ε α → Except ε β → Prop
  | ok {a : α} {b : β} (h : R a b) : Agree R (.ok a) (.ok b)
  | error (e : ε) : Agree R (.error e) (.error e)

theorem Agree.map {S : γ → δ → Prop} {f : α → γ} {g : β → δ} {x : Except ε α} {y : Except ε β}
    (h : Agree R x y) (hfg : ∀ a b, R a b → S (f a) (g b)) : Agree S (x.map f) (y.map g) := by
  cases h with
  | ok hab => exact .ok (hfg _ _ hab)
  | error e => exact .error e

theorem Agree.forget {x : Except ε α} {y : Except ε β} (h : Agree R x y) :
    y.map (fun _ => ()) = x.map (fun _ => ()) := by
  cases h <;> rfl

end Agreement

/-! ## Copies of one machine -/

/-- A state and its copy. -/
structure State.Copies (R : MachineId → MachineId → Prop) (ρ : Nat → Nat) (s s' : State) : Prop where
  id : s'.id = ρ s.id
  label : s'.label = s.label
  isStart : s'.isStart = s.isStart
  isFinal : s'.isFinal = s.isFinal
  submachine : Option.Rel R s.submachine s'.submachine

/-- A transition and its copy. -/
structure Transition.Copies (ρ : Nat → Nat) (t t' : Transition) : Prop where
  source : t'.source = ρ t.source
  target : t'.target = ρ t.target
  action : t'.action = t.action

/-- A machine and its copy, where `ρ` renames the states and `R` relates submachines to their
copies. -/
structure Machine.Copies (R : MachineId → MachineId → Prop) (ρ : Nat → Nat) (m m' : Machine) :
    Prop where
  kind : m'.kind = m.kind
  name : m'.name = m.name
  states : List.Forall₂ (State.Copies R ρ) m.states m'.states
  transitions : List.Forall₂ (Transition.Copies ρ) m.transitions m'.transitions
  apart : ∀ s ∈ m.states, ∀ u ∈ m.states, ρ s.id = ρ u.id → s.id = u.id

namespace Machine

variable {R : MachineId → MachineId → Prop} {ρ : Nat → Nat} {m m' : Machine} {a a' : Alphabet}
  {s s' : State} {t t' : Transition}

/-- A live state and its live copy. -/
def StatePair (R : MachineId → MachineId → Prop) (ρ : Nat → Nat) (m m' : Machine) (s s' : State) :
    Prop :=
  s ∈ m.states ∧ s' ∈ m'.states ∧ State.Copies R ρ s s'

/-- A live transition and its copy. -/
def EdgePair (ρ : Nat → Nat) (m : Machine) (t t' : Transition) : Prop :=
  t ∈ m.transitions ∧ Transition.Copies ρ t t'

namespace Copies

theorem statePairs (h : m.Copies R ρ m') : List.Forall₂ (StatePair R ρ m m') m.states m'.states :=
  (List.forall₂_and_left _ _).mpr
    ⟨fun _ hs => hs, ((List.forall₂_and_left _ _).mpr ⟨fun _ hs => hs, h.states.flip⟩).flip⟩

/-- The state that a live identifier stands for, and its copy. -/
theorem exists_pair (h : m.Copies R ρ m') (hs : s ∈ m.states) :
    ∃ s', StatePair R ρ m m' s s' :=
  let ⟨s', _, pair⟩ := exists_of_forall₂ h.statePairs hs
  ⟨s', pair⟩

theorem endpoint_eq (h : m.Copies R ρ m') (arena : m.Arena) (arena' : m'.Arena) {id : Nat}
    (live : ∃ q ∈ m.states, q.id = id) :
    ∃ q q', m.endpoint id = .ok q ∧ m'.endpoint (ρ id) = .ok q' ∧ StatePair R ρ m m' q q' := by
  obtain ⟨q, hq, rfl⟩ := live
  obtain ⟨q', pair⟩ := h.exists_pair hq
  exact ⟨q, q', arena.endpoint_eq hq, pair.2.2.id ▸ arena'.endpoint_eq pair.2.1, pair⟩

theorem describe_eq (h : m.Copies R ρ m') (arena : m.Arena) (arena' : m'.Arena)
    (ht : EdgePair ρ m t t') : m'.describe t' = m.describe t := by
  obtain ⟨p, p', hp, hp', source⟩ := h.endpoint_eq arena arena' (arena.source_live t ht.1)
  obtain ⟨q, q', hq, hq', target⟩ := h.endpoint_eq arena arena' (arena.target_live t ht.1)
  simp only [describe, Transition.input, h.kind, ht.2.source, ht.2.target, ht.2.action, hp, hp', hq, hq',
    source.2.2.label, target.2.2.label, bind, Except.bind]

/-- The transitions that leave a copy of a state are the copies of those that leave the state. -/
theorem exits (h : m.Copies R ρ m') (arena : m.Arena) (hs : StatePair R ρ m m' s s') :
    List.Forall₂ (EdgePair ρ m) (m.exits s) (m'.exits s') := by
  have edges : List.Forall₂ (EdgePair ρ m) m.transitions m'.transitions :=
    (List.forall₂_and_left _ _).mpr ⟨fun t ht => ht, h.transitions⟩
  refine List.rel_filter (fun t t' ht => ?_) edges
  -- The renaming does not merge the source of a live transition with another live state.
  obtain ⟨u, hu, hid⟩ := arena.source_live t ht.1
  simp only [beq_iff_eq, ht.2.source, hs.2.2.id]
  constructor
  · intro same
    rw [same]
  · intro same
    rw [← hid]
    exact h.apart u hu s hs.1 (hid ▸ same)

theorem choice? (h : m.Copies R ρ m') (arena : m.Arena) (hs : StatePair R ρ m m' s s')
    (symbol : Symbol) : Option.Rel (EdgePair ρ m) (m.choice? s symbol) (m'.choice? s' symbol) := by
  have found (symbol : Symbol) : Option.Rel (EdgePair ρ m)
      ((m.exits s).find? (·.input.eqv symbol)) ((m'.exits s').find? (·.input.eqv symbol)) :=
    forall₂_find? (fun t t' ht => by simp only [Transition.input, ht.2.action])
      (h.exits arena hs)
  have exactly := found symbol
  unfold Machine.choice? pick
  simp only [h.kind]
  generalize (m.exits s).find? (·.input.eqv symbol) = x at exactly ⊢
  generalize (m'.exits s').find? (·.input.eqv symbol) = y at exactly ⊢
  cases exactly with
  | some ht => exact .some ht
  | none =>
    cases m.kind with
    | turing => exact found Symbol.otherwise
    | acceptor => exact .none

theorem startState? (h : m.Copies R ρ m') :
    Option.Rel (StatePair R ρ m m') m.startState? m'.startState? :=
  forall₂_find? (fun _ _ hs => hs.2.2.isStart) h.statePairs

theorem goAlong (h : m.Copies R ρ m') (arena : m.Arena) (arena' : m'.Arena)
    (ht : EdgePair ρ m t t') (tape : Tape) :
    Agree (fun c c' => StatePair R ρ m m' c.1 c'.1 ∧ c'.2 = c.2) (m.goAlong t tape)
      (m'.goAlong t' tape) := by
  obtain ⟨q, q', hq, hq', pair⟩ := h.endpoint_eq arena arena' (arena.target_live t ht.1)
  unfold Machine.goAlong
  rw [ht.2.action, ht.2.target, hq, hq']
  cases t.action.effect tape with
  | ok tape' => exact .ok ⟨pair, rfl⟩
  | error e => exact .error e

/-- **A copy moves as the machine does.** -/
theorem go (h : m.Copies R ρ m') (arena : m.Arena) (arena' : m'.Arena)
    (hs : StatePair R ρ m m' s s') (tape : Tape) :
    Agree (fun c c' => StatePair R ρ m m' c.1 c'.1 ∧ c'.2 = c.2) (m.go s tape)
      (m'.go s' tape) := by
  have stop : m'.turingStop s' tape = m.turingStop s tape := by
    simp only [turingStop, h.name, hs.2.2.isFinal, hs.2.2.label]
  have chosen := h.choice? arena hs (.text tape.read)
  unfold Machine.go
  rw [h.kind, stop, hs.2.2.isFinal, hs.2.2.label]
  generalize m.choice? s (.text tape.read) = x at chosen ⊢
  generalize m'.choice? s' (.text tape.read) = y at chosen ⊢
  cases chosen with
  | none =>
    cases m.kind with
    | turing => exact .error _
    | acceptor =>
      simp only
      split <;> exact .error _
  | @some t t' ht =>
    cases m.kind with
    | turing => exact h.goAlong arena arena' ht tape
    | acceptor =>
      have input : t'.input = t.input := by simp only [Transition.input, ht.2.action]
      simp only [input]
      split
      · exact h.goAlong arena arena' ht tape
      · exact .error _

/-! ### Defects of a copy -/

section Defects

variable {used : List Symbol} {ts ts' : List Transition} {ss ss' : List State} {starts finals : Nat}

theorem turingEdgeDefect_eq (h : m.Copies R ρ m') (arena : m.Arena) (arena' : m'.Arena)
    (same : a.Same a') (label : s'.label = s.label) (edges : List.Forall₂ (EdgePair ρ m) ts ts') :
    m'.turingEdgeDefect a' s' used ts' = m.turingEdgeDefect a s used ts := by
  induction edges generalizing used with
  | nil => rfl
  | cons ht _ ih =>
    simp only [turingEdgeDefect, ht.2.action, h.describe_eq arena arena' ht, same.contains, label, ih]

theorem acceptorEdgeDefect_eq (h : m.Copies R ρ m') (arena : m.Arena) (arena' : m'.Arena)
    (same : a.Same a') (label : s'.label = s.label) (edges : List.Forall₂ (EdgePair ρ m) ts ts') :
    m'.acceptorEdgeDefect a' s' used ts' = m.acceptorEdgeDefect a s used ts := by
  induction edges generalizing used with
  | nil => rfl
  | cons ht _ ih =>
    simp only [acceptorEdgeDefect, Transition.input, ht.2.action, h.describe_eq arena arena' ht,
      same.contains, label, ih]
    rfl

theorem turingStateDefect_eq (h : m.Copies R ρ m') (arena : m.Arena) (arena' : m'.Arena)
    (same : a.Same a') (hs : StatePair R ρ m m' s s') :
    m'.turingStateDefect a' starts finals s' = m.turingStateDefect a starts finals s := by
  have edges := h.exits arena hs
  have empty : (m'.exits s').isEmpty = (m.exits s).isEmpty := by
    cases hl : m.exits s <;> cases hl' : m'.exits s' <;> simp_all
  simp only [turingStateDefect, arena.leaving_eq hs.1, arena'.leaving_eq hs.2.1, hs.2.2.isStart,
    hs.2.2.isFinal, hs.2.2.label, bind, Except.bind, empty,
    h.turingEdgeDefect_eq arena arena' same hs.2.2.label edges]

theorem acceptorDefect_eq (h : m.Copies R ρ m') (arena : m.Arena) (arena' : m'.Arena)
    (same : a.Same a') (states : List.Forall₂ (StatePair R ρ m m') ss ss') :
    m'.acceptorDefect a' starts ss' = m.acceptorDefect a starts ss := by
  induction states generalizing starts with
  | nil => rfl
  | @cons s s' _ _ hs _ ih =>
    have state : m'.acceptorStateDefect a' starts s' = m.acceptorStateDefect a starts s := by
      simp only [acceptorStateDefect, arena.leaving_eq hs.1, arena'.leaving_eq hs.2.1, hs.2.2.isStart,
        hs.2.2.label, same.symbols, bind, Except.bind,
        h.acceptorEdgeDefect_eq arena arena' same hs.2.2.label (h.exits arena hs)]
    simp only [acceptorDefect, state, hs.2.2.isStart, ih]

theorem defectAmong_eq (h : m.Copies R ρ m') (arena : m.Arena) (arena' : m'.Arena)
    (same : a.Same a') {inner inner' : MachineId → Except Fault (Option Defect)}
    (nested : ∀ i i', R i i' → inner' i' = inner i)
    (states : List.Forall₂ (StatePair R ρ m m') ss ss') :
    Workshop.defectAmong inner' m' a' starts finals ss' =
      Workshop.defectAmong inner m a starts finals ss := by
  induction states generalizing starts finals with
  | nil => rfl
  | @cons s s' _ _ hs _ ih =>
    have held : Workshop.nestedVerdict inner' s' = Workshop.nestedVerdict inner s := by
      have sub := hs.2.2.submachine
      unfold Workshop.nestedVerdict
      rw [hs.2.2.label]
      generalize s.submachine = x at sub ⊢
      generalize s'.submachine = y at sub ⊢
      cases sub with
      | none => rfl
      | some hi => simp only [nested _ _ hi]
    simp only [Workshop.defectAmong, held, h.turingStateDefect_eq arena arena' same hs,
      hs.2.2.isStart, hs.2.2.isFinal, ih]

end Defects

end Copies

end Machine

/-! ## Copies with everything nested in them -/

namespace Workshop

variable {w w' : Workshop} {d : Nat} {m m' root root' : MachineId}

/-- A machine of one workshop and its copy in another, each with at most `d` levels. -/
def Copy (w w' : Workshop) : Nat → MachineId → MachineId → Prop
  | 0, _, _ => False
  | d + 1, m, m' =>
    (m.index < w.machines.length ∧ m'.index < w'.machines.length) ∧
      (∃ ρ, (w.machine m).Copies (Copy w w' d) ρ (w'.machine m')) ∧
      (w.alphabetOf m).Same (w'.alphabetOf m')

theorem Copy.known (h : Copy w w' d m m') :
    m.index < w.machines.length ∧ m'.index < w'.machines.length := by
  cases d with
  | zero => exact h.elim
  | succ d => exact h.1

theorem Copy.kind_eq (h : Copy w w' d m m') : (w'.machine m').kind = (w.machine m).kind := by
  cases d with
  | zero => exact h.elim
  | succ d =>
    obtain ⟨-, ⟨ρ, copies⟩, -⟩ := h
    exact copies.kind

/-- **The first defect of a copy is that of the machine.** -/
theorem Copy.defectTo_eq (sane : w.Sane) (sane' : w'.Sane) (h : Copy w w' d m m') :
    w'.defectTo d m' = w.defectTo d m := by
  induction d generalizing m m' with
  | zero => exact h.elim
  | succ d ih =>
    obtain ⟨-, ⟨ρ, copies⟩, same⟩ := h
    have arena := sane.arena m
    have arena' := sane'.arena m'
    rw [defectTo, defectTo, copies.kind]
    cases (w.machine m).kind with
    | turing =>
      exact copies.defectAmong_eq arena arena' same (fun i i' hi => ih hi) copies.statePairs
    | acceptor => exact copies.acceptorDefect_eq arena arena' same copies.statePairs

theorem Copy.within (h : Copy w w' d m m') : w.Within d m ∧ w'.Within d m' := by
  induction d generalizing m m' with
  | zero => exact h.elim
  | succ d ih =>
    obtain ⟨-, ⟨ρ, copies⟩, -⟩ := h
    constructor
    · intro i edge
      obtain ⟨s, hs, hi⟩ := (w.nests_iff _ _).mp edge
      obtain ⟨s', -, hcopy⟩ := exists_of_forall₂ copies.states hs
      obtain ⟨i', -, hi'⟩ := exists_of_rel_some (hi ▸ hcopy.submachine)
      exact (ih hi').1
    · intro i' edge
      obtain ⟨s', hs', hi'⟩ := (w'.nests_iff _ _).mp edge
      obtain ⟨s, -, hcopy⟩ := exists_of_forall₂_right copies.states hs'
      obtain ⟨i, -, hi⟩ := exists_of_rel_some_right (hi' ▸ hcopy.submachine)
      exact (ih hi).2

/-- A check that descends as far as a machine is nested finds what the unbounded one finds. -/
theorem defectOf_eq_defectTo (sane : w.Sane) (known : m.index < w.machines.length)
    (deep : w.Within d m) : w.defectOf m = w.defectTo d m :=
  (defectTo_eq_of_within (sane.within known) (le_max_right d _)).symm.trans
    (defectTo_eq_of_within deep (le_max_left _ _))

theorem Copy.defectOf_eq (sane : w.Sane) (sane' : w'.Sane) (h : Copy w w' d m m') :
    w'.defectOf m' = w.defectOf m := by
  rw [defectOf_eq_defectTo sane h.known.1 h.within.1,
    defectOf_eq_defectTo sane' h.known.2 h.within.2, h.defectTo_eq sane sane']

/-! ## Runs of a copy -/

/-- A running machine and its running copy, in a state and in its copy. -/
def FrameCopies (w w' : Workshop) (f f' : Frame) : Prop :=
  ∃ d ρ, (w.machine f.machine).Copies (Copy w w' d) ρ (w'.machine f'.machine) ∧
    Machine.StatePair (Copy w w' d) ρ (w.machine f.machine) (w'.machine f'.machine) f.state f'.state

/-- The stacks of a run and of a run of a copy, with their tapes. -/
def RunsAlike (w w' : Workshop) (c c' : List Frame × Tape) : Prop :=
  List.Forall₂ (FrameCopies w w') c.1 c'.1 ∧ c'.2 = c.2

section Steps

variable {f f' : Frame} {below below' stack stack' : List Frame} {c c' : List Frame × Tape}

theorem enterTop_agree (h : Copy w w' d m m') (rest : List.Forall₂ (FrameCopies w w') below below')
    (t : Tape) : Agree (RunsAlike w w') (w.enterTop m below t) (w'.enterTop m' below' t) := by
  cases d with
  | zero => exact h.elim
  | succ d =>
    obtain ⟨-, ⟨ρ, copies⟩, -⟩ := h
    have start := copies.startState?
    unfold enterTop
    generalize (w.machine m).startState? = x at start ⊢
    generalize (w'.machine m').startState? = y at start ⊢
    cases start with
    | none => exact .error _
    | some pair => exact .ok ⟨.cons ⟨d, ρ, copies, pair⟩ rest, rfl⟩

theorem moveTop_agree (sane : w.Sane) (sane' : w'.Sane) (h : FrameCopies w w' f f')
    (rest : List.Forall₂ (FrameCopies w w') below below') (t : Tape) :
    Agree (RunsAlike w w') (w.moveTop f below t) (w'.moveTop f' below' t) := by
  obtain ⟨d, ρ, copies, pair⟩ := h
  refine (copies.go (sane.arena _) (sane'.arena _) pair t).map fun c c' hc => ?_
  exact ⟨.cons ⟨d, ρ, copies, hc.1⟩ rest, hc.2⟩

theorem workTop_agree (sane : w.Sane) (sane' : w'.Sane) (h : FrameCopies w w' f f')
    (rest : List.Forall₂ (FrameCopies w w') below below') (t : Tape) :
    Agree (RunsAlike w w') (w.workTop f below t) (w'.workTop f' below' t) := by
  obtain ⟨d, ρ, copies, pair⟩ := h
  have inner := pair.2.2.submachine
  unfold workTop
  generalize f.state.submachine = x at inner ⊢
  generalize f'.state.submachine = y at inner ⊢
  cases inner with
  | none => exact moveTop_agree sane sane' ⟨d, ρ, copies, pair⟩ rest t
  | some hi => exact enterTop_agree hi (.cons ⟨d, ρ, copies, pair⟩ rest) t

/-- **A step of a copy is a copy of the step.** -/
theorem nextStack_agree (sane : w.Sane) (sane' : w'.Sane) (h : Copy w w' d root root')
    (frames : List.Forall₂ (FrameCopies w w') stack stack') (t : Tape) :
    Agree (RunsAlike w w') (w.nextStack root t stack) (w'.nextStack root' t stack') := by
  cases frames with
  | nil => exact enterTop_agree h .nil t
  | @cons g g' _ _ top rest =>
    cases rest with
    | nil => exact workTop_agree sane sane' top .nil t
    | cons next rest =>
      have final : g'.state.isFinal = g.state.isFinal := by
        obtain ⟨_, _, -, pair⟩ := top
        exact pair.2.2.isFinal
      simp only [nextStack, final]
      split
      · exact moveTop_agree sane sane' next rest t
      · exact workTop_agree sane sane' top (.cons next rest) t

theorem stepResult_agree (sane : w.Sane) (sane' : w'.Sane) (h : Copy w w' d root root')
    (hc : RunsAlike w w' c c') :
    Agree (RunsAlike w w') (w.stepResult root c) (w'.stepResult root' c') := by
  unfold stepResult
  rw [h.defectOf_eq sane sane', hc.2]
  cases verdict (w.defectOf root) with
  | error e => exact .error e
  | ok _ => exact nextStack_agree sane sane' h hc.1 c.2

namespace RunsAlike

/-- The copied run stays beside the run, also where a step fails. -/
theorem landing {x x' : Except Fault (List Frame × Tape)} (hc : RunsAlike w w' c c')
    (h : Agree (RunsAlike w w') x x') :
    RunsAlike w w' (Workshop.landing x c) (Workshop.landing x' c') := by
  cases h with
  | ok hab => exact hab
  | error e => exact hc

/-! ### What shows of a run -/

theorem labels_eq (hc : RunsAlike w w' c c') :
    c'.1.map (·.state.label) = c.1.map (·.state.label) := by
  have frames := hc.1
  generalize c.1 = stack at frames ⊢
  generalize c'.1 = stack' at frames ⊢
  induction frames with
  | nil => rfl
  | cons top _ ih =>
    obtain ⟨_, _, -, pair⟩ := top
    rw [List.map_cons, List.map_cons, ih, pair.2.2.label]

theorem getLast? (hc : RunsAlike w w' c c') :
    Option.Rel (FrameCopies w w') c.1.getLast? c'.1.getLast? := by
  have reversed := List.rel_reverse hc.1
  rw [List.getLast?_eq_head?_reverse, List.getLast?_eq_head?_reverse]
  generalize c.1.reverse = stack at reversed ⊢
  generalize c'.1.reverse = stack' at reversed ⊢
  cases reversed with
  | nil => exact .none
  | cons top _ => exact .some top

theorem haltedIn_eq (hc : RunsAlike w w' c c') (kind : Kind) (t : Tape) :
    haltedIn kind (c'.1.getLast?.map (·.state)) t = haltedIn kind (c.1.getLast?.map (·.state)) t := by
  have last := hc.getLast?
  generalize c.1.getLast? = x at last ⊢
  generalize c'.1.getLast? = y at last ⊢
  cases last with
  | none => rfl
  | some frame =>
    obtain ⟨_, _, -, pair⟩ := frame
    simp [haltedIn, pair.2.2.isFinal]

theorem acceptedIn_eq (hc : RunsAlike w w' c c') (kind : Kind) (t : Tape) :
    acceptedIn kind (c'.1.getLast?.map (·.state)) t =
      acceptedIn kind (c.1.getLast?.map (·.state)) t := by
  have last := hc.getLast?
  unfold acceptedIn
  rw [hc.haltedIn_eq]
  generalize c.1.getLast? = x at last ⊢
  generalize c'.1.getLast? = y at last ⊢
  cases last with
  | none => rfl
  | some frame =>
    obtain ⟨_, _, -, pair⟩ := frame
    simp [pair.2.2.isFinal]

end RunsAlike

end Steps

end Workshop

end MachineLab
