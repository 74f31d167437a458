import MachineLab.Proofs.Arena
import MachineLab.Proofs.Determinism
import MachineLab.Proofs.Effects
import MachineLab.Proofs.Equality

/-!
# Single moves

Taking a transition does something to the tape and leads to a state, or fails.  `Machine.go` is that
much of it, without the journal.  For Turing machines that follow the rules it is compared with a
relation that does not search: `Machine.Takes` says which transition belongs to a state and a symbol,
and `Machine.Moves` what becomes of it.

## Main definitions

* `Machine.go` — the move of a machine from a state, as a function.
* `Machine.Takes`, `Machine.Moves` — the move of a Turing machine, as a relation.

## Main statements

* `Machine.advance_eq` — carrying out a transition is `go` with a journal.
* `Machine.moves_iff` — in a Turing machine that follows the rules, the relation is the function.
-/

namespace MachineLab

/-! ## Texts as symbols -/

/-- Only texts are members of an alphabet. -/
theorem Alphabet.exists_text_of_contains {a : Alphabet} {v : Value} (h : a.contains v = .ok true) :
    ∃ s, v = .text s := by
  unfold Alphabet.contains at h
  split at h
  · cases h
  · split at h
    · exact ⟨_, rfl⟩
    · split at h <;> cases h
    · split at h <;> cases h
    · cases h

/-- What a transition may have in a place is a text. -/
theorem Alphabet.Admits.exists_text {a : Alphabet} {symbol : Symbol} {reserved : String}
    (h : a.Admits symbol (.text reserved)) : ∃ s, symbol = .text s := by
  obtain ⟨known, hknown, rfl | hreserved⟩ := h
  · exact Alphabet.exists_text_of_contains hknown
  · exact ⟨reserved, Value.eqv_text_iff.mp hreserved⟩

/-! ## Transitions that fit -/

theorem find?_input_eq_some {ts : List Transition} {s : String} {x : Transition}
    (h : ts.find? (·.input.eqv (.text s)) = some x) : x ∈ ts ∧ x.input = .text s := by
  have found : x.input.eqv (.text s) = true := by simpa using List.find?_some h
  exact ⟨List.mem_of_find?_eq_some h, Value.eqv_text_iff.mp found⟩

theorem find?_input_eq_none_iff {ts : List Transition} {s : String} :
    ts.find? (·.input.eqv (.text s)) = none ↔ ∀ x ∈ ts, x.input ≠ .text s := by
  simp [List.find?_eq_none, ← Value.eqv_text_iff]

section EdgesFit

variable {fits : List Symbol → Action → Prop} {used : List Symbol} {ts : List Transition}

theorem EdgesFit.exists_fits (h : EdgesFit fits used ts) {t : Transition} (ht : t ∈ ts) :
    ∃ used', used ⊆ used' ∧ fits used' t.action := by
  induction ts generalizing used with
  | nil => cases ht
  | cons t₀ rest ih =>
    rcases List.mem_cons.mp ht with rfl | ht
    · exact ⟨used, List.Subset.refl _, h.1⟩
    · obtain ⟨used', sub, hfit⟩ := ih h.2 ht
      exact ⟨used', List.subset_of_cons_subset sub, hfit⟩

/-- Transitions whose inputs are not repeated are told apart by their inputs. -/
theorem EdgesFit.eq_of_input_eq (h : EdgesFit fits used ts)
    (fresh : ∀ used action, fits used action → action.input.isIn used = false)
    {t t' : Transition} (ht : t ∈ ts) (ht' : t' ∈ ts) {s : String} (hinput : t.input = .text s)
    (hinput' : t'.input = .text s) : t = t' := by
  -- A transition after one with the same input would repeat that input.
  have later {used : List Symbol} {rest : List Transition} {u : Transition}
      (h : EdgesFit fits (.text s :: used) rest) (hu : u ∈ rest) : u.input ≠ .text s := by
    intro same
    obtain ⟨used', sub, hfit⟩ := h.exists_fits hu
    have notIn := fresh used' u.action hfit
    have hmem : Value.text s ∈ used' := sub (List.mem_cons_self ..)
    have isIn : u.input.isIn used' = true := by
      rw [same]
      exact List.any_eq_true.mpr ⟨_, hmem, Value.samePart_text_self s⟩
    exact Bool.false_ne_true (notIn.symm.trans isIn)
  induction ts generalizing used with
  | nil => cases ht
  | cons t₀ rest ih =>
    have hrest : EdgesFit fits (t₀.input :: used) rest := h.2
    rcases List.mem_cons.mp ht with first | ht <;> rcases List.mem_cons.mp ht' with first' | ht'
    · exact first.trans first'.symm
    · rw [← first, hinput] at hrest
      exact absurd hinput' (later hrest ht')
    · rw [← first', hinput'] at hrest
      exact absurd hinput (later hrest ht)
    · exact ih hrest ht ht'

end EdgesFit

theorem Action.FitsTuring.fresh {a : Alphabet} (used : List Symbol) (action : Action)
    (h : action.FitsTuring a used) : action.input.isIn used = false := by
  cases action with
  | turing d inp out => exact h.2.2.2.1
  | acceptor inp => exact h.elim

/-! ## Moves as a function -/

/-- What an action does to a tape. -/
def Action.effect (a : Action) (t : Tape) : Except Fault Tape :=
  match a.op? with
  | .ok (some op) => t.apply op
  | .ok none => .ok t
  | .error e => .error e

theorem Action.perform_eq (a : Action) (t : Tape) (j : Journal) :
    ∃ j', a.perform ⟨t, j⟩ =
      match a.effect t with
      | .ok t' => .ok () ⟨t', j'⟩
      | .error e => .error e ⟨t, j⟩ := by
  unfold Action.perform Action.effect
  cases a.op? with
  | error e => exact ⟨j, rfl⟩
  | ok op? =>
    cases op? with
    | none => exact ⟨j, rfl⟩
    | some op =>
      simp only [Tape.perform]
      cases t.apply op with
      | error e => exact ⟨j, rfl⟩
      | ok t' => exact ⟨_, rfl⟩

theorem Action.effect_stay (inp : Symbol) (s : String) (t : Tape) :
    (Action.turing .stay inp (.text s)).effect t =
      .ok (if (Value.text s).eqv Symbol.noWrite then t else t.write s) := by
  unfold Action.effect Action.op?
  by_cases h : (Value.text s).eqv Symbol.noWrite = true
  · simp only [if_pos h]
  · simp only [if_neg h]
    rfl

/-- An action that fits in a Turing machine fails only by moving left of the first cell. -/
theorem Action.FitsTuring.effect_eq_error {a : Alphabet} {used : List Symbol} {action : Action}
    (h : action.FitsTuring a used) {t : Tape} {e : Fault} (he : action.effect t = .error e) :
    e = .machine .tapeBounds ∧ t.head = 0 ∧ ∃ inp out, action = .turing .left inp out := by
  cases action with
  | acceptor inp => exact h.elim
  | turing d inp out =>
    cases d with
    | left =>
      have hleft : t.moveLeft? = none := by
        cases hm : t.moveLeft? with
        | none => rfl
        | some t' => simp [Action.effect, Action.op?, Tape.apply, hm] at he
      simp only [Action.effect, Action.op?, Tape.apply, hleft, Except.error.injEq] at he
      exact ⟨he.symm, (t.moveLeft?_eq_none_iff).mp hleft, inp, out, rfl⟩
    | right => cases he
    | stay =>
      obtain ⟨s, rfl⟩ := (h.2.2.2.2.2 rfl).exists_text
      rw [Action.effect_stay] at he
      cases he

namespace Machine

variable {m : Machine} {a : Alphabet} {q : State} {t : Tape}

/-- What taking a transition does to the tape, and the state that it leads to. -/
def goAlong (m : Machine) (tr : Transition) (t : Tape) : Except Fault (State × Tape) :=
  match tr.action.effect t with
  | .ok t' => (m.endpoint tr.target).map fun q => (q, t')
  | .error e => .error e

/-- The move of a machine from a state: the new state and tape, or how the machine has halted. -/
def go (m : Machine) (q : State) (t : Tape) : Except Fault (State × Tape) :=
  match m.kind, m.choice? q (.text t.read) with
  | .turing, some tr => m.goAlong tr t
  | .turing, none => .error (.machine (m.turingStop q t))
  | .acceptor, some tr =>
    if tr.input.eqv Symbol.emptyInput || t.read ≠ blankCell then m.goAlong tr t
    else .error (.machine (if q.isFinal then .accepted else .rejected))
  | .acceptor, none =>
    if t.read = blankCell then .error (.machine (if q.isFinal then .accepted else .rejected))
    else .error (.machine (.stuck q.label t.read))

theorem mem_exits_of_choice? {symbol : Symbol} {tr : Transition} (h : m.choice? q symbol = some tr) :
    tr ∈ m.exits q := by
  unfold choice? pick at h
  cases hfind : (m.exits q).find? (·.input.eqv symbol) with
  | some tr' =>
    rw [hfind] at h
    exact Option.some.inj h ▸ List.mem_of_find?_eq_some hfind
  | none =>
    rw [hfind] at h
    cases hkind : m.kind with
    | turing =>
      rw [hkind] at h
      exact List.mem_of_find?_eq_some h
    | acceptor =>
      rw [hkind] at h
      cases h

/-- A transition that is taken belongs to the machine. -/
theorem mem_of_choice? {symbol : Symbol} {tr : Transition} (hr : m.choice? q symbol = some tr) :
    tr ∈ m.transitions := (mem_exits.mp (mem_exits_of_choice? hr)).1

/-- Following a transition is `goAlong` with a journal; where it fails, nothing has happened. -/
theorem Arena.follow_eq (h : m.Arena) {tr : Transition} (ht : tr ∈ m.transitions) (t : Tape)
    (j : Journal) :
    ∃ j', m.follow tr ⟨t, j⟩ =
      match m.goAlong tr t with
      | .ok (q', t') => .ok q' ⟨t', j'⟩
      | .error e => .error e ⟨t, j⟩ := by
  obtain ⟨q', -, htarget⟩ := h.exists_target ht
  obtain ⟨j', hperform⟩ := tr.action.perform_eq t j
  refine ⟨j', ?_⟩
  unfold follow goAlong
  cases heffect : tr.action.effect t with
  | error e =>
    rw [heffect] at hperform
    rw [bind_of_error hperform]
  | ok t' =>
    rw [heffect] at hperform
    rw [bind_of_ok hperform, htarget]
    rfl

/-- Carrying out the transition for the symbol under the head is `go` with a journal. -/
theorem Arena.advance_eq (h : m.Arena) (q : State) (t : Tape) (j : Journal) :
    ∃ j', m.advance q (m.choice? q (.text t.read)) ⟨t, j⟩ =
      match m.go q t with
      | .ok (q', t') => .ok q' ⟨t', j'⟩
      | .error e => .error e ⟨t, j⟩ := by
  unfold advance go
  simp only [bind, EStateM.bind, get_apply]
  cases hkind : m.kind <;> cases hr : m.choice? q (.text t.read)
  case turing.none => exact ⟨j, rfl⟩
  case turing.some tr => exact h.follow_eq (mem_of_choice? hr) t j
  case acceptor.none =>
    simp only
    split <;> exact ⟨j, rfl⟩
  case acceptor.some tr =>
    simp only
    split
    · exact h.follow_eq (mem_of_choice? hr) t j
    · exact ⟨j, rfl⟩

/-- A move goes along the transition for the symbol under the head, or the machine has halted. -/
theorem go_cases (m : Machine) (q : State) (t : Tape) :
    (∃ tr, m.choice? q (.text t.read) = some tr ∧ m.go q t = m.goAlong tr t) ∨
      ∃ f, m.go q t = .error (.machine f) := by
  unfold go
  cases hkind : m.kind <;> cases hr : m.choice? q (.text t.read)
  case turing.none => exact .inr ⟨_, rfl⟩
  case turing.some tr => exact .inl ⟨tr, rfl, rfl⟩
  case acceptor.none =>
    simp only
    split <;> exact .inr ⟨_, rfl⟩
  case acceptor.some tr =>
    simp only
    split
    · exact .inl ⟨tr, rfl, rfl⟩
    · exact .inr ⟨_, rfl⟩

theorem Arena.goAlong_eq_ok (h : m.Arena) {tr : Transition} (ht : tr ∈ m.transitions) {q' : State}
    {t' : Tape} (hgo : m.goAlong tr t = .ok (q', t')) :
    q' ∈ m.states ∧ q'.id = tr.target ∧ tr.action.effect t = .ok t' := by
  unfold goAlong at hgo
  split at hgo
  · rename_i t₁ heffect
    obtain ⟨s, hs, hid⟩ := h.target_live tr ht
    rw [← hid, h.endpoint_eq hs] at hgo
    cases hgo
    exact ⟨hs, hid, heffect⟩
  · cases hgo

theorem Arena.goAlong_eq_error (h : m.Arena) {tr : Transition} (ht : tr ∈ m.transitions) {e : Fault}
    (hgo : m.goAlong tr t = .error e) : tr.action.effect t = .error e := by
  obtain ⟨s, -, htarget⟩ := h.exists_target ht
  unfold goAlong at hgo
  rw [htarget] at hgo
  split at hgo
  · cases hgo
  · rename_i heffect
    rw [heffect, Except.error.inj hgo]

/-- A move leads to a live state along a transition of the machine. -/
theorem Arena.go_eq_ok (h : m.Arena) {q' : State} {t' : Tape}
    (hgo : m.go q t = .ok (q', t')) :
    ∃ tr, m.choice? q (.text t.read) = some tr ∧ tr ∈ m.transitions ∧ q' ∈ m.states ∧
      q'.id = tr.target ∧ tr.action.effect t = .ok t' := by
  obtain ⟨tr, hr, along⟩ | ⟨f, halted⟩ := m.go_cases q t
  · have ht := mem_of_choice? hr
    exact ⟨tr, hr, ht, h.goAlong_eq_ok ht (along.symm.trans hgo)⟩
  · rw [hgo] at halted
    cases halted

/-! ## Machines that follow the rules -/

theorem TuringRules.fits (rules : m.TuringRules a) (hq : q ∈ m.states) {tr : Transition}
    (ht : tr ∈ m.exits q) : ∃ used, tr.action.FitsTuring a used :=
  let ⟨used, _, h⟩ := (rules.edges_fit q hq).exists_fits ht
  ⟨used, h⟩

theorem AcceptorRules.fits (rules : m.AcceptorRules a) (hq : q ∈ m.states) {tr : Transition}
    (ht : tr ∈ m.exits q) : ∃ used, tr.action.FitsAcceptor a used :=
  let ⟨used, _, h⟩ := (rules.edges_fit q hq).exists_fits ht
  ⟨used, h⟩

/-- What there is only one of is what is found. -/
theorem find?_eq_some_of_countP {α : Type} {p : α → Bool} {l : List α} (one : l.countP p = 1) {x : α}
    (hx : x ∈ l) (px : p x = true) : l.find? p = some x := by
  induction l with
  | nil => cases hx
  | cons y rest ih =>
    by_cases py : p y = true
    · have none : rest.countP p = 0 := by simpa [List.countP_cons, py] using one
      rcases List.mem_cons.mp hx with rfl | hx
      · simp [py]
      · exact absurd px (List.countP_eq_zero.mp none x hx)
    · have other : x ≠ y := fun same => py (same ▸ px)
      rw [List.find?_cons_of_neg py]
      refine ih ?_ ((List.mem_cons.mp hx).resolve_left other)
      simpa [List.countP_cons, py] using one

/-- A machine that follows the rules has a start state. -/
theorem Rules.exists_start (rules : m.Rules a) :
    ∃ p, m.startState? = some p ∧ p ∈ m.states := by
  have one : m.states.countP (·.isStart) = 1 := by
    unfold Rules at rules
    split at rules
    · exact rules.one_start
    · exact rules.one_start
  obtain ⟨s, hs, hstart⟩ := List.countP_pos_iff.mp (one ▸ Nat.one_pos)
  obtain ⟨p, hp⟩ := Option.isSome_iff_exists.mp (List.find?_isSome.mpr ⟨s, hs, hstart⟩)
  exact ⟨p, hp, List.mem_of_find?_eq_some hp⟩

/-- The text of an action that is taken can be written. -/
theorem Rules.exists_text (rules : m.Rules a) (arena : m.Arena) (hq : q ∈ m.states)
    {tr : Transition} (ht : tr ∈ m.exits q) : ∃ text, tr.action.text = .ok text := by
  have hkind := arena.action_kind tr (mem_exits.mp ht).1
  unfold Rules at rules
  cases haction : tr.action with
  | turing d inp out => exact ⟨_, rfl⟩
  | acceptor inp =>
    rw [haction] at hkind
    rw [← hkind] at rules
    obtain ⟨used, -, -, -, -, hknown⟩ := AcceptorRules.fits rules hq ht
    rw [haction] at hknown
    obtain ⟨s, rfl⟩ := Alphabet.exists_text_of_contains hknown
    exact ⟨s, rfl⟩

/-- An action that the rules admit fails only for a cause that concerns the tape. -/
theorem Rules.effect_eq_error (rules : m.Rules a) (arena : m.Arena) (hq : q ∈ m.states)
    {tr : Transition} (ht : tr ∈ m.exits q) {e : Fault} (h : tr.action.effect t = .error e) :
    ∃ f, e = .machine f := by
  have hact := arena.action_kind tr (mem_exits.mp ht).1
  unfold Rules at rules
  cases hkind : m.kind with
  | turing =>
    rw [hkind] at rules
    obtain ⟨used, hfit⟩ := TuringRules.fits rules hq ht
    exact ⟨_, (hfit.effect_eq_error h).1⟩
  | acceptor =>
    rw [hkind] at hact
    cases haction : tr.action with
    | turing d inp out =>
      rw [haction] at hact
      cases hact
    | acceptor inp =>
      rw [haction] at h
      unfold Action.effect Action.op? at h
      by_cases hempty : inp.eqv Symbol.emptyInput = true
      · simp [hempty] at h
      · simp [hempty, Tape.apply] at h

/-- A move fails only for a cause that concerns the machine or its tape. -/
theorem Rules.go_eq_error (rules : m.Rules a) (arena : m.Arena) (hq : q ∈ m.states) {e : Fault}
    (h : m.go q t = .error e) : ∃ f, e = .machine f := by
  obtain ⟨tr, hr, along⟩ | ⟨f, halted⟩ := m.go_cases q t
  · have effect := arena.goAlong_eq_error (mem_of_choice? hr) (along.symm.trans h)
    exact rules.effect_eq_error arena hq (mem_exits_of_choice? hr) effect
  · exact ⟨f, Except.error.inj (h.symm.trans halted)⟩

/-! ## Moves as a relation -/

/-- The transition of a Turing machine for a state and a symbol: the one that matches it exactly, or
else the one for whatever is left over. -/
def Takes (m : Machine) (q : State) (symbol : String) (tr : Transition) : Prop :=
  tr ∈ m.transitions ∧ tr.source = q.id ∧
    (tr.input = .text symbol ∨
      (∀ other ∈ m.transitions, other.source = q.id → other.input ≠ .text symbol) ∧
        tr.input = Symbol.otherwise)

/-- What an action of a Turing machine does to a tape: it moves the head, or writes unless there is
nothing to write. -/
inductive Writes : Action → Tape → Tape → Prop
  | left {inp out : Symbol} {t t' : Tape} (h : t.moveLeft? = some t') :
      Writes (.turing .left inp out) t t'
  | right {inp out : Symbol} {t : Tape} : Writes (.turing .right inp out) t t.moveRight
  | nothing {inp : Symbol} {t : Tape} : Writes (.turing .stay inp Symbol.noWrite) t t
  | symbol {inp : Symbol} {s : String} {t : Tape} (h : .text s ≠ Symbol.noWrite) :
      Writes (.turing .stay inp (.text s)) t (t.write s)

/-- What becomes of a Turing machine that is to leave a state which is not final. -/
inductive Moves (m : Machine) (q : State) (t : Tape) : Except MachineFault (State × Tape) → Prop
  | undefined (none : ∀ tr, ¬ m.Takes q t.read tr) :
      Moves m q t (.error (.undefinedTransition t.isParked false))
  | bounds {tr : Transition} {inp out : Symbol} (takes : m.Takes q t.read tr)
      (action : tr.action = .turing .left inp out) (parked : t.head = 0) :
      Moves m q t (.error .tapeBounds)
  | go {tr : Transition} {q' : State} {t' : Tape} (takes : m.Takes q t.read tr)
      (writes : Writes tr.action t t') (live : q' ∈ m.states) (target : q'.id = tr.target) :
      Moves m q t (.ok (q', t'))

/-- In a Turing machine that follows the rules, the search finds the transition that there is. -/
theorem TuringRules.choice?_eq_some_iff (rules : m.TuringRules a)
    (hkind : m.kind = .turing) (hq : q ∈ m.states) {symbol : String} {tr : Transition} :
    m.choice? q (.text symbol) = some tr ↔ m.Takes q symbol tr := by
  have unique {x y : Transition} {s : String} (hx : x ∈ m.exits q) (hy : y ∈ m.exits q)
      (hxs : x.input = .text s) (hys : y.input = .text s) : x = y :=
    (rules.edges_fit q hq).eq_of_input_eq Action.FitsTuring.fresh hx hy hxs hys
  unfold choice? pick Takes
  simp only [hkind]
  cases hfind : (m.exits q).find? (·.input.eqv (.text symbol)) with
  | some x =>
    obtain ⟨hx, hxs⟩ := find?_input_eq_some hfind
    constructor
    · rintro ⟨rfl⟩
      exact ⟨(mem_exits.mp hx).1, (mem_exits.mp hx).2, .inl hxs⟩
    · rintro ⟨ht, hsource, hinput | ⟨noExact, -⟩⟩
      · rw [unique hx (mem_exits.mpr ⟨ht, hsource⟩) hxs hinput]
      · exact absurd hxs (noExact x (mem_exits.mp hx).1 (mem_exits.mp hx).2)
  | none =>
    have noExact := find?_input_eq_none_iff.mp hfind
    constructor
    · intro h
      obtain ⟨hx, hinput⟩ := find?_input_eq_some h
      refine ⟨(mem_exits.mp hx).1, (mem_exits.mp hx).2, .inr ⟨fun x hx hsource => ?_, hinput⟩⟩
      exact noExact x (mem_exits.mpr ⟨hx, hsource⟩)
    · rintro ⟨ht, hsource, hinput | ⟨-, hinput⟩⟩
      · exact absurd hinput (noExact tr (mem_exits.mpr ⟨ht, hsource⟩))
      · have htr := mem_exits.mpr ⟨ht, hsource⟩
        cases hleft : (m.exits q).find? (·.input.eqv Symbol.otherwise) with
        | none => exact absurd hinput (find?_input_eq_none_iff.mp hleft tr htr)
        | some y =>
          obtain ⟨hy, hys⟩ := find?_input_eq_some hleft
          rw [unique hy htr hys hinput]

/-- The effect of an action that fits is what it writes. -/
theorem effect_eq_ok_iff {action : Action} {used : List Symbol} (hfit : action.FitsTuring a used)
    {t' : Tape} : action.effect t = .ok t' ↔ Writes action t t' := by
  cases action with
  | acceptor inp => exact hfit.elim
  | turing d inp out =>
    cases d with
    | left =>
      have heffect : (Action.turing .left inp out).effect t = .ok t' ↔ t.moveLeft? = some t' := by
        cases hm : t.moveLeft? <;> simp [Action.effect, Action.op?, Tape.apply, hm]
      rw [heffect]
      exact ⟨.left, fun | .left h => h⟩
    | right => exact ⟨fun h => Except.ok.inj h ▸ .right, fun | .right => rfl⟩
    | stay =>
      obtain ⟨s, rfl⟩ := (hfit.2.2.2.2.2 rfl).exists_text
      rw [Action.effect_stay]
      by_cases hs : Value.text s = Symbol.noWrite
      · have skips : (Value.text s).eqv Symbol.noWrite = true := Value.eqv_text_iff.mpr hs
        rw [if_pos skips]
        constructor
        · intro h
          rw [← Except.ok.inj h, hs]
          exact .nothing
        · intro h
          rw [hs] at h
          cases h with
          | nothing => rfl
          | symbol h => exact absurd rfl h
      · have writes : ¬ (Value.text s).eqv Symbol.noWrite = true :=
          fun h => hs (Value.eqv_text_iff.mp h)
        rw [if_neg writes]
        constructor
        · intro h
          rw [← Except.ok.inj h]
          exact .symbol hs
        · intro h
          cases h with
          | nothing => exact absurd rfl hs
          | symbol h => rfl

/-- **In a Turing machine that follows the rules, moving from a state that is not final is what the
relation says.** -/
theorem TuringRules.moves_iff (rules : m.TuringRules a) (arena : m.Arena)
    (hkind : m.kind = .turing) (hq : q ∈ m.states) (notFinal : q.isFinal = false)
    {result : Except MachineFault (State × Tape)} :
    m.Moves q t result ↔ m.go q t = result.mapError .machine := by
  have takes {tr : Transition} : m.choice? q (.text t.read) = some tr ↔ m.Takes q t.read tr :=
    rules.choice?_eq_some_iff hkind hq
  have hgo {tr : Transition} (h : m.choice? q (.text t.read) = some tr) :
      m.go q t = m.goAlong tr t := by
    unfold go
    rw [hkind, h]
  constructor
  · rintro (none | ⟨htakes, action, parked⟩ | ⟨htakes, writes, live, target⟩)
    · have absent : m.choice? q (.text t.read) = Option.none := by
        cases h : m.choice? q (.text t.read) with
        | none => rfl
        | some tr => exact absurd (takes.mp h) (none tr)
      unfold go
      rw [hkind, absent]
      simp [turingStop, notFinal, Except.mapError]
    · rw [hgo (takes.mpr htakes), goAlong, action]
      simp [Action.effect, Action.op?, Tape.apply, (t.moveLeft?_eq_none_iff).mpr parked,
        Except.mapError]
    · obtain ⟨used, hfit⟩ := rules.fits hq (mem_exits_of_choice? (takes.mpr htakes))
      have found := arena.state?_eq_some_iff.mpr ⟨live, target⟩
      rw [hgo (takes.mpr htakes), goAlong, (effect_eq_ok_iff hfit).mpr writes, endpoint, found]
      rfl
  · intro h
    cases hr : m.choice? q (.text t.read) with
    | none =>
      have none : ∀ tr, ¬ m.Takes q t.read tr := fun tr htakes => by
        rw [takes.mpr htakes] at hr
        cases hr
      unfold go at h
      rw [hkind, hr] at h
      cases result with
      | ok last => cases h
      | error f =>
        simp [turingStop, notFinal, Except.mapError] at h
        exact h ▸ .undefined none
    | some tr =>
      obtain ⟨used, hfit⟩ := rules.fits hq (mem_exits_of_choice? hr)
      cases result with
      | error f =>
        obtain ⟨s, -, htarget⟩ := arena.exists_target (mem_of_choice? hr)
        rw [hgo hr, goAlong, htarget] at h
        cases heffect : tr.action.effect t with
        | ok t' =>
          rw [heffect] at h
          cases h
        | error e =>
          obtain ⟨rfl, parked, inp, out, haction⟩ := hfit.effect_eq_error heffect
          rw [heffect] at h
          cases h
          exact .bounds (takes.mp hr) haction parked
      | ok last =>
        obtain ⟨q', t'⟩ := last
        obtain ⟨tr', hr', -, live, target, heffect⟩ := arena.go_eq_ok h
        cases hr.symm.trans hr'
        exact .go (takes.mp hr) ((effect_eq_ok_iff hfit).mp heffect) live target

end Machine

end MachineLab
