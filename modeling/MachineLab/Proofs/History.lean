import MachineLab.Proofs.Detaching
import MachineLab.Proofs.Verdict
import MachineLab.Workshop.Document

/-!
# The history of a workshop

A workshop starts empty and is then worked on by commands: alphabets and machines are made, edited in
place, nested, validated and read from documents.  Commands that fail are part of the history as well.
Each command comes down to small changes, so a workshop with a history is sound.

## Main definitions

* `Command`, `Command.run` — what can be done in a workshop.
* `Workshop.Reachable` — the workshops that commands lead to.

## Main statements

* `Command.changes` — a command comes down to small changes.
* `Workshop.Reachable.good` — a workshop with a history is sound.
-/

namespace MachineLab

open Relation

/-! ## Commands -/

/-- An edit of an alphabet in place. -/
inductive AlphabetEdit where
  | symbol (symbol : Value) (included : Bool)
  | letters (included : Bool)
  | digits (included : Bool)
  | blank (included : Bool)
deriving Repr

/-- What an edit makes of an alphabet. -/
def AlphabetEdit.apply (a : Alphabet) : AlphabetEdit → Except Fault Alphabet
  | .symbol c included => a.setSymbol c included
  | .letters included => .ok (a.setLetters included)
  | .digits included => .ok (a.setDigits included)
  | .blank included => .ok (a.setBlank included)

/-- Edit an alphabet in place. -/
def Work.editAlphabet (a : AlphabetId) (edit : AlphabetEdit) : Work Unit := do
  let new ← ofExcept (edit.apply ((← get).shop.alphabet a))
  modify fun b => { b with shop := b.shop.setAlphabet a new }

/-- What can be done in a workshop. -/
inductive Command where
  | newAlphabet (symbols : List Value) (blank : Bool)
  | parseAlphabet (text : String)
  | copyAlphabet (a : AlphabetId)
  | editAlphabet (a : AlphabetId) (edit : AlphabetEdit)
  | newMachine (kind : Kind) (name : Value) (alphabet : Option AlphabetId)
  | addState (m : MachineId) (label : String) (isStart isFinal : Bool)
  | deleteState (m : MachineId) (state : Ref)
  | addTransition (m : MachineId) (source target : Ref) (action : Action)
  | deleteTransition (m : MachineId) (transition : Ref)
  | setAction (m : MachineId) (transition : Ref) (action : Action)
  | setStart (m : MachineId) (state : Ref) (value : Bool)
  | setFinal (m : MachineId) (state : Ref) (value : Bool)
  | setLabel (m : MachineId) (state : Ref) (label : String)
  | setAlphabet (m : MachineId) (a : AlphabetId)
  | attach (m : MachineId) (state : Ref) (inner : Option MachineId)
  | detach (m : MachineId) (state : Ref)
  | removeInconsistent (m : MachineId) (a : Option AlphabetId)
  | invalidate (m : MachineId)
  | validate (m : MachineId)
  | readDocument (data : Value)
deriving Repr

namespace Command

/-- Carry out a command. -/
def run : Command → Work Unit
  | .newAlphabet symbols blank => do
    discard <| Work.addAlphabet (← Work.ofExcept (Alphabet.ofSymbols symbols blank))
  | .parseAlphabet text => do
    discard <| Work.addAlphabet (← Work.ofExcept (Alphabet.ofText text))
  | .copyAlphabet a => do discard <| Work.addAlphabet ((← get).shop.alphabet a).copy
  | .editAlphabet a edit => Work.editAlphabet a edit
  | .newMachine kind name alphabet => discard <| Work.newMachine kind name alphabet
  | .addState m label isStart isFinal => discard <| Work.addState m label isStart isFinal
  | .deleteState m state => discard <| Work.deleteState m state
  | .addTransition m source target action =>
    discard <| Work.addTransition m source target action
  | .deleteTransition m transition => discard <| Work.deleteTransition m transition
  | .setAction m transition action => Work.setAction m transition action
  | .setStart m state value => Work.setStart m state value
  | .setFinal m state value => Work.setFinal m state value
  | .setLabel m state label => Work.setLabel m state label
  | .setAlphabet m a => Work.setAlphabet m a
  | .attach m state inner => Work.attach m state inner
  | .detach m state => discard <| Work.detach m state
  | .removeInconsistent m a => discard <| Work.removeInconsistent m a
  | .invalidate m => Work.invalidate m
  | .validate m => Work.validate m
  | .readDocument data => discard <| Work.readDocument data

/-- Every machine and every alphabet that a command names is in the workshop. -/
def Known (w : Workshop) : Command → Prop
  | .newAlphabet _ _ | .parseAlphabet _ | .readDocument _ => True
  | .copyAlphabet a | .editAlphabet a _ => a.index < w.alphabets.length
  | .newMachine _ _ alphabet => ∀ a ∈ alphabet, a.index < w.alphabets.length
  | .addState m _ _ _ | .deleteState m _ | .addTransition m _ _ _ | .deleteTransition m _
  | .setAction m _ _ | .setStart m _ _ | .setFinal m _ _ | .setLabel m _ _ | .detach m _
  | .invalidate m | .validate m => m.index < w.machines.length
  | .setAlphabet m a => m.index < w.machines.length ∧ a.index < w.alphabets.length
  | .attach m _ inner =>
    m.index < w.machines.length ∧ ∀ i ∈ inner, i.index < w.machines.length
  | .removeInconsistent m a =>
    m.index < w.machines.length ∧ ∀ b ∈ a, b.index < w.alphabets.length

instance (w : Workshop) : (c : Command) → Decidable (c.Known w)
  | .newAlphabet _ _ | .parseAlphabet _ | .readDocument _ => inferInstanceAs (Decidable True)
  | .copyAlphabet a | .editAlphabet a _ =>
    inferInstanceAs (Decidable (a.index < w.alphabets.length))
  | .newMachine _ _ alphabet =>
    inferInstanceAs (Decidable (∀ a ∈ alphabet, a.index < w.alphabets.length))
  | .addState m _ _ _ | .deleteState m _ | .addTransition m _ _ _ | .deleteTransition m _
  | .setAction m _ _ | .setStart m _ _ | .setFinal m _ _ | .setLabel m _ _ | .detach m _
  | .invalidate m | .validate m => inferInstanceAs (Decidable (m.index < w.machines.length))
  | .setAlphabet m a =>
    inferInstanceAs (Decidable (m.index < w.machines.length ∧ a.index < w.alphabets.length))
  | .attach m _ inner =>
    inferInstanceAs (Decidable
      (m.index < w.machines.length ∧ ∀ i ∈ inner, i.index < w.machines.length))
  | .removeInconsistent m a =>
    inferInstanceAs (Decidable
      (m.index < w.machines.length ∧ ∀ b ∈ a, b.index < w.alphabets.length))

/-- Carry out commands one after the other, whether they fail or not. -/
def runAll : List Command → Bench → Bench
  | [], b => b
  | c :: rest, b => runAll rest (after c.run b)

/-- Every command names only what is in the workshop when it is carried out. -/
def AllKnown : List Command → Bench → Prop
  | [], _ => True
  | c :: rest, b => c.Known b.shop ∧ AllKnown rest (after c.run b)

instance decidableAllKnown : (cs : List Command) → (b : Bench) → Decidable (AllKnown cs b)
  | [], _ => inferInstanceAs (Decidable True)
  | c :: rest, b =>
    have := decidableAllKnown rest (after c.run b)
    inferInstanceAs (Decidable (c.Known b.shop ∧ AllKnown rest (after c.run b)))

end Command

/-- The workshops that commands lead to, from the empty one and whether they fail or not. -/
inductive Workshop.Reachable : Workshop → Prop
  | empty : Reachable Workshop.empty
  | step {b : Bench} (c : Command) (h : Reachable b.shop) (known : c.Known b.shop) :
      Reachable (after c.run b).shop

/-- A history goes on with any sequence of commands. -/
theorem Workshop.Reachable.runAll {b : Bench} (h : b.shop.Reachable) {cs : List Command}
    (known : Command.AllKnown cs b) : (Command.runAll cs b).shop.Reachable := by
  induction cs generalizing b with
  | nil => exact h
  | cons c rest ih => exact ih (.step c h known.1) known.2

/-! ## Alphabets -/

/-- Every edit of an alphabet that changes it counts. -/
theorem AlphabetEdit.apply_eq_or_newer {a new : Alphabet} {e : AlphabetEdit}
    (h : e.apply a = .ok new) : new = a ∨ a.revision < new.revision := by
  cases e with
  | symbol c included =>
    simp only [apply, Alphabet.setSymbol] at h
    split at h
    · split at h
      · rename_i slot _
        rw [← Except.ok.inj h]
        cases slot <;> exact .inr (Nat.lt_succ_self _)
      · exact .inl (Except.ok.inj h).symm
      · cases h
    · cases h
  | letters included => exact .inr (Except.ok.inj h ▸ Nat.lt_succ_self _)
  | digits included => exact .inr (Except.ok.inj h ▸ Nat.lt_succ_self _)
  | blank included => exact .inr (Except.ok.inj h ▸ Nat.lt_succ_self _)

namespace Workshop

theorem setAlphabet_self (w : Workshop) {a : AlphabetId} (ha : a.index < w.alphabets.length) :
    w.setAlphabet a (w.alphabet a) = w := by
  simp [setAlphabet, alphabet, List.getD_eq_getElem?_getD, ha]

/-- Several edits of one machine are changes. -/
theorem changes_of_edits {w : Workshop} {m : MachineId} (hm : m.index < w.machines.length)
    {new : Machine} (edits : ReflTransGen Machine.Edit (w.machine m) new) :
    w.Changes (w.setMachine m new) := by
  induction edits with
  | refl =>
    rw [w.setMachine_self hm]
  | @tail mid new _ e ih =>
    have hm' : m.index < (w.setMachine m mid).machines.length := by simpa using hm
    have here : (w.setMachine m mid).machine m = mid := w.machine_setMachine_self m mid hm
    have last : (w.setMachine m mid).Change ((w.setMachine m mid).setMachine m new) :=
      .edit hm' (here.symm ▸ e)
    rw [setMachine_setMachine] at last
    exact ih.tail last

end Workshop

namespace Work

variable {b : Bench} {m : MachineId}

theorem ofExcept_eq {α : Type} (r : Except Fault α) (b : Bench) : ofExcept r b = conclude r b := by
  cases r <;> rfl

theorem state_eq (m : MachineId) (r : Ref) (b : Bench) :
    state m r b = conclude (b.shop.state m r) b := ofExcept_eq _ b

theorem transition_eq (m : MachineId) (r : Ref) (b : Bench) :
    transition m r b = conclude (b.shop.transition m r) b := ofExcept_eq _ b

/-- Work that ends with an outcome is followed by the rest only if it is a result. -/
theorem changes_bind {α β : Type} {work : Work α} {rest : α → Work β} {r : Except Fault α}
    (h : work b = conclude r b)
    (hrest : ∀ a, r = .ok a → b.shop.Changes (after (rest a) b).shop) :
    b.shop.Changes (after (work >>= rest) b).shop := by
  cases r with
  | error e => rw [after_of_error (bind_of_error h)]
  | ok a =>
    have same : (work >>= rest) b = rest a b := bind_of_ok h
    unfold after at hrest ⊢
    rw [same]
    exact hrest a rfl

theorem after_discard {α : Type} (work : Work α) (b : Bench) :
    after (discard work) b = after work b := by
  unfold after
  simp only [discard, Functor.discard, Functor.mapConst, Function.comp_apply, EStateM.map]
  cases work b <;> rfl

/-- An edit of a machine is a change. -/
theorem changes_edit (hm : m.index < b.shop.machines.length) {new : Machine}
    (e : (b.shop.machine m).Edit new) :
    b.shop.Changes (after (setMachine m new) b).shop := .single (.edit hm e)

theorem changes_addState (hm : m.index < b.shop.machines.length) (label : String)
    (isStart isFinal : Bool) : b.shop.Changes (after (addState m label isStart isFinal) b).shop :=
  changes_edit hm (.addState label isStart isFinal)

/-- A removal is a change if what it leaves is. -/
theorem changes_removal {α : Type} {work : Work Bool} {found : Except Fault α} {left : α → Bench}
    (h : work b = removal found left b) (changes : ∀ a, b.shop.Changes (left a).shop) :
    b.shop.Changes (after work b).shop := by
  unfold after
  rw [h]
  cases found with
  | ok a => exact changes a
  | error e => cases e <;> exact .refl

theorem changes_deleteState (arena : (b.shop.machine m).Arena) (hm : m.index < b.shop.machines.length)
    (r : Ref) : b.shop.Changes (after (deleteState m r) b).shop :=
  changes_removal (deleteState_eq arena r) fun s => .single (.edit hm (.deleteState s.id))

theorem changes_deleteTransition (arena : (b.shop.machine m).Arena)
    (hm : m.index < b.shop.machines.length) (r : Ref) :
    b.shop.Changes (after (deleteTransition m r) b).shop :=
  changes_removal (deleteTransition_eq arena r) fun t => .single (.edit hm (.deleteTransition t.id))

/-- The check of an action passes exactly if it is of the machine's kind. -/
theorem checkAction_eq (m : MachineId) (action : Action) (b : Bench) :
    checkAction m action b = conclude (if action.kind = (b.shop.machine m).kind then .ok ()
      else .error (.refusal (.wrongAction (b.shop.machine m).kind action.kind))) b := by
  unfold checkAction
  by_cases h : action.kind = (b.shop.machine m).kind
  · simp [bind, EStateM.bind, machine, get_apply, pure,
      EStateM.pure, h, conclude]
  · simp [bind, EStateM.bind, machine, get_apply, pure,
      EStateM.pure, h, conclude, throw_apply]

theorem changes_addTransition (hm : m.index < b.shop.machines.length) (source target : Ref)
    (action : Action) : b.shop.Changes (after (addTransition m source target action) b).shop := by
  unfold addTransition
  refine changes_bind (state_eq m source b) fun s hs => ?_
  refine changes_bind (state_eq m target b) fun t ht => ?_
  refine changes_bind (checkAction_eq m action b) fun _ hk => ?_
  have hkind : action.kind = (b.shop.machine m).kind := by
    by_contra h
    rw [if_neg h] at hk
    cases hk
  exact changes_edit hm (.addTransition ⟨s, Workshop.mem_of_state hs, rfl⟩
    ⟨t, Workshop.mem_of_state ht, rfl⟩ hkind)

theorem changes_setAction (hm : m.index < b.shop.machines.length) (r : Ref) (action : Action) :
    b.shop.Changes (after (setAction m r action) b).shop := by
  unfold setAction
  refine changes_bind (transition_eq m r b) fun t _ => ?_
  refine changes_bind (checkAction_eq m action b) fun _ hk => ?_
  have hkind : action.kind = (b.shop.machine m).kind := by
    by_contra h
    rw [if_neg h] at hk
    cases hk
  exact changes_edit hm (.setAction t.id hkind)

theorem changes_setStart (hm : m.index < b.shop.machines.length) (r : Ref) (value : Bool) :
    b.shop.Changes (after (setStart m r value) b).shop :=
  changes_bind (state_eq m r b) fun s _ => changes_edit hm (.setStart s.id value)

theorem changes_setFinal (hm : m.index < b.shop.machines.length) (r : Ref) (value : Bool) :
    b.shop.Changes (after (setFinal m r value) b).shop :=
  changes_bind (state_eq m r b) fun s _ => changes_edit hm (.setFinal s.id value)

theorem changes_setLabel (hm : m.index < b.shop.machines.length) (r : Ref) (label : String) :
    b.shop.Changes (after (setLabel m r label) b).shop :=
  changes_bind (state_eq m r b) fun s _ => changes_edit hm (.setLabel s.id label)

/-- The check that a machine can hold others passes exactly for Turing machines. -/
theorem requireNesting_eq (m : MachineId) (b : Bench) :
    requireNesting m b = conclude (if (b.shop.machine m).kind = .turing then .ok ()
      else .error (.mismatch .noNesting)) b := by
  unfold requireNesting
  simp only [bind, EStateM.bind, machine, get_apply, pure,
    EStateM.pure]
  cases (b.shop.machine m).kind <;> rfl

theorem changes_detach (hm : m.index < b.shop.machines.length) (r : Ref) :
    b.shop.Changes (after (detach m r) b).shop := by
  unfold detach
  refine changes_bind (requireNesting_eq m b) fun _ _ => ?_
  refine changes_bind (state_eq m r b) fun s _ => ?_
  exact changes_edit hm (.detach s.id)

/-- Attaching a Turing machine to a state of another one is refused if it is or contains that other
one. -/
theorem attach_of_back {i : MachineId} {r : Ref} {q : State}
    (outer : (b.shop.machine m).kind = .turing) (hq : b.shop.state m r = .ok q)
    (inner : (b.shop.machine i).kind = .turing) (back : ReflTransGen b.shop.Nests i m) :
    attach m r (some i) b = .error (.machine (.submachineCycle (b.shop.machine i).name q.label
      (b.shop.machine m).name)) b := by
  have hcycle : (decide (i = m) || b.shop.containsMachine i m) = true := by
    rw [Bool.or_eq_true, decide_eq_true_eq, Workshop.containsMachine_iff]
    exact (reflTransGen_iff_eq_or_transGen.mp back).imp Eq.symm id
  have hn := requireNesting_eq m b
  have hs := state_eq m r b
  rw [if_pos outer] at hn
  rw [hq] at hs
  unfold attach
  rw [bind_of_ok hn, bind_of_ok hs]
  simp only [bind, EStateM.bind, get_apply, Option.filter, inner,
    beq_self_eq_true, if_true, if_pos hcycle]
  rfl

/-- Otherwise the machine is put into the state. -/
theorem attach_of_not_back {i : MachineId} {r : Ref} {q : State}
    (outer : (b.shop.machine m).kind = .turing) (hq : b.shop.state m r = .ok q)
    (inner : (b.shop.machine i).kind = .turing) (back : ¬ ReflTransGen b.shop.Nests i m) :
    ∃ j, attach m r (some i) b =
      .ok () ⟨b.shop.setMachine m ((b.shop.machine m).setSubmachine q.id (some i)), j⟩ := by
  have hcycle : ¬ (decide (i = m) || b.shop.containsMachine i m) = true := by
    rw [Bool.or_eq_true, decide_eq_true_eq, Workshop.containsMachine_iff]
    exact fun h => back (reflTransGen_iff_eq_or_transGen.mpr (h.imp Eq.symm id))
  have hn := requireNesting_eq m b
  have hs := state_eq m r b
  rw [if_pos outer] at hn
  rw [hq] at hs
  unfold attach
  rw [bind_of_ok hn, bind_of_ok hs]
  simp only [bind, EStateM.bind, get_apply, Option.filter, inner,
    beq_self_eq_true, if_true, if_neg hcycle]
  exact ⟨_, rfl⟩

/-- Attaching changes the workshop only where it closes no cycle. -/
theorem changes_attach (hm : m.index < b.shop.machines.length) (r : Ref) (inner : Option MachineId)
    (hi : ∀ i ∈ inner, i.index < b.shop.machines.length) :
    b.shop.Changes (after (attach m r inner) b).shop := by
  by_cases outer : (b.shop.machine m).kind = .turing
  swap
  · refine changes_bind (requireNesting_eq m b) fun _ hk => ?_
    rw [if_neg outer] at hk
    cases hk
  cases hq : b.shop.state m r with
  | error e =>
    refine changes_bind (requireNesting_eq m b) fun _ _ => ?_
    refine changes_bind (state_eq m r b) fun s hs => ?_
    rw [hq] at hs
    cases hs
  | ok q =>
    by_cases nestable : ∃ i, inner = some i ∧ (b.shop.machine i).kind = .turing
    · obtain ⟨i, rfl, hturing⟩ := nestable
      by_cases back : ReflTransGen b.shop.Nests i m
      · rw [after_of_error (attach_of_back outer hq hturing back)]
      · obtain ⟨j, h⟩ := attach_of_not_back outer hq hturing back
        rw [after_of_ok h]
        exact .single (.attach q.id hm (hi i rfl) outer hturing back)
    · have refused : inner.filter (fun i => (b.shop.machine i).kind == .turing) = none := by
        cases inner with
        | none => rfl
        | some i =>
          have hne : (b.shop.machine i).kind ≠ .turing := fun h => nestable ⟨i, rfl, h⟩
          simp [Option.filter, hne]
      refine changes_bind (requireNesting_eq m b) fun _ _ => ?_
      refine changes_bind (state_eq m r b) fun s _ => ?_
      unfold after
      simp only [bind, EStateM.bind, get_apply, refused]
      exact .refl

theorem changes_removeInconsistent (arena : (b.shop.machine m).Arena)
    (hm : m.index < b.shop.machines.length) (a : Option AlphabetId) :
    b.shop.Changes (after (removeInconsistent m a) b).shop := by
  have edits (doomed : List Transition) (start : Machine) :
      ReflTransGen Machine.Edit start (start.deleteAll doomed) := by
    induction doomed generalizing start with
    | nil => exact .refl
    | cons t rest ih => exact .head (.deleteTransition t.id) (ih _)
  cases found : b.shop.inconsistent m a with
  | error e => rw [after_of_error (removeInconsistent_of_error found)]
  | ok doomed =>
    obtain ⟨j, done, -⟩ := removeInconsistent_eq arena hm found
    rw [after_of_ok done]
    exact Workshop.changes_of_edits hm (edits doomed (b.shop.machine m))

theorem changes_newMachine (kind : Kind) (name : Value) (alphabet : Option AlphabetId)
    (ha : ∀ a ∈ alphabet, a.index < b.shop.alphabets.length) :
    b.shop.Changes (after (newMachine kind name alphabet) b).shop := by
  cases alphabet with
  | some a => exact .single (.addMachine kind name (ha a rfl))
  | none =>
    refine .tail (.single (.addAlphabet Alphabet.binary)) (.addMachine kind name ?_)
    simp [Workshop.addAlphabet]

theorem changes_editAlphabet {a : AlphabetId} (ha : a.index < b.shop.alphabets.length)
    (e : AlphabetEdit) : b.shop.Changes (after (editAlphabet a e) b).shop := by
  unfold editAlphabet
  refine changes_bind (r := .ok b) rfl fun _ hb => ?_
  cases hb
  refine changes_bind (r := e.apply (b.shop.alphabet a)) ?_ fun new hnew => ?_
  · exact ofExcept_eq _ b
  · rcases AlphabetEdit.apply_eq_or_newer hnew with same | newer
    · change b.shop.Changes (b.shop.setAlphabet a new)
      rw [same, b.shop.setAlphabet_self ha]
    · exact .single (.editAlphabet ha newer)

/-! ## Documents -/

/-- Going on with an outcome gives a result only if the outcome is one. -/
theorem ofExcept_bind_eq_ok_iff {α β : Type} {r : Except Fault α} {rest : α → Work β}
    {b b' : Bench} {y : β} :
    (ofExcept r >>= rest) b = .ok y b' ↔ ∃ a, r = .ok a ∧ rest a b = .ok y b' := by
  cases r with
  | ok a => exact ⟨fun h => ⟨a, rfl, h⟩, fun ⟨_, h, h'⟩ => Except.ok.inj h ▸ h'⟩
  | error e =>
    constructor
    · intro h
      cases h
    · rintro ⟨_, h, -⟩
      cases h

theorem changes_readNested {readInner : Value → Work MachineId}
    (hinner : ∀ {v : Value} {b : Bench} {i : MachineId} {b' : Bench}, readInner v b = .ok i b' →
      b.shop.Changes b'.shop ∧ i.index < b'.shop.machines.length)
    {kind : Kind} {s : State} {inner : Value} {b' : Bench}
    (hm : m.index < b.shop.machines.length)
    (h : readNested readInner m kind s inner b = .ok () b') : b.shop.Changes b'.shop := by
  unfold readNested at h
  split at h
  · cases h
    exact .refl
  · cases h
  · obtain ⟨i, b₁, h₁, h₂⟩ := bind_eq_ok_iff.mp h
    obtain ⟨changes₁, hi⟩ := hinner h₁
    have hm₁ : m.index < b₁.shop.machines.length :=
      Nat.lt_of_lt_of_le hm changes₁.evolves.machines_le
    have changes₂ := changes_attach hm₁ (.state m s.id) (some i) fun j hj =>
      Option.some.inj hj ▸ hi
    rw [after_of_ok h₂] at changes₂
    exact changes₁.trans changes₂

theorem changes_readStates {readInner : Value → Work MachineId}
    (hinner : ∀ {v : Value} {b : Bench} {i : MachineId} {b' : Bench}, readInner v b = .ok i b' →
      b.shop.Changes b'.shop ∧ i.index < b'.shop.machines.length)
    {kind : Kind} {known known' : List (Value × Nat)} {es : List Value} {b' : Bench}
    (hm : m.index < b.shop.machines.length)
    (h : readStates readInner m kind known es b = .ok known' b') : b.shop.Changes b'.shop := by
  induction es generalizing known b with
  | nil =>
    cases h
    exact .refl
  | cons e rest ih =>
    rw [readStates] at h
    obtain ⟨label, -, h⟩ := ofExcept_bind_eq_ok_iff.mp h
    obtain ⟨start, -, h⟩ := ofExcept_bind_eq_ok_iff.mp h
    obtain ⟨final, -, h⟩ := ofExcept_bind_eq_ok_iff.mp h
    obtain ⟨s, b₁, hadd, h⟩ := bind_eq_ok_iff.mp h
    have changes₁ := changes_addState hm label.display start.truth final.truth
    rw [after_of_ok hadd] at changes₁
    have hm₁ := Nat.lt_of_lt_of_le hm changes₁.evolves.machines_le
    obtain ⟨id, -, h⟩ := ofExcept_bind_eq_ok_iff.mp h
    obtain ⟨found, -, h⟩ := ofExcept_bind_eq_ok_iff.mp h
    cases found with
    | some n => cases h
    | none =>
      obtain ⟨inner, -, h⟩ := ofExcept_bind_eq_ok_iff.mp h
      obtain ⟨_, b₂, hnested, h⟩ := bind_eq_ok_iff.mp h
      have changes₂ := changes_readNested hinner hm₁ hnested
      have hm₂ := Nat.lt_of_lt_of_le hm₁ changes₂.evolves.machines_le
      exact (changes₁.trans changes₂).trans (ih hm₂ h)

theorem changes_readTransitions {kind : Kind} {known : List (Value × Nat)} {es : List Value}
    {b' : Bench} (hm : m.index < b.shop.machines.length)
    (h : readTransitions m kind known es b = .ok () b') : b.shop.Changes b'.shop := by
  induction es generalizing b with
  | nil =>
    cases h
    exact .refl
  | cons e rest ih =>
    rw [readTransitions] at h
    obtain ⟨action, -, h⟩ := ofExcept_bind_eq_ok_iff.mp h
    obtain ⟨source, -, h⟩ := ofExcept_bind_eq_ok_iff.mp h
    obtain ⟨target, -, h⟩ := ofExcept_bind_eq_ok_iff.mp h
    obtain ⟨_, b₁, hadd, h⟩ := bind_eq_ok_iff.mp h
    have changes₁ := changes_addTransition hm (.state m source) (.state m target) action
    rw [← after_discard, after_of_ok hadd] at changes₁
    have hm₁ := Nat.lt_of_lt_of_le hm changes₁.evolves.machines_le
    exact changes₁.trans (ih hm₁ h)

/-- Reading a document comes down to the ordinary edits, and gives a machine of the workshop. -/
theorem changes_readTo {d : Nat} {data : Value} {b' : Bench}
    (h : readTo d data b = .ok m b') :
    b.shop.Changes b'.shop ∧ m.index < b'.shop.machines.length := by
  induction d generalizing data b m b' with
  | zero => cases h
  | succ d ih =>
    rw [readTo] at h
    obtain ⟨kind, -, h⟩ := ofExcept_bind_eq_ok_iff.mp h
    obtain ⟨alphabet, -, h⟩ := ofExcept_bind_eq_ok_iff.mp h
    obtain ⟨a, b₁, hadd, h⟩ := bind_eq_ok_iff.mp h
    cases hadd
    obtain ⟨new, b₂, hnew, h⟩ := bind_eq_ok_iff.mp h
    cases hnew
    obtain ⟨states, -, h⟩ := ofExcept_bind_eq_ok_iff.mp h
    obtain ⟨known, b₃, hread, h⟩ := bind_eq_ok_iff.mp h
    obtain ⟨transitions, -, h⟩ := ofExcept_bind_eq_ok_iff.mp h
    obtain ⟨_, b₄, htrans, h⟩ := bind_eq_ok_iff.mp h
    obtain ⟨rfl, rfl⟩ : ⟨b.shop.machines.length⟩ = m ∧ b₄ = b' := by
      cases h
      exact ⟨rfl, rfl⟩
    -- A new alphabet and a machine without states come first.
    let w₁ := (b.shop.addAlphabet alphabet).1
    let w₂ := (w₁.addMachine (Machine.empty kind ((data.field? "name").getD untitled)
      ⟨b.shop.alphabets.length⟩)).1
    have fresh : b.shop.Changes w₂ := by
      refine .tail (.single (.addAlphabet alphabet)) (.addMachine _ _ ?_)
      simp [Workshop.addAlphabet]
    have known₂ : b.shop.machines.length < w₂.machines.length := by
      simp [w₂, w₁, Workshop.addMachine, Workshop.addAlphabet]
    have changes₃ : w₂.Changes b₃.shop := changes_readStates ih known₂ hread
    have known₃ := Nat.lt_of_lt_of_le known₂ changes₃.evolves.machines_le
    have changes₄ := changes_readTransitions known₃ htrans
    exact ⟨(fresh.trans changes₃).trans changes₄,
      Nat.lt_of_lt_of_le known₃ changes₄.evolves.machines_le⟩

/-- A document is accepted exactly if it can be read in full. -/
theorem readDocument_eq_ok_iff {data : Value} {b b' : Bench} {m : MachineId} :
    readDocument data b = .ok m b' ↔ readTo (data.height + 1) data b = .ok m b' := by
  unfold readDocument atomically
  cases readTo (data.height + 1) data b with
  | ok m₁ b₁ => rfl
  | error e b₁ => exact ⟨nofun, nofun⟩

theorem changes_readDocument (data : Value) :
    b.shop.Changes (after (readDocument data) b).shop := by
  unfold readDocument atomically after
  cases h : readTo (data.height + 1) data b with
  | ok m b' =>
    simp only [h]
    exact (changes_readTo h).1
  | error e b' =>
    simp only [h]
    exact .refl

end Work

/-- **A command comes down to small changes.** -/
theorem Command.changes (c : Command) {b : Bench} (good : b.shop.Good) (known : c.Known b.shop) :
    b.shop.Changes (after c.run b).shop := by
  cases c with
  | newAlphabet symbols blank =>
    refine Work.changes_bind (Work.ofExcept_eq _ b) fun a _ => ?_
    rw [Work.after_discard]
    exact .single (.addAlphabet a)
  | parseAlphabet text =>
    refine Work.changes_bind (Work.ofExcept_eq _ b) fun a _ => ?_
    rw [Work.after_discard]
    exact .single (.addAlphabet a)
  | copyAlphabet a => exact .single (.addAlphabet _)
  | editAlphabet a edit => exact Work.changes_editAlphabet known edit
  | newMachine kind name alphabet =>
    rw [run, Work.after_discard]
    exact Work.changes_newMachine kind name alphabet known
  | addState m label isStart isFinal =>
    rw [run, Work.after_discard]
    exact Work.changes_addState known label isStart isFinal
  | deleteState m state =>
    rw [run, Work.after_discard]
    exact Work.changes_deleteState (good.sane.arena m) known state
  | addTransition m source target action =>
    rw [run, Work.after_discard]
    exact Work.changes_addTransition known source target action
  | deleteTransition m transition =>
    rw [run, Work.after_discard]
    exact Work.changes_deleteTransition (good.sane.arena m) known transition
  | setAction m transition action => exact Work.changes_setAction known transition action
  | setStart m state value => exact Work.changes_setStart known state value
  | setFinal m state value => exact Work.changes_setFinal known state value
  | setLabel m state label => exact Work.changes_setLabel known state label
  | setAlphabet m a => exact .single (.setAlphabet known.1 known.2)
  | attach m state inner => exact Work.changes_attach known.1 state inner known.2
  | detach m state =>
    rw [run, Work.after_discard]
    exact Work.changes_detach known state
  | removeInconsistent m a =>
    rw [run, Work.after_discard]
    exact Work.changes_removeInconsistent (good.sane.arena m) known.1 a
  | invalidate m => exact Work.changes_edit known .invalidate
  | validate m =>
    obtain ⟨b', -, changes, h, -⟩ := Work.validate_spec good known
    rw [run, after_of_conclude h]
    exact changes
  | readDocument data =>
    rw [run, Work.after_discard]
    exact Work.changes_readDocument data

theorem Command.changes_runAll {b : Bench} (good : b.shop.Good) {cs : List Command}
    (known : AllKnown cs b) : b.shop.Changes (runAll cs b).shop := by
  induction cs generalizing b with
  | nil => exact .refl
  | cons c rest ih =>
    have first := c.changes good known.1
    exact first.trans (ih (first.good good) known.2)

/-- **A workshop with a history is sound**: arenas are in order, links lead to Turing machines of the
workshop and close no cycle, and whatever a machine remembers was true when it was found. -/
theorem Workshop.Reachable.good {w : Workshop} (h : w.Reachable) : w.Good := by
  induction h with
  | empty => exact Workshop.good_empty
  | step c _ known ih => exact (c.changes ih known).good ih

end MachineLab
