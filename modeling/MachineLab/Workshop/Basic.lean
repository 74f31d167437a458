import MachineLab.Machine.Basic

/-!
# The workshop

Alphabets are shared between machines and machines are nested in one another, so both live in a
workshop and are referred to by name.  Nothing is ever taken out of a workshop.

## Main definitions

* `Workshop` — the alphabets and machines that there are.
* `Bench`, `Work` — work in a workshop, with the journal of what was done.
* `Ref`, `Workshop.state`, `Workshop.transition` — references to states and transitions.
-/

namespace MachineLab

/-- The alphabets and machines that there are. -/
structure Workshop where
  alphabets : List Alphabet
  machines : List Machine
deriving Repr, Inhabited

namespace Workshop

def empty : Workshop := ⟨[], []⟩

def alphabet (w : Workshop) (a : AlphabetId) : Alphabet := w.alphabets.getD a.index default

def machine (w : Workshop) (m : MachineId) : Machine := w.machines.getD m.index default

def alphabetOf (w : Workshop) (m : MachineId) : Alphabet := w.alphabet (w.machine m).alphabet

def setAlphabet (w : Workshop) (a : AlphabetId) (new : Alphabet) : Workshop :=
  { w with alphabets := w.alphabets.set a.index new }

def setMachine (w : Workshop) (m : MachineId) (new : Machine) : Workshop :=
  { w with machines := w.machines.set m.index new }

def addAlphabet (w : Workshop) (a : Alphabet) : Workshop × AlphabetId :=
  ({ w with alphabets := w.alphabets ++ [a] }, ⟨w.alphabets.length⟩)

def addMachine (w : Workshop) (m : Machine) : Workshop × MachineId :=
  ({ w with machines := w.machines ++ [m] }, ⟨w.machines.length⟩)

@[simp] theorem length_setMachine (w : Workshop) (m : MachineId) (new : Machine) :
    (w.setMachine m new).machines.length = w.machines.length := by
  simp [setMachine]

theorem machine_setMachine_self (w : Workshop) (m : MachineId) (new : Machine)
    (h : m.index < w.machines.length) : (w.setMachine m new).machine m = new := by
  simp [machine, setMachine, List.getD_eq_getElem?_getD, h]

theorem machine_setMachine_of_ne (w : Workshop) (m m' : MachineId) (new : Machine) (h : m' ≠ m) :
    (w.setMachine m new).machine m' = w.machine m' := by
  have hi : m.index ≠ m'.index := by
    intro e
    apply h
    cases m
    cases m'
    simp_all
  simp [machine, setMachine, List.getD_eq_getElem?_getD, List.getElem?_set_ne hi]

@[simp] theorem alphabet_setMachine (w : Workshop) (m : MachineId) (new : Machine)
    (a : AlphabetId) : (w.setMachine m new).alphabet a = w.alphabet a := rfl

@[simp] theorem machine_setAlphabet (w : Workshop) (a : AlphabetId) (new : Alphabet)
    (m : MachineId) : (w.setAlphabet a new).machine m = w.machine m := rfl

end Workshop

/-! ## Work -/

/-- A workshop and the journal of what was done in it. -/
structure Bench where
  shop : Workshop
  journal : Journal
deriving Inhabited

/-- Work in a workshop.  Whatever was done before a fault stays done. -/
abbrev Work := EStateM Fault Bench

namespace Work

def ofExcept {α : Type} : Except Fault α → Work α
  | .ok a => pure a
  | .error e => throw e

def machine (m : MachineId) : Work Machine := do return (← get).shop.machine m

def setMachine (m : MachineId) (new : Machine) : Work Unit :=
  modify fun b => { b with shop := b.shop.setMachine m new }

/-- Work on one machine of a workshop where it stands. -/
def inMachine {α : Type} (m : MachineId) (work : InPlace α) : Work α := fun b =>
  match work (b.shop.machine m) with
  | .ok a new => .ok a { b with shop := b.shop.setMachine m new }
  | .error e new => .error e { b with shop := b.shop.setMachine m new }

def record (level : LogLevel) (channel : Channel) (message : String) : Work Unit :=
  modify fun b => { b with journal := b.journal.record level channel message }

def addAlphabet (a : Alphabet) : Work AlphabetId := fun b =>
  let (shop, id) := b.shop.addAlphabet a
  .ok id { b with shop }

def addMachine (m : Machine) : Work MachineId := fun b =>
  let (shop, id) := b.shop.addMachine m
  .ok id { b with shop }

/-- Do some work entirely or not at all: after a fault the workshop is as it was.  The journal keeps
what was reported. -/
def atomically {α : Type} (work : Work α) : Work α := fun b =>
  match work b with
  | .ok a b' => .ok a b'
  | .error e b' => .error e { b' with shop := b.shop }

end Work

/-! ## References -/

/-- A reference to a state or a transition: a value that stands for an identifier, or a record that a
machine has issued. -/
inductive Ref where
  | value (v : Value)
  | state (owner : MachineId) (id : Nat)
  | transition (owner : MachineId) (id : Nat)
deriving Repr, Inhabited

namespace Workshop

def displayState (w : Workshop) (s : State) : String :=
  "State(state_id=" ++ toString s.id ++ ", label=" ++ Text.quoted s.label ++
    ", is_start=" ++ Value.boolText s.isStart ++ ", is_final=" ++ Value.boolText s.isFinal ++
    ", transition_ids=" ++ (Value.list (s.outgoing.map fun (i : Nat) => .int i)).quoted ++
    ", submachine=" ++ (match s.submachine with
      | some m => (w.machine m).display
      | none => "None") ++ ", properties=\x7b\x7d)"

def displayTransition (t : Transition) : String :=
  "Transition(transition_id=" ++ toString t.id ++ ", from_id=" ++ toString t.source ++
    ", to_id=" ++ toString t.target ++ ", action=" ++ t.action.display ++ ", properties=\x7b\x7d)"

def displayRef (w : Workshop) : Ref → String
  | .value v => v.quoted
  | .state owner id => w.displayState (((w.machine owner).stateRecord? id).getD default)
  | .transition owner id => displayTransition (((w.machine owner).transitionRecord? id).getD default)

/-- The identifier that a value stands for, if there can be one. -/
def idOf (v : Value) : Except Fault (Option Nat) :=
  if v.isKey then .ok v.index? else .error (.mismatch (.notKey v.kind))

/-- The live state of a machine that a reference leads to.  A record leads to itself only. -/
def state (w : Workshop) (m : MachineId) (r : Ref) : Except Fault State :=
  let machine := w.machine m
  let foreign : Except Fault State :=
    .error (.refusal (.foreignState (w.displayRef r) machine.name))
  let found? : Except Fault (Option State) := match r with
    | .value v => (idOf v).map fun id? => id?.bind machine.state?
    | .state owner id => .ok (if owner = m then machine.state? id else none)
    | .transition _ _ => .ok none
  match found? with
  | .error e => .error e
  | .ok (some s) => .ok s
  | .ok none => foreign

/-- The live transition of a machine that a reference leads to. -/
def transition (w : Workshop) (m : MachineId) (r : Ref) : Except Fault Transition :=
  let machine := w.machine m
  let foreign : Except Fault Transition :=
    .error (.refusal (.foreignTransition (w.displayRef r) machine.name))
  let found? : Except Fault (Option Transition) := match r with
    | .value v => (idOf v).map fun id? => id?.bind machine.transition?
    | .transition owner id => .ok (if owner = m then machine.transition? id else none)
    | .state _ _ => .ok none
  match found? with
  | .error e => .error e
  | .ok (some t) => .ok t
  | .ok none => foreign

/-- Whether a reference leads to a live state. -/
def hasState (w : Workshop) (m : MachineId) (r : Ref) : Except Fault Bool :=
  match w.state m r with
  | .ok _ => .ok true
  | .error (.refusal _) => .ok false
  | .error e => .error e

end Workshop

def Work.state (m : MachineId) (r : Ref) : Work State := do Work.ofExcept ((← get).shop.state m r)

def Work.transition (m : MachineId) (r : Ref) : Work Transition := do
  Work.ofExcept ((← get).shop.transition m r)

end MachineLab
