import MachineLab.Action

/-!
# Machines as arenas of states and transitions

A machine owns its states and transitions and issues each an identifier that it never issues again.
Both arenas are kept in the order of their identifiers.  Every structural edit counts up a revision
and forgets that the machine was found valid; renaming a state is no structural edit.

Records that were removed are remembered, so that a stale reference can still be shown; nothing else
looks at them.

## Main definitions

* `State`, `Transition`, `Machine` — the records.
* `Machine.addState`, `addTransition`, `setAction`, … — the edits, on identifiers of live records.
* `InPlace.deleteState`, `InPlace.deleteTransition` — the removals, one record at a time.
* `Machine.resolve?` — the transition that a state takes on a symbol.
* `Machine.advance` — taking a transition, or deciding how the machine has halted.
-/

namespace MachineLab

/-- The name of an alphabet in a workshop. -/
structure AlphabetId where
  index : Nat
deriving DecidableEq, Repr, Inhabited

/-- The name of a machine in a workshop. -/
structure MachineId where
  index : Nat
deriving DecidableEq, Repr, Inhabited

structure State where
  id : Nat
  label : String
  isStart : Bool
  isFinal : Bool
  /-- The transitions that leave the state, in the order in which they were added. -/
  outgoing : List Nat
  /-- The machine that runs inside the state. -/
  submachine : Option MachineId
deriving DecidableEq, Repr, Inhabited

structure Transition where
  id : Nat
  source : Nat
  target : Nat
  action : Action
deriving Repr, Inhabited

/-- The symbol that an edge matches. -/
def Transition.input (t : Transition) : Symbol := t.action.input

/-- Whether a transition enters or leaves a state. -/
def Transition.touches (t : Transition) (id : Nat) : Bool := t.source == id || t.target == id

/-- What decides whether a machine and everything nested in it are as they were: the counts of edits
of each machine and of its alphabet, and which alphabet that is. -/
inductive RevisionKey where
  | node (revision : Nat) (alphabet : AlphabetId) (alphabetRevision : Nat)
      (nested : List RevisionKey)
deriving Repr

structure Machine where
  kind : Kind
  name : Value
  alphabet : AlphabetId
  states : List State
  transitions : List Transition
  nextState : Nat
  nextTransition : Nat
  revision : Nat
  /-- The key under which the machine was last found valid. -/
  validated : Option RevisionKey
  removedStates : List State
  removedTransitions : List Transition
deriving Repr, Inhabited

/-! ## Comparing revision keys -/

namespace RevisionKey

mutual

/-- Equality of keys can be decided. -/
def decEq : (a b : RevisionKey) → Decidable (a = b)
  | .node r a n ks, .node r' a' n' ks' =>
    if h : r = r' ∧ a = a' ∧ n = n' then
      match decEqList ks ks' with
      | isTrue hk => isTrue (by rw [h.1, h.2.1, h.2.2, hk])
      | isFalse hk => isFalse (fun e => hk (RevisionKey.node.inj e).2.2.2)
    else
      isFalse (fun e =>
        h ⟨(RevisionKey.node.inj e).1, (RevisionKey.node.inj e).2.1, (RevisionKey.node.inj e).2.2.1⟩)

/-- Equality of lists of keys can be decided. -/
def decEqList : (as bs : List RevisionKey) → Decidable (as = bs)
  | [], [] => isTrue rfl
  | [], _ :: _ => isFalse (by intro e; cases e)
  | _ :: _, [] => isFalse (by intro e; cases e)
  | a :: as, b :: bs =>
    match decEq a b with
    | isFalse h => isFalse (fun e => h (List.cons.inj e).1)
    | isTrue h =>
      match decEqList as bs with
      | isFalse hs => isFalse (fun e => hs (List.cons.inj e).2)
      | isTrue hs => isTrue (by rw [h, hs])

end

instance : DecidableEq RevisionKey := decEq

end RevisionKey

namespace Machine

def empty (kind : Kind) (name : Value) (alphabet : AlphabetId) : Machine :=
  { kind, name, alphabet
    states := []
    transitions := []
    nextState := 0
    nextTransition := 0
    revision := 0
    validated := none
    removedStates := []
    removedTransitions := [] }

/-! ## Lookup -/

/-- The live state with an identifier. -/
def state? (m : Machine) (id : Nat) : Option State := m.states.find? (·.id == id)

/-- The live transition with an identifier. -/
def transition? (m : Machine) (id : Nat) : Option Transition := m.transitions.find? (·.id == id)

/-- The record of a state that was issued, live or removed. -/
def stateRecord? (m : Machine) (id : Nat) : Option State :=
  m.state? id <|> m.removedStates.find? (·.id == id)

/-- The record of a transition that was issued, live or removed. -/
def transitionRecord? (m : Machine) (id : Nat) : Option Transition :=
  m.transition? id <|> m.removedTransitions.find? (·.id == id)

/-- The state at an end of a transition. -/
def endpoint (m : Machine) (id : Nat) : Except Fault State :=
  match m.state? id with
  | some s => .ok s
  | none => .error (.refusal (.missingKey (.int id)))

/-- A transition that a state lists. -/
def listed (m : Machine) (id : Nat) : Except Fault Transition :=
  match m.transition? id with
  | some t => .ok t
  | none => .error (.refusal (.missingKey (.int id)))

/-- The transitions that leave a state, in the order in which they were added. -/
def leaving (m : Machine) (s : State) : Except Fault (List Transition) := s.outgoing.mapM m.listed

def entering (m : Machine) (s : State) : List Transition :=
  m.transitions.filter (·.target == s.id)

def startState? (m : Machine) : Option State := m.states.find? (·.isStart)

def finalStates (m : Machine) : List State := m.states.filter (·.isFinal)

def finalState? (m : Machine) : Option State := m.states.find? (·.isFinal)

/-- The machines nested in the states, one for each state that holds one. -/
def submachines (m : Machine) : List MachineId := m.states.filterMap (·.submachine)

/-- The labels in use, each once, in increasing order. -/
def labels (m : Machine) : List String :=
  ((m.states.map (·.label)).mergeSort (fun a b => decide (a ≤ b))).eraseReps

def describe (m : Machine) (t : Transition) : Except Fault String := do
  let source ← m.endpoint t.source
  let target ← m.endpoint t.target
  match m.kind with
  | .turing => return source.label ++ " -> " ++ target.label ++ " [" ++ t.action.describe ++ "]"
  | .acceptor => return source.label ++ " -" ++ t.input.display ++ "-> " ++ target.label

def display (m : Machine) : String :=
  m.kind.machineName ++ "(name=" ++ m.name.quoted ++ ", states=" ++ toString m.states.length ++
    ", transitions=" ++ toString m.transitions.length ++ ")"

/-! ## Edits -/

/-- Count a structural edit. -/
def touch (m : Machine) : Machine := { m with revision := m.revision + 1, validated := none }

/-- Forget that the machine was found valid. -/
def invalidate (m : Machine) : Machine := { m with validated := none }

def updateState (m : Machine) (id : Nat) (f : State → State) : Machine :=
  { m with states := m.states.map fun s => if s.id = id then f s else s }

def addState (m : Machine) (label : String) (isStart isFinal : Bool) : Machine × State :=
  let s : State :=
    { id := m.nextState, label, isStart, isFinal, outgoing := [], submachine := none }
  (touch { m with states := m.states ++ [s], nextState := m.nextState + 1 }, s)

/-- Add a transition between two live states. -/
def addTransition (m : Machine) (source target : Nat) (action : Action) : Machine × Transition :=
  let t : Transition := { id := m.nextTransition, source, target, action }
  let m := m.updateState source fun s => { s with outgoing := s.outgoing ++ [t.id] }
  (touch { m with
     transitions := m.transitions ++ [t]
     nextTransition := m.nextTransition + 1 }, t)

def setAction (m : Machine) (id : Nat) (action : Action) : Machine :=
  touch { m with
    transitions := m.transitions.map fun t => if t.id = id then { t with action } else t }

def setStart (m : Machine) (id : Nat) (value : Bool) : Machine :=
  (m.updateState id fun s => { s with isStart := value }).touch

def setFinal (m : Machine) (id : Nat) (value : Bool) : Machine :=
  (m.updateState id fun s => { s with isFinal := value }).touch

/-- Rename a state.  Labels play no part in validity, so this is no structural edit. -/
def setLabel (m : Machine) (id : Nat) (label : String) : Machine :=
  m.updateState id fun s => { s with label }

def setSubmachine (m : Machine) (id : Nat) (inner : Option MachineId) : Machine :=
  (m.updateState id fun s => { s with submachine := inner }).touch

def setAlphabet (m : Machine) (alphabet : AlphabetId) : Machine := touch { m with alphabet }

end Machine

/-! ## Removals -/

/-- Work on a machine, one record at a time.  Whatever was done before a fault stays done. -/
abbrev InPlace := EStateM Fault Machine

namespace InPlace

/-- Take a transition out of the arena, and then its identifier out of the list of the state that it
leaves. -/
def detach (t : Transition) : InPlace Unit := do
  if ((← get).transition? t.id).isNone then throw (.refusal (.missingKey (.int t.id)))
  modify fun m => { m with
    transitions := m.transitions.filter (·.id != t.id)
    removedTransitions := m.removedTransitions ++ [t] }
  match (← get).state? t.source with
  | none => throw (.refusal (.missingKey (.int t.source)))
  | some s =>
    if t.id ∈ s.outgoing then
      modify (·.updateState t.source fun s => { s with outgoing := s.outgoing.erase t.id })
    else throw (.refusal .notListed)

/-- Remove a state: first every transition that enters or leaves it, then the state. -/
def deleteState (id : Nat) : InPlace Unit := do
  ((← get).transitions.filter (·.touches id)).forM detach
  match (← get).state? id with
  | none => throw (.refusal (.missingKey (.int id)))
  | some s =>
    modify fun m => Machine.touch { m with
      states := m.states.filter (·.id != id)
      removedStates := m.removedStates ++ [s] }

def deleteTransition (t : Transition) : InPlace Unit := do
  detach t
  modify Machine.touch

end InPlace

/-! ## Execution -/

namespace Machine

/-- Of the transitions that leave a state, the one to take on a symbol: the first one that matches it
exactly, or else, in a Turing machine, the first one that matches whatever is left over. -/
def pick (kind : Kind) (leaving : List Transition) (symbol : Symbol) : Option Transition :=
  match leaving.find? (·.input.eqv symbol) with
  | some t => some t
  | none =>
    match kind with
    | .turing => leaving.find? (·.input.eqv Symbol.otherwise)
    | .acceptor => none

/-- The transition that a state takes on a symbol. -/
def resolve? (m : Machine) (s : State) (symbol : Symbol) : Except Fault (Option Transition) := do
  return pick m.kind (← m.leaving s) symbol

/-- How a Turing machine without a transition to take ends up: it has halted on its final state with
the head parked, or its computation is undefined. -/
def turingStop (m : Machine) (s : State) (t : Tape) : MachineFault :=
  if t.isParked && s.isFinal then .halted m.name s.label
  else .undefinedTransition t.isParked s.isFinal

/-- Carry out the action of a transition and go to its target. -/
def follow (m : Machine) (tr : Transition) : TapeM State := do
  tr.action.perform
  match m.endpoint tr.target with
  | .ok s => pure s
  | .error e => throw e

/-- Take a transition from a state, or find out how the machine has halted.  An acceptor may follow
an edge for the empty string even when its input is used up. -/
def advance (m : Machine) (s : State) (transition : Option Transition) : TapeM State := do
  let t := (← get).tape
  match m.kind, transition with
  | .turing, some tr => m.follow tr
  | .turing, none => throw (.machine (m.turingStop s t))
  | .acceptor, some tr =>
    if tr.input.eqv Symbol.emptyInput || t.read ≠ blankCell then m.follow tr
    else throw (.machine (if s.isFinal then .accepted else .rejected))
  | .acceptor, none =>
    if t.read = blankCell then throw (.machine (if s.isFinal then .accepted else .rejected))
    else throw (.machine (.stuck s.label t.read))

end Machine

end MachineLab
