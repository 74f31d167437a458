import MachineLab.Workshop.Nesting

/-!
# Editing machines

Each edit first resolves its references and checks its arguments, and only then changes the machine,
so an edit that fails changes nothing.

## Main definitions

* `Work.newMachine` — a machine without states.
* `Work.addState`, `deleteState`, `addTransition`, `deleteTransition`, `setAction`, `setStart`,
  `setFinal`, `setLabel`, `setAlphabet`, `invalidate` — the edits.
* `Work.removeInconsistent` — prune the transitions that an alphabet does not allow.
-/

namespace MachineLab

/-- Whether an alphabet allows an action.  Symbols that are not chosen yet are allowed. -/
def Action.isConsistent (a : Alphabet) : Action → Except Fault Bool
  | .turing d inp out => do
    let known ← a.contains inp
    if !known && !inp.isIn [Symbol.undefined, Symbol.otherwise] then return false
    if d != .stay then return true
    let known ← a.contains out
    return known || out.isIn [Symbol.undefined, Symbol.noWrite]
  | .acceptor inp => do
    let known ← a.contains inp
    return known || inp.isIn [Symbol.undefined, Symbol.emptyInput]

namespace Machine

/-- The transitions that an alphabet does not allow. -/
def inconsistent (m : Machine) (a : Alphabet) : Except Fault (List Transition) :=
  m.transitions.filterM fun t => do return !(← t.action.isConsistent a)

/-- Whether an alphabet allows every transition in a list, looked at in order. -/
def allConsistent (a : Alphabet) : List Transition → Except Fault Bool
  | [] => .ok true
  | t :: rest => do
    if ← t.action.isConsistent a then allConsistent a rest else return false

end Machine

namespace Workshop

/-- The alphabet to measure a machine by: a given one, or its own. -/
def measureOf (w : Workshop) (m : MachineId) (a : Option AlphabetId) : Alphabet :=
  w.alphabet (a.getD (w.machine m).alphabet)

/-- Whether an alphabet allows every transition of a machine. -/
def isConsistent (w : Workshop) (m : MachineId) (a : Option AlphabetId) : Except Fault Bool :=
  Machine.allConsistent (w.measureOf m a) (w.machine m).transitions

/-- The transitions of a machine that an alphabet does not allow. -/
def inconsistent (w : Workshop) (m : MachineId) (a : Option AlphabetId) :
    Except Fault (List Transition) :=
  (w.machine m).inconsistent (w.measureOf m a)

end Workshop

namespace Work

/-- A machine without states.  Without an alphabet it gets a binary one of its own. -/
def newMachine (kind : Kind) (name : Value) (alphabet : Option AlphabetId) : Work MachineId := do
  let a ← match alphabet with
    | some a => pure a
    | none => addAlphabet Alphabet.binary
  addMachine (Machine.empty kind name a)

def addState (m : MachineId) (label : String) (isStart isFinal : Bool) : Work State := do
  let (new, s) := (← machine m).addState label isStart isFinal
  setMachine m new
  return s

/-- Remove a state with all its transitions; says whether there was such a state. -/
def deleteState (m : MachineId) (r : Ref) : Work Bool := do
  match (← get).shop.state m r with
  | .ok s =>
    inMachine m (InPlace.deleteState s.id)
    return true
  | .error (.refusal _) => return false
  | .error e => throw e

/-- Refuse an action of the other kind. -/
def checkAction (m : MachineId) (action : Action) : Work Unit := do
  let kind := (← machine m).kind
  if action.kind ≠ kind then throw (.refusal (.wrongAction kind action.kind))

def addTransition (m : MachineId) (source target : Ref) (action : Action) : Work Transition := do
  let s ← state m source
  let t ← state m target
  checkAction m action
  let (new, tr) := (← machine m).addTransition s.id t.id action
  setMachine m new
  return tr

/-- Remove a transition; says whether there was such a transition. -/
def deleteTransition (m : MachineId) (r : Ref) : Work Bool := do
  match (← get).shop.transition m r with
  | .ok t =>
    inMachine m (InPlace.deleteTransition t)
    return true
  | .error (.refusal _) => return false
  | .error e => throw e

def setAction (m : MachineId) (r : Ref) (action : Action) : Work Unit := do
  let t ← transition m r
  checkAction m action
  setMachine m ((← machine m).setAction t.id action)

def setStart (m : MachineId) (r : Ref) (value : Bool) : Work Unit := do
  let s ← state m r
  setMachine m ((← machine m).setStart s.id value)

def setFinal (m : MachineId) (r : Ref) (value : Bool) : Work Unit := do
  let s ← state m r
  setMachine m ((← machine m).setFinal s.id value)

def setLabel (m : MachineId) (r : Ref) (label : String) : Work Unit := do
  let s ← state m r
  setMachine m ((← machine m).setLabel s.id label)

def setAlphabet (m : MachineId) (a : AlphabetId) : Work Unit := do
  setMachine m ((← machine m).setAlphabet a)

def invalidate (m : MachineId) : Work Unit := do
  setMachine m (← machine m).invalidate

/-- Remove the transitions that an alphabet does not allow; says how many there were. -/
def removeInconsistent (m : MachineId) (a : Option AlphabetId) : Work Nat := do
  let doomed ← ofExcept ((← get).shop.inconsistent m a)
  doomed.forM fun t => discard <| deleteTransition m (.transition m t.id)
  if !doomed.isEmpty then
    record .info .machine
      ("Removed " ++ toString doomed.length ++
        " transition(s) inconsistent with the alphabet from '" ++
        (← machine m).name.display ++ "'.")
  return doomed.length

end Work

end MachineLab
