import MachineLab.Simulator.Basic

/-!
# Stepping

The first step puts the outermost machine on its start state.  Every later step takes a transition of
the innermost running machine, enters a submachine, or lets a machine go on whose submachine has
finished.

## Main definitions

* `Stage`, `SimM` — what a step works on.
* `SimM.step` — one step.
* `SimM.reset` — back to the beginning.
-/

namespace MachineLab

/-- What a step works on: the workshop, the tape, the simulator and the journal. -/
structure Stage where
  shop : Workshop
  tape : Tape
  sim : Simulator
  journal : Journal
deriving Inhabited

/-- Work with a simulator.  Whatever was done before a fault stays done. -/
abbrev SimM := EStateM Fault Stage

namespace SimM

def ofExcept {α : Type} : Except Fault α → SimM α
  | .ok a => pure a
  | .error e => throw e

def inShop {α : Type} (work : Work α) : SimM α := fun s =>
  match work ⟨s.shop, s.journal⟩ with
  | .ok a b => .ok a { s with shop := b.shop, journal := b.journal }
  | .error e b => .error e { s with shop := b.shop, journal := b.journal }

def onTape {α : Type} (work : TapeM α) : SimM α := fun s =>
  match work ⟨s.tape, s.journal⟩ with
  | .ok a r => .ok a { s with tape := r.tape, journal := r.journal }
  | .error e r => .error e { s with tape := r.tape, journal := r.journal }

def tell (e : SimulatorEvent) : SimM Unit :=
  modify fun s => { s with journal := s.journal.tell (.simulator e) }

def record (level : LogLevel) (message : String) : SimM Unit :=
  modify fun s => { s with journal := s.journal.record level .simulator message }

def update (f : Simulator → Simulator) : SimM Unit := modify fun s => { s with sim := f s.sim }

def observe {α : Type} (f : Workshop → Simulator → Except Fault α) : SimM α := do
  let s ← get
  ofExcept (f s.shop s.sim)

def observeTape {α : Type} (f : Workshop → Simulator → Tape → Except Fault α) : SimM α := do
  let s ← get
  ofExcept (f s.shop s.sim s.tape)

def nameOf (m : MachineId) : SimM String := do return ((← get).shop.machine m).name.display

/-- Note an action, marked for each level of nesting at which it happens. -/
def logAction (message : String) : SimM Unit := do
  let stack ← observe Workshop.stack
  let marks := String.join (List.replicate (stack.length - 1) "[SUB] ")
  update fun s =>
    let entry := marks ++ "[Step " ++ toString s.stepCount ++ "] " ++ message
    { s with actions := s.actions.push entry }

/-- Tell the listeners which state is current. -/
def announceState : SimM Unit := do tell (.stateChanged (← observe Workshop.stateName))

def startOf (m : MachineId) : SimM State := do
  match ((← get).shop.machine m).startState? with
  | some q => pure q
  | none => throw (.machine (.nondeterministic .noStart))

/-- Put the outermost machine on its start state. -/
def start : SimM Unit := do
  let m := (← get).sim.machine
  let q ← startOf m
  update (·.setCursor m q.id)
  logAction ("Starting in state " ++ q.label)
  record .info ("Simulation of '" ++ (← nameOf m) ++ "' started in " ++ q.label ++ ".")
  announceState

/-- Put a machine that has taken a transition on its new state, and report it. -/
def take (m : MachineId) (tr : Transition) (new : State) : SimM Unit := do
  let machine := (← get).shop.machine m
  let source ← observe fun w _ => w.stateAt m tr.source
  update (·.setCursor m new.id)
  logAction (← ofExcept (machine.describe tr))
  record .debug ("'" ++ machine.name.display ++ "': " ++ (← ofExcept (machine.describe tr)))
  tell (.transitionTaken source.label new.label (← ofExcept tr.action.text))
  announceState

/-- What is noted when a machine halts in a state: of a Turing machine only that it completed. -/
def haltNote? (kind : Kind) (q : State) (f : MachineFault) : Option String :=
  match kind with
  | .turing => if f.isCompletion then some ("Halted in " ++ q.label) else none
  | .acceptor => if f.isCompletion || f.isFailure then some f.message else none

/-- Carry out a transition or find out how the machine halted, noting a halt. -/
def advance (m : MachineId) (q : State) (tr : Option Transition) : SimM State := do
  let machine := (← get).shop.machine m
  try onTape (machine.advance q tr)
  catch e =>
    match e with
    | .machine f =>
      match haltNote? machine.kind q f with
      | some note => logAction note
      | none => pure ()
    | _ => pure ()
    throw e

/-- Let a machine take the transition for the symbol under the head. -/
def act (m : MachineId) (q : State) : SimM Unit := do
  let tr? ← observeTape fun w _ t => w.chosen m q t
  let new ← advance m q tr?
  match tr? with
  | some tr => take m tr new
  | none => pure ()

def enter (q : State) (inner : MachineId) : SimM Unit := do
  let p ← startOf inner
  let name ← nameOf inner
  update (·.setCursor inner p.id)
  logAction ("Entering submachine '" ++ name ++ "' at " ++ p.label)
  record .debug ("Entered submachine '" ++ name ++ "' from state " ++ q.label ++ ".")
  announceState

def proceed : SimM Unit := do
  match ← observe Workshop.focus with
  | none => pure ()
  | some (.enter _ q inner) => enter q inner
  | some (.act m q finished) =>
    act m q
    match finished with
    | some inner => update (·.clearCursor inner)
    | none => pure ()

/-- Perform one step.  It counts even if it fails, unless the machine is not valid. -/
def step : SimM Unit := do
  inShop (Work.validate (← get).sim.machine)
  update fun s => { s with stepCount := s.stepCount + 1 }
  let sim := (← get).sim
  match sim.cursor? sim.machine with
  | none => start
  | some _ => proceed
  tell (.stepProcessed (← get).sim.stepCount (← observeTape Workshop.configuration))

/-- Forget the run.  The tape stays as it is. -/
def reset : SimM Unit := do
  update Simulator.reset
  record .info ("Simulator for '" ++ (← nameOf (← get).sim.machine) ++ "' reset.")

/-- Hand out the actions since the last time. -/
def takeActions : SimM (List String) := do
  let actions := (← get).sim.actions.toList
  update fun s => { s with actions := #[] }
  return actions

end SimM

end MachineLab
