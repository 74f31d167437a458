import MachineLab.Settings.Manager
import MachineLab.Simulator.Run

/-!
# Sessions

A session owns the machine that a user works with, its input tape and a simulator, and publishes
every outcome.  This is the one place where machine faults are caught: they are logged and told to
the listeners, and the caller learns only whether things go on.

## Main definitions

* `Session`, `Office`, `SessionM` — the session and what it works with.
* `SessionM.load`, `SessionM.setTape`, `SessionM.reset` — preparing a run.
* `SessionM.step`, `SessionM.run` — running.
-/

namespace MachineLab

/-- A machine with its tape and its simulator. -/
structure Session where
  machine : Option MachineId
  simulator : Option Simulator
  /-- What the tape is restored to. -/
  inputText : Value
  tape : Tape
deriving Inhabited

/-- What a session works with: the workshop, the files, and the settings with their store, if there
are any. -/
structure Office where
  shop : Workshop
  files : Directory
  settings : Option (Settings × Dict Value)
  session : Session
  journal : Journal
  room : Room
deriving Inhabited

/-- Work in a session.  Whatever was done before a fault stays done. -/
abbrev SessionM := EStateM Fault Office

/-- The text for a tape: a value that counts as false is the empty text, any other has to be a
text. -/
def Tape.textOf : Value → Except Fault String
  | .text s => .ok s
  | v => if v.truth then .error (.lacks v "replace") else .ok ""

namespace SessionM

def ofExcept {α : Type} : Except Fault α → SessionM α
  | .ok a => pure a
  | .error e => throw e

def record (level : LogLevel) (message : String) : SessionM Unit :=
  modify fun o => { o with journal := o.journal.record level .session message }

def tell (e : Event) : SessionM Unit := modify fun o => { o with journal := o.journal.tell e }

def update (f : Session → Session) : SessionM Unit :=
  modify fun o => { o with session := f o.session }

def onTape {α : Type} (work : TapeM α) : SessionM α := fun o =>
  let store (r : Reel) : Office :=
    { o with session := { o.session with tape := r.tape }, journal := r.journal }
  match work ⟨o.session.tape, o.journal⟩ with
  | .ok a r => .ok a (store r)
  | .error e r => .error e (store r)

def inShop {α : Type} (work : Work α) : SessionM α := fun o =>
  match work ⟨o.shop, o.journal⟩ with
  | .ok a b => .ok a { o with shop := b.shop, journal := b.journal }
  | .error e b => .error e { o with shop := b.shop, journal := b.journal }

def atDesk {α : Type} (work : DeskM α) : SessionM α := fun o =>
  let store (d : Desk) : Office :=
    { o with shop := d.shop, files := d.files, journal := d.journal }
  match work ⟨o.shop, o.files, o.journal, o.room⟩ with
  | .ok a d => .ok a (store d)
  | .error e d => .error e (store d)

/-- Work with the simulator.  No one listens to the simulator of a session. -/
def withSimulator {α : Type} (sim : Simulator) (work : SimM α) : SessionM α := fun o =>
  let store (s : Stage) : Office :=
    { o with
      shop := s.shop
      session := { o.session with tape := s.tape, simulator := some s.sim }
      journal := o.journal.append s.journal.silenceSimulators }
  match work ⟨o.shop, o.session.tape, sim, .empty⟩ with
  | .ok a s => .ok a (store s)
  | .error e s => .error e (store s)

/-- Work with the settings, if there are any. -/
def withSettings {α : Type} (absent : α) (work : SettingsM α) : SessionM α := fun o =>
  match o.settings with
  | none => .ok absent o
  | some (settings, stored) =>
    let store (l : Ledger) : Office :=
      { o with settings := some (l.settings, l.store), files := l.files, journal := l.journal }
    match work ⟨stored, settings, o.files, o.journal, o.room⟩ with
    | .ok a l => .ok a (store l)
    | .error e l => .error e (store l)

/-- The value of a setting; without settings, its default. -/
def setting (d : Definition) : SessionM Value :=
  withSettings d.default (SettingsM.get d.key d.default)

/-! ## The machine and the tape -/

def start : SessionM Unit := do
  let capacity ← ofExcept (← setting Definition.tapeCapacity).integer
  update fun _ =>
    { machine := none, simulator := none, inputText := .text "", tape := Tape.ofText "" capacity }
  if (← setting Definition.notifyViews).truth then onTape (Tape.watch (some .views))

/-- Put the input back on the tape. -/
def restoreTape : SessionM Unit := do
  let text ← ofExcept (Tape.textOf (← get).session.inputText)
  onTape (Tape.perform (.load text))

/-- Work with a machine from now on. -/
def load (m : MachineId) : SessionM Unit := do
  update fun s => { s with machine := some m, simulator := some (Simulator.new m) }
  restoreTape
  let machine := (← get).shop.machine m
  record .info ("Loaded " ++ machine.kind.tag ++ " machine '" ++ machine.name.display ++ "'.")
  tell (.machineLoaded machine.name)

/-- Work with a new machine, of a given kind or of the kind that the settings say. -/
def newMachine (kind : Value) : SessionM MachineId := do
  let kind ← if kind.truth then pure kind else setting Definition.machineKind
  let symbols ← ofExcept ((← setting Definition.alphabet).elements)
  let a ← ofExcept (Alphabet.ofSymbols symbols true)
  let kind : Kind := if kind.eqv (.text Kind.acceptor.tag) then .acceptor else .turing
  let m ← inShop do Work.newMachine kind untitled (some (← Work.addAlphabet a))
  load m
  return m

/-- Work with a machine from a file; says whether there is one. -/
def openMachine (path : String) : SessionM Bool := do
  match ← atDesk (DeskM.loadMachine path) with
  | none =>
    tell (.statusPosted LogLevel.error.name ("Could not open machine file '" ++ path ++ "'."))
    return false
  | some m =>
    load m
    withSettings () (SettingsM.addRecentFile path)
    return true

/-- Save the machine; says whether that worked. -/
def saveMachine (path : String) : SessionM Bool := do
  match (← get).session.machine with
  | none =>
    record .warning "Attempted to save, but no machine is loaded."
    return false
  | some m => atDesk (DeskM.saveMachine m path)

def resetSimulator : SessionM Unit := do
  match (← get).session.simulator with
  | none => pure ()
  | some sim => withSimulator sim SimM.reset

/-- Put a new input on the tape and go back to the beginning. -/
def setTape (text : Value) : SessionM Unit := do
  update fun s => { s with inputText := text }
  restoreTape
  resetSimulator
  tell (.tapeLoaded (← get).session.tape.contents)

/-- Take the input from a file; says whether that worked. -/
def openTape (path : String) : SessionM Bool := do
  match ← atDesk (DeskM.loadTape path none) with
  | none =>
    tell (.statusPosted LogLevel.error.name ("Could not open tape file '" ++ path ++ "'."))
    return false
  | some t =>
    setTape (.text t.contents)
    return true

/-- Save what is on the tape; says whether that worked. -/
def saveTape (path : String) : SessionM Bool := do
  atDesk (DeskM.saveTape (← get).session.tape path)

/-! ## Running -/

/-- Publish that the computation has halted. -/
def publishHalt (accepted : Bool) (message : String) : SessionM Unit := do
  record .info ("Computation halted (accepted=" ++ Value.boolText accepted ++ "): " ++ message)
  tell (.simulationHalted accepted message)

/-- Publish that a machine fault stopped the computation. -/
def publishError (f : MachineFault) : SessionM Unit := do
  record .error (f.className ++ ": " ++ f.message)
  tell (.simulationError f.message)

/-- Try some work with the simulator, handing out a machine fault. -/
def attempt {α : Type} (sim : Simulator) (work : SimM α) : SessionM (Except MachineFault α) :=
  fun o =>
    match withSimulator sim work o with
    | .ok a o => .ok (.ok a) o
    | .error (.machine f) o => .ok (.error f) o
    | .error e o => .error e o

def observe {α : Type} (f : Workshop → Simulator → Tape → Except Fault α) : SessionM α := do
  let o ← get
  ofExcept (f o.shop (o.session.simulator.getD default) o.session.tape)

/-- How the halt of the machine is described. -/
def haltMessage : SessionM String := do
  let o ← get
  let sim := o.session.simulator.getD default
  let name ← ofExcept (o.shop.stateName sim)
  match (o.shop.machine sim.machine).kind with
  | .turing =>
    return "Halted in " ++ name ++
      if o.session.tape.isParked then " with the r/w head parked."
      else ", but the r/w head was not parked."
  | .acceptor =>
    let f : MachineFault := if ← observe Workshop.isAccepted then .accepted else .rejected
    return f.message

/-- The kind of the machine that a simulator runs. -/
def kindOf (sim : Simulator) : SessionM Kind := do return ((← get).shop.machine sim.machine).kind

/-- Take one step; says whether the computation can go on. -/
def step : SessionM Bool := do
  match (← get).session.simulator with
  | none =>
    record .warning "Step requested, but no machine is loaded."
    return false
  | some sim =>
    if sim.stepCount = 0 then tell (.simulationStarted (← kindOf sim))
    match ← attempt sim SimM.step with
    | .error f =>
      if f.isCompletion then
        publishHalt (← observe Workshop.isAccepted) f.message
      else if f.isFailure then publishHalt false f.message
      else publishError f
      return false
    | .ok _ =>
      tell (.configurationChanged (← observe Workshop.configuration))
      if ← observe Workshop.isHalted then
        publishHalt (← observe Workshop.isAccepted) (← haltMessage)
        return false
      else return true

/-- The step budget: a given one, or the one that the settings say. -/
def budget (limit : Value) : SessionM Value :=
  match limit with
  | .null => setting Definition.maxSteps
  | _ => pure limit

/-- Run within a budget; says whether the input was accepted, or nothing if patience ran out. -/
def run (limit : Value) (patience : Nat) : SessionM (Option Bool) := do
  match (← get).session.simulator with
  | none =>
    record .warning "Run requested, but no machine is loaded."
    return some false
  | some sim =>
    let limit ← budget limit
    tell (.simulationStarted (← kindOf sim))
    let steps ← ofExcept limit.integer
    match ← attempt sim (SimM.run steps patience) with
    | .error f =>
      publishError f
      return some false
    | .ok none => return none
    | .ok (some accepted) =>
      tell (.configurationChanged (← observe Workshop.configuration))
      if ((← get).session.simulator.getD default).budgetExhausted then
        let message := "Stopped after " ++ limit.display ++ " step(s) without halting."
        record .warning message
        tell (.statusPosted LogLevel.warning.name message)
      else publishHalt accepted (← haltMessage)
      return some accepted

/-- Put the input back on the tape and go back to the beginning. -/
def reset : SessionM Unit := do
  restoreTape
  resetSimulator
  tell .simulationReset

end SessionM

end MachineLab
