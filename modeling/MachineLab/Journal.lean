import MachineLab.Kind
import MachineLab.Value.Basic

/-!
# Events and log records

Operations report what they did in a journal: the events that listeners hear, and the records of the
log.  Both are kept in the order in which they were made.
-/

namespace MachineLab

/-! ## Log records -/

inductive LogLevel where
  | debug | info | warning | error | critical
deriving DecidableEq, Repr, Inhabited

namespace LogLevel

/-- The levels from the mildest to the gravest. -/
def all : List LogLevel := [.debug, .info, .warning, .error, .critical]

def name : LogLevel → String
  | .debug => "DEBUG"
  | .info => "INFO"
  | .warning => "WARNING"
  | .error => "ERROR"
  | .critical => "CRITICAL"

def number : LogLevel → Int
  | .debug => 10
  | .info => 20
  | .warning => 30
  | .error => 40
  | .critical => 50

/-- The icon that a view shows next to a level. -/
def icon : LogLevel → String
  | .debug => "🔍"
  | .info => "ℹ️"
  | .warning => "⚠️"
  | .error => "❌"
  | .critical => "🔥"

/-- The level with a number; a number without a level counts as information. -/
def ofNumber (n : Int) : LogLevel := (all.find? (·.number == n)).getD .info

end LogLevel

/-- The parts of the library that keep a log. -/
inductive Channel where
  | machine | nesting | tape | simulator | archive | session | settings | console
deriving DecidableEq, Repr

structure LogRecord where
  level : LogLevel
  channel : Channel
  message : String
deriving Repr

/-! ## Events -/

/-- Who watches a tape. -/
inductive Watcher where
  /-- The views of a session. -/
  | views
  /-- A listener with a name of its own. -/
  | named (name : String)
deriving DecidableEq, Repr

/-- What a simulator tells its listeners. -/
inductive SimulatorEvent where
  | stateChanged (name : String)
  | transitionTaken (source target action : String)
  | stepProcessed (count : Nat) (configuration : String)
deriving DecidableEq, Repr

/-- What listeners hear. -/
inductive Event where
  | tapeChanged (watcher : Watcher)
  | simulator (event : SimulatorEvent)
  | statusPosted (level message : String)
  | machineLoaded (name : Value)
  | tapeLoaded (contents : String)
  | simulationStarted (kind : Kind)
  | simulationHalted (accepted : Bool) (message : String)
  | simulationError (message : String)
  | simulationReset
  | configurationChanged (configuration : String)
  | settingChanged (key : String) (value : Value)
  | settingsReset
  | logReceived (message : String)
  | logsCleared
deriving Repr

/-- Whether an event comes from a simulator. -/
def Event.isSimulator : Event → Bool
  | .simulator _ => true
  | _ => false

/-! ## Journals -/

/-- The events and log records of an operation, the oldest first. -/
structure Journal where
  events : Array Event := #[]
  log : Array LogRecord := #[]
deriving Repr, Inhabited

namespace Journal

def empty : Journal := ⟨#[], #[]⟩

def tell (j : Journal) (e : Event) : Journal := ⟨j.events.push e, j.log⟩

def record (j : Journal) (level : LogLevel) (channel : Channel) (message : String) : Journal :=
  ⟨j.events, j.log.push ⟨level, channel, message⟩⟩

def append (j k : Journal) : Journal := ⟨j.events ++ k.events, j.log ++ k.log⟩

/-- A journal without the events of simulators. -/
def silenceSimulators (j : Journal) : Journal :=
  ⟨j.events.filter (fun e => !e.isSimulator), j.log⟩

end Journal

end MachineLab
