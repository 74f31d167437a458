import MachineLab.Console.Template
import MachineLab.Journal

/-!
# The console

A console view keeps the latest log entries.  Each entry is a record laid out for display: its level,
the name of its logger, its message and a formatted line.

## Main definitions

* `LogLine` — a record before it is laid out.
* `LogEntry.ofLine?` — laying a record out.
* `LogView` — a bounded history of entries.
* `LogRoute.setup` — where the log goes.
-/

namespace MachineLab

/-- A log record with its template, the values for it and the number of its level. -/
structure LogLine where
  logger : String
  level : Int
  template : String
  values : List Value

structure LogEntry where
  level : LogLevel
  logger : String
  message : String
  formatted : String
deriving DecidableEq, Repr

namespace LogEntry

/-- The name of a level number in a formatted line. -/
def levelName (n : Int) : String :=
  if n = 0 then "NOTSET"
  else match LogLevel.all.find? (·.number == n) with
    | some level => level.name
    | none => "Level " ++ toString n

/-- A text in a column that is filled up with blanks. -/
def column (width : Nat) (s : String) : String :=
  s ++ String.ofList (List.replicate (width - s.length) ' ')

/-- The formatted line without its time stamp. -/
def formatLine (level : Int) (logger message : String) : String :=
  "[" ++ column 8 (levelName level) ++ "] [" ++
    column 20 (String.ofList (logger.toList.take 20)) ++ "] " ++ message

/-- Lay a record out, unless its template cannot be filled in. -/
def ofLine? (line : LogLine) : Option LogEntry := do
  let message ← Template.fill line.template line.values
  return {
    level := LogLevel.ofNumber line.level
    logger := line.logger
    message
    formatted := formatLine line.level line.logger message }

end LogEntry

/-- A bounded history of log entries. -/
structure LogView where
  maxEntries : Int
  entries : List LogEntry
deriving Repr, Inhabited

namespace LogView

/-- The length of a history for which none is chosen. -/
def defaultMaxEntries : Int := 5000

def new (maxEntries : Int) : LogView := ⟨maxEntries, []⟩

/-- Take in a record.  The oldest entries give way when there are too many; a record that cannot be
laid out is dropped. -/
def receive (v : LogView) (line : LogLine) (j : Journal) : LogView × Journal :=
  match LogEntry.ofLine? line with
  | none => (v, j)
  | some entry =>
    let entries := v.entries ++ [entry]
    let surplus := ((entries.length : Int) - v.maxEntries).toNat
    ({ v with entries := entries.drop surplus }, j.tell (.logReceived entry.message))

def clear (v : LogView) (j : Journal) : LogView × Journal :=
  ({ v with entries := [] }, j.tell .logsCleared)

end LogView

inductive LogSink where
  | stream
  | view
deriving DecidableEq, Repr

/-- Where the log goes: the least level that is logged at all, and the sinks, each with its own. -/
structure LogRoute where
  level : Int
  sinks : List (LogSink × Int)
deriving DecidableEq, Repr

namespace LogRoute

/-- Send the log to the standard stream from a level on, and to a view, which filters for itself, if
there is one. -/
def setup (level : Int) (hasView : Bool) : LogRoute :=
  { level := LogLevel.debug.number
    sinks := (.stream, level) :: if hasView then [(.view, LogLevel.debug.number)] else [] }

/-- What is logged once the route is set up. -/
def setupRecord : LogRecord := ⟨.info, .console, "Global logging system initialized."⟩

/-- Whether a record of a level reaches the view. -/
def reachesView (r : LogRoute) (level : Int) : Bool :=
  r.level ≤ level && r.sinks.any fun s => s.1 == .view && s.2 ≤ level

end LogRoute

end MachineLab
