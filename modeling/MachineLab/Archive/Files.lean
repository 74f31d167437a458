import MachineLab.Archive.Directory
import MachineLab.Json.Printer
import MachineLab.Workshop.Document

/-!
# Saving and loading

Machines and tapes are saved as JSON files.  Saving adds the extension of the format to a path that
lacks it; loading takes the path as it is.  Loading a file that cannot be used gives nothing and
leaves everything as it was; the log says why.

## Main definitions

* `Room` — how deep values may be nested.
* `Desk`, `DeskM` — a workshop with a directory of files.
* `DeskM.saveMachine`, `DeskM.loadMachine`, `DeskM.saveTape`, `DeskM.loadTape`.
-/

namespace MachineLab

/-- How deep values may be nested when they are read and when they are written into messages.  It is what
is left of a stack and not the same everywhere, but there is room for a list within an object of a file,
and for the items of a list in a message. -/
structure Room where
  /-- How many brackets may be open at once in a text. -/
  reading : Nat
  /-- How many levels of items there may be in a value. -/
  writing : Nat
  two_le_reading : 2 ≤ reading
  one_le_writing : 1 ≤ writing

instance : Inhabited Room := ⟨⟨900, 900, by decide, by decide⟩⟩

structure Desk where
  shop : Workshop
  files : Directory
  journal : Journal
  room : Room
deriving Inhabited

/-- Work at a desk.  Whatever was done before a fault stays done. -/
abbrev DeskM := EStateM Fault Desk

def machineExtension : String := ".tmachine"

def tapeExtension : String := ".tape"

/-- A path with an extension, which is added when it is missing. -/
def withExtension (path extension : String) : String :=
  if path.endsWith extension then path else path ++ extension

/-- Line breaks of every convention, written as one character. -/
def unifyLineBreaks : List Char → List Char
  | '\r' :: '\n' :: rest => '\n' :: unifyLineBreaks rest
  | '\r' :: rest => '\n' :: unifyLineBreaks rest
  | c :: rest => c :: unifyLineBreaks rest
  | [] => []

/-- Why a file gives no value. -/
inductive LoadError where
  | path (error : PathError) (place : String)
  | json (error : Json.ReadError)
  | fault (cause : Fault)

def LoadError.message : LoadError → String
  | .path error place => error.message place
  | .json error => error.message
  | .fault cause => cause.message

/-- The fault in a load error, unless it is a path or a text that is refused. -/
def LoadError.fault? : LoadError → Option Fault
  | .fault cause => some cause
  | .json (.longNumeral n) => some (.mismatch (.longInteger n))
  | .json (.tooDeep bracket) => some (.mismatch (.deepText bracket))
  | _ => none

/-- The fault that loading a machine does not report but leaves to the caller, if there is one: a number
that is out of range, or a text that is nested too deep. -/
def LoadError.escaping? (e : LoadError) : Option Fault :=
  match e.fault? with
  | some (.mismatch cause) =>
    if cause.family = .range ∨ cause.family = .depth then some (.mismatch cause) else none
  | _ => none

/-- Whether a path can be handed to a file system at all. -/
def checkPath (path : String) : Except Fault Unit :=
  if path.toList.contains (Char.ofNat 0) then .error (.mismatch .nullInPath) else .ok ()

def Directory.readJson (d : Directory) (room : Room) (path : String) : Except LoadError Value :=
  match checkPath path with
  | .error e => .error (.fault e)
  | .ok _ =>
    match d.read path with
    | .error e => .error (.path e path)
    | .ok bytes =>
      match Text.Utf8.decode bytes with
      | .error e => .error (.fault (.mismatch (.undecodable e)))
      | .ok text =>
        match Json.read room.reading (String.ofList (unifyLineBreaks text.toList)) with
        | .error e => .error (.json e)
        | .ok v => .ok v

def Tape.document (t : Tape) : Value :=
  .object [
    ("format", .text tapeFormat),
    ("version", .int formatVersion),
    ("contents", .text t.contents)]

namespace DeskM

def record (level : LogLevel) (message : String) : DeskM Unit :=
  modify fun d => { d with journal := d.journal.record level .archive message }

def inShop {α : Type} (work : Work α) : DeskM α := fun d =>
  match work ⟨d.shop, d.journal⟩ with
  | .ok a b => .ok a { d with shop := b.shop, journal := b.journal }
  | .error e b => .error e { d with shop := b.shop, journal := b.journal }

/-- Write a value to a file as JSON.  What was written before an integer with too many digits stays in
the file. -/
def writeJson (path : String) (layout : Json.Layout) (v : Value) : DeskM (Option PathError) := do
  match checkPath path with
  | .error e => throw e
  | .ok _ =>
    let written := Json.write layout v
    match (← get).files.write path (Text.Utf8.encode written.text) with
    | .error e => return some e
    | .ok files =>
      modify fun d => { d with files }
      if !written.whole then throw (.mismatch (.unwritable .longInteger))
      return none

/-- Save a machine; says whether that worked. -/
def saveMachine (m : MachineId) (path : String) : DeskM Bool := do
  let path := withExtension path machineExtension
  let shop := (← get).shop
  match ← writeJson path Json.Layout.document (shop.document m) with
  | none =>
    record .info ("Machine '" ++ (shop.machine m).name.display ++ "' saved to: " ++ path)
    return true
  | some e =>
    record .error ("Error saving machine to '" ++ path ++ "': " ++ e.message path)
    return false

/-- Save what is on a tape; says whether that worked. -/
def saveTape (t : Tape) (path : String) : DeskM Bool := do
  let path := withExtension path tapeExtension
  match ← writeJson path Json.Layout.document t.document with
  | none =>
    record .info ("Tape saved to: " ++ path)
    return true
  | some e =>
    record .error ("Error saving tape to '" ++ path ++ "': " ++ e.message path)
    return false

/-- Log that a file of a machine gives none, unless the fault is left to the caller. -/
def refuseMachine (path : String) (e : LoadError) : DeskM (Option MachineId) := do
  match e.escaping? with
  | some cause => throw cause
  | none =>
    record .error ("Error loading machine file '" ++ path ++ "': " ++ e.message)
    return none

def loadMachine (path : String) : DeskM (Option MachineId) := do
  let d ← get
  if !d.files.holds path then
    record .error ("Machine file not found: " ++ path)
    return none
  match d.files.readJson d.room path with
  | .error e => refuseMachine path e
  | .ok v =>
    match Work.readDocument v ⟨d.shop, d.journal⟩ with
    | .error e b =>
      set { d with shop := b.shop, journal := b.journal }
      refuseMachine path (.fault e)
    | .ok m b =>
      set { d with shop := b.shop, journal := b.journal }
      record .info
        ("Successfully loaded machine '" ++ (b.shop.machine m).name.display ++ "' from: " ++ path)
      return some m

/-- What stands in the way of a document of a tape. -/
inductive TapeProblem where
  | header
  | contents
  | missing (cause : Fault)

/-- The text of a document of a tape. -/
def tapeText (v : Value) : Except TapeProblem String :=
  match v.optionalItem "format", v.optionalItem "version" with
  | .ok format, .ok version =>
    if !format.eqv (.text tapeFormat) || !version.eqv (.int formatVersion) then .error .header
    else match v.item "contents" with
      | .ok (.text s) => .ok s
      | .ok _ => .error .contents
      | .error e => .error (.missing e)
  | .error e, _ | _, .error e => .error (.missing e)

def TapeProblem.message (path : String) : TapeProblem → String
  | .header => "Invalid tape file '" ++ path ++ "': unexpected format header."
  | .contents => "Invalid tape file '" ++ path ++ "': 'contents' is not a string."
  | .missing cause => "Error loading tape file '" ++ path ++ "': " ++ cause.message

/-- Load a tape, with room for a number of cells behind its text.  A file that is not text at all is
a fault, and so is one with too long an integer or too deep a nesting. -/
def loadTape (path : String) (capacity : Option Int) : DeskM (Option Tape) := do
  let d ← get
  if !d.files.holds path then
    record .error ("Tape file not found: " ++ path)
    return none
  match d.files.readJson d.room path with
  | .error e =>
    match e.fault? with
    | some cause => throw cause
    | none =>
      record .error ("Error loading tape file '" ++ path ++ "': " ++ e.message)
      return none
  | .ok v =>
    match tapeText v with
    | .error problem =>
      record .error (problem.message path)
      return none
    | .ok text =>
      record .info ("Successfully loaded tape from: " ++ path)
      return some (Tape.ofText text (capacity.getD Tape.defaultCapacity))

end DeskM

end MachineLab
