import MachineLab.Value.Access
import MachineLab.Workshop.Edit

/-!
# Machines as documents

A machine is written as an object that lists its states and transitions, with the documents of nested
machines inside the states that hold them.  Reading a document builds a new machine through the
ordinary edits; the identifiers of a document mean something only inside it.

Nested machines are written and documents inside documents read by nested calls, whose depth is taken as
unbounded.  How deep a text may be nested is limited where the text is read, before there is a document.

## Main definitions

* `Workshop.document` — the document of a machine.
* `Work.readDocument` — the machine of a document.
-/

namespace MachineLab

/-- What marks a document of a machine. -/
def machineFormat : String := "tuatara-machine"

/-- What marks a document of a tape. -/
def tapeFormat : String := "tuatara-tape"

/-- The version of both formats. -/
def formatVersion : Int := 1

/-- The name of a machine for which none is chosen. -/
def untitled : Value := .text "Untitled"

/-! ## Writing -/

def State.entry (s : State) (nested : MachineId → Value) : Value :=
  .object [
    ("id", .int s.id),
    ("label", .text s.label),
    ("start", .bool s.isStart),
    ("final", .bool s.isFinal),
    ("submachine", match s.submachine with
      | some m => nested m
      | none => .null)]

def Transition.entry (t : Transition) : Value :=
  .object ([("from", .int t.source), ("to", .int t.target), ("input", t.input)] ++
    match t.action with
    | .turing d _ out => [("direction", .text d.name), ("output", out)]
    | .acceptor _ => [])

namespace Workshop

/-- The document of a machine, from the documents of those in its states. -/
def documentBody (w : Workshop) (inner : MachineId → Value) (m : MachineId) : Value :=
  let machine := w.machine m
  .object [
    ("format", .text machineFormat),
    ("version", .int formatVersion),
    ("kind", .text machine.kind.tag),
    ("name", machine.name),
    ("alphabet", .text (w.alphabetOf m).toText),
    ("states", .list (machine.states.map (·.entry inner))),
    ("transitions", .list (machine.transitions.map (·.entry)))]

/-- The document of a machine, descending at most `depth` levels. -/
def documentTo (w : Workshop) : Nat → MachineId → Value
  | 0, _ => .null
  | depth + 1, m => w.documentBody (w.documentTo depth) m

/-- The document of a machine and everything nested in it. -/
def document (w : Workshop) (m : MachineId) : Value := w.documentTo w.machines.length m

end Workshop

/-! ## Reading -/

def Kind.ofTag (tag : Value) : Except Fault Kind :=
  if tag.eqv (.text Kind.turing.tag) then .ok .turing
  else if tag.eqv (.text Kind.acceptor.tag) then .ok .acceptor
  else .error (.refusal (.unknownKind tag))

/-- The alphabet of a document. -/
def Alphabet.ofValue : Value → Except Fault Alphabet
  | .text s => Alphabet.ofText s
  | v => .error (.lacks v "replace")

namespace Work

/-- Check the head of a document of a machine. -/
def readHead (data : Value) : Except Fault Kind := do
  let format ← data.optionalItem "format"
  if !format.eqv (.text machineFormat) then throw (.refusal (.notMachineDocument format))
  let version ← data.optionalItem "version"
  if !version.eqv (.int formatVersion) then throw (.refusal (.unsupportedVersion version))
  Kind.ofTag (← data.item "kind")

def readNested (readInner : Value → Work MachineId) (m : MachineId) (kind : Kind) (s : State)
    (inner : Value) : Work Unit := do
  match inner, kind with
  | .null, _ => pure ()
  | _, .acceptor => throw (.refusal .acceptorSubmachine)
  | inner, .turing =>
    let i ← readInner inner
    attach m (.state m s.id) (some i)

/-- Read the states of a document.  `known` maps the identifiers read so far to those issued for
them. -/
def readStates (readInner : Value → Work MachineId) (m : MachineId) (kind : Kind)
    (known : List (Value × Nat)) : List Value → Work (List (Value × Nat))
  | [] => pure known
  | e :: rest => do
    let label ← ofExcept (e.item "label")
    let start ← ofExcept (e.item "start")
    let final ← ofExcept (e.item "final")
    let s ← addState m label.display start.truth final.truth
    let id ← ofExcept (e.item "id")
    match ← ofExcept (id.lookupIn known) with
    | some _ => throw (.refusal (.duplicateState id))
    | none =>
      readNested readInner m kind s (← ofExcept (e.optionalItem "submachine"))
      readStates readInner m kind (known ++ [(id, s.id)]) rest

def readAction (kind : Kind) (e : Value) : Except Fault Action := do
  match kind with
  | .turing =>
    let direction ← Direction.ofName (← e.item "direction")
    let input ← e.item "input"
    let output ← e.item "output"
    return .turing direction input output
  | .acceptor => return .acceptor (← e.item "input")

/-- The state that an end of a transition names. -/
def readEnd (known : List (Value × Nat)) (e : Value) (key : String) : Except Fault Nat := do
  let id ← e.item key
  match ← id.lookupIn known with
  | some n => return n
  | none => throw (.refusal (.missingKey id))

def readTransitions (m : MachineId) (kind : Kind) (known : List (Value × Nat)) :
    List Value → Work Unit
  | [] => pure ()
  | e :: rest => do
    let action ← ofExcept (readAction kind e)
    let source ← ofExcept (readEnd known e "from")
    let target ← ofExcept (readEnd known e "to")
    discard <| addTransition m (.state m source) (.state m target) action
    readTransitions m kind known rest

/-- Read a document, descending at most `depth` levels. -/
def readTo : Nat → Value → Work MachineId
  | 0, _ => throw (.refusal (.notMachineDocument .null))
  | depth + 1, data => do
    let kind ← ofExcept (readHead data)
    let alphabet ← ofExcept (data.item "alphabet" >>= Alphabet.ofValue)
    let m ← newMachine kind ((data.field? "name").getD untitled) (some (← addAlphabet alphabet))
    let states ← ofExcept (data.item "states" >>= Value.elements)
    let known ← readStates (readTo depth) m kind [] states
    let transitions ← ofExcept (data.item "transitions" >>= Value.elements)
    readTransitions m kind known transitions
    return m

/-- The machine of a document.  A document that is refused leaves the workshop as it was. -/
def readDocument (data : Value) : Work MachineId := atomically (readTo (data.height + 1) data)

end Work

end MachineLab
