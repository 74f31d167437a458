import MachineLab.Tape
import MachineLab.Value.Access

/-!
# Settings and what they allow

Each setting has a key, a default value, a category and a rule for its values.  The rule compares
kinds, keeps numbers within bounds and, where a list of values is given, asks for one of them; a
setting may instead bring a rule of its own.

## Main definitions

* `Definition.validate` — whether a value is allowed.
* `Definition.all` — the settings that there are.
-/

namespace MachineLab

/-- What a setting is about. -/
inductive Category where
  | execution | defaults | tape | behavior
deriving DecidableEq, Repr

namespace Category

def name : Category → String
  | .execution => "execution"
  | .defaults => "defaults"
  | .tape => "tape"
  | .behavior => "behavior"

def ofName (v : Value) : Except Fault Category :=
  match [Category.execution, .defaults, .tape, .behavior].find? fun c => v.eqv (.text c.name) with
  | some c => .ok c
  | none => .error (.refusal (.unknownCategory v))

end Category

structure Definition where
  key : String
  default : Value
  category : Category
  /-- The least and the greatest number allowed, null for no bound. -/
  least : Value := .null
  greatest : Value := .null
  /-- The values allowed; with none listed, all are. -/
  allowed : List Value := []
  /-- A rule that replaces all others. -/
  rule : Option (Value → Bool) := none

namespace Definition

def isNumber : Value → Bool
  | .int _ | .float _ => true
  | _ => false

/-- Whether one number is below another, where there is another at all. -/
def below (sign : String) (left right : Value) (value bound : Value) : Except Fault Bool :=
  match bound with
  | .null => .ok false
  | _ =>
    match left.less? right with
    | some b => .ok b
    | none => .error (.mismatch (.unordered sign value.kind bound.kind))

def validate (d : Definition) (v : Value) : Except Fault Bool :=
  match d.rule with
  | some rule => .ok (rule v)
  | none =>
    if v.kind ≠ d.default.kind then .ok false
    else do
      if isNumber v then
        if ← below "<" v d.least v d.least then return false
        if ← below ">" d.greatest v v d.greatest then return false
      return d.allowed.isEmpty || v.isIn d.allowed

/-- What takes the place of a stored value that is of no use: the override of a call, or else the
default. -/
def fallback (d : Definition) : Value → Value
  | .null => d.default
  | override => override

/-- Whether a value is a text of ASCII letters and digits. -/
def isAlphabetText : Value → Bool
  | .text s => s.toList.all Char.isAlphanum
  | _ => false

/-- The step budget of a run; zero is no budget. -/
def maxSteps : Definition :=
  { key := "execution_max_steps", default := .int 10000, category := .execution
    least := .int 0, greatest := .int 10000000 }

/-- The kind of a new machine. -/
def machineKind : Definition :=
  { key := "default_machine_kind", default := .text Kind.turing.tag, category := .defaults
    allowed := [.text Kind.turing.tag, .text Kind.acceptor.tag] }

/-- The letters and digits in the alphabet of a new machine. -/
def alphabet : Definition :=
  { key := "default_alphabet", default := .text "01", category := .defaults
    rule := some isAlphabetText }

/-- The cells laid out for a new tape. -/
def tapeCapacity : Definition :=
  { key := "tape_initial_capacity", default := .int Tape.defaultCapacity, category := .tape
    least := .int 10, greatest := .int 100000 }

/-- Whether views hear of every change of the tape. -/
def notifyViews : Definition :=
  { key := "notify_views_on_tape_change", default := .bool true, category := .tape }

/-- The files opened lately. -/
def recentFiles : Definition :=
  { key := "recent_files", default := .list [], category := .behavior }

def all : List Definition :=
  [maxSteps, machineKind, alphabet, tapeCapacity, notifyViews, recentFiles]

def find? (key : String) : Option Definition := all.find? (·.key == key)

end Definition

end MachineLab
