import MachineLab.Tape

/-!
# Actions

An action says which symbol a transition matches and what taking it does to the tape.  An action of
a Turing machine moves the head by one cell or writes a symbol in place.  An action of an acceptor
consumes the symbol it matches by moving right, unless it matches the empty string.

## Main definitions

* `Action` — the actions of both kinds.
* `Action.op?` — the tape operation that an action stands for.
* `Action.describe` — how an action is written.
-/

namespace MachineLab

/-- Symbols arrive in documents and may be any value. -/
abbrev Symbol := Value

namespace Symbol

/-- Marks an input or output that has not been chosen. -/
def undefined : Symbol := .text "!"

/-- The input that matches whatever no other transition matches. -/
def otherwise : Symbol := .text "?"

/-- The output that writes nothing. -/
def noWrite : Symbol := .text "ε"

/-- The input of an acceptor that matches the empty string. -/
def emptyInput : Symbol := .text "λ"

end Symbol

/-- How a Turing machine's action moves the head. -/
inductive Direction where
  | left
  | stay
  | right
deriving DecidableEq, Repr, Inhabited

namespace Direction

def name : Direction → String
  | .left => "left"
  | .stay => "none"
  | .right => "right"

def display : Direction → String
  | .left => "<Direction.LEFT: -1>"
  | .stay => "<Direction.NONE: 0>"
  | .right => "<Direction.RIGHT: 1>"

def ofName (name : Value) : Except Fault Direction :=
  match name with
  | .text s =>
    let u := Text.upper s
    if u = "LEFT" then .ok .left
    else if u = "NONE" then .ok .stay
    else if u = "RIGHT" then .ok .right
    else .error (.refusal (.missingKey (.text u)))
  | v => .error (.lacks v "upper")

end Direction

/-- What happens when a transition is taken. -/
inductive Action where
  /-- Match `input`; then move, or write `output` when the head stays. -/
  | turing (direction : Direction) (input output : Symbol)
  /-- Match `input` and go on to the next cell. -/
  | acceptor (input : Symbol)
deriving Repr, Inhabited

namespace Action

def move (direction : Direction) (input : Symbol) : Action :=
  .turing direction input Symbol.noWrite

def write (input output : Symbol) : Action := .turing .stay input output

def kind : Action → Kind
  | .turing _ _ _ => .turing
  | .acceptor _ => .acceptor

/-- The symbol that an action matches. -/
def input : Action → Symbol
  | .turing _ i _ => i
  | .acceptor i => i

/-- Whether taking the action moves the head. -/
def movesHead : Action → Bool
  | .turing d _ _ => d != .stay
  | .acceptor i => !i.eqv Symbol.emptyInput

/-- The tape operation of an action, if it has one. -/
def op? : Action → Except Fault (Option Tape.Op)
  | .turing .left _ _ => .ok (some .left)
  | .turing .right _ _ => .ok (some .right)
  | .turing .stay _ out =>
    if out.eqv Symbol.noWrite then .ok none
    else match out with
      | .text s => .ok (some (.write s))
      | v => .error (.mismatch (.notText v.kind))
  | .acceptor i => .ok (if i.eqv Symbol.emptyInput then none else some .right)

def perform (a : Action) : TapeM Unit :=
  match a.op? with
  | .ok (some op) => Tape.perform op
  | .ok none => pure ()
  | .error e => throw e

def effectText (d : Direction) (output : Symbol) : String :=
  match d with
  | .left => "←"
  | .right => "→"
  | .stay => output.display

/-- How an action is written in the description of a transition. -/
def describe : Action → String
  | .turing d i o => i.display ++ "/" ++ effectText d o
  | .acceptor i => i.display

/-- The text of an action on its own.  An acceptor's action is its input, which has to be a text. -/
def text : Action → Except Fault String
  | .acceptor (.text s) => .ok s
  | .acceptor v => .error (.mismatch (.notText v.kind))
  | a => .ok a.describe

/-- Equality of actions of one kind, field by field. -/
def eqv : Action → Action → Bool
  | .turing d i o, .turing d' i' o' => d == d' && i.samePart i' && o.samePart o'
  | .acceptor i, .acceptor i' => i.samePart i'
  | _, _ => false

def display : Action → String
  | .turing d i o =>
    "TMAction(direction=" ++ d.display ++ ", input_symbol=" ++ i.quoted ++ ", output_symbol=" ++
      o.quoted ++ ")"
  | .acceptor i => "DFSAAction(input_symbol=" ++ i.quoted ++ ")"

end Action

end MachineLab
