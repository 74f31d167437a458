import MachineLab.Workshop.Nesting

/-!
# Validation

A Turing machine is valid when it has one start state and one final state with no way out, when no
state has two transitions with one input, when every symbol is chosen and allowed by the alphabet,
and when every machine nested in it is valid.  An acceptor is valid when it has one start state and
each state has exactly one transition for each symbol of the alphabet.

A machine that was found valid is not looked at again until its revision key changes.  Nested machines
are validated by nested calls, whose depth is taken as unbounded.

## Main definitions

* `Machine.turingStateDefect`, `Machine.acceptorDefect` — the first rule that is broken.
* `Work.validate` — validation, remembering success.
-/

namespace MachineLab

namespace Machine

/-- The first defect among the transitions of a Turing machine's state.  `used` holds the inputs of
the transitions before them. -/
def turingEdgeDefect (m : Machine) (a : Alphabet) (s : State) (used : List Symbol) :
    List Transition → Except Fault (Option Defect)
  | [] => .ok none
  | t :: rest =>
    match t.action with
    | .acceptor _ => .error (.refusal (.wrongAction .turing .acceptor))
    | .turing d inp out => do
      if inp.eqv Symbol.undefined then return some (.undefinedInput (← m.describe t))
      if out.eqv Symbol.undefined then return some (.undefinedAction (← m.describe t))
      if !inp.isKey then throw (.mismatch (.notKey inp.kind))
      if inp.isIn used then return some (.repeatedInput s.label inp)
      let known ← a.contains inp
      if !known && !inp.eqv Symbol.otherwise then return some (.foreignInput (← m.describe t))
      if d == .stay then
        let known ← a.contains out
        if !known && !out.eqv Symbol.noWrite then return some (.foreignOutput (← m.describe t))
      m.turingEdgeDefect a s (inp :: used) rest

/-- The first defect of a Turing machine's state, apart from a machine nested in it.  `starts` and
`finals` count the start and final states before it. -/
def turingStateDefect (m : Machine) (a : Alphabet) (starts finals : Nat) (s : State) :
    Except Fault (Option Defect) :=
  if s.isStart && 0 < starts then .ok (some .severalStarts)
  else do
    let leaving ← m.leaving s
    if s.isFinal && 0 < finals then return some .severalFinals
    if s.isFinal && !leaving.isEmpty then return some (.leavesFinal s.label)
    m.turingEdgeDefect a s [] leaving

/-- The first defect among the transitions of an acceptor's state, or else the inputs that they
match. -/
def acceptorEdgeDefect (m : Machine) (a : Alphabet) (s : State) (matched : List Symbol) :
    List Transition → Except Fault (Option Defect × List Symbol)
  | [] => .ok (none, matched)
  | t :: rest => do
    let inp := t.input
    if inp.eqv Symbol.undefined then return (some (.undefinedInput (← m.describe t)), matched)
    if inp.eqv Symbol.emptyInput then return (some (.emptyInput (← m.describe t)), matched)
    if !inp.isKey then throw (.mismatch (.notKey inp.kind))
    if inp.isIn matched then return (some (.repeatedInput s.label inp), matched)
    if !(← a.contains inp) then return (some (.foreignInput (← m.describe t)), matched)
    m.acceptorEdgeDefect a s (inp :: matched) rest

def acceptorStateDefect (m : Machine) (a : Alphabet) (starts : Nat) (s : State) :
    Except Fault (Option Defect) :=
  if s.isStart && 0 < starts then .ok (some .severalStarts)
  else do
    match ← m.acceptorEdgeDefect a s [] (← m.leaving s) with
    | (some d, _) => return some d
    | (none, matched) =>
      match a.symbols.find? fun c => !Value.isIn (.text (String.singleton c)) matched with
      | some c => return some (.missingInput s.label c)
      | none => return none

/-- One more if a flag is set. -/
def countIf (n : Nat) (flag : Bool) : Nat := if flag then n + 1 else n

/-- The first defect of an acceptor among the given states. -/
def acceptorDefect (m : Machine) (a : Alphabet) (starts : Nat) :
    List State → Except Fault (Option Defect)
  | [] => .ok (if starts = 0 then some .noStart else none)
  | s :: rest =>
    match m.acceptorStateDefect a starts s with
    | .ok none => m.acceptorDefect a (countIf starts s.isStart) rest
    | found => found

end Machine

namespace Work

/-- The defect of the machine nested in a state, as a defect of the machine around it. -/
def nestedDefect (validateInner : MachineId → Work Unit) (s : State) : Work (Option Defect) :=
  match s.submachine with
  | none => pure none
  | some inner => fun b =>
    match validateInner inner b with
    | .ok _ b' => .ok none b'
    | .error (.machine (.nondeterministic d)) b' => .ok (some (.nested s.label d)) b'
    | .error e b' => .error e b'

/-- The first defect of a Turing machine among the given states. -/
def turingDefect (validateInner : MachineId → Work Unit) (m : Machine) (a : Alphabet)
    (starts finals : Nat) : List State → Work (Option Defect)
  | [] => pure (if starts = 0 then some .noStart else if finals = 0 then some .noFinal else none)
  | s :: rest => do
    match ← nestedDefect validateInner s with
    | some d => return some d
    | none =>
      match ← ofExcept (m.turingStateDefect a starts finals s) with
      | some d => return some d
      | none =>
        turingDefect validateInner m a (Machine.countIf starts s.isStart)
          (Machine.countIf finals s.isFinal) rest

def findDefect (validateInner : MachineId → Work Unit) (m : MachineId) : Work (Option Defect) := do
  let shop := (← get).shop
  let machine := shop.machine m
  match machine.kind with
  | .turing => turingDefect validateInner machine (shop.alphabetOf m) 0 0 machine.states
  | .acceptor => ofExcept (machine.acceptorDefect (shop.alphabetOf m) 0 machine.states)

/-- Remember that a machine was found valid under a key. -/
def remember (m : MachineId) (key : RevisionKey) : Work Unit := do
  setMachine m { (← machine m) with validated := some key }

/-- Validate a machine, with the given validation of those in its states. -/
def validateBody (inner : MachineId → Work Unit) (m : MachineId) : Work Unit := do
  let shop := (← get).shop
  let key := shop.keyOf m
  if (shop.machine m).validated = some key then return
  let name := (shop.machine m).name.display
  match ← findDefect inner m with
  | some d =>
    record .warning .machine ("Machine '" ++ name ++ "' failed validation: " ++ d.message)
    throw (.machine (.nondeterministic d))
  | none =>
    remember m key
    record .debug .machine ("Machine '" ++ name ++ "' validated.")

/-- Validate a machine, descending at most `depth` levels. -/
def validateTo : Nat → MachineId → Work Unit
  | 0, _ => pure ()
  | depth + 1, m => validateBody (validateTo depth) m

/-- Fail if a machine, or a machine nested in it, breaks a rule of its kind. -/
def validate (m : MachineId) : Work Unit := do
  validateTo (← get).shop.machines.length m

end Work

end MachineLab
