import MachineLab.Workshop.Validation

/-!
# Simulators

A simulator remembers in which state each running machine is.  Machines themselves hold nothing of a
run, so several simulators can run the same machine.  A Turing machine that stands on a state with a
submachine lets that machine run to its end before it goes on; the running machines, from the
outermost inwards, form the execution stack.  The walks along it go inwards by nested calls, whose depth is
taken as unbounded.

## Main definitions

* `Simulator` — the cursors, the step count and the action log.
* `Workshop.stack` — the execution stack.
* `Workshop.focus` — what the next step is about.
* `Workshop.nextTransition` — the transition that the next step would take.
* `Workshop.isHalted`, `Workshop.isAccepted`, `Workshop.configuration` — observations.
-/

namespace MachineLab

/-- The state of a run of a machine. -/
structure Simulator where
  machine : MachineId
  /-- The running machines, each with the state that it is in. -/
  cursors : List (MachineId × Nat)
  stepCount : Nat
  /-- Whether the last run stopped because its budget was used up. -/
  budgetExhausted : Bool
  /-- The actions since they were last asked for, the oldest first. -/
  actions : Array String
deriving Repr, Inhabited

namespace Simulator

def new (machine : MachineId) : Simulator :=
  { machine, cursors := [], stepCount := 0, budgetExhausted := false, actions := #[] }

/-- The state that a machine is in. -/
def cursor? (s : Simulator) (m : MachineId) : Option Nat := s.cursors.lookup m

def clearCursor (s : Simulator) (m : MachineId) : Simulator :=
  { s with cursors := s.cursors.filter (·.1 != m) }

def setCursor (s : Simulator) (m : MachineId) (id : Nat) : Simulator :=
  { s with cursors := (m, id) :: (s.clearCursor m).cursors }

theorem cursor?_clearCursor (s : Simulator) (m m' : MachineId) :
    (s.clearCursor m).cursor? m' = if m' = m then none else s.cursor? m' :=
  lookup_filter_ne m m' s.cursors

theorem cursor?_setCursor (s : Simulator) (m m' : MachineId) (id : Nat) :
    (s.setCursor m id).cursor? m' = if m' = m then some id else s.cursor? m' := by
  by_cases h : m' = m
  · simp [cursor?, setCursor, h]
  · have := lookup_filter_ne m m' s.cursors
    simp only [if_neg h] at this ⊢
    simp [cursor?, setCursor, clearCursor, List.lookup_cons, beq_eq_false_iff_ne.mpr h, this]

/-- The simulator before its first step, apart from the verdict on the last budget. -/
def reset (s : Simulator) : Simulator :=
  { s with cursors := [], stepCount := 0, actions := #[] }

end Simulator

namespace Workshop

/-- The state of a machine that a cursor points at. -/
def stateAt (w : Workshop) (m : MachineId) (id : Nat) : Except Fault State :=
  w.state m (.value (.int id))

/-- The state that a machine is in, if it is running. -/
def current? (w : Workshop) (s : Simulator) (m : MachineId) : Except Fault (Option State) :=
  match s.cursor? m with
  | none => .ok none
  | some id => (w.stateAt m id).map some

/-! ## The execution stack -/

/-- One pass of the loop that gathers the stack. -/
def stackBody (w : Workshop) (s : Simulator) (inner : MachineId → Except Fault (List MachineId))
    (m : MachineId) : Except Fault (List MachineId) := do
  match ← w.current? s m with
  | none => return [m]
  | some q =>
    match q.submachine.filter fun i => (s.cursor? i).isSome with
    | none => return [m]
    | some i => return m :: (← inner i)

/-- The running machines from a given one inwards, at most `depth` of them below it. -/
def stackFrom (w : Workshop) (s : Simulator) : Nat → MachineId → Except Fault (List MachineId)
  | 0, m => .ok [m]
  | depth + 1, m => w.stackBody s (w.stackFrom s depth) m

/-- The running machines from the outermost inwards.  An acceptor is always alone. -/
def stack (w : Workshop) (s : Simulator) : Except Fault (List MachineId) :=
  match (w.machine s.machine).kind with
  | .turing => w.stackFrom s w.machines.length s.machine
  | .acceptor => .ok [s.machine]

/-- The labels of the states that the given machines are in. -/
def currentLabels (w : Workshop) (s : Simulator) : List MachineId → Except Fault (List String)
  | [] => .ok []
  | m :: rest => do
    match ← w.current? s m with
    | none => w.currentLabels s rest
    | some q => return q.label :: (← w.currentLabels s rest)

/-- A path of labels, such as `q1 (s0)`. -/
def pathName (labels : List String) : String :=
  " (".intercalate labels ++ String.ofList (List.replicate (labels.length - 1) ')')

/-- The current state with all its levels, empty before the first step. -/
def stateName (w : Workshop) (s : Simulator) : Except Fault String := do
  return pathName (← w.currentLabels s (← w.stack s))

/-! ## What comes next -/

/-- What the next step is about. -/
inductive Focus where
  /-- A machine takes a transition from its state.  A submachine that has finished in that state is
  given up. -/
  | act (frame : MachineId) (state : State) (finished : Option MachineId)
  /-- A machine enters the submachine of its state. -/
  | enter (frame : MachineId) (state : State) (inner : MachineId)
deriving Repr

/-- One pass of the loop that finds out what the next step is about: it ends, or goes on with the
machine in the current state.  A machine that is not running has nothing to do. -/
def focusBody (w : Workshop) (s : Simulator) (inner : MachineId → Except Fault (Option Focus))
    (m : MachineId) : Except Fault (Option Focus) := do
  match ← w.current? s m with
  | none => return none
  | some q =>
    match q.submachine with
    | none => return some (.act m q none)
    | some i =>
      match ← w.current? s i with
      | none => return some (.enter m q i)
      | some p => if p.isFinal then return some (.act m q (some i)) else inner i

/-- What the next step is about, from a running machine inwards. -/
def focusFrom (w : Workshop) (s : Simulator) : Nat → MachineId → Except Fault (Option Focus)
  | 0, _ => .ok none
  | depth + 1, m => w.focusBody s (w.focusFrom s depth) m

/-- What the next step is about, once the simulator has started. -/
def focus (w : Workshop) (s : Simulator) : Except Fault (Option Focus) :=
  w.focusFrom s w.machines.length s.machine

/-- The transition that a machine takes from a state on the symbol under the head. -/
def chosen (w : Workshop) (m : MachineId) (q : State) (t : Tape) :
    Except Fault (Option Transition) :=
  (w.machine m).resolve? q (.text t.read)

/-- One pass of the loop that looks for the next transition.  To look enters no submachine. -/
def previewBody (w : Workshop) (s : Simulator) (t : Tape)
    (inner : MachineId → Except Fault (Option Transition)) (m : MachineId) :
    Except Fault (Option Transition) := do
  match ← w.current? s m with
  | none => return none
  | some q =>
    match q.submachine with
    | none => w.chosen m q t
    | some i =>
      match ← w.current? s i with
      | none => return none
      | some p => if !p.isFinal then inner i else w.chosen m q t

/-- The transition that the next step would take, from a running machine inwards. -/
def previewFrom (w : Workshop) (s : Simulator) (t : Tape) :
    Nat → MachineId → Except Fault (Option Transition)
  | 0, _ => .ok none
  | depth + 1, m => w.previewBody s t (w.previewFrom s t depth) m

def nextTransition (w : Workshop) (s : Simulator) (t : Tape) : Except Fault (Option Transition) :=
  w.previewFrom s t w.machines.length s.machine

/-! ## Observations -/

/-- Whether the outermost machine has halted: a Turing machine on a final state, an acceptor at the
end of its input. -/
def isHalted (w : Workshop) (s : Simulator) (t : Tape) : Except Fault Bool :=
  match (w.machine s.machine).kind with
  | .turing => do
    match ← w.current? s s.machine with
    | some q => return q.isFinal
    | none => return false
  | .acceptor => .ok ((s.cursor? s.machine).isSome && t.read == blankCell)

/-- Whether the outermost machine has halted and accepted: a Turing machine with its head parked, an
acceptor in a final state. -/
def isAccepted (w : Workshop) (s : Simulator) (t : Tape) : Except Fault Bool := do
  if !(← w.isHalted s t) then return false
  match (w.machine s.machine).kind with
  | .turing => return t.isParked
  | .acceptor =>
    match ← w.current? s s.machine with
    | some q => return q.isFinal
    | none => return false

def emptyMarker : String := "λ"

/-- A text, or the marker of the empty one. -/
def marked (text : String) : String := if text = "" then emptyMarker else text

/-- The configuration: for a Turing machine what is left of the head, the state, and what is from the
head on; for an acceptor the state alone. -/
def configuration (w : Workshop) (s : Simulator) (t : Tape) : Except Fault String := do
  let name ← w.stateName s
  match (w.machine s.machine).kind with
  | .turing =>
    let before := t.partialString 0 t.head
    let after := t.partialString t.head (t.length - t.head : Nat)
    return "(" ++ marked before ++ ", " ++ marked name ++ ", " ++ marked after ++ ")"
  | .acceptor => return marked name

end Workshop

end MachineLab
