import MachineLab.Simulator.Step

/-!
# Running

A run takes steps until the machine halts or a budget is used up.  A budget of zero is no budget; a
run without one may never end, so it is given patience: a number of steps after which it is called
unfinished.

## Main definitions

* `SimM.loop` — the steps of a run and how it ended.
* `SimM.run` — a run with its verdict.
-/

namespace MachineLab

/-- How the steps of a run ended, with their number. -/
inductive RunEnd where
  /-- The machine has halted, or the budget is used up. -/
  | stopped (count : Nat)
  /-- A step reported that the computation completed. -/
  | completed (count : Nat)
  /-- A step reported that the computation failed. -/
  | failed (count : Nat) (cause : MachineFault)
  /-- Patience ran out. -/
  | unfinished
deriving Repr

namespace SimM

/-- Take a step, handing out the report of a computation that halted. -/
def attempt : SimM (Option MachineFault) := fun s =>
  match step s with
  | .ok _ s' => .ok none s'
  | .error (.machine f) s' =>
    if f.isCompletion || f.isFailure then .ok (some f) s' else .error (.machine f) s'
  | .error e s' => .error e s'

def halted : SimM Bool := observeTape Workshop.isHalted

def accepted : SimM Bool := observeTape Workshop.isAccepted

/-- Take steps until the machine halts or `limit` steps were taken; zero is no limit, and a negative
limit allows one step. -/
def loop (limit : Int) : Nat → Nat → SimM RunEnd
  | 0, _ => pure .unfinished
  | patience + 1, count => do
    if ← halted then return .stopped count
    match ← attempt with
    | some f => return if f.isCompletion then .completed count else .failed count f
    | none =>
      let count := count + 1
      if limit ≠ 0 ∧ limit ≤ count then
        let done ← halted
        update fun s => { s with budgetExhausted := !done }
        return .stopped count
      else loop limit patience count

/-- Enough patience for every run within a limit. -/
def patienceFor (limit : Int) (patience : Nat) : Nat :=
  if limit = 0 then patience else limit.natAbs + 1

def recordEnd (count : Nat) (verdict : Bool) : SimM Unit := do
  let sim := (← get).sim
  let name ← nameOf sim.machine
  record .info
    ("Simulation of '" ++ name ++ "' " ++
      if sim.budgetExhausted then "stopped after " ++ toString count ++ " step(s) without halting."
      else
        "ended after " ++ toString count ++ " step(s); accepted=" ++ Value.boolText verdict ++ ".")

/-- Run until the machine halts or the budget is used up; says whether it halted and accepted, or
nothing if patience ran out. -/
def run (limit : Int) (patience : Nat) : SimM (Option Bool) := do
  update fun s => { s with budgetExhausted := false }
  match ← loop limit (patienceFor limit patience) 0 with
  | .unfinished => return none
  | .stopped count =>
    let verdict ← if ← halted then accepted else pure false
    recordEnd count verdict
    return some verdict
  | .completed count =>
    let verdict ← accepted
    recordEnd count verdict
    return some verdict
  | .failed count cause =>
    record .info
      ("Simulation of '" ++ (← nameOf (← get).sim.machine) ++ "' rejected: " ++ cause.message)
    recordEnd count false
    return some false

end SimM

end MachineLab
