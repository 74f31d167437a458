import MachineLab.Workshop.Basic

/-!
# Nesting

A state of a Turing machine can hold another Turing machine.  No machine may come to hold itself,
directly or at any depth; attaching is where that is checked.

Calls may be nested as deep as machines are: here and wherever machines are walked through, the depth of
calls is taken as unbounded.

## Main definitions

* `Workshop.Search` — the search for a machine at any depth below another, with `Search.turn` as one
  turn of it and `Search.answer` as its answer.
* `Work.attach`, `Work.detach` — the edits.
* `Workshop.keyOf` — the revision key of a machine and everything below it.
-/

namespace MachineLab

namespace Workshop

/-- The machines nested directly in a machine. -/
def links (w : Workshop) (m : MachineId) : List MachineId := (w.machine m).submachines

/-- A name that no machine has stands for a machine without links. -/
theorem links_of_length_le {w : Workshop} {m : MachineId} (h : w.machines.length ≤ m.index) :
    w.links m = [] := by
  have absent : w.machines[m.index]? = none := List.getElem?_eq_none h
  simp [links, machine, List.getD_eq_getElem?_getD, absent, default, instInhabitedMachine.default,
    Machine.submachines]

/-- The number of links out of the first `n` machines, without those of the machines that were
seen. -/
def linksLeft (w : Workshop) (seen : List MachineId) : Nat → Nat
  | 0 => 0
  | n + 1 => w.linksLeft seen n + if ⟨n⟩ ∈ seen then 0 else (w.links ⟨n⟩).length

/-- A machine that is seen for the first time takes its links away from those that are left. -/
theorem linksLeft_cons (w : Workshop) {seen : List MachineId} {m : MachineId} (new : m ∉ seen)
    (n : Nat) :
    w.linksLeft (m :: seen) n + (if m.index < n then (w.links m).length else 0) =
      w.linksLeft seen n := by
  induction n with
  | zero => simp [linksLeft]
  | succ n ih =>
    by_cases here : m = ⟨n⟩
    · subst here
      have before : ¬ n < n := Nat.lt_irrefl n
      simp only [before, if_false] at ih
      simp [linksLeft, new]
      omega
    · have other : m.index ≠ n := fun same => here (congrArg MachineId.mk same)
      have bound : m.index < n + 1 ↔ m.index < n := by omega
      have apart : (⟨n⟩ : MachineId) ≠ m := Ne.symm here
      simp only [linksLeft, List.mem_cons, apart, false_or, bound]
      omega

/-- A search among the machines below a machine: those that were seen, and those that are pending,
the next one first. -/
structure Search where
  seen : List MachineId
  pending : List MachineId
deriving Repr

namespace Search

/-- The search below a machine begins with the machines nested directly in it. -/
def start (w : Workshop) (m : MachineId) : Search := ⟨[], (w.links m).reverse⟩

/-- One turn of the search for a machine: an answer, or how the search goes on.  The next pending
machine may be the one that is looked for; if not, and unless it was seen before, the machines nested
in it are pending in its place.  A machine can be pending several times. -/
def turn (w : Workshop) (other : MachineId) : Search → Bool ⊕ Search
  | ⟨_, []⟩ => .inl false
  | ⟨seen, m :: rest⟩ =>
    if m = other then .inl true
    else if m ∈ seen then .inr ⟨seen, rest⟩
    else .inr ⟨m :: seen, (w.links m).reverse ++ rest⟩

/-- What a turn without an answer can do. -/
theorem turn_eq_inr {w : Workshop} {other : MachineId} {s s' : Search}
    (goes : s.turn w other = .inr s') :
    ∃ seen m rest, s = ⟨seen, m :: rest⟩ ∧ m ≠ other ∧
      (m ∈ seen ∧ s' = ⟨seen, rest⟩ ∨
        m ∉ seen ∧ s' = ⟨m :: seen, (w.links m).reverse ++ rest⟩) := by
  obtain ⟨seen, pending⟩ := s
  cases pending with
  | nil => cases goes
  | cons m rest =>
    refine ⟨seen, m, rest, rfl, ?_⟩
    simp only [turn] at goes
    split at goes
    · cases goes
    · rename_i another
      refine ⟨another, ?_⟩
      split at goes
      · rename_i old
        exact .inl ⟨old, (Sum.inr.inj goes).symm⟩
      · rename_i new
        exact .inr ⟨new, (Sum.inr.inj goes).symm⟩

/-- The machines that are or may still become pending.  Each link is followed once at most. -/
def weight (w : Workshop) (s : Search) : Nat :=
  w.linksLeft s.seen w.machines.length + s.pending.length

/-- Every turn without an answer uses up one of the machines that are or may become pending. -/
theorem weight_turn {w : Workshop} {other : MachineId} {s s' : Search}
    (goes : s.turn w other = .inr s') : s'.weight w + 1 = s.weight w := by
  obtain ⟨seen, m, rest, rfl, -, ⟨old, rfl⟩ | ⟨new, rfl⟩⟩ := turn_eq_inr goes
  · simp [weight]
    omega
  · have left := w.linksLeft_cons new w.machines.length
    by_cases known : m.index < w.machines.length
    · simp only [known, if_true] at left
      simp [weight]
      omega
    · have none := links_of_length_le (Nat.le_of_not_lt known)
      simp only [known, if_false] at left
      simp [weight, none]
      omega

/-- The answer of the search for a machine. -/
@[semireducible] def answer (w : Workshop) (other : MachineId) (s : Search) : Bool :=
  match _goes : s.turn w other with
  | .inl found => found
  | .inr s' => s'.answer w other
termination_by s.weight w
decreasing_by
  have used := weight_turn _goes
  omega

end Search

/-- Whether a machine is nested at any depth below another. -/
def containsMachine (w : Workshop) (m other : MachineId) : Bool :=
  (Search.start w m).answer w other

/-- The revision key of a machine, from the keys of those in its states. -/
def keyBody (w : Workshop) (inner : MachineId → RevisionKey) (m : MachineId) : RevisionKey :=
  .node (w.machine m).revision (w.machine m).alphabet (w.alphabetOf m).revision
    ((w.links m).map inner)

/-- The revision key of a machine, descending at most `depth` levels. -/
def keyTo (w : Workshop) : Nat → MachineId → RevisionKey
  | 0, m =>
    .node (w.machine m).revision (w.machine m).alphabet (w.alphabetOf m).revision []
  | depth + 1, m => w.keyBody (w.keyTo depth) m

/-- The revision key of a machine.  Nesting is acyclic, so no path is longer than the number of
machines. -/
def keyOf (w : Workshop) (m : MachineId) : RevisionKey := w.keyTo w.machines.length m

/-- Whether a machine was found valid and nothing has changed since. -/
def isValidated (w : Workshop) (m : MachineId) : Bool :=
  (w.machine m).validated == some (w.keyOf m)

end Workshop

namespace Work

/-- Only Turing machines hold submachines. -/
def requireNesting (m : MachineId) : Work Unit := do
  match (← machine m).kind with
  | .turing => pure ()
  | .acceptor => throw (.mismatch .noNesting)

/-- Put a machine inside a state.  What is attached has to be a Turing machine, and must not be or
contain the machine that it is attached to. -/
def attach (m : MachineId) (r : Ref) (inner : Option MachineId) : Work Unit := do
  requireNesting m
  let s ← state m r
  let shop := (← get).shop
  match inner.filter fun i => (shop.machine i).kind == .turing with
  | none => throw (.refusal .notNestable)
  | some i =>
    let outerName := (shop.machine m).name
    let innerName := (shop.machine i).name
    if i = m || shop.containsMachine i m then
      throw (.machine (.submachineCycle innerName s.label outerName))
    else
      setMachine m ((shop.machine m).setSubmachine s.id (some i))
      record .info .nesting
        ("Submachine '" ++ innerName.display ++ "' attached to state " ++ s.label ++ " of '" ++
          outerName.display ++ "'.")

def detach (m : MachineId) (r : Ref) : Work (Option MachineId) := do
  requireNesting m
  let s ← state m r
  setMachine m ((← machine m).setSubmachine s.id none)
  return s.submachine

end Work

end MachineLab
