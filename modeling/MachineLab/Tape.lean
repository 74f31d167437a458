import MachineLab.Alphabet
import MachineLab.Journal

/-!
# One-ended tapes

A tape has a first cell and no last one.  Its storage holds the cells up to some point and doubles
when the head moves past its end; whatever lies beyond reads as blank.  A cell holds a text, usually
of one character.  A watcher hears of every change.

## Main definitions

* `Tape` — storage and head; the head is always inside the storage.
* `Tape.Op`, `Tape.apply` — the operations and what they do.
* `Tape.perform` — an operation together with what it reports.
* `Tape.length`, `Tape.contents`, `Tape.partialString` — what is on the tape.
-/

namespace MachineLab

structure Tape where
  cells : Array String
  head : Nat
  /-- The number of blank cells laid out behind a loaded text. -/
  capacity : Nat
  watcher : Option Watcher
  head_lt : head < cells.size
  capacity_pos : 0 < capacity

namespace Tape

/-- The capacity of a tape for which none is chosen. -/
def defaultCapacity : Int := 100

/-- The cell of a character; a space stands for the blank. -/
def cellOf (c : Char) : String := if c = ' ' then blankCell else String.singleton c

/-- Storage for a text, followed by blank cells. -/
def layOut (text : String) (capacity : Nat) : Array String :=
  (text.toList.map cellOf).toArray ++ Array.replicate capacity blankCell

theorem size_layOut (text : String) (capacity : Nat) :
    (layOut text capacity).size = text.toList.length + capacity := by
  simp [layOut]

/-- A tape with a text on it and the head on the first cell. -/
def ofText (text : String) (capacity : Int := defaultCapacity) : Tape :=
  let n := (max 1 capacity).toNat
  have h : 0 < n := by omega
  { cells := layOut text n
    head := 0
    capacity := n
    watcher := none
    head_lt := by rw [size_layOut]; omega
    capacity_pos := h }

instance : Inhabited Tape := ⟨ofText ""⟩

/-! ## Observations -/

def read (t : Tape) : String :=
  have := t.head_lt
  t.cells[t.head]

def isParked (t : Tape) : Bool := t.head == 0

/-- The cell at an offset, blank beyond the storage. -/
def cellAt (t : Tape) (i : Nat) : String := t.cells.getD i blankCell

/-- One past the last of the first `n` cells that is not blank. -/
def lengthBelow (t : Tape) : Nat → Nat
  | 0 => 0
  | n + 1 => if t.cellAt n ≠ blankCell then n + 1 else t.lengthBelow n

/-- One past the last cell that is not blank. -/
def length (t : Tape) : Nat := t.lengthBelow t.cells.size

/-- The cells from one offset up to another, joined. -/
def between (t : Tape) (first last : Nat) : String :=
  String.join (t.cells.extract first last).toList

/-- The text on the tape, without the blanks behind it. -/
def contents (t : Tape) : String := t.between 0 t.length

def storage (t : Tape) : String := String.join t.cells.toList

/-- The cells of a range, joined.  A negative start counts as zero, and cells beyond the storage are
blank. -/
def partialString (t : Tape) (start count : Int) : String :=
  let first := start.toNat
  let last := first + count.toNat
  let stored := min last t.cells.size - first
  t.between first last ++ String.ofList (List.replicate (count.toNat - stored) blankChar)

def display (t : Tape) : String :=
  "Tape(" ++ Text.quoted t.contents ++ ", head=" ++ toString t.head ++ ")"

/-! ## Operations -/

/-- What can be done to a tape. -/
inductive Op where
  | left
  | right
  | write (symbol : String)
  /-- Put the head on the first cell. -/
  | rewind
  /-- Make the tape blank. -/
  | clear
  /-- Replace the tape by a text. -/
  | load (text : String)
deriving DecidableEq, Repr

/-- Take on the text of another tape. -/
def Op.copy (other : Tape) : Op := .load other.contents

/-- Move the head one cell right, doubling the storage when it runs out. -/
def moveRight (t : Tape) : Tape :=
  if h : t.head + 1 < t.cells.size then
    { t with head := t.head + 1, head_lt := h }
  else
    { t with
      cells := t.cells ++ Array.replicate t.cells.size blankCell
      head := t.head + 1
      head_lt := by
        have := t.head_lt
        simp only [Array.size_append, Array.size_replicate]
        omega }

/-- Move the head one cell left, unless it is on the first one. -/
def moveLeft? (t : Tape) : Option Tape :=
  if t.head = 0 then none
  else some { t with
    head := t.head - 1
    head_lt := by have := t.head_lt; omega }

/-- Write a symbol into the cell under the head; a space stands for the blank. -/
def write (t : Tape) (symbol : String) : Tape :=
  { t with
    cells := t.cells.set t.head (if symbol = " " then blankCell else symbol) t.head_lt
    head_lt := by rw [Array.size_set]; exact t.head_lt }

def rewind (t : Tape) : Tape :=
  { t with
    head := 0
    head_lt := by have := t.head_lt; omega }

def clear (t : Tape) : Tape :=
  { t with
    cells := Array.replicate t.capacity blankCell
    head := 0
    head_lt := by rw [Array.size_replicate]; exact t.capacity_pos }

def load (t : Tape) (text : String) : Tape :=
  { t with
    cells := layOut text t.capacity
    head := 0
    head_lt := by rw [size_layOut]; have := t.capacity_pos; omega }

/-! ### What the operations do to the cells and the head -/

theorem read_eq_cellAt (t : Tape) : t.read = t.cellAt t.head := by
  simp [read, cellAt, Array.getD, t.head_lt]

@[simp] theorem head_moveRight (t : Tape) : t.moveRight.head = t.head + 1 := by
  unfold moveRight
  split <;> rfl

/-- Growing adds nothing but blanks, which were read there before. -/
@[simp] theorem cellAt_moveRight (t : Tape) (i : Nat) : t.moveRight.cellAt i = t.cellAt i := by
  unfold moveRight
  split
  · rfl
  · simp only [cellAt, Array.getD_eq_getD_getElem?, Array.getElem?_append]
    split
    · rfl
    · rename_i h
      have none : t.cells[i]? = none := Array.getElem?_eq_none (Nat.le_of_not_lt h)
      rw [none, Array.getElem?_replicate]
      split <;> rfl

theorem moveLeft?_eq_none_iff (t : Tape) : t.moveLeft? = none ↔ t.head = 0 := by
  unfold moveLeft?
  split <;> simp_all

@[simp] theorem head_write (t : Tape) (symbol : String) : (t.write symbol).head = t.head := rfl

theorem cellAt_write (t : Tape) (symbol : String) (i : Nat) :
    (t.write symbol).cellAt i =
      if i = t.head then (if symbol = " " then blankCell else symbol) else t.cellAt i := by
  have := t.head_lt
  simp only [cellAt, write, Array.getD_eq_getD_getElem?, Array.getElem?_set]
  by_cases h : i = t.head
  · simp [h]
  · simp [h, Ne.symm h]

@[simp] theorem head_rewind (t : Tape) : t.rewind.head = 0 := rfl

@[simp] theorem cellAt_rewind (t : Tape) (i : Nat) : t.rewind.cellAt i = t.cellAt i := rfl

@[simp] theorem head_clear (t : Tape) : t.clear.head = 0 := rfl

@[simp] theorem cellAt_clear (t : Tape) (i : Nat) : t.clear.cellAt i = blankCell := by
  simp only [cellAt, clear, Array.getD_eq_getD_getElem?, Array.getElem?_replicate]
  split <;> rfl

@[simp] theorem head_load (t : Tape) (text : String) : (t.load text).head = 0 := rfl

/-- What an operation does.  Only moving left of the first cell fails. -/
def apply (t : Tape) : Op → Except Fault Tape
  | .left =>
    match t.moveLeft? with
    | some t' => .ok t'
    | none => .error (.machine .tapeBounds)
  | .right => .ok t.moveRight
  | .write symbol => .ok (t.write symbol)
  | .rewind => .ok t.rewind
  | .clear => .ok t.clear
  | .load text => .ok (t.load text)

/-! ## Reports -/

/-- Tell the watcher, if there is one, that the tape has changed. -/
def notify (t : Tape) (j : Journal) : Journal :=
  match t.watcher with
  | some w => j.tell (.tapeChanged w)
  | none => j

/-- Log that a move right made the storage grow. -/
def recordGrowth (before after : Tape) (j : Journal) : Journal :=
  if before.cells.size < after.cells.size then
    j.record .debug .tape
      ("Tape storage grown from " ++ toString before.cells.size ++ " to " ++
        toString after.cells.size ++ " cells.")
  else j

end Tape

/-- A tape and the journal of what was done to it. -/
structure Reel where
  tape : Tape
  journal : Journal
deriving Inhabited

/-- Work on a tape.  Whatever was done before a fault stays done. -/
abbrev TapeM := EStateM Fault Reel

namespace Tape

/-- Carry out an operation and report it. -/
def perform (op : Op) : TapeM Unit := fun r =>
  match r.tape.apply op with
  | .error e => .error e r
  | .ok t =>
    let journal := match op with
      | .right => recordGrowth r.tape t r.journal
      | _ => r.journal
    .ok () ⟨t, t.notify journal⟩

/-- Let someone watch the tape, or no one.  A new watcher is told at once. -/
def watch (watcher : Option Watcher) : TapeM Unit := fun r =>
  let t := { r.tape with watcher }
  .ok () ⟨t, t.notify r.journal⟩

end Tape

end MachineLab
