import MachineLab.Proofs.Effects
import Mathlib.Logic.Function.Basic
import Mathlib.Order.Bounds.Basic

/-!
# Tapes without an end

The storage of a tape is finite, starts with a size that depends on a capacity, and doubles when the
head runs past it.  None of this can be seen: a tape behaves as one that has a character in each of
infinitely many cells.  `Endless` is such a tape, a function and a head, with no storage at all.

A tape *shows* an endless one if their heads agree and each cell holds the character of the other's
cell as a text.  Every operation keeps this up, so it holds after any sequence of them, and all that
can be observed of a tape is then said in terms of the endless one.

## Main definitions

* `Endless`, `Endless.apply` — the tape without an end and its operations.
* `Tape.Shows` — a tape and an endless one agree.
* `Tape.Sight` — all that can be observed of a tape but its storage.

## Main statements

* `Tape.Shows.perform` — an operation does the same to both.
* `Tape.refines_endless_tape` — after any sequence of operations, a tape is an endless one to every
  observer.
-/

namespace MachineLab

/-- A tape that never ends: a character in every cell, and the head.  No cell holds a space, which is
another way to write the blank. -/
@[ext]
structure Endless where
  cells : Nat → Char
  head : Nat
  tidy : ∀ i, cells i ≠ ' '

namespace Endless

/-- What a cell holds once a character is put there; a space stands for the blank. -/
def normal (c : Char) : Char := if c = ' ' then blankChar else c

theorem normal_ne_space (c : Char) : normal c ≠ ' ' := by
  unfold normal
  split
  · decide
  · assumption

theorem normal_of_ne_space {c : Char} (h : c ≠ ' ') : normal c = c := if_neg h

/-- A text with blanks behind it, and the head on the first cell. -/
def ofText (text : String) : Endless where
  cells i := normal (text.toList.getD i blankChar)
  head := 0
  tidy _ := normal_ne_space _

theorem cells_ofText (text : String) (i : Nat) :
    (ofText text).cells i = normal (text.toList.getD i blankChar) := rfl

/-- An endless tape with a character in the cell under the head. -/
def put (e : Endless) (c : Char) : Endless where
  cells := Function.update e.cells e.head (normal c)
  head := e.head
  tidy i := by
    by_cases h : i = e.head
    · simp [h, normal_ne_space]
    · simp [h, e.tidy]

/-- What can be done to an endless tape. -/
inductive Op where
  | left
  | right
  | write (c : Char)
  | rewind
  | clear
  | load (text : String)
  | copy (other : Tape)

/-- What an operation makes of an endless tape; nothing if the head would leave it. -/
def apply (e : Endless) : Op → Option Endless
  | .left => if e.head = 0 then none else some { e with head := e.head - 1 }
  | .right => some { e with head := e.head + 1 }
  | .write c => some (e.put c)
  | .rewind => some { e with head := 0 }
  | .clear => some (ofText "")
  | .load text => some (ofText text)
  | .copy other => some (ofText other.contents)

/-- Carry out operations one after the other; one that is impossible is passed over. -/
def run : List Op → Endless → Endless
  | [], e => e
  | op :: rest, e => run rest ((e.apply op).getD e)

/-- The operation on a tape with storage. -/
def Op.onTape : Op → Tape.Op
  | .left => .left
  | .right => .right
  | .write c => .write (String.singleton c)
  | .rewind => .rewind
  | .clear => .clear
  | .load text => .load text
  | .copy other => .copy other

theorem apply_eq_none_iff {e : Endless} {op : Op} :
    e.apply op = none ↔ op = .left ∧ e.head = 0 := by
  cases op <;> simp [apply]

theorem singleton_normal (c : Char) : String.singleton (normal c) = Tape.cellOf c := by
  by_cases h : c = ' '
  · simp [normal, Tape.cellOf, h]
    rfl
  · simp [normal, Tape.cellOf, h]

end Endless

namespace Tape

variable {t t' : Tape} {e : Endless}

/-- Carry out operations one after the other, whether they fail or not. -/
def performAll : List Op → Reel → Reel
  | [], r => r
  | op :: rest, r => performAll rest (after (perform op) r)

/-! ## Cells and lengths -/

theorem join_map_singleton (cs : List Char) :
    String.join (cs.map String.singleton) = String.ofList cs := by
  induction cs with
  | nil => rfl
  | cons c rest ih => rw [List.map_cons, String.join_cons, ih, String.ofList_cons]

theorem cellAt_of_size_le {i : Nat} (h : t.cells.size ≤ i) : t.cellAt i = blankCell := by
  simp [cellAt, Array.getD_eq_getD_getElem?, Array.getElem?_eq_none h]

/-- What holds of the blank and of the cells in the storage holds of every cell. -/
theorem forall_cellAt {P : String → Prop} (blank : P blankCell)
    (stored : ∀ i < t.cells.size, P (t.cellAt i)) (i : Nat) : P (t.cellAt i) := by
  by_cases hi : i < t.cells.size
  · exact stored i hi
  · rw [cellAt_of_size_le (Nat.le_of_not_lt hi)]
    exact blank

theorem getD_layOut (text : String) (capacity i : Nat) :
    (layOut text capacity).getD i blankCell = cellOf (text.toList.getD i blankChar) := by
  have blank : cellOf blankChar = blankCell := rfl
  by_cases hi : i < text.toList.length
  · simp [layOut, Array.getD_eq_getD_getElem?, Array.getElem?_append, hi]
  · have beyond : text.toList[i]? = none := List.getElem?_eq_none (by omega)
    simp only [layOut, Array.getD_eq_getD_getElem?, Array.getElem?_append, List.size_toArray,
      List.length_map, hi, if_false, Array.getElem?_replicate, List.getD_eq_getElem?_getD, beyond,
      Option.getD_none, blank]
    split <;> rfl

theorem cellAt_ofText (text : String) (capacity : Int) (i : Nat) :
    (ofText text capacity).cellAt i = cellOf (text.toList.getD i blankChar) := getD_layOut text _ i

theorem cellAt_load (t : Tape) (text : String) (i : Nat) :
    (t.load text).cellAt i = cellOf (text.toList.getD i blankChar) := getD_layOut text _ i

/-- The first `n` cells end before `k` exactly if they are blank from there on. -/
theorem lengthBelow_le_iff (t : Tape) (n k : Nat) :
    t.lengthBelow n ≤ k ↔ ∀ i, k ≤ i → i < n → t.cellAt i = blankCell := by
  induction n with
  | zero => simp [lengthBelow]
  | succ n ih =>
    rw [lengthBelow]
    by_cases last : t.cellAt n = blankCell
    · rw [if_neg (not_not_intro last), ih]
      constructor
      · intro h i hk hi
        by_cases hn : i = n
        · rw [hn, last]
        · exact h i hk (by omega)
      · exact fun h i hk hi => h i hk (by omega)
    · rw [if_pos last]
      constructor
      · intro h i hk hi
        omega
      · intro h
        by_contra hk
        exact last (h n (by omega) (Nat.lt_succ_self n))

theorem length_le_iff (t : Tape) (k : Nat) :
    t.length ≤ k ↔ ∀ i, k ≤ i → t.cellAt i = blankCell := by
  rw [length, lengthBelow_le_iff]
  constructor
  · intro h i hk
    by_cases hi : i < t.cells.size
    · exact h i hk hi
    · exact cellAt_of_size_le (by omega)
  · exact fun h i hk _ => h i hk

theorem length_le_size (t : Tape) : t.length ≤ t.cells.size :=
  (length_le_iff t _).mpr fun _ => cellAt_of_size_le

/-! ## Showing an endless tape -/

/-- A tape shows an endless one: the heads agree, and so do the cells. -/
structure Shows (t : Tape) (e : Endless) : Prop where
  head : t.head = e.head
  cell : ∀ i, t.cellAt i = String.singleton (e.cells i)

theorem shows_ofText (text : String) (capacity : Int) :
    (ofText text capacity).Shows (Endless.ofText text) := by
  refine ⟨rfl, fun i => ?_⟩
  rw [cellAt_ofText]
  exact (Endless.singleton_normal _).symm

theorem shows_load (t : Tape) (text : String) : (t.load text).Shows (Endless.ofText text) := by
  refine ⟨rfl, fun i => ?_⟩
  rw [cellAt_load]
  exact (Endless.singleton_normal _).symm

namespace Shows

/-- An operation gives the same result on both, and is impossible for both or for neither. -/
theorem apply_eq (h : t.Shows e) (op : Endless.Op) :
    match t.apply op.onTape, e.apply op with
    | .ok t', some e' => t'.Shows e'
    | .error f, none => f = .machine .tapeBounds
    | _, _ => False := by
  cases op with
  | left =>
    by_cases h0 : e.head = 0
    · simp [Endless.Op.onTape, Tape.apply, Endless.apply, moveLeft?, h.head, h0]
    · have parked : ¬ t.head = 0 := h.head ▸ h0
      simp only [Endless.Op.onTape, Tape.apply, Endless.apply, moveLeft?, h0, parked, if_false]
      exact ⟨by simp [h.head], h.cell⟩
  | right => exact ⟨by simp [h.head], fun i => by simpa using h.cell i⟩
  | write c =>
    refine ⟨h.head, fun i => ?_⟩
    have space : String.singleton c = " " ↔ c = ' ' := String.singleton_inj (d := ' ')
    rw [cellAt_write, h.head, h.cell]
    by_cases hi : i = e.head
    · subst hi
      simp [Endless.put, Endless.singleton_normal, cellOf, space]
    · simp [Endless.put, hi]
  | rewind => exact ⟨rfl, h.cell⟩
  | clear => exact ⟨rfl, fun i => t.cellAt_clear i⟩
  | load text => exact t.shows_load text
  | copy other => exact t.shows_load other.contents

/-- **An operation does the same to both.**  It fails exactly if it is impossible on the endless
tape, and then changes nothing. -/
theorem perform {r : Reel} (h : r.tape.Shows e) (op : Endless.Op) :
    outcome (Tape.perform op.onTape) r =
        (if e.apply op = none then .error (.machine .tapeBounds) else .ok ()) ∧
      (after (Tape.perform op.onTape) r).tape.Shows ((e.apply op).getD e) ∧
      (e.apply op = none → after (Tape.perform op.onTape) r = r) := by
  have agree := h.apply_eq op
  unfold outcome after Tape.perform
  cases happly : r.tape.apply op.onTape with
  | ok t' =>
    cases hend : e.apply op with
    | none => simp [happly, hend] at agree
    | some e' => simpa [happly, hend] using agree
  | error f =>
    cases hend : e.apply op with
    | none =>
      simp only [happly, hend] at agree
      simpa [agree] using h
    | some e' => simp [happly, hend] at agree

theorem performAll {r : Reel} (h : r.tape.Shows e) (ops : List Endless.Op) :
    (Tape.performAll (ops.map Endless.Op.onTape) r).tape.Shows (Endless.run ops e) := by
  induction ops generalizing r e with
  | nil => exact h
  | cons op rest ih => exact ih (h.perform op).2.1

/-! ## Observations -/

theorem read_eq (h : t.Shows e) : t.read = String.singleton (e.cells e.head) := by
  rw [read_eq_cellAt, h.cell, h.head]

theorem isLeast_length (h : t.Shows e) :
    IsLeast {n | ∀ i, n ≤ i → e.cells i = blankChar} t.length := by
  have blank (i : Nat) : t.cellAt i = blankCell ↔ e.cells i = blankChar := by
    rw [h.cell]
    exact String.singleton_inj (d := blankChar)
  constructor
  · intro i hi
    exact (blank i).mp ((t.length_le_iff _).mp (Nat.le_refl _) i hi)
  · intro n hn
    exact (t.length_le_iff n).mpr fun i hi => (blank i).mpr (hn i hi)

/-- A stretch of the storage holds the characters of the endless tape. -/
theorem between_eq (h : t.Shows e) (first last : Nat) :
    t.between first last = String.ofList
      ((List.range (min last t.cells.size - first)).map fun i => e.cells (first + i)) := by
  have stretch : (t.cells.extract first last).toList =
      ((List.range (min last t.cells.size - first)).map fun i => e.cells (first + i)).map
        String.singleton := by
    apply List.ext_getElem
    · simp
      omega
    · intro i hi _
      have stored : first + i < t.cells.size := by
        simp at hi
        omega
      have cell := h.cell (first + i)
      simp only [cellAt, Array.getD_eq_getD_getElem?, Array.getElem?_eq_getElem stored,
        Option.getD_some] at cell
      simp [cell]
  rw [between, stretch, join_map_singleton]

theorem contents_eq (h : t.Shows e) :
    t.contents = String.ofList ((List.range t.length).map e.cells) := by
  rw [contents, h.between_eq, Nat.min_eq_left t.length_le_size]
  simp

/-- A stretch of the tape may begin before its start or reach past the end of the storage. -/
theorem partialString_eq (h : t.Shows e) (start count : Int) :
    t.partialString start count =
      String.ofList ((List.range count.toNat).map fun i => e.cells (start.toNat + i)) := by
  have blank (i : Nat) (hi : t.cells.size ≤ i) : e.cells i = blankChar := by
    have cell := h.cell i
    rw [cellAt_of_size_le hi] at cell
    exact (String.singleton_inj (c := blankChar).mp cell).symm
  simp only [partialString, h.between_eq, ← String.ofList_append]
  congr 1
  apply List.ext_getElem
  · simp
    omega
  · intro i _ wanted
    simp only [List.length_map, List.length_range] at wanted
    simp only [List.getElem_append, List.getElem_map, List.getElem_range, List.getElem_replicate,
      List.length_map, List.length_range]
    split
    · rfl
    · rw [blank]
      omega

/-- The text of a tape is all that there is on the endless one. -/
theorem ofText_contents (h : t.Shows e) : Endless.ofText t.contents = { e with head := 0 } := by
  have text : t.contents.toList = (List.range t.length).map e.cells := by
    rw [h.contents_eq, String.toList_ofList]
  apply Endless.ext
  · funext i
    rw [Endless.cells_ofText]
    by_cases hi : i < t.length
    · simp [text, List.getD_eq_getElem?_getD, hi, Endless.normal_of_ne_space (e.tidy i)]
    · have blank : e.cells i = blankChar := h.isLeast_length.1 i (by omega)
      simp [text, List.getD_eq_getElem?_getD, hi, blank, Endless.normal, blankChar]
  · rfl

end Shows

/-! ## What an observer sees -/

/-- All that can be observed of a tape but its storage. -/
structure Sight where
  head : Nat
  parked : Bool
  read : String
  length : Nat
  contents : String
  partialString : Int → Int → String
  display : String

/-- What is observed of a tape. -/
def sight (t : Tape) : Sight where
  head := t.head
  parked := t.isParked
  read := t.read
  length := t.length
  contents := t.contents
  partialString := t.partialString
  display := t.display

/-- Two tapes that show the same endless one look the same. -/
theorem Shows.sight_eq (h : t.Shows e) (h' : t'.Shows e) : t.sight = t'.sight := by
  have head : t.head = t'.head := h.head.trans h'.head.symm
  have length : t.length = t'.length := h.isLeast_length.unique h'.isLeast_length
  have contents : t.contents = t'.contents := by rw [h.contents_eq, h'.contents_eq, length]
  have read : t.read = t'.read := by rw [h.read_eq, h'.read_eq]
  have stretches : t.partialString = t'.partialString := by
    funext start count
    rw [h.partialString_eq, h'.partialString_eq]
  simp [sight, isParked, display, head, length, contents, read, stretches]

theorem getElem?_head (t : Tape) : t.cells[t.head]? = some t.read :=
  Array.getElem?_eq_getElem t.head_lt

theorem size_le_moveRight (t : Tape) : t.cells.size ≤ t.moveRight.cells.size := by
  unfold moveRight
  split
  · exact Nat.le_refl _
  · simp

/-- Moving the head and writing never make the storage smaller. -/
theorem size_le_perform (r : Reel) :
    r.tape.cells.size ≤ (after (perform .left) r).tape.cells.size ∧
      r.tape.cells.size ≤ (after (perform .right) r).tape.cells.size ∧
      ∀ symbol, r.tape.cells.size ≤ (after (perform (.write symbol)) r).tape.cells.size := by
  refine ⟨?_, r.tape.size_le_moveRight, fun symbol => ?_⟩
  · by_cases h : r.tape.head = 0
    · simp [after, perform, apply, moveLeft?, h]
    · simp [after, perform, apply, moveLeft?, h]
  · simp [after, perform, apply, write]

/-- **A tape is an endless one to every observer.**  Whatever text and capacity it was made with and
whatever was done to it since, its head is inside the storage, which neither moves nor writes make
smaller; the head, the cell under it, the length, the text and every stretch of it are those of the
endless tape to which the same was done; and an operation fails exactly if it is to move left from
the first cell, and then changes nothing.  A copy holds what the copied tape held, and apart from its
storage nothing shows the capacity. -/
theorem refines_endless_tape (text : String) (capacity : Int) (j : Journal)
    (ops : List Endless.Op) :
    let r := performAll (ops.map Endless.Op.onTape) ⟨ofText text capacity, j⟩
    let e := Endless.run ops (Endless.ofText text)
    (r.tape.cells[r.tape.head]? = some r.tape.read ∧
      r.tape.cells.size ≤ (after (perform .left) r).tape.cells.size ∧
      r.tape.cells.size ≤ (after (perform .right) r).tape.cells.size ∧
      ∀ symbol, r.tape.cells.size ≤ (after (perform (.write symbol)) r).tape.cells.size) ∧
    r.tape.head = e.head ∧
    r.tape.read = String.singleton (e.cells e.head) ∧
    IsLeast {n | ∀ i, n ≤ i → e.cells i = blankChar} r.tape.length ∧
    r.tape.contents = String.ofList ((List.range r.tape.length).map e.cells) ∧
    (∀ start count : Int, r.tape.partialString start count =
      String.ofList ((List.range count.toNat).map fun i => e.cells (start.toNat + i))) ∧
    (∀ op : Endless.Op,
      ((op = .left ∧ e.head = 0) ∧ after (perform op.onTape) r = r ∧
        outcome (perform op.onTape) r = .error (.machine .tapeBounds)) ∨
      (¬ (op = .left ∧ e.head = 0) ∧ outcome (perform op.onTape) r = .ok ())) ∧
    Endless.ofText r.tape.contents = { e with head := 0 } ∧
    ∀ (capacity' : Int) (j' : Journal),
      (performAll (ops.map Endless.Op.onTape) ⟨ofText text capacity', j'⟩).tape.sight =
        r.tape.sight := by
  intro r e
  have shows (capacity : Int) (j : Journal) :
      (performAll (ops.map Endless.Op.onTape) ⟨ofText text capacity, j⟩).tape.Shows e :=
    Shows.performAll (r := ⟨ofText text capacity, j⟩) (shows_ofText text capacity) ops
  have here : r.tape.Shows e := shows capacity j
  refine ⟨⟨r.tape.getElem?_head, size_le_perform r⟩, here.head, here.read_eq, here.isLeast_length,
    here.contents_eq, here.partialString_eq, fun op => ?_, here.ofText_contents,
    fun capacity' j' => (shows capacity' j').sight_eq here⟩
  obtain ⟨result, -, unchanged⟩ := here.perform op
  by_cases impossible : e.apply op = none
  · rw [if_pos impossible] at result
    exact .inl ⟨Endless.apply_eq_none_iff.mp impossible, unchanged impossible, result⟩
  · rw [if_neg impossible] at result
    exact .inr ⟨fun h => impossible (Endless.apply_eq_none_iff.mpr h), result⟩

end Tape

end MachineLab
