import MachineLab.Proofs.Finality
import MachineLab.Proofs.TapeFiles

/-!
# Configurations

A configuration shows a Turing machine in the middle of its work as one text, such as `(10, q1 (s0), 1)`:
what is left of the head, the state, and what is from the head on.  Labels may hold commas, spaces and
parentheses, so the text cannot simply be taken apart at its separators.  But no cell ever holds a
space.  The first space of the text therefore ends what is left of the head, the last one begins what
is from the head on, and whatever stands between them is the state.

## Main definitions

* `Tape.Made` — the tapes that there can be.

## Main statements

* `Workshop.marked_inj` — the marker for the empty text stands for no other text.
* `Endless.eq_of_sides` — a tape is determined by what is on either side of its head.
* `Workshop.configuration_determines_tape` — two configurations are the same text exactly if the tapes
  and the state names are the same.
-/

namespace MachineLab

/-! ## Taking a text apart -/

/-- A list is taken apart in one way only at the first place where an entry stands. -/
theorem append_cons_inj_first {α : Type} {a : α} {u u' v v' : List α} (hu : a ∉ u) (hu' : a ∉ u')
    (h : u ++ a :: v = u' ++ a :: v') : u = u' ∧ v = v' := by
  induction u generalizing u' with
  | nil =>
    cases u' with
    | nil => exact ⟨rfl, (List.cons.inj h).2⟩
    | cons b rest => exact absurd ((List.cons.inj h).1 ▸ List.mem_cons_self) hu'
  | cons b rest ih =>
    cases u' with
    | nil => exact absurd ((List.cons.inj h).1 ▸ List.mem_cons_self) hu
    | cons b' rest' =>
      obtain ⟨rfl, same⟩ := List.cons.inj h
      obtain ⟨rfl, rfl⟩ := ih (fun ha => hu (.tail _ ha)) (fun ha => hu' (.tail _ ha)) same
      exact ⟨rfl, rfl⟩

/-- It is taken apart in one way only at the last place as well. -/
theorem append_cons_inj_last {α : Type} {a : α} {u u' v v' : List α} (hv : a ∉ v) (hv' : a ∉ v')
    (h : u ++ a :: v = u' ++ a :: v') : u = u' ∧ v = v' := by
  have backwards : v.reverse ++ a :: u.reverse = v'.reverse ++ a :: u'.reverse := by
    simpa using congrArg List.reverse h
  obtain ⟨last, first⟩ :=
    append_cons_inj_first (by simpa using hv) (by simpa using hv') backwards
  exact ⟨List.reverse_injective first, List.reverse_injective last⟩

/-! ## Tapes and the two sides of their heads -/

/-- The tapes that there can be: a tape is made from a text, and then worked on and watched. -/
inductive Tape.Made : Tape → Prop
  | ofText (text : String) (capacity : Int) : Made (ofText text capacity)
  | apply {t t' : Tape} {op : Tape.Op} (h : Made t) (applied : t.apply op = .ok t') : Made t'
  | watch {t : Tape} (h : Made t) (watcher : Option Watcher) : Made { t with watcher }

theorem Tape.Made.tidy {t : Tape} (h : t.Made) : t.Tidy := by
  induction h with
  | ofText text capacity => exact tidy_ofText text capacity
  | apply _ applied ih => exact tidy_apply ih applied
  | watch _ _ ih => exact ih

namespace Endless

/-- The first `n` characters from an offset on. -/
def stretch (e : Endless) (first n : Nat) : List Char :=
  (List.range n).map fun i => e.cells (first + i)

@[simp] theorem length_stretch (e : Endless) (first n : Nat) : (e.stretch first n).length = n := by
  simp [stretch]

theorem mem_stretch {e : Endless} {first n : Nat} {c : Char} (h : c ∈ e.stretch first n) :
    ∃ i, c = e.cells i := by
  obtain ⟨i, -, rfl⟩ := List.mem_map.mp h
  exact ⟨_, rfl⟩

theorem getD_stretch (e : Endless) (first n i : Nat)
    (blank : ∀ i, first + n ≤ i → e.cells i = blankChar) :
    (e.stretch first n).getD i blankChar = e.cells (first + i) := by
  by_cases hi : i < n
  · simp [stretch, List.getD_eq_getElem?_getD, hi]
  · rw [blank (first + i) (by omega)]
    simp [stretch, List.getD_eq_getElem?_getD, hi]

/-- **A tape is determined by what is on either side of its head**, up to where it is blank for good. -/
theorem eq_of_sides {e e' : Endless} {n n' : Nat}
    (blank : ∀ i, e.head + n ≤ i → e.cells i = blankChar)
    (blank' : ∀ i, e'.head + n' ≤ i → e'.cells i = blankChar)
    (left : e.stretch 0 e.head = e'.stretch 0 e'.head)
    (right : e.stretch e.head n = e'.stretch e'.head n') : e = e' := by
  have head : e.head = e'.head := by simpa using congrArg List.length left
  have cells (i : Nat) : e.cells i = e'.cells i := by
    by_cases hi : i < e.head
    · have here := congrArg (·[i]?) left
      simpa [stretch, hi, head ▸ hi] using here
    · obtain ⟨k, rfl⟩ := Nat.exists_eq_add_of_le (Nat.le_of_not_lt hi)
      rw [← e.getD_stretch e.head n k blank, right, e'.getD_stretch e'.head n' k blank', head]
  exact Endless.ext (funext cells) head

end Endless

namespace Tape.Shows

variable {t t' : Tape} {e e' : Endless} (h : t.Shows e)

include h

theorem before_eq : t.partialString 0 t.head = String.ofList (e.stretch 0 e.head) := by
  rw [h.partialString_eq, h.head]
  rfl

theorem after_eq : t.partialString t.head (t.length - t.head : Nat) =
    String.ofList (e.stretch e.head (t.length - t.head)) := by
  rw [h.partialString_eq, h.head]
  rfl

theorem blank_after : ∀ i, e.head + (t.length - t.head) ≤ i → e.cells i = blankChar := by
  intro i hi
  have := h.head
  exact h.isLeast_length.1 i (by omega)

/-- Two tapes look the same if their heads and texts agree. -/
theorem eq_of_contents (h' : t'.Shows e') (head : t.head = t'.head)
    (contents : t.contents = t'.contents) : e = e' := by
  have parked : ({ e with head := 0 } : Endless) = { e' with head := 0 } := by
    rw [← h.ofText_contents, ← h'.ofText_contents, contents]
  refine Endless.ext (Endless.mk.inj parked).1 ?_
  rw [← h.head, ← h'.head, head]

end Tape.Shows

/-! ## Configurations -/

namespace Workshop

/-- Apart from itself, the marker stands for the empty text only. -/
theorem marked_inj {x y : String} (hx : x ≠ emptyMarker) (hy : y ≠ emptyMarker)
    (h : marked x = marked y) : x = y := by
  unfold marked at h
  split_ifs at h with ex ey ey
  · rw [ex, ey]
  · exact absurd h.symm hy
  · exact absurd h hx
  · exact h

/-- What is shown of a side of the head. -/
abbrev sideText (e : Endless) (first n : Nat) : String := marked (String.ofList (e.stretch first n))

theorem space_not_mem_sideText (e : Endless) (first n : Nat) :
    ' ' ∉ (sideText e first n).toList := by
  unfold sideText marked
  split_ifs
  · decide
  · rw [String.toList_ofList]
    intro space
    obtain ⟨i, hi⟩ := Endless.mem_stretch space
    exact e.tidy i hi.symm

theorem stretch_eq_of_sideText_eq {e e' : Endless} {first first' n n' : Nat}
    (plain : ∀ i, e.cells i ≠ 'λ') (plain' : ∀ i, e'.cells i ≠ 'λ')
    (h : sideText e first n = sideText e' first' n') :
    e.stretch first n = e'.stretch first' n' := by
  have unlike (e : Endless) (plain : ∀ i, e.cells i ≠ 'λ') (first n : Nat) :
      String.ofList (e.stretch first n) ≠ emptyMarker := by
    intro same
    have marker : 'λ' ∈ e.stretch first n := by
      rw [← String.toList_ofList (l := e.stretch first n), same]
      decide
    obtain ⟨i, hi⟩ := Endless.mem_stretch marker
    exact plain i hi.symm
  exact String.ofList_injective (marked_inj (unlike e plain _ _) (unlike e' plain' _ _) h)

/-- The text of a configuration with given parts. -/
def frameParts (left name right : String) : String :=
  "(" ++ left ++ ", " ++ name ++ ", " ++ right ++ ")"

/-- The first and the last space part a configuration into three, unless they are in its sides. -/
theorem frameParts_inj {left left' name name' right right' : String} (hl : ' ' ∉ left.toList)
    (hl' : ' ' ∉ left'.toList) (hr : ' ' ∉ right.toList) (hr' : ' ' ∉ right'.toList)
    (h : frameParts left name right = frameParts left' name' right') :
    left = left' ∧ name = name' ∧ right = right' := by
  have parts (left name right : String) : (frameParts left name right).toList =
      ('(' :: left.toList ++ [',']) ++
        ' ' :: ((name.toList ++ [',']) ++ ' ' :: (right.toList ++ [')'])) := by
    simp [frameParts]
  have same := congrArg String.toList h
  rw [parts, parts] at same
  obtain ⟨first, rest⟩ := append_cons_inj_first (by simpa using hl) (by simpa using hl') same
  obtain ⟨middle, last⟩ := append_cons_inj_last (by simpa using hr) (by simpa using hr') rest
  simp only [List.cons_append, List.cons.injEq, true_and, List.append_cancel_right_eq,
    String.toList_inj] at first middle last
  exact ⟨first, middle, last⟩

variable {w w' : Workshop} {sim sim' : Simulator} {t t' : Tape}

/-- The configuration of a Turing machine has a state name between the sides of its head. -/
theorem configuration_eq_ok (turing : (w.machine sim.machine).kind = .turing) {e : Endless}
    (shows : t.Shows e) {c : String} (h : w.configuration sim t = .ok c) :
    ∃ name, w.stateName sim = .ok name ∧ c = frameParts (sideText e 0 e.head) (marked name)
      (sideText e e.head (t.length - t.head)) := by
  unfold configuration at h
  obtain ⟨name, named, text⟩ := except_bind_eq_ok_iff.mp h
  rw [turing] at text
  refine ⟨name, named, ?_⟩
  rw [sideText, sideText, ← shows.before_eq, ← shows.after_eq]
  exact (Except.ok.inj text).symm

/-- **The configuration of a Turing machine determines its tape.**  Take any two simulators of Turing
machines, whatever the labels of the states are, however the machines are nested and whether they have
started or not, on tapes with one character in each cell and none of them the marker.  Their
configurations are the same text exactly if the heads, the texts on the tapes and the names of the
states are the same, where the marker stands for a name that is empty. -/
theorem configuration_determines_tape (turing : (w.machine sim.machine).kind = .turing)
    (turing' : (w'.machine sim'.machine).kind = .turing) (made : t.Made) (made' : t'.Made)
    (single : ∀ i, (t.cellAt i).length = 1 ∧ t.cellAt i ≠ emptyMarker)
    (single' : ∀ i, (t'.cellAt i).length = 1 ∧ t'.cellAt i ≠ emptyMarker) {c c' : String}
    (h : w.configuration sim t = .ok c) (h' : w'.configuration sim' t' = .ok c') :
    ∃ name name', w.stateName sim = .ok name ∧ w'.stateName sim' = .ok name' ∧
      (c = c' ↔ t.head = t'.head ∧ t.contents = t'.contents ∧ marked name = marked name') := by
  obtain ⟨e, shows⟩ := made.tidy.exists_shows fun i => (single i).1
  obtain ⟨e', shows'⟩ := made'.tidy.exists_shows fun i => (single' i).1
  have plain (i : Nat) : e.cells i ≠ 'λ' := by
    intro marker
    exact (single i).2 (by rw [shows.cell, marker]; rfl)
  have plain' (i : Nat) : e'.cells i ≠ 'λ' := by
    intro marker
    exact (single' i).2 (by rw [shows'.cell, marker]; rfl)
  obtain ⟨name, named, rfl⟩ := configuration_eq_ok turing shows h
  obtain ⟨name', named', rfl⟩ := configuration_eq_ok turing' shows' h'
  refine ⟨name, name', named, named', fun same => ?_, ?_⟩
  · obtain ⟨left, middle, right⟩ := frameParts_inj (space_not_mem_sideText _ _ _)
      (space_not_mem_sideText _ _ _) (space_not_mem_sideText _ _ _) (space_not_mem_sideText _ _ _) same
    have tapes : e = e' := Endless.eq_of_sides shows.blank_after shows'.blank_after
      (stretch_eq_of_sideText_eq plain plain' left) (stretch_eq_of_sideText_eq plain plain' right)
    have sight := shows.sight_eq (tapes ▸ shows')
    exact ⟨congrArg Tape.Sight.head sight, congrArg Tape.Sight.contents sight, middle⟩
  · rintro ⟨head, contents, names⟩
    have tapes : e = e' := shows.eq_of_contents shows' head contents
    have length : t.length = t'.length :=
      congrArg Tape.Sight.length (shows.sight_eq (tapes ▸ shows'))
    rw [tapes, head, length, names]

/-- A machine with a state whose label reads like a state inside another one. -/
def lookalike : Bench :=
  Command.runAll
    [ .newMachine .turing (.text "flat") none, .addState ⟨0⟩ "a (p)" true true ]
    ⟨Workshop.empty, Journal.empty⟩

/-- A tape whose first cell has been written on, for which one cell was laid out. -/
def noted : Tape := (Tape.ofText "" 1).write "1"

/-- One simulator is inside a submachine and one in a flat machine, on tapes that were made in different
ways: they have the same configuration, and so the same text before the same cell. -/
theorem lookalike_configuration :
    let s := Call.performAll [.step, .step] (.fresh nestedInFinal.shop ⟨0⟩ (.ofText "1") Journal.empty)
    let s' := Call.performAll [.step] (.fresh lookalike.shop ⟨0⟩ noted Journal.empty)
    s.shop.configuration s.sim (.ofText "1") = .ok "(λ, a (p), 1)" ∧
    s'.shop.configuration s'.sim noted = .ok "(λ, a (p), 1)" ∧
    ∃ name name', s.shop.stateName s.sim = .ok name ∧ s'.shop.stateName s'.sim = .ok name' ∧
      (Tape.ofText "1").head = noted.head ∧ (Tape.ofText "1").contents = noted.contents ∧
      marked name = marked name' := by
  intro s s'
  have first : s.shop.configuration s.sim (.ofText "1") = .ok "(λ, a (p), 1)" :=
    eq_ok_of_toOption (by decide +kernel)
  have second : s'.shop.configuration s'.sim noted = .ok "(λ, a (p), 1)" :=
    eq_ok_of_toOption (by decide +kernel)
  have single : ∀ i, ((Tape.ofText "1").cellAt i).length = 1 ∧
      (Tape.ofText "1").cellAt i ≠ emptyMarker :=
    Tape.forall_cellAt (P := fun cell => cell.length = 1 ∧ cell ≠ emptyMarker) (by decide)
      (by decide +kernel)
  have single' : ∀ i, (noted.cellAt i).length = 1 ∧ noted.cellAt i ≠ emptyMarker :=
    Tape.forall_cellAt (P := fun cell => cell.length = 1 ∧ cell ≠ emptyMarker) (by decide)
      (by decide +kernel)
  have written : (Tape.ofText "" 1).apply (.write "1") = .ok noted := rfl
  obtain ⟨name, name', named, named', same⟩ := configuration_determines_tape (by decide +kernel)
    (by decide +kernel) (.ofText "1" _) (.apply (.ofText "" 1) written) single single' first second
  exact ⟨first, second, name, name', named, named', same.mp rfl⟩

end Workshop

end MachineLab
