import MachineLab.Workshop.Nesting
import Mathlib.Data.Finset.Card
import Mathlib.Logic.Relation

/-!
# The nesting graph

The machines of a workshop and the links between them form a finite graph.  Two questions about it
decide everything else: which machines lie below a machine, and how deep a machine is nested.

The search below a machine follows no link twice, so it ends.  What is nested in a machine that it has
seen it has seen as well, or is still going to look at; so it finds exactly the machines at the ends of
paths, also in graphs with cycles.  In a graph without cycles no path visits more machines than there
are, so whatever descends that many levels sees all of them.

## Main definitions

* `Workshop.Nests` — a direct link.
* `Workshop.Search.Thorough` — the invariant of the search, with `Search.Ahead` as what is left to find.
* `Workshop.Acyclic` — no machine lies below itself.
* `Workshop.Within` — no path from a machine visits more than a number of machines.

## Main statements

* `Search.Thorough.turn` — what a turn of the search keeps.
* `nesting_search_decides_reachability` — the search ends and decides whether there is a path.
* `Acyclic.within` — the number of machines bounds every path.
* `acyclic_add_edge`, `exists_cycle_add_edge` — when one more link closes a cycle.
-/

namespace MachineLab

open Relation

/-! ## Adding a link to a graph -/

section AddEdge

variable {α : Type} {r r' : α → α → Prop} {a b : α}

/-- A path that may use the new link `a → b` avoids it, or comes to `a` and leaves from `b`. -/
theorem transGen_add_edge (sub : ∀ x y, r' x y → r x y ∨ (x = a ∧ y = b))
    (back : ¬ ReflTransGen r b a) {x y : α} (path : TransGen r' x y) :
    TransGen r x y ∨ (ReflTransGen r x a ∧ ReflTransGen r b y) := by
  induction path with
  | single edge =>
    rcases sub _ _ edge with old | ⟨rfl, rfl⟩
    · exact .inl (.single old)
    · exact .inr ⟨.refl, .refl⟩
  | tail _ edge ih =>
    rcases sub _ _ edge with old | ⟨rfl, rfl⟩
    · rcases ih with ih | ⟨toA, fromB⟩
      · exact .inl (ih.tail old)
      · exact .inr ⟨toA, fromB.tail old⟩
    · rcases ih with ih | ⟨_, fromB⟩
      · exact .inr ⟨ih.to_reflTransGen, .refl⟩
      · exact absurd fromB back

/-- A link closes no cycle if there was no way back along it. -/
theorem acyclic_add_edge (sub : ∀ x y, r' x y → r x y ∨ (x = a ∧ y = b))
    (acyclic : ∀ x, ¬ TransGen r x x) (back : ¬ ReflTransGen r b a) (x : α) :
    ¬ TransGen r' x x := by
  intro cycle
  rcases transGen_add_edge sub back cycle with old | ⟨toA, fromB⟩
  · exact acyclic x old
  · exact back (fromB.trans toA)

/-- A path can stop where it first meets its end, so it need not pass through it. -/
theorem transGen_avoiding_end {x : α} (path : TransGen r x a) (ne : x ≠ a) :
    TransGen (fun y z => r y z ∧ y ≠ a) x a := by
  induction path using TransGen.head_induction_on with
  | single edge => exact .single ⟨edge, ne⟩
  | @head y z edge _ ih =>
    by_cases hz : z = a
    · exact .single ⟨hz ▸ edge, ne⟩
    · exact .head ⟨edge, ne⟩ (ih hz)

/-- A link closes a cycle if there was a way back along it, even if the other links that leave its
source are taken away. -/
theorem exists_cycle_add_edge (keep : ∀ x y, r x y → x ≠ a → r' x y) (edge : r' a b)
    (back : ReflTransGen r b a) : TransGen r' a a := by
  by_cases hb : b = a
  · exact .single (hb ▸ edge)
  · rcases reflTransGen_iff_eq_or_transGen.mp back with h | path
    · exact absurd h.symm hb
    · have onward : TransGen r' b a :=
        TransGen.mono (fun x y h => keep x y h.1 h.2) _ _ (transGen_avoiding_end path hb)
      exact .head edge onward

end AddEdge

namespace Workshop

variable (w : Workshop)

/-! ## Links -/

/-- A machine holds another one in one of its states. -/
def Nests (outer inner : MachineId) : Prop := inner ∈ w.links outer

theorem nests_iff (outer inner : MachineId) :
    w.Nests outer inner ↔ ∃ s ∈ (w.machine outer).states, s.submachine = some inner := by
  simp [Nests, links, Machine.submachines]

/-- Only machines of the workshop have links. -/
theorem lt_of_nests {outer inner : MachineId} (h : w.Nests outer inner) :
    outer.index < w.machines.length := by
  by_contra absent
  rw [Nests, links_of_length_le (Nat.le_of_not_lt absent)] at h
  cases h

/-! ## The search below a machine -/

namespace Search

variable {w} {other m : MachineId} {seen rest : List MachineId} {s s' : Search}

/-- A machine is one of those pending, or lies below one of them. -/
def Ahead (w : Workshop) (other : MachineId) (pending : List MachineId) : Prop :=
  ∃ m ∈ pending, ReflTransGen w.Nests m other

@[simp] theorem not_ahead_nil : ¬ Ahead w other [] := by simp [Ahead]

@[simp] theorem ahead_cons :
    Ahead w other (m :: rest) ↔ ReflTransGen w.Nests m other ∨ Ahead w other rest := by
  simp [Ahead]

@[simp] theorem ahead_append {pending : List MachineId} :
    Ahead w other (pending ++ rest) ↔ Ahead w other pending ∨ Ahead w other rest := by
  simp [Ahead, or_and_right, exists_or]

@[simp] theorem ahead_reverse {pending : List MachineId} :
    Ahead w other pending.reverse ↔ Ahead w other pending := by
  simp [Ahead]

/-- What lies ahead of the machines nested in a machine is what lies below it. -/
theorem ahead_links : Ahead w other (w.links m) ↔ TransGen w.Nests m other := by
  rw [TransGen.head'_iff]
  rfl

/-- Nothing was missed: the machine that is looked for is not among those that were seen, and whatever
is nested in these was seen as well or is pending. -/
structure Thorough (w : Workshop) (other : MachineId) (s : Search) : Prop where
  unseen : other ∉ s.seen
  followed : ∀ m ∈ s.seen, ∀ i, w.Nests m i → i ∈ s.seen ∨ i ∈ s.pending

namespace Thorough

/-- A path out of the machines that were seen leads through a pending one. -/
theorem seen_or_ahead (thorough : s.Thorough w other) (old : m ∈ s.seen) {x : MachineId}
    (path : ReflTransGen w.Nests m x) : x ∈ s.seen ∨ Ahead w x s.pending := by
  induction path with
  | refl => exact .inl old
  | tail _ edge ih =>
    rcases ih with hx | ⟨y, pending, onward⟩
    · rcases thorough.followed _ hx _ edge with hi | hi
      · exact .inl hi
      · exact .inr ⟨_, hi, .refl⟩
    · exact .inr ⟨y, pending, onward.tail edge⟩

/-- A machine that was seen before need not be looked at again. -/
theorem drop (thorough : Thorough w other ⟨seen, m :: rest⟩) (old : m ∈ seen) :
    Thorough w other ⟨seen, rest⟩ := by
  refine ⟨thorough.unseen, ?_⟩
  intro x hx i edge
  rcases thorough.followed x hx i edge with hi | hi
  · exact .inl hi
  · rcases List.mem_cons.mp hi with rfl | hi
    · exact .inl old
    · exact .inr hi

/-- A machine has been looked at once what is nested in it is pending. -/
theorem follow (thorough : Thorough w other ⟨seen, m :: rest⟩) (another : m ≠ other) :
    Thorough w other ⟨m :: seen, (w.links m).reverse ++ rest⟩ := by
  constructor
  · simp only [List.mem_cons, not_or]
    exact ⟨Ne.symm another, thorough.unseen⟩
  · intro x hx i edge
    simp only [List.mem_cons, List.mem_append, List.mem_reverse] at hx ⊢
    rcases hx with rfl | hx
    · exact .inr (.inl edge)
    · rcases thorough.followed x hx i edge with hi | hi
      · exact .inl (.inr hi)
      · rcases List.mem_cons.mp hi with rfl | hi
        · exact .inl (.inl rfl)
        · exact .inr (.inr hi)

/-- **A turn misses nothing**, and what is looked for lies ahead after it if it did before. -/
theorem turn (thorough : s.Thorough w other) (goes : s.turn w other = .inr s') :
    s'.Thorough w other ∧ (Ahead w other s'.pending ↔ Ahead w other s.pending) := by
  obtain ⟨seen, m, rest, rfl, another, ⟨old, rfl⟩ | ⟨new, rfl⟩⟩ := turn_eq_inr goes
  · have thorough' := thorough.drop old
    refine ⟨thorough', ?_⟩
    rw [ahead_cons]
    constructor
    · exact .inr
    · rintro (path | later)
      · -- The machine is dropped, but a path from it comes by another pending machine.
        exact (thorough'.seen_or_ahead old path).resolve_left thorough.unseen
      · exact later
  · refine ⟨thorough.follow another, ?_⟩
    have path : ReflTransGen w.Nests m other ↔ TransGen w.Nests m other := by
      rw [reflTransGen_iff_eq_or_transGen]
      exact or_iff_right (Ne.symm another)
    rw [ahead_append, ahead_reverse, ahead_links, ahead_cons, path]

end Thorough

/-- An answer says whether what is looked for lies ahead. -/
theorem ahead_of_answer {found : Bool} (ends : s.turn w other = .inl found) :
    found = true ↔ Ahead w other s.pending := by
  obtain ⟨seen, pending⟩ := s
  cases pending with
  | nil =>
    cases ends
    simp
  | cons m rest =>
    simp only [turn] at ends
    split at ends
    · rename_i same
      cases ends
      simp [same, ReflTransGen.refl]
    · split at ends <;> cases ends

/-- **The answer of a search** that missed nothing says whether what is looked for lies ahead. -/
theorem Thorough.answer_iff (thorough : s.Thorough w other) :
    s.answer w other = true ↔ Ahead w other s.pending := by
  fun_induction answer w other s with
  | case1 s found ends => exact ahead_of_answer ends
  | case2 s s' goes ih =>
    obtain ⟨thorough', same⟩ := thorough.turn goes
    exact (ih thorough').trans same

theorem thorough_start (w : Workshop) (m other : MachineId) : (start w m).Thorough w other :=
  ⟨List.not_mem_nil, nofun⟩

/-- A search comes to an answer after a number of turns. -/
inductive Ends (w : Workshop) (other : MachineId) : Search → Nat → Bool → Prop
  | answer {s : Search} {found : Bool} (ends : s.turn w other = .inl found) : Ends w other s 1 found
  | turn {s s' : Search} {n : Nat} {found : Bool} (goes : s.turn w other = .inr s')
      (later : Ends w other s' n found) : Ends w other s (n + 1) found

/-- **Every search comes to its answer**, after at most one turn for each machine that is or may become
pending, and one more. -/
theorem exists_ends (w : Workshop) (other : MachineId) (s : Search) :
    ∃ n ≤ s.weight w + 1, s.Ends w other n (s.answer w other) := by
  fun_induction answer w other s with
  | case1 s found ends => exact ⟨1, Nat.le_add_left 1 _, .answer ends⟩
  | case2 s s' goes ih =>
    obtain ⟨n, few, later⟩ := ih
    have used := weight_turn goes
    exact ⟨n + 1, by omega, .turn goes later⟩

end Search

/-- The search below a machine decides whether there is a path of one or more links. -/
theorem containsMachine_iff (m other : MachineId) :
    w.containsMachine m other = true ↔ TransGen w.Nests m other := by
  rw [containsMachine, (Search.thorough_start w m other).answer_iff, Search.start,
    Search.ahead_reverse, Search.ahead_links]

/-- **The search for a machine below another ends and decides reachability**, in every nesting graph, with
machines that are shared and with cycles.  It takes at most one turn for each machine nested in the one
where it begins, one for each link that there is, and one more; its answer says whether a path of one or
more links leads from there to the machine that is looked for. -/
theorem nesting_search_decides_reachability (m other : MachineId) :
    (∃ n ≤ w.linksLeft [] w.machines.length + (w.links m).length + 1,
      (Search.start w m).Ends w other n (w.containsMachine m other)) ∧
    (w.containsMachine m other = true ↔ TransGen w.Nests m other) := by
  refine ⟨?_, w.containsMachine_iff m other⟩
  obtain ⟨n, few, ends⟩ := Search.exists_ends w other (Search.start w m)
  have weight : (Search.start w m).weight w =
      w.linksLeft [] w.machines.length + (w.links m).length := by
    simp [Search.weight, Search.start]
  exact ⟨n, weight ▸ few, ends⟩

/-- Of two machines that hold one another each lies below itself, and the search for a third one ends. -/
example :
    let holding (i : MachineId) : Machine :=
      ((Machine.empty .turing .null ⟨0⟩).addState "" true true).1.setSubmachine 0 (some i)
    let w : Workshop := ⟨[], [holding ⟨1⟩, holding ⟨0⟩]⟩
    w.containsMachine ⟨0⟩ ⟨0⟩ = true ∧ w.containsMachine ⟨0⟩ ⟨2⟩ = false := by decide +kernel

/-! ## Depth -/

/-- No machine lies below itself. -/
def Acyclic : Prop := ∀ m, ¬ TransGen w.Nests m m

/-- Every link leads to a machine of the workshop. -/
def LinksKnown : Prop := ∀ m i, w.Nests m i → i.index < w.machines.length

/-- No path of links from a machine visits more than `depth` machines, itself included. -/
def Within : Nat → MachineId → Prop
  | 0, _ => False
  | depth + 1, m => ∀ i, w.Nests m i → Within depth i

variable {w}

open Classical in
/-- The machines below a machine. -/
noncomputable def descendants (w : Workshop) (m : MachineId) : Finset Nat :=
  (Finset.range w.machines.length).filter fun i => TransGen w.Nests m ⟨i⟩

theorem mem_descendants {m : MachineId} {i : Nat} :
    i ∈ w.descendants m ↔ i < w.machines.length ∧ TransGen w.Nests m ⟨i⟩ := by
  simp [descendants]

/-- Without cycles the machines below a machine become fewer along each link. -/
theorem Acyclic.descendants_ssubset (acyclic : w.Acyclic) (known : w.LinksKnown)
    {m i : MachineId} (edge : w.Nests m i) : w.descendants i ⊂ w.descendants m := by
  refine (Finset.ssubset_iff_of_subset ?_).mpr ⟨i.index, ?_, ?_⟩
  · intro j hj
    obtain ⟨hlt, path⟩ := mem_descendants.mp hj
    exact mem_descendants.mpr ⟨hlt, .head edge path⟩
  · exact mem_descendants.mpr ⟨known m i edge, .single edge⟩
  · intro h
    exact acyclic i (mem_descendants.mp h).2

theorem Acyclic.within_descendants (acyclic : w.Acyclic) (known : w.LinksKnown) (n : Nat)
    (m : MachineId) (few : (w.descendants m).card ≤ n) : w.Within (n + 1) m := by
  induction n generalizing m with
  | zero =>
    intro i edge
    have := Finset.card_lt_card (acyclic.descendants_ssubset known edge)
    omega
  | succ n ih =>
    intro i edge
    have := Finset.card_lt_card (acyclic.descendants_ssubset known edge)
    exact ih i (by omega)

/-- **Without cycles no path visits more machines than there are.** -/
theorem Acyclic.within (acyclic : w.Acyclic) (known : w.LinksKnown) {m : MachineId}
    (hm : m.index < w.machines.length) : w.Within w.machines.length m := by
  have sub : w.descendants m ⊂ Finset.range w.machines.length := by
    refine (Finset.ssubset_iff_of_subset ?_).mpr ⟨m.index, Finset.mem_range.mpr hm, ?_⟩
    · exact fun j hj => Finset.mem_range.mpr (mem_descendants.mp hj).1
    · exact fun h => acyclic m (mem_descendants.mp h).2
  have card : (w.descendants m).card < w.machines.length := by
    simpa using Finset.card_lt_card sub
  have h := acyclic.within_descendants known (w.machines.length - 1) m (by omega)
  rwa [Nat.sub_add_cancel (by omega)] at h

end Workshop

end MachineLab
