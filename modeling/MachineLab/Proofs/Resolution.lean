import MachineLab.Proofs.WellFormed
import Mathlib.Data.List.Perm.Basic

/-!
# Which transition a state takes

A machine looks for the transition to take by going through a list, in the order in which transitions
were added, and stops at the first that matches.  In a machine that validation accepts, the order plays no
part: no two transitions of a state match the same symbol, so the search is a function of what the
transitions are.  `Machine.Resolves` says which one it is without any search.

## Main definitions

* `Machine.Resolves` — the transition for a symbol, as a relation.
* `Transition.edge` — a transition without its identifier.

## Main statements

* `Machine.Form.choice?_eq_iff` — in a machine that fits its description, the search finds what the
  relation says.
* `Workshop.resolution_is_deterministic` — at most one transition matches, and the order does not matter.
-/

namespace MachineLab

/-- What a transition does and where it leads, whatever its identifier is. -/
def Transition.edge (t : Transition) : Action × Nat := (t.action, t.target)

theorem Transition.input_eq_of_edge_eq {t t' : Transition} (h : t.edge = t'.edge) :
    t.input = t'.input := by
  have action : t.action = t'.action := congrArg Prod.fst h
  rw [input, input, action]

namespace Machine

variable {m : Machine} {a : Alphabet} {q : State} {c : Symbol} {kind : Kind}
  {ts ts' : List Transition} {r r' : Option Transition}

/-! ## Resolution as a relation -/

/-- The transition for a symbol among those that leave a state of a machine of some kind: the one with
this input; failing that, in a Turing machine, the one for whatever is left over; failing that, none. -/
inductive Resolves (kind : Kind) (leaving : List Transition) (c : Symbol) : Option Transition → Prop
  | matching {t : Transition} (leaves : t ∈ leaving) (input : t.input = c) :
      Resolves kind leaving c (some t)
  | leftOver {t : Transition} (turing : kind = .turing) (others : ∀ t' ∈ leaving, t'.input ≠ c)
      (leaves : t ∈ leaving) (input : t.input = Symbol.otherwise) : Resolves kind leaving c (some t)
  | absent (others : ∀ t ∈ leaving, t.input ≠ c)
      (nothing : kind = .turing → ∀ t ∈ leaving, t.input ≠ Symbol.otherwise) :
      Resolves kind leaving c none

/-- The search finds a transition that the relation admits, if all inputs are texts. -/
theorem resolves_pick (text : ∀ t ∈ ts, ∃ s, t.input = .text s) :
    Resolves kind ts c (pick kind ts c) := by
  have meets {t : Transition} (ht : t ∈ ts) (v : Symbol) : t.input.eqv v = true ↔ t.input = v := by
    obtain ⟨s, hs⟩ := text t ht
    rw [hs]
    exact Value.text_eqv_iff
  have found {v : Symbol} {t : Transition} (h : ts.find? (·.input.eqv v) = some t) :
      t ∈ ts ∧ t.input = v := by
    have ht := List.mem_of_find?_eq_some h
    exact ⟨ht, (meets ht v).mp (by simpa using List.find?_some h)⟩
  have missed {v : Symbol} (h : ts.find? (·.input.eqv v) = none) : ∀ t ∈ ts, t.input ≠ v := by
    intro t ht same
    exact List.find?_eq_none.mp h t ht ((meets ht v).mpr same)
  simp only [pick]
  cases hfind : ts.find? (·.input.eqv c) with
  | some t =>
    obtain ⟨leaves, input⟩ := found hfind
    exact .matching leaves input
  | none =>
    have others := missed hfind
    cases kind with
    | acceptor => exact .absent others nofun
    | turing =>
      cases hrest : ts.find? (·.input.eqv Symbol.otherwise) with
      | some t =>
        obtain ⟨leaves, input⟩ := found hrest
        exact .leftOver rfl others leaves input
      | none => exact .absent others fun _ => missed hrest

/-- Where inputs are not repeated, the relation admits only one answer. -/
theorem Resolves.unique (distinct : ∀ t ∈ ts, ∀ t' ∈ ts, t.input = t'.input → t = t')
    (h : Resolves kind ts c r) (h' : Resolves kind ts c r') : r = r' := by
  cases h with
  | @matching t leaves input =>
    cases h' with
    | matching leaves' input' => rw [distinct _ leaves _ leaves' (input.trans input'.symm)]
    | leftOver _ others _ _ => exact absurd input (others _ leaves)
    | absent others _ => exact absurd input (others _ leaves)
  | @leftOver t turing others leaves input =>
    cases h' with
    | matching leaves' input' => exact absurd input' (others _ leaves')
    | leftOver _ _ leaves' input' => rw [distinct _ leaves _ leaves' (input.trans input'.symm)]
    | absent _ nothing => exact absurd input (nothing turing _ leaves)
  | absent others nothing =>
    cases h' with
    | matching leaves' input' => exact absurd input' (others _ leaves')
    | leftOver turing _ leaves' input' => exact absurd input' (nothing turing _ leaves')
    | absent _ _ => rfl

/-- The relation looks at nothing but the transitions that there are, whatever their order.  Here `f` is
as much of a transition as two lists have in common. -/
theorem Resolves.carry {β : Type} {f : Transition → β}
    (tells : ∀ t t', f t = f t' → t.input = t'.input) (same : (ts'.map f).Perm (ts.map f))
    (h : Resolves kind ts' c r') : ∃ r, Resolves kind ts c r ∧ r.map f = r'.map f := by
  have carried {t : Transition} (ht : t ∈ ts') : ∃ u ∈ ts, f u = f t :=
    List.mem_map.mp (same.mem_iff.mp (List.mem_map_of_mem ht))
  have missing {v : Symbol} (none : ∀ t ∈ ts', t.input ≠ v) : ∀ u ∈ ts, u.input ≠ v := by
    intro u hu input
    obtain ⟨t, ht, eq⟩ := List.mem_map.mp (same.mem_iff.mpr (List.mem_map_of_mem (f := f) hu))
    exact none t ht ((tells t u eq).trans input)
  cases h with
  | matching leaves input =>
    obtain ⟨u, hu, eq⟩ := carried leaves
    exact ⟨some u, .matching hu ((tells _ _ eq).trans input), congrArg some eq⟩
  | leftOver turing others leaves input =>
    obtain ⟨u, hu, eq⟩ := carried leaves
    exact ⟨some u, .leftOver turing (missing others) hu ((tells _ _ eq).trans input), congrArg some eq⟩
  | absent others nothing =>
    exact ⟨none, .absent (missing others) fun turing => missing (nothing turing), rfl⟩

/-! ## Machines that fit their description -/

theorem Form.inputs_distinct (form : m.Form a) : m.InputsDistinct := by
  unfold Form at form
  split at form
  · exact form.inputs_distinct
  · exact form.inputs_distinct

theorem Form.exists_text (form : m.Form a) {t : Transition} (ht : t ∈ m.transitions) :
    ∃ s, t.input = .text s := by
  unfold Form at form
  split at form
  · exact (form.symbols_suit t ht).exists_text
  · exact (form.symbols_suit t ht).exists_text

theorem Form.eq_of_input_eq (form : m.Form a) {t t' : Transition} (ht : t ∈ m.exits q)
    (ht' : t' ∈ m.exits q) (input : t.input = t'.input) : t = t' := by
  obtain ⟨mem, source⟩ := mem_exits.mp ht
  obtain ⟨mem', source'⟩ := mem_exits.mp ht'
  exact form.inputs_distinct t mem t' mem' (source.trans source'.symm) input

/-- **The search finds what the relation says**, and nothing else. -/
theorem Form.choice?_eq_iff (form : m.Form a) :
    m.choice? q c = r ↔ Resolves m.kind (m.exits q) c r := by
  have finds : Resolves m.kind (m.exits q) c (m.choice? q c) :=
    resolves_pick fun t ht => form.exists_text (m.exits_subset q ht)
  constructor
  · rintro rfl
    exact finds
  · exact finds.unique fun t ht t' ht' => form.eq_of_input_eq ht ht'

/-- **The order of the transitions does not matter**, nor does anything else but what they have in
common. -/
theorem Form.pick_congr {β : Type} {f : Transition → β} (form : m.Form a)
    (tells : ∀ t t', f t = f t' → t.input = t'.input) (same : (ts.map f).Perm ((m.exits q).map f)) :
    (pick m.kind ts c).map f = (m.choice? q c).map f := by
  have text : ∀ t ∈ ts, ∃ s, t.input = .text s := by
    intro t ht
    obtain ⟨u, hu, eq⟩ := List.mem_map.mp (same.mem_iff.mp (List.mem_map_of_mem ht))
    rw [← tells u t eq]
    exact form.exists_text (m.exits_subset q hu)
  obtain ⟨r, resolves, eq⟩ := (resolves_pick text).carry (c := c) tells same
  rw [form.choice?_eq_iff.mpr resolves, eq]

/-- The transitions of a state are listed in another order. -/
def reorder (m : Machine) (q : State) (l : List Nat) : Machine :=
  m.updateState q.id fun s => { s with outgoing := l }

/-- Listed in another order, the same transitions are found. -/
theorem Arena.exists_leaving_reorder (arena : m.Arena) (hq : q ∈ m.states) {l : List Nat}
    (perm : l.Perm q.outgoing) :
    ∃ ts, (m.reorder q l).leaving { q with outgoing := l } = .ok ts ∧ ts.Perm (m.exits q) := by
  rw [arena.outgoing_eq q hq] at perm
  have ids : List.Forall₂ (fun id t => id = t.id) ((m.exits q).map (·.id)) (m.exits q) := by
    rw [List.forall₂_map_left_iff]
    exact List.forall₂_same.mpr fun _ _ => rfl
  obtain ⟨ts, same, order⟩ := List.perm_comp_forall₂ perm ids
  have listed : l = ts.map (·.id) := by
    rwa [← List.forall₂_map_right_iff, List.forall₂_eq_eq_eq] at same
  have live : ts ⊆ m.transitions := fun t ht => m.exits_subset q (order.subset ht)
  exact ⟨ts, listed ▸ arena.mapM_listed live, order⟩

end Machine

/-! ## Valid machines -/

namespace Workshop

variable {w : Workshop} {m : MachineId}

/-- **Resolution in a valid machine is deterministic.**  All transitions that a state lists are found.  At
most one of them has a given input, and at most one is for whatever is left over.  The first of these is
taken if there is one; if not, a Turing machine takes the second; otherwise none is taken.  The answer
stays the same if the transitions of the state are listed in another order, and so it does in every
machine of the same kind with a state that has the same transitions up to their order and their
identifiers. -/
theorem resolution_is_deterministic (h : w.Reachable) (known : m.index < w.machines.length) {j : Journal}
    (valid : outcome (Work.validate m) ⟨w, j⟩ = .ok ()) {q : State} (hq : q ∈ (w.machine m).states)
    (c : Symbol) :
    let machine := w.machine m
    ∃ leaving, machine.leaving q = .ok leaving ∧
      (∀ t ∈ leaving, ∀ t' ∈ leaving, t.input = c → t'.input = c → t = t') ∧
      (∀ t ∈ leaving, ∀ t' ∈ leaving,
        t.input = Symbol.otherwise → t'.input = Symbol.otherwise → t = t') ∧
      (∀ r, machine.resolve? q c = .ok r ↔ Machine.Resolves machine.kind leaving c r) ∧
      (∀ l, l.Perm q.outgoing →
        (machine.reorder q l).resolve? { q with outgoing := l } c = machine.resolve? q c) ∧
      ∀ (other : Machine) (q' : State) (leaving' : List Transition), other.kind = machine.kind →
        other.leaving q' = .ok leaving' →
        (leaving'.map Transition.edge).Perm (leaving.map Transition.edge) →
        (other.resolve? q' c).map (Option.map Transition.edge) =
          (machine.resolve? q c).map (Option.map Transition.edge) := by
  intro machine
  have arena : machine.Arena := h.good.sane.arena m
  have clean := h.good.clean_of_valid known valid
  have form : machine.Form (w.alphabetOf m) := (clean m .refl).form arena
  have atMostOne (v : Symbol) (t : Transition) (ht : t ∈ machine.exits q) (t' : Transition)
      (ht' : t' ∈ machine.exits q) (input : t.input = v) (input' : t'.input = v) : t = t' :=
    form.eq_of_input_eq ht ht' (input.trans input'.symm)
  have leaving := arena.leaving_eq hq
  refine ⟨machine.exits q, leaving, atMostOne c, atMostOne Symbol.otherwise, fun r => ?_, ?_, ?_⟩
  · rw [arena.resolve?_eq hq, Except.ok.injEq]
    exact form.choice?_eq_iff
  · intro l perm
    obtain ⟨ts, reordered, order⟩ := arena.exists_leaving_reorder hq perm
    have same := form.pick_congr (c := c) (f := id) (fun _ _ => congrArg Transition.input)
      (order.map id)
    rw [Option.map_id_fun, id, id] at same
    rw [arena.resolve?_eq hq, ← same, Machine.resolve?, reordered]
    rfl
  · intro other q' leaving' kind listed perm
    have same := form.pick_congr (c := c) (fun _ _ => Transition.input_eq_of_edge_eq) perm
    rw [arena.resolve?_eq hq, Machine.resolve?, listed, kind]
    exact congrArg Except.ok same

/-- A machine with two transitions from its start state, of which the one for whatever is left over was
added first. -/
def fork : Bench :=
  Command.runAll
    [ .parseAlphabet "01_",
      .newMachine .turing (.text "fork") (some ⟨0⟩),
      .addState ⟨0⟩ "a" true false, .addState ⟨0⟩ "b" false true,
      .addTransition ⟨0⟩ (.state ⟨0⟩ 0) (.state ⟨0⟩ 1) (.move .right Symbol.otherwise),
      .addTransition ⟨0⟩ (.state ⟨0⟩ 0) (.state ⟨0⟩ 0) (.move .right (.text "0")) ]
    ⟨Workshop.empty, Journal.empty⟩

/-- The later transition is taken on its own symbol and the earlier one on another, in whichever order
the two are listed. -/
theorem fork_takes_either_way :
    let machine := fork.shop.machine ⟨0⟩
    let q : State := ⟨0, "a", true, false, [0, 1], none⟩
    fork.shop.Reachable ∧ outcome (Work.validate ⟨0⟩) ⟨fork.shop, Journal.empty⟩ = .ok () ∧
    q ∈ machine.states ∧
    (machine.resolve? q (.text "0")).map (Option.map (·.id)) = .ok (some 1) ∧
    (machine.reorder q [1, 0]).resolve? { q with outgoing := [1, 0] } (.text "0") =
      machine.resolve? q (.text "0") ∧
    (machine.resolve? q (.text "1")).map (Option.map (·.id)) = .ok (some 0) ∧
    (machine.reorder q [1, 0]).resolve? { q with outgoing := [1, 0] } (.text "1") =
      machine.resolve? q (.text "1") := by
  intro machine q
  have reachable : fork.shop.Reachable := Workshop.Reachable.runAll .empty (by decide +kernel)
  have known : 0 < fork.shop.machines.length := by decide +kernel
  have valid : outcome (Work.validate ⟨0⟩) ⟨fork.shop, Journal.empty⟩ = .ok () :=
    eq_ok_of_toOption (by decide +kernel)
  have hq : q ∈ machine.states := by decide +kernel
  have perm : List.Perm [1, 0] q.outgoing := .swap 0 1 []
  have resolution (c : Symbol) : (machine.reorder q [1, 0]).resolve? { q with outgoing := [1, 0] } c =
      machine.resolve? q c := by
    obtain ⟨_, -, -, -, -, reordered, -⟩ :=
      resolution_is_deterministic reachable (m := ⟨0⟩) known valid hq c
    exact reordered [1, 0] perm
  exact ⟨reachable, valid, hq, eq_ok_of_toOption (by decide +kernel), resolution _,
    eq_ok_of_toOption (by decide +kernel), resolution _⟩

end Workshop

end MachineLab
