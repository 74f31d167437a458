import MachineLab.Proofs.Documents
import MachineLab.Proofs.Invariants
import MachineLab.Proofs.Stack
import Mathlib.Data.List.Chain

/-!
# Walks over nested machines

Revision keys, documents and validation descend from a machine to those in its states, and so do the
loops with which a simulator looks for what to do, for the next transition and for its stack.  They carry
a bound on how deep they go.  Here they are taken without one: what a walk does in one machine is carried
out for as long as it takes.

No machine lies below itself at any time, so every walk ends.  It opens no machine twice along a path,
and gives what is given with the bound.  Nothing is assumed of the cursors of a simulator: they may be
left over from before the machines were edited.

## Main definitions

* `Workshop.Evaluates` — a walk that ends, without a bound.
* `Workshop.Agree` — work that does the same wherever only the memories of machines differ.

## Main statements

* `Workshop.Sane.evaluates`, `Workshop.Evaluates.agrees` — a walk ends, and with what.
* `Workshop.walks_end` — the six walks.
-/

namespace MachineLab

open Relation

/-! ## Paths -/

/-- A path in a graph without cycles visits nothing twice. -/
theorem nodup_of_isChain {α : Type} {r : α → α → Prop} (acyclic : ∀ x, ¬ TransGen r x x) {l : List α}
    (chain : l.IsChain r) : l.Nodup := by
  have paths : l.IsChain (TransGen r) := chain.imp fun _ _ edge => .single edge
  refine (List.isChain_iff_pairwise.mp paths).imp fun {x y} path same => ?_
  exact acyclic x (same ▸ path)

/-- There are no more different machines than the workshop has. -/
theorem length_le_of_nodup {l : List MachineId} {n : Nat} (nodup : l.Nodup)
    (known : ∀ m ∈ l, m.index < n) : l.length ≤ n := by
  have indices : (l.map (·.index)).Nodup := by
    refine nodup.map fun m m' same => ?_
    cases m
    cases m'
    exact congrArg _ same
  have sub : l.map (·.index) ⊆ List.range n := by
    intro i hi
    obtain ⟨m, hm, rfl⟩ := List.mem_map.mp hi
    exact List.mem_range.mpr (known m hm)
  simpa using (List.subperm_of_subset indices sub).length_le

namespace Workshop

variable {w : Workshop} {m : MachineId} {α : Type}

/-! ## Walks without a bound -/

/-- A walk that does `body` in each machine, where it can call itself on the machines in its states.  The
machines that are open already are listed, the innermost first.  No machine is opened twice, and there
are never more machines open than the workshop has. -/
inductive Evaluates (w : Workshop) (body : (MachineId → α) → MachineId → α) :
    List MachineId → MachineId → α → Prop
  | call {opened : List MachineId} {m : MachineId} {answers : MachineId → α} (fresh : m ∉ opened)
      (room : opened.length < w.machines.length)
      (below : ∀ i, w.Nests m i → Evaluates w body (m :: opened) i (answers i)) :
      Evaluates w body opened m (body answers m)

section Walk

variable {body : (MachineId → α) → MachineId → α} {result : Nat → MachineId → α}

/-- **A walk ends.**  The open machines lie above one another, so there are no two of them the same. -/
theorem Sane.evaluates (sane : w.Sane) (unfold : ∀ d m, result (d + 1) m = body (result d) m) {d : Nat}
    {opened : List MachineId} (deep : w.Within d m) (hm : m.index < w.machines.length)
    (path : (m :: opened).IsChain fun inner outer => w.Nests outer inner) :
    w.Evaluates body opened m (result d m) := by
  induction d generalizing opened m with
  | zero => exact deep.elim
  | succ d ih =>
    have upwards (x : MachineId) : ¬ TransGen (fun inner outer => w.Nests outer inner) x x :=
      fun cycle => sane.acyclic x (transGen_swap.mp cycle)
    have nodup := nodup_of_isChain upwards path
    have known := path.induction (·.index < w.machines.length) _
      (fun _ _ edge _ => w.lt_of_nests edge) fun _ => hm
    rw [unfold]
    refine .call (List.nodup_cons.mp nodup).1 (length_le_of_nodup nodup known) fun i edge => ?_
    exact ih (deep i edge) (sane.links_known m i edge) (List.isChain_cons_cons.mpr ⟨edge, path⟩)

/-- **A walk ends with what the bounded walk gives**, if what is done in a machine is the same for
answers from inside that are the same. -/
theorem Evaluates.agrees {agree : α → α → Prop}
    (congr : ∀ m answers answers', m.index < w.machines.length →
      (∀ i, w.Nests m i → agree (answers i) (answers' i)) → agree (body answers m) (body answers' m))
    (unfold : ∀ d m, result (d + 1) m = body (result d) m) (sane : w.Sane) {opened : List MachineId}
    {r : α} (h : w.Evaluates body opened m r) {d : Nat} (deep : w.Within d m)
    (hm : m.index < w.machines.length) : agree r (result d m) := by
  induction h generalizing d with
  | @call opened m answers _ _ _ ih =>
    cases d with
    | zero => exact deep.elim
    | succ d =>
      rw [unfold]
      exact congr m _ _ hm fun i edge => ih i edge (deep i edge) (sane.links_known m i edge)

/-- A walk without effects ends with one answer. -/
theorem Sane.evaluates_iff (sane : w.Sane) (unfold : ∀ d m, result (d + 1) m = body (result d) m)
    (congr : ∀ m answers answers',
      (∀ i, w.Nests m i → answers i = answers' i) → body answers m = body answers' m)
    (hm : m.index < w.machines.length) {r : α} :
    w.Evaluates body [] m r ↔ r = result w.machines.length m := by
  constructor
  · exact fun h => h.agrees (fun m x y _ => congr m x y) unfold sane (sane.within hm) hm
  · rintro rfl
    exact sane.evaluates unfold (sane.within hm) hm (.singleton m)

end Walk

/-! ## What the walks do in one machine -/

section Bodies

variable {sim : Simulator} {t : Tape}

/-- Wherever its cursor came from, a running machine is in one of its states. -/
theorem mem_of_current? {q : State} (h : w.current? sim m = .ok (some q)) :
    q ∈ (w.machine m).states := by
  unfold current? at h
  split at h
  · cases h
  · rename_i id _
    cases hq : w.stateAt m id with
    | error e =>
      rw [hq] at h
      cases h
    | ok q' =>
      rw [hq] at h
      cases h
      exact mem_of_state hq

/-- What comes after a look at a running machine need only be known for its states. -/
theorem bind_current?_congr {f g : Option State → Except Fault α} (idle : f none = g none)
    (running : ∀ q ∈ (w.machine m).states, f (some q) = g (some q)) :
    (w.current? sim m >>= f) = (w.current? sim m >>= g) := by
  cases hcurrent : w.current? sim m with
  | error e => rfl
  | ok found =>
    cases found with
    | none => exact idle
    | some q => exact running q (mem_of_current? hcurrent)

theorem keyBody_congr (m : MachineId) (x y : MachineId → RevisionKey)
    (same : ∀ i, w.Nests m i → x i = y i) : w.keyBody x m = w.keyBody y m := by
  rw [keyBody, keyBody, List.map_congr_left same]

theorem documentBody_congr (m : MachineId) (x y : MachineId → Value)
    (same : ∀ i, w.Nests m i → x i = y i) : w.documentBody x m = w.documentBody y m := by
  rw [documentBody, documentBody, map_entry_congr same]

theorem focusBody_congr (m : MachineId) (x y : MachineId → Except Fault (Option Focus))
    (same : ∀ i, w.Nests m i → x i = y i) : w.focusBody sim x m = w.focusBody sim y m := by
  refine bind_current?_congr rfl fun q hq => ?_
  cases held : q.submachine with
  | none => simp only [held]
  | some i => simp only [held, same i ((w.nests_iff m i).mpr ⟨q, hq, held⟩)]

theorem previewBody_congr (m : MachineId) (x y : MachineId → Except Fault (Option Transition))
    (same : ∀ i, w.Nests m i → x i = y i) : w.previewBody sim t x m = w.previewBody sim t y m := by
  refine bind_current?_congr rfl fun q hq => ?_
  cases held : q.submachine with
  | none => simp only [held]
  | some i => simp only [held, same i ((w.nests_iff m i).mpr ⟨q, hq, held⟩)]

theorem stackBody_congr (m : MachineId) (x y : MachineId → Except Fault (List MachineId))
    (same : ∀ i, w.Nests m i → x i = y i) : w.stackBody sim x m = w.stackBody sim y m := by
  refine bind_current?_congr rfl fun q hq => ?_
  cases running : q.submachine.filter fun i => (sim.cursor? i).isSome with
  | none => simp only [running]
  | some i =>
    have held := (Option.filter_eq_some_iff.mp running).1
    simp only [running, same i ((w.nests_iff m i).mpr ⟨q, hq, held⟩)]

end Bodies

/-! ## Work that agrees -/

/-- Two pieces of work do the same in every workshop that differs from a given one in nothing but what
machines remember, and leave no other difference behind. -/
def Agree (w : Workshop) (x y : Work α) : Prop :=
  ∀ b, w.Alike b.shop → x b = y b ∧ w.Alike (after x b).shop

namespace Agree

variable {β : Type} {x y : Work α}

/-- Work that remembers at most something agrees with itself. -/
theorem of_preserves (h : Preserves (fun b => w.Alike b.shop) x) : w.Agree x x :=
  fun b hb => ⟨rfl, h b hb⟩

theorem bind {f g : α → Work β} (h : w.Agree x y) (hf : ∀ a, w.Agree (f a) (g a)) :
    w.Agree (x >>= f) (y >>= g) := by
  intro b hb
  obtain ⟨same, alike⟩ := h b hb
  cases hx : x b with
  | ok a b' =>
    rw [after_of_ok hx] at alike
    unfold after
    rw [bind_of_ok hx, bind_of_ok (same.symm.trans hx)]
    exact hf a b' alike
  | error e b' =>
    rw [after_of_error hx] at alike
    unfold after
    rw [bind_of_error hx, bind_of_error (same.symm.trans hx)]
    exact ⟨rfl, alike⟩

theorem read {f g : Bench → Work β} (h : ∀ b, w.Alike b.shop → w.Agree (f b) (g b)) :
    w.Agree (get >>= f) (get >>= g) :=
  fun b hb => h b hb b hb

end Agree

end Workshop

/-! ## Validation in one machine -/

namespace Work

open Workshop (Agree)

variable {w : Workshop} {m : MachineId} {α : Type} {x y : MachineId → Work Unit}

theorem agree_ofExcept (result : Except Fault α) : w.Agree (ofExcept result) (ofExcept result) := by
  cases result with
  | ok a => exact .of_preserves (.pure a)
  | error e => exact .of_preserves (.throw e)

theorem agree_record (level : LogLevel) (channel : Channel) (message : String) :
    w.Agree (record level channel message) (record level channel message) :=
  .of_preserves (.modify fun _ hb => hb)

theorem agree_remember (hm : m.index < w.machines.length) (key : RevisionKey) :
    w.Agree (remember m key) (remember m key) := by
  refine .of_preserves fun b hb => hb.trans ?_
  exact Workshop.Alike.remembering b.shop (hb.length.symm ▸ hm) (some key)

theorem agree_nestedDefect {s : State} (same : ∀ i, s.submachine = some i → w.Agree (x i) (y i)) :
    w.Agree (nestedDefect x s) (nestedDefect y s) := by
  unfold nestedDefect
  cases held : s.submachine with
  | none => exact .of_preserves (.pure _)
  | some i =>
    intro b hb
    obtain ⟨eq, alike⟩ := same i held b hb
    refine ⟨by simp only [eq], ?_⟩
    unfold after at alike ⊢
    dsimp only
    cases hx : x i b with
    | ok u b' =>
      rw [hx] at alike
      exact alike
    | error e b' =>
      rw [hx] at alike
      cases e with
      | machine f => cases f <;> exact alike
      | _ => exact alike

theorem agree_turingDefect (machine : Machine) (a : Alphabet) (starts finals : Nat) {states : List State}
    (same : ∀ s ∈ states, ∀ i, s.submachine = some i → w.Agree (x i) (y i)) :
    w.Agree (turingDefect x machine a starts finals states)
      (turingDefect y machine a starts finals states) := by
  induction states generalizing starts finals with
  | nil => exact .of_preserves (.pure _)
  | cons s rest ih =>
    rw [List.forall_mem_cons] at same
    refine (agree_nestedDefect same.1).bind fun found => ?_
    cases found with
    | some d => exact .of_preserves (.pure _)
    | none =>
      refine (agree_ofExcept _).bind fun found => ?_
      cases found with
      | some d => exact .of_preserves (.pure _)
      | none => exact ih _ _ same.2

theorem agree_findDefect (same : ∀ i, w.Nests m i → w.Agree (x i) (y i)) :
    w.Agree (findDefect x m) (findDefect y m) := by
  refine .read fun b hb => ?_
  dsimp only
  cases (b.shop.machine m).kind with
  | acceptor => exact agree_ofExcept _
  | turing =>
    refine agree_turingDefect _ _ _ _ fun s hs i held => same i ?_
    rw [hb.states m] at hs
    exact (w.nests_iff m i).mpr ⟨s, hs, held⟩

/-- What validation does in a machine depends on its answers from inside, in every workshop that differs
in nothing but what machines remember. -/
theorem agree_validateBody (hm : m.index < w.machines.length)
    (same : ∀ i, w.Nests m i → w.Agree (x i) (y i)) :
    w.Agree (validateBody x m) (validateBody y m) := by
  refine .read fun b _ => ?_
  dsimp only
  split
  · exact .of_preserves (.pure ())
  · refine (agree_findDefect same).bind fun found => ?_
    cases found with
    | some d => exact (agree_record _ _ _).bind fun _ => .of_preserves (.throw _)
    | none => exact (agree_remember hm _).bind fun _ => agree_record _ _ _

end Work

namespace Workshop

variable {w : Workshop} {sim : Simulator}

/-! ## Every walk ends -/

/-- A stack goes down along links. -/
theorem isChain_of_stackFrom {d : Nat} {m : MachineId} {ms : List MachineId}
    (h : w.stackFrom sim d m = .ok ms) : ms.head? = some m ∧ ms.IsChain w.Nests := by
  induction d generalizing m ms with
  | zero =>
    cases h
    exact ⟨rfl, .singleton m⟩
  | succ d ih =>
    obtain ⟨found, hcurrent, hrest⟩ := except_bind_eq_ok_iff.mp h
    cases found with
    | none =>
      cases hrest
      exact ⟨rfl, .singleton m⟩
    | some q =>
      dsimp only at hrest
      split at hrest
      · cases hrest
        exact ⟨rfl, .singleton m⟩
      · rename_i i running
        obtain ⟨inner, hinner, done⟩ := except_bind_eq_ok_iff.mp hrest
        cases done
        obtain ⟨head, chain⟩ := ih hinner
        have held := (Option.filter_eq_some_iff.mp running).1
        have edge : w.Nests m i := (w.nests_iff m i).mpr ⟨q, mem_of_current? hcurrent, held⟩
        refine ⟨rfl, List.isChain_cons.mpr ⟨fun x hx => ?_, chain⟩⟩
        rw [head, Option.mem_some_iff] at hx
        exact hx ▸ edge

/-- **Every walk over nested machines ends.**  Take any workshop with a history, and any simulator of a
Turing machine, whatever its cursors are.  Without a bound, the loops of the simulator and the recursions
for revision keys, documents and validation come to an end, with a result or a fault, and it is the one
that they have with the bound.  No machine is opened twice along a path, and never are more machines open
than there are.  The stack goes down along links, and holds no machine twice. -/
theorem walks_end (h : w.Reachable) (sim : Simulator)
    (hm : sim.machine.index < w.machines.length)
    (turing : (w.machine sim.machine).kind = .turing) (t : Tape) (j : Journal) :
    let m := sim.machine
    (∀ r, w.Evaluates (w.focusBody sim) [] m r ↔ r = w.focus sim) ∧
    (∀ r, w.Evaluates (w.previewBody sim t) [] m r ↔ r = w.nextTransition sim t) ∧
    (∀ r, w.Evaluates (w.stackBody sim) [] m r ↔ r = w.stack sim) ∧
    (∀ r, w.Evaluates w.keyBody [] m r ↔ r = w.keyOf m) ∧
    (∀ r, w.Evaluates w.documentBody [] m r ↔ r = w.document m) ∧
    (∃ r, w.Evaluates Work.validateBody [] m r) ∧
    (∀ r, w.Evaluates Work.validateBody [] m r → r ⟨w, j⟩ = Work.validate m ⟨w, j⟩) ∧
    ∀ ms, w.stack sim = .ok ms →
      ms.head? = some m ∧ ms.IsChain w.Nests ∧ ms.Nodup ∧ ms.length ≤ w.machines.length := by
  intro m
  have sane := h.good.sane
  have stack : w.stack sim = w.stackFrom sim w.machines.length m := by
    unfold Workshop.stack
    rw [turing]
  refine ⟨fun r => sane.evaluates_iff (fun _ _ => rfl) focusBody_congr hm,
    fun r => sane.evaluates_iff (fun _ _ => rfl) previewBody_congr hm,
    fun r => stack ▸ sane.evaluates_iff (fun _ _ => rfl) stackBody_congr hm,
    fun r => sane.evaluates_iff (fun _ _ => rfl) keyBody_congr hm,
    fun r => sane.evaluates_iff (fun _ _ => rfl) documentBody_congr hm,
    ⟨Work.validateTo _ m, sane.evaluates (fun _ _ => rfl) (sane.within hm) hm (.singleton m)⟩,
    fun r evaluated => ?_, fun ms hms => ?_⟩
  · have agree : w.Agree r (Work.validateTo w.machines.length m) :=
      evaluated.agrees (fun n x y hn => Work.agree_validateBody hn) (fun _ _ => rfl) sane
        (sane.within hm) hm
    exact (agree ⟨w, j⟩ (.refl w)).1
  · obtain ⟨head, chain⟩ := isChain_of_stackFrom (stack ▸ hms)
    obtain ⟨rest, rfl⟩ := List.head?_eq_some_iff.mp head
    have nodup := nodup_of_isChain sane.acyclic chain
    have known := chain.induction (·.index < w.machines.length) _
      (fun x y edge _ => sane.links_known x y edge) fun _ => hm
    exact ⟨head, chain, nodup, length_le_of_nodup nodup known⟩

/-- A simulator with all three machines running. -/
def deepest : Simulator := { Simulator.new ⟨0⟩ with cursors := [(⟨0⟩, 0), (⟨1⟩, 0), (⟨2⟩, 0)] }

/-- A simulator whose innermost cursor is at a state that is not there. -/
def strayed : Simulator := { Simulator.new ⟨0⟩ with cursors := [(⟨0⟩, 0), (⟨1⟩, 0), (⟨2⟩, 7)] }

/-- The stack of three machines is as long as it can be.  With a cursor astray, the loop ends with a
fault. -/
theorem walks_end_in_threeLevels :
    threeLevels.shop.Reachable ∧ threeLevels.shop.machines.length = 3 ∧
    threeLevels.shop.Evaluates (threeLevels.shop.stackBody deepest) [] ⟨0⟩ (.ok [⟨0⟩, ⟨1⟩, ⟨2⟩]) ∧
    ∃ e, threeLevels.shop.Evaluates (threeLevels.shop.focusBody strayed) [] ⟨0⟩ (.error e) := by
  have all := walks_end threeLevels_reachable deepest (by decide +kernel) (by decide +kernel) default
    threeLevels.journal
  have astray := walks_end threeLevels_reachable strayed (by decide +kernel) (by decide +kernel) default
    threeLevels.journal
  have fails : (threeLevels.shop.focus strayed).toOption = none := by decide +kernel
  refine ⟨threeLevels_reachable, by decide +kernel, (all.2.2.1 _).mpr ?_, ?_⟩
  · exact (eq_ok_of_toOption (by decide +kernel)).symm
  · cases focus : threeLevels.shop.focus strayed with
    | ok found =>
      rw [focus] at fails
      cases fails
    | error e => exact ⟨e, (astray.1 _).mpr focus.symm⟩

end Workshop

end MachineLab
