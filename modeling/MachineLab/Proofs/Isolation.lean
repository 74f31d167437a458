import MachineLab.Proofs.Twins
import Mathlib.Logic.Function.Basic

/-!
# Simulators in one workshop

Several simulators, each with a tape of its own, can run the machines of one workshop: the same
machine, machines that hold one another, or machines over one alphabet.  All that one of them changes
in the workshop is what machines remember of their validation, and all that it leaves in the journal is
added at the end.  So what comes back from a simulator does not depend on what the others are asked for
meanwhile.

## Main definitions

* `Floor` — a workshop with several simulators.
* `Request`, `Response` — what a simulator is asked for, and what can be seen of it then.
* `Floor.responses` — what comes back from requests to several simulators in turn.

## Main statements

* `Floor.responses_filter` — the responses of one simulator among others are those that it gives alone.
* `Workshop.simulators_do_not_interfere` — this, and what becomes of the workshop.
-/

namespace MachineLab

/-! ## Requests -/

/-- What a simulator is asked for. -/
inductive Request where
  | step
  | run (limit : Int) (patience : Nat)
  | reset
  /-- The transition that comes next. -/
  | preview

/-- What some work for a request gives. -/
inductive Reply where
  | done
  | verdict (accepted : Option Bool)
  | transition (next : Option Transition)

/-- The work for a request. -/
def Request.perform : Request → SimM Reply
  | step => do
    SimM.step
    return .done
  | run limit patience => return .verdict (← SimM.run limit patience)
  | reset => do
    SimM.reset
    return .done
  | preview => return .transition (← SimM.observeTape Workshop.nextTransition)

theorem Request.respects_perform {w : Workshop} {x x' : List Event} (r : Request) :
    SimM.Respectful w x x' r.perform := by
  cases r with
  | step => exact .bind SimM.respects_step fun _ => .pure _
  | run limit patience => exact .bind (SimM.respects_run limit patience) fun _ => .pure _
  | reset => exact .bind SimM.respects_reset fun _ => .pure _
  | preview => exact .bind (SimM.respects_observeTape Workshop.Alike.nextTransition) fun _ => .pure _

/-- A simulator and its tape. -/
structure Seat where
  tape : Tape
  sim : Simulator

/-- What can be seen of a simulator at the end of a request: what it gave, the events that listeners
heard meanwhile, the configuration, the tape and the simulator itself. -/
structure Response where
  reply : Except Fault Reply
  events : List Event
  configuration : Except Fault String
  seat : Seat

/-! ## Several simulators -/

/-- A workshop with a journal and simulators. -/
structure Floor (ι : Type) where
  shop : Workshop
  journal : Journal
  seats : ι → Seat

namespace Floor

variable {ι : Type}

/-- What a simulator works on. -/
def stage (f : Floor ι) (i : ι) : Stage := ⟨f.shop, (f.seats i).tape, (f.seats i).sim, f.journal⟩

/-- What can be seen of a simulator at the end of a request. -/
def respond (f : Floor ι) (i : ι) (r : Request) : Response :=
  let s := after r.perform (f.stage i)
  { reply := outcome r.perform (f.stage i)
    events := s.journal.events.toList.drop f.journal.events.toList.length
    configuration := s.shop.configuration s.sim s.tape
    seat := ⟨s.tape, s.sim⟩ }

/-- The workshop is sound and is `w` but for what machines remember, and the simulators are of machines
in it. -/
structure Sound (f : Floor ι) (w : Workshop) : Prop where
  alike : w.Alike f.shop
  good : f.shop.Good
  known : ∀ i, (f.seats i).sim.machine.index < w.machines.length

section Alone

variable {w : Workshop} {f f' : Floor ι} (h : f.Sound w) (h' : f'.Sound w) {i : ι}
  (same : f'.seats i = f.seats i)

include h h' same

/-- A simulator that is in the same position on two floors works on twins. -/
theorem Sound.twin :
    Stage.Twin w f.journal.events.toList f'.journal.events.toList (f.stage i) (f'.stage i) :=
  ⟨h.alike, h'.alike, h.good, h'.good, h.known i, by rw [stage, stage, same],
    by rw [stage, stage, same], [], (List.append_nil _).symm, (List.append_nil _).symm⟩

/-- What comes back from a simulator depends on nothing but itself and its tape. -/
theorem Sound.respond_eq (r : Request) : f'.respond i r = f.respond i r := by
  have twin := h.twin h' same
  have left := r.respects_perform.after_related twin
  obtain ⟨new, events, events'⟩ := left.events
  unfold respond
  simp only [r.respects_perform.outcome_eq twin, left.tape, left.sim, left.shops.configuration,
    events, events', List.drop_left]

end Alone

/-! ## Requests to several simulators -/

variable [DecidableEq ι]

/-- Let a simulator work on a request. -/
def serve (f : Floor ι) (i : ι) (r : Request) : Floor ι :=
  let s := after r.perform (f.stage i)
  { shop := s.shop
    journal := s.journal
    seats := Function.update f.seats i ⟨s.tape, s.sim⟩ }

/-- Let simulators work on requests one after the other, whether they fail or not. -/
def serveAll (f : Floor ι) : List (ι × Request) → Floor ι
  | [] => f
  | (i, r) :: rest => (f.serve i r).serveAll rest

/-- What comes back from requests, each with the simulator that it was for. -/
def responses (f : Floor ι) : List (ι × Request) → List (ι × Response)
  | [] => []
  | (i, r) :: rest => (i, f.respond i r) :: (f.serve i r).responses rest

variable {w : Workshop} {f f' : Floor ι}

/-- Whatever a simulator is asked for, the floor stays sound. -/
theorem Sound.serve (h : f.Sound w) (i : ι) (r : Request) : (f.serve i r).Sound w := by
  have twin := r.respects_perform.after_related (h.twin (i := i) h rfl)
  refine ⟨twin.alike, twin.good, fun k => ?_⟩
  by_cases hk : k = i
  · subst hk
    simp only [Floor.serve, Function.update_self]
    exact twin.known
  · simp only [Floor.serve, Function.update_of_ne hk]
    exact h.known k

theorem Sound.serveAll (h : f.Sound w) (requests : List (ι × Request)) :
    (f.serveAll requests).Sound w := by
  induction requests generalizing f with
  | nil => exact h
  | cons request rest ih => exact ih (h.serve request.1 request.2)

/-- A simulator that was in the same position on two floors is so after the same request. -/
theorem Sound.seats_serve (h : f.Sound w) (h' : f'.Sound w) {i : ι} (same : f'.seats i = f.seats i)
    (r : Request) : (f'.serve i r).seats i = (f.serve i r).seats i := by
  have left := r.respects_perform.after_related (h.twin h' same)
  simp only [Floor.serve, Function.update_self, left.tape, left.sim]

/-- **What a simulator gives among others is what it gives alone.**  Two floors are compared, on which
the simulator is in the same position; on the second one, only the requests to it are made. -/
theorem responses_filter (h : f.Sound w) (h' : f'.Sound w) {i : ι} (same : f'.seats i = f.seats i)
    (requests : List (ι × Request)) :
    (f.responses requests).filter (·.1 = i) = f'.responses (requests.filter (·.1 = i)) := by
  induction requests generalizing f f' with
  | nil => rfl
  | cons request rest ih =>
    obtain ⟨k, r⟩ := request
    by_cases hk : k = i
    · subst hk
      simp only [responses, List.filter_cons, decide_true, if_true, h.respond_eq h' same]
      rw [ih (h.serve k r) (h'.serve k r) (h.seats_serve h' same r)]
    · have seat : (f.serve k r).seats i = f.seats i := Function.update_of_ne (Ne.symm hk) _ _
      simp only [responses, List.filter_cons, hk, decide_false, Bool.false_eq_true, if_false]
      exact ih (h.serve k r) h' (same.trans seat.symm)

end Floor

namespace Workshop

variable {w : Workshop}

/-- **Simulators in one workshop do not interfere.**  However requests to several simulators, in any
position and with tapes of their own, follow one another: what comes back from each of them is what
comes back if the others are asked for nothing.  Alphabets stay as they are, and so does all of each
machine but what it remembers of its validation. -/
theorem simulators_do_not_interfere {ι : Type} [DecidableEq ι] (h : w.Reachable) (j : Journal)
    (seats : ι → Seat) (known : ∀ i, (seats i).sim.machine.index < w.machines.length)
    (requests : List (ι × Request)) :
    let floor : Floor ι := ⟨w, j, seats⟩
    let w' := (floor.serveAll requests).shop
    (∀ i, (floor.responses requests).filter (·.1 = i) =
      floor.responses (requests.filter (·.1 = i))) ∧
    w'.alphabets = w.alphabets ∧ w'.machines.length = w.machines.length ∧
    ∀ m, w'.machine m = { w.machine m with validated := (w'.machine m).validated } := by
  intro floor w'
  have sound : floor.Sound w := ⟨.refl w, h.good, known⟩
  have alike : w.Alike w' := (sound.serveAll requests).alike
  exact ⟨fun i => Floor.responses_filter sound sound rfl requests, alike.alphabets, alike.length,
    alike.machine⟩

/-- A machine and the one inside two of its states are run side by side. -/
theorem threeLevels_runs_beside_its_submachine :
    let seats (other : Bool) : Seat :=
      if other then ⟨.ofText "0", .new ⟨1⟩⟩ else ⟨.ofText "10", .new ⟨0⟩⟩
    let floor : Floor Bool := ⟨threeLevels.shop, Journal.empty, seats⟩
    threeLevels.shop.Reachable ∧
    (floor.responses [(false, .step), (true, .step), (false, .run 0 10), (true, .reset),
      (true, .run 0 10), (false, .preview)]).filter (·.1 = true) =
        floor.responses [(true, .step), (true, .reset), (true, .run 0 10)] := by
  intro seats floor
  have known (other : Bool) : (seats other).sim.machine.index < threeLevels.shop.machines.length := by
    cases other <;> decide +kernel
  exact ⟨threeLevels_reachable,
    (simulators_do_not_interfere threeLevels_reachable Journal.empty seats known _).1 true⟩

end Workshop

end MachineLab
