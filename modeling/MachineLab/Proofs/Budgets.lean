import MachineLab.Proofs.Sessions

/-!
# Step budgets

A run with a budget takes steps until the machine halts, a step fails, or the budget is used up.  In the
last case it can be resumed: the steps of a run with one budget and of another run after it are the steps
of a run with both budgets together.  In the other cases a larger budget, or none at all, would have
changed nothing.

A resumed run differs from an uninterrupted one in what it logs, since each run logs its own end, so the
comparison leaves the log aside.

## Main definitions

* `Stage.SameButLog` — two stages differ in nothing but the log.
* `SimM.Marches` — some steps in a row, each of them taken before the machine has halted.
* `SimM.Steps` — some steps in a row, of which the last may fail.

## Main statements

* `SimM.congruence_sameButLog` — work with a simulator does not look at the log.
* `SimM.marches_or_stops` — a run either uses up a number of steps or stops before.
* `SimM.loop_of_marches` — a run from its first step on is a run from any later one.
* `SimM.step_budgets_compose` — how runs with budgets fit together.
-/

namespace MachineLab

/-! ## The log is never read -/

/-- Two benches differ in nothing but the log. -/
structure Bench.SameButLog (b b' : Bench) : Prop where
  shop : b'.shop = b.shop
  events : b'.journal.events = b.journal.events

/-- Two stages differ in nothing but the log. -/
structure Stage.SameButLog (s s' : Stage) : Prop where
  shop : s'.shop = s.shop
  tape : s'.tape = s.tape
  sim : s'.sim = s.sim
  events : s'.journal.events = s.journal.events

theorem Stage.SameButLog.refl (s : Stage) : s.SameButLog s := ⟨rfl, rfl, rfl, rfl⟩

theorem Stage.SameButLog.judged {s s' : Stage} (h : s.SameButLog s') (b : Bool) :
    (s.judged b).SameButLog (s'.judged b) :=
  ⟨h.shop, h.tape, congrArg (·.judged b) h.sim, h.events⟩

theorem Stage.judged_self {s : Stage} {b : Bool} (h : s.sim.budgetExhausted = b) : s.judged b = s := by
  subst h
  rfl

theorem Journal.echoes_iff {j j' : Journal} :
    Journal.Echoes [] [] j j' ↔ j'.events = j.events := by
  constructor
  · rintro ⟨new, events, events'⟩
    exact Array.toList_inj.mp (events'.trans events.symm)
  · intro same
    exact ⟨j.events.toList, rfl, by rw [same]; rfl⟩

namespace Work

variable {α : Type}

/-- Work that does the same whatever the log says. -/
abbrev Unread (work : Work α) : Prop := Respects Bench.SameButLog work

theorem unread_ofExcept (r : Except Fault α) : Unread (ofExcept r) := by
  cases r with
  | ok a => exact .pure a
  | error e => exact .throw e

theorem unread_record (level : LogLevel) (channel : Channel) (message : String) :
    Unread (record level channel message) := .modify fun _ _ h => ⟨h.shop, h.events⟩

theorem unread_setMachine (m : MachineId) (new : Machine) : Unread (setMachine m new) :=
  .modify fun _ _ h => ⟨congrArg (·.setMachine m new) h.shop, h.events⟩

theorem unread_nestedDefect {inner : MachineId → Work Unit} (h : ∀ i, Unread (inner i)) (s : State) :
    Unread (nestedDefect inner s) := by
  unfold nestedDefect
  cases s.submachine with
  | none => exact .pure _
  | some i =>
    intro b b' same
    have nested := h i b b' same
    simp only
    generalize inner i b = r at nested ⊢
    generalize inner i b' = r' at nested ⊢
    cases nested with
    | ok related => exact .ok related
    | @error e _ _ related =>
      cases e with
      | machine f =>
        cases f with
        | nondeterministic d => exact .ok related
        | _ => exact .error related
      | refusal cause => exact .error related
      | mismatch cause => exact .error related

theorem unread_turingDefect {inner : MachineId → Work Unit} (h : ∀ i, Unread (inner i))
    (m : Machine) (a : Alphabet) (starts finals : Nat) (ss : List State) :
    Unread (turingDefect inner m a starts finals ss) := by
  induction ss generalizing starts finals with
  | nil => exact .pure _
  | cons s rest ih =>
    refine .bind (unread_nestedDefect h s) fun nested? => ?_
    cases nested? with
    | some d => exact .pure _
    | none =>
      refine .bind (unread_ofExcept _) fun own? => ?_
      cases own? with
      | some d => exact .pure _
      | none => exact ih _ _

theorem unread_findDefect {inner : MachineId → Work Unit} (h : ∀ i, Unread (inner i))
    (m : MachineId) : Unread (findDefect inner m) := by
  refine .read (fun b b' same => by rw [same.shop]) fun b _ _ => ?_
  simp only
  split
  · exact unread_turingDefect h _ _ _ _ _
  · exact unread_ofExcept _

theorem unread_validateTo (d : Nat) (m : MachineId) : Unread (validateTo d m) := by
  induction d generalizing m with
  | zero => exact .pure _
  | succ d ih =>
    refine .read (fun b b' same => by rw [same.shop]) fun b _ _ => ?_
    simp only
    split
    · exact .pure _
    · refine .bind (unread_findDefect ih m) fun defect? => ?_
      cases defect? with
      | some d => exact .bind (unread_record _ _ _) fun _ => .throw _
      | none =>
        have look : Unread (machine m) :=
          .read (fun b b' same => by rw [same.shop]) fun _ _ _ => .pure _
        exact .bind (.bind look fun _ => unread_setMachine _ _) fun _ => unread_record _ _ _

theorem unread_validate (m : MachineId) : Unread (validate m) :=
  .read (fun b b' same => by rw [same.shop]) fun _ _ _ => unread_validateTo _ m

end Work

namespace SimM

variable {α : Type} {s s' s₁ s₂ : Stage}

theorem unread_inShop {work : Work α} (h : Work.Unread work) :
    Respects Stage.SameButLog (inShop work) := by
  intro s s' same
  have shops := h ⟨s.shop, s.journal⟩ ⟨s'.shop, s'.journal⟩ ⟨same.shop, same.events⟩
  unfold inShop
  generalize work ⟨s.shop, s.journal⟩ = r at shops ⊢
  generalize work ⟨s'.shop, s'.journal⟩ = r' at shops ⊢
  cases shops with
  | ok benches => exact .ok ⟨benches.shop, same.tape, same.sim, benches.events⟩
  | error benches => exact .error ⟨benches.shop, same.tape, same.sim, benches.events⟩

theorem unread_onTape {work : TapeM α} (h : Respects (Reel.Twin [] []) work) :
    Respects Stage.SameButLog (onTape work) := by
  intro s s' same
  have tapes := h ⟨s.tape, s.journal⟩ ⟨s'.tape, s'.journal⟩
    ⟨same.tape, Journal.echoes_iff.mpr same.events⟩
  unfold onTape
  generalize work ⟨s.tape, s.journal⟩ = r at tapes ⊢
  generalize work ⟨s'.tape, s'.journal⟩ = r' at tapes ⊢
  cases tapes with
  | ok reels => exact .ok ⟨same.shop, reels.tape, same.sim, Journal.echoes_iff.mp reels.events⟩
  | error reels => exact .error ⟨same.shop, reels.tape, same.sim, Journal.echoes_iff.mp reels.events⟩

theorem unread_update (f : Simulator → Simulator) : Respects Stage.SameButLog (update f) :=
  .modify fun _ _ h => ⟨h.shop, h.tape, congrArg f h.sim, h.events⟩

/-- **Work with a simulator does not look at the log.** -/
theorem congruence_sameButLog : Congruence Stage.SameButLog where
  resembles {s s'} h := ⟨h.shop ▸ .refl _, h.tape, s.sim.budgetExhausted, h.sim⟩
  update _ _ := unread_update _
  judge _ := unread_update _
  tell e := .modify fun _ _ h => ⟨h.shop, h.tape, h.sim, by simp [Journal.tell, h.events]⟩
  record _ _ := .modify fun _ _ h => ⟨h.shop, h.tape, h.sim, h.events⟩
  onTape m q tr? := unread_onTape (m.respects_advance q tr?)
  validate _ := unread_inShop (Work.unread_validate _)

/-! ## Steps in a row -/

/-- Steps in a row, none of which fails and each of which is taken before the machine has halted. -/
inductive Marches : Nat → Stage → Stage → Prop
  | none (s : Stage) : Marches 0 s s
  | step {n : Nat} {s s₁ s₂ : Stage} (running : halted s = .ok false s) (taken : step s = .ok () s₁)
      (rest : Marches n s₁ s₂) : Marches (n + 1) s s₂

/-- Steps in a row, of which the last may fail. -/
inductive Steps : Nat → Stage → Stage → Prop
  | none (s : Stage) : Steps 0 s s
  | step {n : Nat} {s s₁ s₂ : Stage} (taken : step s = .ok () s₁) (rest : Steps n s₁ s₂) :
      Steps (n + 1) s s₂
  | failing {s s₁ : Stage} {e : Fault} (failed : step s = .error e s₁) : Steps 1 s s₁

/-- There is no further step that succeeds, since the machine has halted or the step fails. -/
def Stops (s : Stage) : Prop := ∀ s₁, halted s = .ok false s → step s ≠ .ok () s₁

theorem halted_apply (s : Stage) : halted s = conclude (s.shop.isHalted s.sim s.tape) s := by
  change ofExcept (s.shop.isHalted s.sim s.tape) s = _
  cases s.shop.isHalted s.sim s.tape <;> rfl

/-- A run either takes a number of steps or stops before. -/
theorem marches_or_stops (n : Nat) (s : Stage) :
    (∃ s₁, Marches n s s₁) ∨ ∃ k < n, ∃ s₁, Marches k s s₁ ∧ Stops s₁ := by
  induction n generalizing s with
  | zero => exact .inl ⟨s, .none s⟩
  | succ n ih =>
    by_cases stops : Stops s
    · exact .inr ⟨0, Nat.succ_pos n, s, .none s, stops⟩
    · simp only [Stops, not_forall, not_not] at stops
      obtain ⟨s₁, running, taken⟩ := stops
      rcases ih s₁ with ⟨s₂, rest⟩ | ⟨k, lt, s₂, rest, stops⟩
      · exact .inl ⟨s₂, .step running taken rest⟩
      · exact .inr ⟨k + 1, Nat.succ_lt_succ lt, s₂, .step running taken rest, stops⟩

theorem Marches.steps {n : Nat} (h : Marches n s s₁) : Steps n s s₁ := by
  induction h with
  | none s => exact .none s
  | step _ taken _ ih => exact .step taken ih

theorem Marches.steps_failing {n : Nat} {e : Fault} (h : Marches n s s₁)
    (failed : SimM.step s₁ = .error e s₂) : Steps (n + 1) s s₂ := by
  induction h with
  | none s => exact .failing failed
  | step _ taken _ ih => exact .step taken (ih failed)

/-- A step of a valid machine is counted once, and no step is a verdict on the budget. -/
theorem tally_after_step (s : Stage) :
    (∃ e s₁, step s = .error e s₁ ∧ s₁.sim = s.sim) ∨
      (after step s).sim.tally = (s.sim.stepCount + 1, s.sim.budgetExhausted) := by
  cases hvalidate : inShop (Work.validate s.sim.machine) s with
  | error e s₁ =>
    refine .inl ⟨e, s₁, step_of_invalid hvalidate, ?_⟩
    unfold inShop at hvalidate
    split at hvalidate <;> cases hvalidate
    rfl
  | ok u s₁ =>
    have same : s₁.sim = s.sim := by
      unfold inShop at hvalidate
      split at hvalidate <;> cases hvalidate
      rfl
    have aloof := Aloof.tally (s.sim.stepCount + 1, s.sim.budgetExhausted)
    have rest := (aloof.startOrProceed fun _ _ hs => hs).bind fun _ => Preserves.bind .get fun s' =>
      .bind (preserves_observeTape Workshop.configuration) fun text =>
        aloof.tell (e := .stepProcessed s'.sim.stepCount text) rfl
    right
    unfold after
    rw [step_of_valid hvalidate]
    exact rest _ (by rw [same]; rfl)

theorem tally_of_step (h : step s = .ok () s₁) :
    s₁.sim.tally = (s.sim.stepCount + 1, s.sim.budgetExhausted) := by
  rcases tally_after_step s with ⟨e, s₂, failed, -⟩ | counted
  · cases h.symm.trans failed
  · exact after_of_ok h ▸ counted

theorem budgetExhausted_of_failing {e : Fault} (h : step s = .error e s₁) :
    s₁.sim.budgetExhausted = s.sim.budgetExhausted := by
  rcases tally_after_step s with ⟨e', s₂, failed, same⟩ | counted
  · cases h.symm.trans failed
    rw [same]
  · rw [after_of_error h] at counted
    exact congrArg Prod.snd counted

theorem Marches.tally {n : Nat} (h : Marches n s s₁) :
    s₁.sim.tally = (s.sim.stepCount + n, s.sim.budgetExhausted) := by
  induction h with
  | none s => rfl
  | @step n s s₁ s₂ _ taken _ ih =>
    obtain ⟨count, verdict⟩ := Prod.mk.inj (tally_of_step taken)
    rw [ih, count, verdict, Nat.add_assoc, Nat.add_comm 1 n]

/-! ## Runs, step by step -/

variable {limit : Int} {n count : Nat}

theorem attempt_eq_none_iff : attempt s = .ok none s₁ ↔ step s = .ok () s₁ := by
  unfold attempt
  constructor
  · intro h
    split at h
    · rename_i taken
      cases h
      exact taken
    · split at h <;> cases h
    · cases h
  · intro taken
    rw [taken]

/-- A look at a run that has not halted and takes a step. -/
theorem loop_of_step (running : halted s = .ok false s) (taken : step s = .ok () s₁) :
    loop limit (n + 1) count s =
      (if limit ≠ 0 ∧ limit ≤ (count + 1 : Nat) then do
        let done ← halted
        update (·.judged !done)
        return .stopped (count + 1)
      else loop limit n (count + 1)) s₁ := by
  rw [loop, bind_of_ok running]
  simp only [Bool.false_eq_true, if_false]
  rw [bind_of_ok (attempt_eq_none_iff.mpr taken)]
  rfl

/-- A run from its first step on is a run from any later one that the limit allows. -/
theorem loop_of_marches {k : Nat} (h : Marches k s s₁) (allowed : limit = 0 ∨ (count + k : Nat) < limit) :
    loop limit (k + n) count s = loop limit n (count + k) s₁ := by
  induction h generalizing count with
  | none s => rw [Nat.zero_add, Nat.add_zero]
  | @step k s s₁ s₂ running taken _ ih =>
    have within : ¬ (limit ≠ 0 ∧ limit ≤ (count + 1 : Nat)) := by omega
    rw [Nat.succ_add, loop_of_step running taken, if_neg within, ih (by omega)]
    congr 1
    omega

/-- Where no further step succeeds, neither limit nor patience matters. -/
theorem loop_of_stops (h : Stops s) : loop limit (n + 1) count s = loop 0 1 count s := by
  cases hhalted : s.shop.isHalted s.sim s.tape with
  | error e =>
    have failed : halted s = .error e s := by rw [halted_apply, hhalted]; rfl
    rw [loop, loop, bind_of_error failed, bind_of_error failed]
  | ok done =>
    have look : halted s = .ok done s := by rw [halted_apply, hhalted]; rfl
    rw [loop, loop, bind_of_ok look, bind_of_ok look]
    cases done with
    | true => rfl
    | false =>
      simp only [Bool.false_eq_true, if_false]
      cases hattempt : attempt s with
      | error e s₁ => rw [bind_of_error hattempt, bind_of_error hattempt]
      | ok report s₁ =>
        rw [bind_of_ok hattempt, bind_of_ok hattempt]
        cases report with
        | some f => rfl
        | none => exact absurd (attempt_eq_none_iff.mp hattempt) (h s₁ look)

/-- What a run leaves behind where no further step succeeds is left behind by a last step that fails,
if there is one. -/
theorem after_loop_of_stops (h : Stops s) (count : Nat) :
    after (loop 0 1 count) s = s ∨ ∃ e, step s = .error e (after (loop 0 1 count) s) := by
  cases hhalted : s.shop.isHalted s.sim s.tape with
  | error e =>
    have failed : halted s = .error e s := by rw [halted_apply, hhalted]; rfl
    exact .inl (after_of_error (bind_of_error failed))
  | ok done =>
    have look : halted s = .ok done s := by rw [halted_apply, hhalted]; rfl
    cases done with
    | true => exact .inl (after_of_ok (bind_of_ok look))
    | false =>
      cases hstep : step s with
      | ok u s₁ => exact absurd hstep (h s₁ look)
      | error e s₁ =>
        refine .inr ⟨e, ?_⟩
        have left : after attempt s = s₁ := by rw [after_attempt, after_of_error hstep]
        have whole : after (loop 0 1 count) s = s₁ := by
          rw [loop, after, bind_of_ok look]
          simp only [Bool.false_eq_true, if_false]
          cases hattempt : attempt s with
          | error e' s₂ =>
            rw [after_of_error hattempt] at left
            rw [bind_of_error hattempt]
            exact left
          | ok report s₂ =>
            rw [after_of_ok hattempt] at left
            rw [bind_of_ok hattempt]
            cases report with
            | some f => exact left
            | none => exact absurd (attempt_eq_none_iff.mp hattempt) (h s₂ look)
        rw [whole]

/-- A run that comes to its limit looks once more whether the machine has halted. -/
theorem loop_of_limit {k : Nat} (h : Marches (k + 1) s s₁) (last : limit = (count + (k + 1) : Nat)) :
    loop limit (k + 1 + n) count s =
      (do
        let done ← halted
        update (·.judged !done)
        return .stopped (count + (k + 1)) : SimM RunEnd) s₁ := by
  induction k generalizing s count with
  | zero =>
    obtain _ | ⟨running, taken, rest⟩ := h
    cases rest
    rw [Nat.zero_add, Nat.add_comm 1 n, loop_of_step running taken, if_pos (by omega)]
  | succ k ih =>
    obtain _ | ⟨running, taken, rest⟩ := h
    rw [Nat.succ_add, loop_of_step running taken, if_neg (by omega), ih rest (by omega)]
    simp only [Nat.add_assoc, Nat.add_comm 1]

/-- A run that stops before its limit ends as it would under any other limit. -/
theorem loop_of_early_stop {a k : Nat} (h : Marches k s s₁) (early : k < a) (stops : Stops s₁)
    (allowed : limit = 0 ∨ a ≤ limit) : loop limit (a + (n + 1)) 0 s = loop 0 1 k s₁ := by
  obtain ⟨d, rfl⟩ := Nat.exists_eq_add_of_lt early
  have split : k + d + 1 + (n + 1) = k + (d + n + 1 + 1) := by omega
  rw [split, loop_of_marches h (by omega), Nat.zero_add, loop_of_stops stops]

/-- A run whose machine has halted when the limit is reached ends as it would under any larger limit. -/
theorem loop_of_late_halt {a : Nat} (pos : 0 < a) (h : Marches a s s₁)
    (unspent : s₁.sim.budgetExhausted = false) (ended : s₁.shop.isHalted s₁.sim s₁.tape ≠ .ok false)
    (allowed : limit = 0 ∨ a ≤ limit) :
    loop limit (a + (n + 1)) 0 s =
      conclude ((s₁.shop.isHalted s₁.sim s₁.tape).map fun _ => .stopped a) s₁ := by
  obtain ⟨k, rfl⟩ : ∃ k, a = k + 1 := ⟨a - 1, by omega⟩
  have look := halted_apply s₁
  generalize s₁.shop.isHalted s₁.sim s₁.tape = done at look ended
  by_cases last : limit = (k + 1 : Nat)
  · rw [loop_of_limit h (by omega), Nat.zero_add]
    cases done with
    | error e => exact bind_of_error look
    | ok done =>
      obtain rfl : done = true := by
        cases done with
        | true => rfl
        | false => exact absurd rfl ended
      refine (bind_of_ok look).trans ?_
      change EStateM.Result.ok _ (s₁.judged false) = _
      rw [Stage.judged_self unspent]
      rfl
  · rw [loop_of_marches h (by omega), Nat.zero_add, loop]
    cases done with
    | error e => exact bind_of_error look
    | ok done =>
      obtain rfl : done = true := by
        cases done with
        | true => rfl
        | false => exact absurd rfl ended
      exact bind_of_ok look

/-- **How a run with a budget goes.**  It uses up its budget, or else it ends, after no more steps than
the budget has, as it would under any larger limit and with none. -/
theorem loop_budget {a : Nat} (pos : 0 < a) (fresh : s.sim.budgetExhausted = false) :
    (∃ s₁, Marches a s s₁ ∧ halted s₁ = .ok false s₁ ∧
      ∀ n, loop a (a + n) 0 s = .ok (.stopped a) (s₁.judged true)) ∨
    ∃ result s₁, (∃ k ≤ a, Steps k s s₁) ∧ s₁.sim.budgetExhausted = false ∧
      ∀ (limit : Int) n, limit = 0 ∨ a ≤ limit → loop limit (a + (n + 1)) 0 s = conclude result s₁ := by
  have unspent {k : Nat} {s₁ : Stage} (march : Marches k s s₁) : s₁.sim.budgetExhausted = false :=
    (congrArg Prod.snd march.tally).trans fresh
  rcases marches_or_stops a s with ⟨s₁, march⟩ | ⟨k, early, s₁, march, stops⟩
  · by_cases running : s₁.shop.isHalted s₁.sim s₁.tape = .ok false
    · have look : halted s₁ = .ok false s₁ := by
        rw [halted_apply, running]
        rfl
      refine .inl ⟨s₁, march, look, fun n => ?_⟩
      obtain ⟨k, rfl⟩ : ∃ k, a = k + 1 := ⟨a - 1, by omega⟩
      rw [loop_of_limit march (by omega), Nat.zero_add]
      exact bind_of_ok look
    · exact .inr ⟨_, s₁, ⟨a, Nat.le_refl a, march.steps⟩, unspent march, fun limit n allowed =>
        loop_of_late_halt pos march (unspent march) running allowed⟩
  · refine .inr ⟨outcome (loop 0 1 k) s₁, after (loop 0 1 k) s₁, ?_, ?_, fun limit n allowed => ?_⟩
    · rcases after_loop_of_stops stops k with left | ⟨e, failed⟩
      · rw [left]
        exact ⟨k, early.le, march.steps⟩
      · exact ⟨k + 1, early, march.steps_failing failed⟩
    · rcases after_loop_of_stops stops k with left | ⟨e, failed⟩
      · rw [left]
        exact unspent march
      · exact (budgetExhausted_of_failing failed).trans (unspent march)
    · rw [← eq_conclude]
      exact loop_of_early_stop march early stops allowed

/-! ## Resuming a run -/

end SimM

/-- The end of a run that had taken some steps before. -/
def RunEnd.later (k : Nat) : RunEnd → RunEnd
  | .stopped count => .stopped (count + k)
  | .completed count => .completed (count + k)
  | .failed count cause => .failed (count + k) cause
  | .unfinished => .unfinished

namespace SimM

variable {s s' s₁ : Stage} {limit : Int} {n count : Nat}

/-- A run that has taken some steps already goes on as one that has not, under what is left of its
limit. -/
theorem loop_later (pos : 0 < limit) (k : Nat) :
    loop (limit + k) n (count + k) = do return (← loop limit n count).later k := by
  induction n generalizing count with
  | zero => rfl
  | succ n ih =>
    have room : (limit + k ≠ 0 ∧ limit + k ≤ (count + k + 1 : Nat)) ↔
        (limit ≠ 0 ∧ limit ≤ (count + 1 : Nat)) := by omega
    simp only [loop, bind_assoc]
    refine bind_congr fun done => ?_
    cases done with
    | true => rfl
    | false =>
      simp only [Bool.false_eq_true, if_false, bind_assoc]
      refine bind_congr fun report => ?_
      cases report with
      | some f =>
        simp only [pure_bind]
        cases f.isCompletion <;> rfl
      | none =>
        have shifted : count + k + 1 = count + 1 + k := by omega
        simp only [room]
        split
        · simp only [bind_assoc, pure_bind, RunEnd.later, shifted]
        · rw [shifted, ih]

/-- What a run does after its steps. -/
def finish : RunEnd → SimM (Option Bool)
  | .unfinished => return none
  | .stopped count => do
    let verdict ← if ← halted then accepted else pure false
    recordEnd count verdict
    return some verdict
  | .completed count => do
    let verdict ← accepted
    recordEnd count verdict
    return some verdict
  | .failed count cause => do
    record .info
      ("Simulation of '" ++ (← nameOf (← get).sim.machine) ++ "' rejected: " ++ cause.message)
    recordEnd count false
    return some false

theorem run_apply (limit : Int) (patience : Nat) (s : Stage) :
    run limit patience s =
      (loop limit (patienceFor limit patience) 0 >>= finish) (s.judged false) := bind_of_ok rfl

/-- What a run does after its steps differs with their number in nothing but the log. -/
theorem finish_later (ending : RunEnd) (k : Nat) (same : s.SameButLog s') :
    SameResult Stage.SameButLog (finish (ending.later k) s) (finish ending s') := by
  have unread := congruence_sameButLog
  have recorded (count count' : Nat) (verdict : Bool) {t t' : Stage} (same : t.SameButLog t') :
      SameResult Stage.SameButLog ((do recordEnd count verdict; return some verdict : SimM _) t)
        ((do recordEnd count' verdict; return some verdict : SimM _) t') :=
    .ok ⟨same.shop, same.tape, same.sim, same.events⟩
  cases ending with
  | unfinished => exact .ok same
  | stopped count =>
    refine (unread.halted s s' same).bind (fun _ _ => id) fun done t t' same => ?_
    cases done with
    | true =>
      exact (unread.accepted t t' same).bind (fun _ _ => id) fun verdict t t' same =>
        recorded _ _ verdict same
    | false => exact recorded _ _ false same
  | completed count =>
    exact (unread.accepted s s' same).bind (fun _ _ => id) fun verdict t t' same =>
      recorded _ _ verdict same
  | failed count cause => exact .ok ⟨same.shop, same.tape, same.sim, same.events⟩

/-- What a run does after its steps changes nothing but the log. -/
theorem finish_keeps (ending : RunEnd) (t : Stage) : Preserves (t.SameButLog ·) (finish ending) := by
  have logged (level : LogLevel) (message : String) :
      Preserves (t.SameButLog ·) (record level message) :=
    .modify fun _ h => ⟨h.shop, h.tape, h.sim, h.events⟩
  have recorded (count : Nat) (verdict : Bool) :
      Preserves (t.SameButLog ·) (do recordEnd count verdict; return some verdict : SimM _) :=
    .bind (.bind .get fun _ => .bind (.bind .get fun _ => .pure _) fun _ => logged _ _) fun _ => .pure _
  cases ending with
  | unfinished => exact .pure _
  | stopped count =>
    refine .bind (preserves_observeTape _) fun done => ?_
    cases done with
    | true => exact .bind (preserves_observeTape _) fun _ => recorded _ _
    | false => exact .bind (.pure _) fun _ => recorded _ _
  | completed count => exact .bind (preserves_observeTape _) fun _ => recorded _ _
  | failed count cause =>
    refine .bind .get fun _ => .bind (.bind .get fun _ => .pure _) fun _ => ?_
    exact .bind (logged _ _) fun _ => recorded _ _

theorem patienceFor_budget {a : Nat} (pos : 0 < a) (p : Nat) : patienceFor a p = a + 1 := by
  unfold patienceFor
  rw [if_neg (by omega), Int.natAbs_natCast]

/-- A run that uses up its budget says that the machine has not accepted. -/
theorem run_of_used_up {a : Nat} (pos : 0 < a) (p : Nat) (running : halted s₁ = .ok false s₁)
    (used : loop a (a + 1) 0 (s.judged false) = .ok (.stopped a) (s₁.judged true)) :
    ∃ first, run a p s = .ok (some false) first ∧ (s₁.judged true).SameButLog first := by
  have look : halted (s₁.judged true) = .ok false (s₁.judged true) := by
    have same := halted_apply s₁
    rw [running] at same
    rw [halted_apply]
    obtain ⟨halts, -⟩ := conclude_eq_ok_iff.mp same.symm
    exact congrArg (conclude · (s₁.judged true)) halts
  have whole : run a p s = finish (.stopped a) (s₁.judged true) := by
    rw [run_apply, patienceFor_budget pos]
    exact bind_of_ok used
  obtain ⟨j, hrecord⟩ := recordEnd_eq a false (s₁.judged true)
  have gives : run a p s = .ok (some false) { s₁.judged true with journal := j } := by
    refine whole.trans ((bind_of_ok look).trans ?_)
    simp only [Bool.false_eq_true, if_false, pure_bind]
    exact bind_of_ok hrecord
  refine ⟨_, gives, ?_⟩
  have kept := finish_keeps (.stopped a) (s₁.judged true) _ (.refl _)
  rwa [after_of_ok (whole.symm.trans gives)] at kept

/-- A run that is resumed after its budget was used up does what a run with both budgets does, but for
the log. -/
theorem run_resumed {a b : Nat} (pos : 0 < b) (march : Marches a (s.judged false) s₁)
    (same : s₁.SameButLog (s'.judged false)) (p : Nat) :
    SameResult Stage.SameButLog (run (a + b : Nat) p s) (run b p s') := by
  have whole : run (a + b : Nat) p s =
      (loop b (b + 1) 0 >>= fun ending => finish (ending.later a)) s₁ := by
    have later : loop (b + a) (b + 1) (0 + a) = do return (← loop b (b + 1) 0).later a :=
      loop_later (by omega) a
    rw [Nat.zero_add] at later
    rw [run_apply, patienceFor_budget (by omega), Nat.add_assoc a b 1]
    calc (loop (a + b : Nat) (a + (b + 1)) 0 >>= finish) (s.judged false)
        = (loop (a + b : Nat) (b + 1) a >>= finish) s₁ := by
          simp only [bind, EStateM.bind]
          rw [loop_of_marches march (by omega), Nat.zero_add]
      _ = _ := by
          rw [Int.natCast_add, Int.add_comm, later, bind_assoc]
          rfl
  rw [whole, run_apply, patienceFor_budget pos]
  exact (congruence_sameButLog.loop b (b + 1) 0 _ _ same).bind (fun _ _ => id)
    fun ending _ _ same => finish_later ending a same

/-- **Step budgets compose.**  A run with a budget takes no more steps than that.  If the budget is used
up, exactly so many steps were taken, the machine has not halted and the answer is no; and a run with
another budget after it ends as a run with both budgets would have, with the same answer or fault and in
the same stage, but for the log.  Otherwise, or if the run fails, a larger budget or none at all would
have made no difference. -/
theorem step_budgets_compose (s : Stage) {a b : Nat} (ha : 0 < a) (hb : 0 < b) (p : Nat) :
    let first := after (run a p) s
    (∃ k ≤ a, ∃ s₁, Steps k (s.judged false) s₁ ∧
      (s₁.judged first.sim.budgetExhausted).SameButLog first) ∧
    (first.sim.budgetExhausted = true →
      (∃ s₁, Marches a (s.judged false) s₁ ∧ (s₁.judged true).SameButLog first) ∧
      first.sim.stepCount = s.sim.stepCount + a ∧
      outcome halted first = .ok false ∧ outcome (run a p) s = .ok (some false) ∧
      outcome (run b p) first = outcome (run (a + b : Nat) p) s ∧
      (after (run (a + b : Nat) p) s).SameButLog (after (run b p) first)) ∧
    (first.sim.budgetExhausted = false ∨ (∃ e, outcome (run a p) s = .error e) →
      run (a + b : Nat) p s = run a p s ∧ ∀ q, a < q → run 0 q s = run a p s) := by
  intro first
  rcases loop_budget (s := s.judged false) ha rfl with
    ⟨s₁, march, running, used⟩ | ⟨result, s₁, ⟨k, le, steps⟩, unspent, ended⟩
  · obtain ⟨last, hrun, same⟩ := run_of_used_up ha p running (used 1)
    obtain rfl : first = last := after_of_ok hrun
    have spent : first.sim.budgetExhausted = true := by rw [same.sim]; rfl
    refine ⟨⟨a, Nat.le_refl a, s₁, march.steps, spent ▸ same⟩, fun _ => ?_, ?_⟩
    · have begun : s₁.SameButLog (first.judged false) := by
        have fresh : s₁.sim.budgetExhausted = false := congrArg Prod.snd march.tally
        have judged := same.judged false
        rwa [show (s₁.judged true).judged false = s₁ from Stage.judged_self fresh] at judged
      have resumed := run_resumed hb march begun p
      refine ⟨⟨s₁, march, same⟩, ?_, ?_, outcome_of_ok hrun, resumed.outcome_eq, resumed.after_related⟩
      · rw [same.sim]
        exact congrArg Prod.fst march.tally
      · have judged := congruence_judged.halted.outcome_eq (s := first) ⟨false, rfl⟩
        have looks := congruence_sameButLog.halted.outcome_eq begun
        exact judged.symm.trans (looks.trans (outcome_of_ok running))
    · rintro (unspent | ⟨e, failed⟩)
      · rw [spent] at unspent
        cases unspent
      · rw [outcome_of_ok hrun] at failed
        cases failed
  · -- Under every limit that is large enough the run ends in the same way.
    have gives (limit : Int) (q : Nat) (allowed : limit = 0 ∨ a ≤ limit)
        (patient : a < patienceFor limit q) :
        run limit q s = ((fun _ => conclude result s₁ : SimM RunEnd) >>= finish) s₁ := by
      obtain ⟨n, hn⟩ := Nat.exists_eq_add_of_lt patient
      rw [run_apply, hn]
      simp only [bind, EStateM.bind]
      rw [Nat.add_assoc, ended limit n allowed]
    have here := gives a p (.inr (Int.le_refl _))
      (by rw [patienceFor_budget ha]; exact Nat.lt_succ_self a)
    have same : s₁.SameButLog first := by
      have kept : s₁.SameButLog (after ((fun _ => conclude result s₁ : SimM RunEnd) >>= finish) s₁) :=
        Preserves.after_bind (P := (s₁.SameButLog ·)) (by cases result <;> exact .refl _)
          fun ending => finish_keeps ending s₁
      change s₁.SameButLog (after (run a p) s)
      rw [after_congr here]
      exact kept
    have left : first.sim.budgetExhausted = false := by rw [same.sim, unspent]
    refine ⟨⟨k, le, s₁, steps, ?_⟩, fun spent => ?_, fun _ => ⟨?_, fun q hq => ?_⟩⟩
    · rw [left, Stage.judged_self unspent]
      exact same
    · rw [left] at spent
      cases spent
    · rw [here]
      exact gives _ p (.inr (by omega)) (by rw [patienceFor_budget (by omega)]; omega)
    · rw [here]
      exact gives 0 q (.inl rfl) hq

/-- The three machines, cut short inside the innermost one and run to their end. -/
theorem threeLevels_is_resumed :
    let s := Stage.fresh Workshop.threeLevels.shop ⟨0⟩ (.ofText "01") .empty
    ((after (run (3 : Nat) 0) s).sim.budgetExhausted = true ∧
      (after (run (3 : Nat) 0) s).sim.stepCount = s.sim.stepCount + 3 ∧
      outcome (run (4 : Nat) 0) (after (run (3 : Nat) 0) s) = outcome (run (3 + 4 : Nat) 0) s) ∧
    ((after (run (20 : Nat) 0) s).sim.budgetExhausted = false ∧
      run (20 + 4 : Nat) 0 s = run (20 : Nat) 0 s ∧ run 0 21 s = run (20 : Nat) 0 s) := by
  intro s
  have spent : (after (run (3 : Nat) 0) s).sim.budgetExhausted = true := by decide +kernel
  have unspent : (after (run (20 : Nat) 0) s).sim.budgetExhausted = false := by decide +kernel
  obtain ⟨-, count, -, -, resumed, -⟩ :=
    (step_budgets_compose s (a := 3) (b := 4) (by decide) (by decide) 0).2.1 spent
  have ended := (step_budgets_compose s (a := 20) (b := 4) (by decide) (by decide) 0).2.2 (.inl unspent)
  exact ⟨⟨spent, count, resumed⟩, unspent, ended.1, ended.2 21 (by decide)⟩

end SimM

end MachineLab
