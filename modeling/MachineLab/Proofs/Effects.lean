import MachineLab.Workshop.Basic

/-!
# Results of work that may fail

Work in a workshop, on a tape or with a simulator takes a state and gives a result or a fault, and in
both cases leaves a state behind.  `outcome` is the first part and `after` the second.

## Main definitions

* `outcome`, `after` — what some work gives and what it leaves behind.
* `conclude` — the two put together again.
* `Preserves` — work that keeps a property of the state.

## Main statements

* `bind_of_ok`, `bind_of_error` — how work is put together.
-/

namespace MachineLab

variable {ε σ α β : Type}

/-- A result can be recognised without comparing faults. -/
theorem eq_ok_of_toOption {x : Except ε α} {a : α} (h : x.toOption = some a) : x = .ok a := by
  cases x with
  | ok b => exact congrArg Except.ok (Option.some.inj h)
  | error e => cases h

/-- A computation in two parts gives a result exactly if both parts do. -/
theorem except_bind_eq_ok_iff {x : Except ε α} {f : α → Except ε β} {b : β} :
    x >>= f = .ok b ↔ ∃ a, x = .ok a ∧ f a = .ok b := by
  cases x with
  | ok a =>
    constructor
    · exact fun h => ⟨a, rfl, h⟩
    · rintro ⟨_, ⟨⟩, h⟩
      exact h
  | error e =>
    constructor
    · exact nofun
    · rintro ⟨_, ⟨⟩, -⟩

/-- What some work gives: a result or a fault. -/
def outcome (work : EStateM ε σ α) (s : σ) : Except ε α :=
  match work s with
  | .ok a _ => .ok a
  | .error e _ => .error e

/-- What some work leaves behind, whether it fails or not. -/
def after (work : EStateM ε σ α) (s : σ) : σ :=
  match work s with
  | .ok _ s' => s'
  | .error _ s' => s'

/-- Work that ends with an outcome and leaves a state behind. -/
def conclude (result : Except ε α) (s : σ) : EStateM.Result ε σ α :=
  match result with
  | .ok a => .ok a s
  | .error e => .error e s

theorem eq_conclude (work : EStateM ε σ α) (s : σ) :
    work s = conclude (outcome work s) (after work s) := by
  unfold outcome after
  cases work s <;> rfl

theorem eq_ok_of_outcome {work : EStateM ε σ α} {s : σ} {a : α} (h : outcome work s = .ok a) :
    work s = .ok a (after work s) := by
  have concluded := eq_conclude work s
  rwa [h] at concluded

theorem outcome_of_conclude {work : EStateM ε σ α} {s s' : σ} {result : Except ε α}
    (h : work s = conclude result s') : outcome work s = result := by
  rw [outcome, h]
  cases result <;> rfl

theorem after_of_conclude {work : EStateM ε σ α} {s s' : σ} {result : Except ε α}
    (h : work s = conclude result s') : after work s = s' := by
  rw [after, h]
  cases result <;> rfl

theorem conclude_eq_ok_iff {result : Except ε α} {s s' : σ} {a : α} :
    conclude result s = .ok a s' ↔ result = .ok a ∧ s = s' := by
  cases result <;> simp [conclude]

theorem outcome_of_ok {work : EStateM ε σ α} {s s' : σ} {a : α} (h : work s = .ok a s') :
    outcome work s = .ok a := by
  rw [outcome, h]

theorem outcome_of_error {work : EStateM ε σ α} {s s' : σ} {e : ε} (h : work s = .error e s') :
    outcome work s = .error e := by
  rw [outcome, h]

theorem after_of_ok {work : EStateM ε σ α} {s s' : σ} {a : α} (h : work s = .ok a s') :
    after work s = s' := by
  rw [after, h]

theorem after_of_error {work : EStateM ε σ α} {s s' : σ} {e : ε} (h : work s = .error e s') :
    after work s = s' := by
  rw [after, h]

theorem outcome_congr {work work' : EStateM ε σ α} {s s' : σ} (h : work s = work' s') :
    outcome work s = outcome work' s' := by
  rw [outcome, outcome, h]

theorem after_congr {work work' : EStateM ε σ α} {s s' : σ} (h : work s = work' s') :
    after work s = after work' s' := by
  rw [after, after, h]

/-! The steps that work is made of. -/

theorem get_apply (s : σ) : (get : EStateM ε σ σ) s = .ok s s := rfl

theorem modify_apply (f : σ → σ) (s : σ) : (modify f : EStateM ε σ PUnit) s = .ok ⟨⟩ (f s) := rfl

theorem throw_apply (e : ε) (s : σ) : (throw e : EStateM ε σ α) s = .error e s := rfl

/-- After a result, the rest of the work goes on with it. -/
theorem bind_of_ok {work : EStateM ε σ α} {rest : α → EStateM ε σ β} {s s' : σ} {a : α}
    (h : work s = .ok a s') : (work >>= rest) s = rest a s' := by
  simp only [bind, EStateM.bind, h]

/-- After a fault, nothing else is done. -/
theorem bind_of_error {work : EStateM ε σ α} {rest : α → EStateM ε σ β} {s s' : σ} {e : ε}
    (h : work s = .error e s') : (work >>= rest) s = .error e s' := by
  simp only [bind, EStateM.bind, h]

theorem tryCatch_of_ok {work : EStateM ε σ α} {handle : ε → EStateM ε σ α} {s s' : σ} {a : α}
    (h : work s = .ok a s') : (tryCatch work handle) s = .ok a s' := by
  change EStateM.tryCatch work handle s = _
  delta EStateM.tryCatch
  simp only [h]

/-- A handler goes on from what the fault left behind. -/
theorem tryCatch_of_error {work : EStateM ε σ α} {handle : ε → EStateM ε σ α} {s s' : σ} {e : ε}
    (h : work s = .error e s') : (tryCatch work handle) s = handle e s' := by
  change EStateM.tryCatch work handle s = _
  delta EStateM.tryCatch
  simp only [h]
  rfl

theorem tryCatch_apply (work : EStateM ε σ α) (handle : ε → EStateM ε σ α) (s : σ) :
    tryCatch work handle s =
      match work s with
      | .ok a s' => .ok a s'
      | .error e s' => handle e s' := by
  cases h : work s with
  | ok a s' => exact tryCatch_of_ok h
  | error e s' => exact tryCatch_of_error h

/-- If all that a handler does ends in a fault, a result is one of the work itself. -/
theorem ok_of_tryCatch_throw {work : EStateM ε σ α} {tidy : EStateM ε σ β} {s s' : σ} {a : α}
    (h : (tryCatch work fun e => do
      let _ ← tidy
      throw e) s = .ok a s') : work s = .ok a s' := by
  rw [tryCatch_apply] at h
  cases hwork : work s with
  | ok b s₁ =>
    rw [hwork] at h
    exact h
  | error e s₁ =>
    rw [hwork] at h
    simp only at h
    cases htidy : tidy s₁ with
    | ok b s₂ =>
      rw [bind_of_ok htidy] at h
      cases h
    | error e' s₂ =>
      rw [bind_of_error htidy] at h
      cases h

/-- Work in two parts gives a result exactly if both parts do. -/
theorem bind_eq_ok_iff {work : EStateM ε σ α} {rest : α → EStateM ε σ β} {s s' : σ} {b : β} :
    (work >>= rest) s = .ok b s' ↔ ∃ a s₁, work s = .ok a s₁ ∧ rest a s₁ = .ok b s' := by
  simp only [bind, EStateM.bind]
  cases work s with
  | ok a s₁ =>
    constructor
    · exact fun h => ⟨a, s₁, rfl, h⟩
    · rintro ⟨_, _, h, h'⟩
      cases h
      exact h'
  | error e s₁ =>
    constructor
    · intro h
      cases h
    · rintro ⟨_, _, h, -⟩
      cases h

/-! ## What work keeps -/

/-- Work keeps a property of the state, whether it fails or not. -/
def Preserves (P : σ → Prop) (work : EStateM ε σ α) : Prop := ∀ s, P s → P (after work s)

namespace Preserves

variable {P : σ → Prop}

theorem pure (a : α) : Preserves P (Pure.pure a : EStateM ε σ α) := fun _ h => h

theorem throw (e : ε) : Preserves P (throw e : EStateM ε σ α) := fun _ h => h

theorem get : Preserves P (get : EStateM ε σ σ) := fun _ h => h

theorem modify {f : σ → σ} (h : ∀ s, P s → P (f s)) :
    Preserves P (modify f : EStateM ε σ PUnit) := h

/-- What holds after the first part of some work and is kept by the rest holds after the whole. -/
theorem after_bind {work : EStateM ε σ α} {rest : α → EStateM ε σ β} {s : σ} (h : P (after work s))
    (hrest : ∀ a, Preserves P (rest a)) : P (after (work >>= rest) s) := by
  cases hwork : work s with
  | ok a s' =>
    rw [after_of_ok hwork] at h
    rw [after, bind_of_ok hwork]
    exact hrest a s' h
  | error e s' =>
    rw [after_of_error hwork] at h
    rw [after, bind_of_error hwork]
    exact h

theorem bind {work : EStateM ε σ α} {rest : α → EStateM ε σ β} (h : Preserves P work)
    (hrest : ∀ a, Preserves P (rest a)) : Preserves P (work >>= rest) :=
  fun s hs => after_bind (h s hs) hrest

theorem of_ok {work : EStateM ε σ α} (h : Preserves P work) {s s' : σ} {a : α}
    (hwork : work s = .ok a s') (hs : P s) : P s' := after_of_ok hwork ▸ h s hs

theorem tryCatch {work : EStateM ε σ α} {handle : ε → EStateM ε σ α} (h : Preserves P work)
    (hhandle : ∀ e, Preserves P (handle e)) : Preserves P (tryCatch work handle) := by
  intro s hs
  have first := h s hs
  cases hwork : work s with
  | ok a s' =>
    rw [after_of_ok hwork] at first
    rw [after_of_ok (tryCatch_of_ok hwork)]
    exact first
  | error e s' =>
    rw [after_of_error hwork] at first
    rw [after, tryCatch_of_error hwork]
    exact hhandle e s' first

end Preserves

end MachineLab
