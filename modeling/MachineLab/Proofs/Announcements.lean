import MachineLab.Proofs.Preview

/-!
# The state that listeners are shown

A simulator tells its listeners the name of the current state each time that it changes.  A machine
that has taken a transition does so before the submachine that had finished in its old state is given
up.  If the new state holds that submachine too, the submachine still counts as running at that
moment, and listeners are shown a level that is gone when the step is over.  In all other cases the
name that they are shown is the name of the state after the step.

## Main definitions

* `Journal.shown` — the names that listeners were shown.
* `Stage.Reheld` — a submachine has finished and is held by the next state too.

## Main statements

* `SimM.announces_start`, `announces_enter`, `announces_act` — the parts of a step show the name of
  the state that they leave.
* `Workshop.Tracks.stateName_of_moved` — the name at the moment of the announcement.
* `Workshop.shown_state_is_current_unless_reheld` — when the name that is shown is the current one.
-/

namespace MachineLab

open Relation

/-- The name that an event shows for the current state. -/
def Event.state? : Event → Option String
  | .simulator (.stateChanged name) => some name
  | _ => none

/-- The names that listeners were shown for the current state, the oldest first. -/
def Journal.shown (j : Journal) : List String := j.events.toList.filterMap Event.state?

theorem Journal.shown_tell (j : Journal) (e : Event) :
    (j.tell e).shown = j.shown ++ e.state?.toList := by
  unfold shown tell
  cases he : e.state? <;> simp [List.filterMap_append, he]

/-! ## What is shown -/

namespace SimM

variable {α β : Type}

/-- Work that shows no state. -/
def Mute (work : SimM α) : Prop := ∀ x, Preserves (fun s : Stage => s.journal.shown = x) work

/-- Work that shows one name if it succeeds: that of the state that it leaves. -/
def Announces (work : SimM Unit) : Prop :=
  ∀ s s', work s = .ok () s' → ∃ name, s'.shop.stateName s'.sim = .ok name ∧
    s'.journal.shown = s.journal.shown ++ [name]

namespace Mute

theorem bind {work : SimM α} {rest : α → SimM β} (h : Mute work) (hrest : ∀ a, Mute (rest a)) :
    Mute (work >>= rest) := fun x => (h x).bind fun a => hrest a x

theorem update (f : Simulator → Simulator) : Mute (update f) := fun _ => .modify fun _ h => h

theorem record (level : LogLevel) (message : String) : Mute (record level message) :=
  fun _ => .modify fun _ h => h

theorem tell {e : SimulatorEvent} (other : (Event.simulator e).state? = none) : Mute (tell e) := by
  refine fun _ => .modify fun s hs => ?_
  change (s.journal.tell _).shown = _
  rw [Journal.shown_tell, other, hs]
  exact List.append_nil _

theorem ofExcept (r : Except Fault α) : Mute (ofExcept r) := fun _ => Aloof.ofExcept r

theorem observe (f : Workshop → Simulator → Except Fault α) : Mute (observe f) :=
  fun _ => Aloof.observe f

theorem observeTape (f : Workshop → Simulator → Tape → Except Fault α) : Mute (observeTape f) :=
  fun _ => Aloof.observeTape f

theorem startOf (m : MachineId) : Mute (startOf m) := fun _ => Aloof.startOf m

theorem nameOf (m : MachineId) : Mute (nameOf m) := fun _ => Aloof.nameOf m

theorem logAction (message : String) : Mute (logAction message) :=
  bind (observe _) fun _ => update _

theorem validate (m : MachineId) : Mute (inShop (Work.validate m)) := by
  rintro _ s rfl
  have events := Work.silent_validate m ⟨s.shop, s.journal⟩ rfl
  unfold after at events
  unfold after inShop
  cases hwork : Work.validate m ⟨s.shop, s.journal⟩ with
  | ok u b =>
    rw [hwork] at events
    exact congrArg (·.toList.filterMap Event.state?) events
  | error e b =>
    rw [hwork] at events
    exact congrArg (·.toList.filterMap Event.state?) events

theorem onTape_advance (m : Machine) (q : State) (tr? : Option Transition) :
    Mute (onTape (m.advance q tr?)) := by
  rintro _ s rfl
  have deaf (watcher : Watcher) : Event.state? (.tapeChanged watcher) = none := rfl
  have quiet := m.preserves_advance (fun op => Tape.quiet_perform deaf op) q tr?
    ⟨s.tape, s.journal⟩ rfl
  unfold after at quiet
  unfold after onTape
  cases hwork : m.advance q tr? ⟨s.tape, s.journal⟩ with
  | ok a r =>
    rw [hwork] at quiet
    exact quiet
  | error e r =>
    rw [hwork] at quiet
    exact quiet

theorem advance (m : MachineId) (q : State) (tr? : Option Transition) : Mute (advance m q tr?) := by
  refine bind (fun _ => .get) fun s x => .tryCatch (onTape_advance _ _ _ x) fun e => ?_
  cases e with
  | machine f =>
    simp only
    cases haltNote? (s.shop.machine m).kind q f with
    | some note => exact .bind (logAction _ x) fun _ => .throw _
    | none => exact .bind (.pure _) fun _ => .throw _
  | refusal cause => exact .bind (.pure _) fun _ => .throw _
  | mismatch cause => exact .bind (.pure _) fun _ => .throw _

end Mute

theorem announces_announceState : Announces announceState := by
  intro s s' h
  obtain ⟨name, _, hname, h⟩ := bind_eq_ok_iff.mp h
  obtain ⟨found, rfl⟩ := observe_eq_ok_iff.mp hname
  cases h
  exact ⟨name, found, Journal.shown_tell ..⟩

theorem Announces.after_mute {work : SimM α} {rest : α → SimM Unit} (h : Mute work)
    (hrest : ∀ a, Announces (rest a)) : Announces (work >>= rest) := by
  intro s s' hbind
  obtain ⟨a, s₁, hwork, hrest'⟩ := bind_eq_ok_iff.mp hbind
  obtain ⟨name, found, shown⟩ := hrest a s₁ s' hrest'
  exact ⟨name, found, by rw [shown, (h _).of_ok hwork rfl]⟩

theorem announces_start : Announces start := by
  refine .after_mute (fun _ => .get) fun s => .after_mute (.startOf _) fun q => ?_
  refine .after_mute (.update _) fun _ => .after_mute (.logAction _) fun _ => ?_
  refine .after_mute (.nameOf _) fun _ => .after_mute (.record _ _) fun _ => ?_
  exact announces_announceState

theorem announces_enter (q : State) (inner : MachineId) : Announces (enter q inner) := by
  refine .after_mute (.startOf _) fun p => .after_mute (.nameOf _) fun name => ?_
  refine .after_mute (.update _) fun _ => .after_mute (.logAction _) fun _ => ?_
  exact .after_mute (.record _ _) fun _ => announces_announceState

theorem announces_take (m : MachineId) (tr : Transition) (new : State) :
    Announces (take m tr new) := by
  refine .after_mute (fun _ => .get) fun s => .after_mute (.observe _) fun source => ?_
  refine .after_mute (.update _) fun _ => .after_mute (.ofExcept _) fun _ => ?_
  refine .after_mute (.logAction _) fun _ => .after_mute (.ofExcept _) fun _ => ?_
  refine .after_mute (.record _ _) fun _ => .after_mute (.ofExcept _) fun _ => ?_
  exact .after_mute (.tell rfl) fun _ => announces_announceState

/-- Without a transition no machine moves. -/
theorem advance_none (m : MachineId) (q : State) (s : Stage) :
    ∃ e s', advance m q none s = .error e s' := by
  have fails : ∃ e r, (s.shop.machine m).advance q none ⟨s.tape, s.journal⟩ = .error e r := by
    simp only [Machine.advance, bind, EStateM.bind, get_apply]
    cases (s.shop.machine m).kind with
    | turing => exact ⟨_, _, rfl⟩
    | acceptor =>
      simp only
      split <;> exact ⟨_, _, rfl⟩
  obtain ⟨e, r, fails⟩ := fails
  rw [advance, bind_of_ok (get_apply s), tryCatch_of_error (onTape_of_error fails)]
  cases e with
  | refusal cause => exact ⟨_, _, rfl⟩
  | mismatch cause => exact ⟨_, _, rfl⟩
  | machine f =>
    simp only
    cases haltNote? (s.shop.machine m).kind q f with
    | none => exact ⟨_, _, rfl⟩
    | some note =>
      cases hlog : logAction note { s with tape := r.tape, journal := r.journal } with
      | ok u s' => exact ⟨_, _, bind_of_ok hlog⟩
      | error e s' => exact ⟨_, _, bind_of_error hlog⟩

theorem announces_act (m : MachineId) (q : State) : Announces (act m q) := by
  refine .after_mute (.observeTape _) fun chosen => ?_
  cases chosen with
  | some tr => exact .after_mute (.advance _ _ _) fun new => announces_take m tr new
  | none =>
    intro s₁ s₂ h
    obtain ⟨new, s₃, hadvance, -⟩ := bind_eq_ok_iff.mp h
    obtain ⟨e, s', fails⟩ := advance_none m q s₁
    cases hadvance.symm.trans fails

end SimM

/-! ## The name at the moment of the announcement -/

namespace Workshop

variable {w : Workshop}

/-- One more level makes a name longer. -/
theorem length_pathName_concat {labels : List String} (some : labels ≠ []) (label : String) :
    (pathName (labels ++ [label])).length = (pathName labels).length + label.length + 3 := by
  have join (labels : List String) (some : labels ≠ []) :
      (" (".intercalate (labels ++ [label])).length =
        (" (".intercalate labels).length + 2 + label.length := by
    induction labels with
    | nil => exact absurd rfl some
    | cons l rest ih =>
      cases rest with
      | nil =>
        have separator : " (".length = 2 := rfl
        simp [String.intercalate_cons_cons, String.length_append, separator]
      | cons l' rest =>
        have := ih (List.cons_ne_nil _ _)
        simp only [List.cons_append, String.intercalate_cons_cons, String.length_append] at this ⊢
        omega
  have levels : labels.length ≠ 0 := by simpa using some
  simp only [pathName, String.length_append, join labels some, String.length_ofList,
    List.length_replicate, List.length_append, List.length_singleton]
  omega

theorem pathName_concat_ne {labels : List String} (some : labels ≠ []) (label : String) :
    pathName (labels ++ [label]) ≠ pathName labels := by
  intro same
  have longer := length_pathName_concat some label
  rw [same] at longer
  omega

/-- The name of the current state is made of the labels of the running machines. -/
theorem stateName_of_stack {sim : Simulator} (frames : List Frame)
    (current : ∀ x ∈ frames, w.current? sim x.machine = .ok (some x.state))
    (hstack : w.stack sim = .ok (frames.map (·.machine))) :
    w.stateName sim = .ok (pathName (frames.map (·.state.label))) := by
  unfold stateName
  simp only [hstack, bind, Except.bind, Tracks.currentLabels_eq current, pure, Except.pure]

/-- The search for the stack ends at a frame inside whose state nothing runs. -/
theorem stackFrom_of_idle {sim : Simulator} {f : Frame} (d : Nat)
    (current : w.current? sim f.machine = .ok (some f.state))
    (idle : ∀ i, f.state.submachine = some i → sim.cursor? i = none) :
    w.stackFrom sim (d + 1) f.machine = .ok [f.machine] := by
  rw [stackFrom, stackBody, current]
  cases hsub : f.state.submachine with
  | none => simp [bind, Except.bind, hsub, pure, Except.pure]
  | some i => simp [bind, Except.bind, hsub, idle i hsub, Option.filter, pure, Except.pure]

/-- A frame is on top, or runs a machine inside its state; if that has finished, it is on top. -/
theorem Stacked.top_or_above {root : MachineId} {stack : List Frame} {f : Frame}
    (h : w.Stacked root stack) (hf : f ∈ stack) :
    (∃ below, stack = f :: below) ∨ ∃ g ∈ stack, f.state.submachine = some g.machine ∧
      (g.state.isFinal = true → ∃ below, stack = g :: f :: below) := by
  induction stack with
  | nil => cases hf
  | cons top rest ih =>
    rcases List.mem_cons.mp hf with rfl | hf
    · exact .inl ⟨rest, rfl⟩
    · obtain ⟨below, rfl⟩ | ⟨g, hg, inner, above⟩ := ih h.tail hf
      · exact .inr ⟨top, .head _, h.2.1, fun _ => ⟨below, rfl⟩⟩
      · refine .inr ⟨g, .tail _ hg, inner, fun final => ?_⟩
        obtain ⟨below, rfl⟩ := above final
        cases h.2.2.1 final

namespace Tracks

/-- A machine that has finished inside another is on top of the stack. -/
theorem top_of_finished {sim : Simulator} {stack : List Frame} {n i : MachineId}
    (h : w.Tracks sim stack) (sane : w.Sane) (finished : w.Finished sim n i) :
    ∃ g f below, stack = g :: f :: below ∧ f.machine = n ∧ g.machine = i ∧
      g.state.isFinal = true := by
  obtain ⟨⟨q, hq, inner⟩, p, hp, final⟩ := finished
  have running {m : MachineId} {q : State} (hq : w.current? sim m = .ok (some q)) :
      ∃ f ∈ stack, f.machine = m ∧ f.state = q := by
    obtain ⟨f, hf, rfl⟩ : ∃ f ∈ stack, f.machine = m := by
      by_contra none
      rw [h.current_of_absent fun f hf same => none ⟨f, hf, same⟩] at hq
      cases hq
    rw [h.current_of_mem sane hf] at hq
    cases hq
    exact ⟨f, hf, rfl, rfl⟩
  obtain ⟨f, hf, rfl, rfl⟩ := running hq
  obtain ⟨x, hx, rfl, rfl⟩ := running hp
  obtain ⟨below, rfl⟩ | ⟨g, hg, inner', top⟩ := h.stacked.top_or_above hf
  · exact absurd rfl (h.stacked.inner_absent sane.acyclic inner hx)
  · have same : g.machine = x.machine := Option.some.inj (inner'.symm.trans inner)
    have current := h.current_of_mem sane hg
    rw [same, hp] at current
    have state : x.state = g.state := by simpa using current
    obtain ⟨below, rfl⟩ := top (state ▸ final)
    exact ⟨g, f, below, rfl, rfl, same, state ▸ final⟩

/-! A frame below one that has finished has moved, and the latter is not given up yet. -/

variable {sim sim' : Simulator} {f g : Frame} {below : List Frame} {q : State}
  (h : w.Tracks sim (g :: f :: below)) (sane : w.Sane) (hq : q ∈ (w.machine f.machine).states)
  (cursor : ∀ m, sim'.cursor? m = if m = f.machine then some q.id else sim.cursor? m)

include h sane cursor

theorem cursor_of_finished : sim'.cursor? g.machine = some g.state.id := by
  have above : g.machine ≠ f.machine := fun same => sane.acyclic _ (.single (same ▸ h.stacked.nests))
  rw [cursor, if_neg above, h.cursor_of_mem (.head _)]

theorem current_of_finished : w.current? sim' g.machine = .ok (some g.state) := by
  rw [current?, h.cursor_of_finished sane cursor]
  simp only
  rw [stateAt_eq (sane.arena _) h.stacked.live_top]
  rfl

include hq

theorem current_of_moved : ∀ x ∈ (⟨f.machine, q⟩ : Frame) :: below,
    w.current? sim' x.machine = .ok (some x.state) := by
  intro x hx
  rcases List.mem_cons.mp hx with rfl | hx
  · simp only [current?, cursor, if_true]
    rw [stateAt_eq (sane.arena _) hq]
    rfl
  · have other : x.machine ≠ f.machine := fun same =>
      sane.acyclic _ (same ▸ h.stacked.tail.path hx)
    rw [← h.current_of_mem sane (.tail _ (.tail _ hx))]
    simp only [current?, cursor, if_neg other]

/-- From the frame that has moved the search for the stack comes to the finished machine exactly if the
new state holds that machine. -/
theorem stackFrom_of_moved {d : Nat} (deep : w.Within (d + 1) f.machine) :
    w.stackFrom sim' (d + 1) f.machine =
      .ok (f.machine :: if q.submachine = some g.machine then [g.machine] else []) := by
  have idle {i : MachineId} (absent : ∀ x ∈ g :: f :: below, x.machine ≠ i) :
      sim'.cursor? i = none := by
    rw [cursor, if_neg (absent f (.tail _ (.head _))).symm, h.cursor_of_absent absent]
  have current := h.current_of_moved sane hq cursor _ (.head _)
  by_cases held : q.submachine = some g.machine
  · have within : w.Within d g.machine := deep _ ((w.nests_iff _ _).mpr ⟨q, hq, held⟩)
    cases d with
    | zero => exact within.elim
    | succ d =>
      have inner := stackFrom_of_idle d (h.current_of_finished sane cursor) fun i hi =>
        idle fun x hx => h.stacked.inner_absent sane.acyclic hi hx
      rw [stackFrom, stackBody, current]
      simp [bind, Except.bind, held, Option.filter, h.cursor_of_finished sane cursor, inner, pure,
        Except.pure]
  · rw [if_neg held, stackFrom_of_idle (f := ⟨f.machine, q⟩) d current]
    intro i hi
    refine idle fun x hx => ?_
    rcases List.mem_cons.mp hx with rfl | hx
    · rintro rfl
      exact held hi
    · -- Nothing else runs inside a frame of the stack.
      have stacked := h.stacked.tail.replace_top hq
      have self := stacked.inner_absent sane.acyclic (f := ⟨f.machine, q⟩) hi (.head _)
      rcases List.mem_cons.mp hx with rfl | hx
      · exact self
      · exact stacked.inner_absent sane.acyclic hi (.tail _ hx)

/-- The name of the state at that moment: the finished machine has a level in it exactly if the new
state holds that machine. -/
theorem stateName_of_moved (known : sim.machine.index < w.machines.length)
    (machine : sim'.machine = sim.machine) :
    w.stateName sim' = .ok (pathName ((q.label :: below.map (·.state.label)).reverse ++
      if q.submachine = some g.machine then [g.state.label] else [])) := by
  have current := h.current_of_moved sane hq cursor
  have turing : (w.machine sim.machine).kind = .turing := by
    obtain ⟨i, edge, -⟩ := TransGen.head'_iff.mp (.tail' h.stacked.tail.path_root h.stacked.nests)
    exact sane.flat _ _ edge
  obtain ⟨d, deep, reach⟩ := stackFrom_reach (h.stacked.tail.replace_top hq) current
    (sane.within known)
  rw [h.stackFrom_of_moved sane hq cursor deep] at reach
  have hstack : w.stack sim' = w.stackFrom sim' w.machines.length sim.machine := by
    unfold stack
    rw [machine, turing]
  rw [stateName_of_stack ((⟨f.machine, q⟩ :: below).reverse ++
    if q.submachine = some g.machine then [g] else [])]
  · split <;> simp
  · intro x hx
    rcases List.mem_append.mp hx with hx | hx
    · exact current x (List.mem_reverse.mp hx)
    · split at hx
      · rw [List.mem_singleton.mp hx]
        exact h.current_of_finished sane cursor
      · cases hx
  · rw [hstack, reach]
    split <;> simp [Except.map]

end Tracks

end Workshop

/-! ## Steps -/

namespace Stage.Stands

open Workshop

variable {s : Stage} {w : Workshop} {root : MachineId} {stack : List Frame} {t : Tape}
  (h : s.Stands w root (stack, t)) (known : root.index < w.machines.length) (clean : w.Clean root)
  (gives : outcome SimM.step s = .ok ())

include h known clean gives

/-- A step that succeeds starts or goes on; neither the validation nor the last report shows a state. -/
theorem exists_shown_step :
    ∃ s₀ s₁ : Stage, s₀.Stands w root (stack, t) ∧ s₀.journal.shown = s.journal.shown ∧
      SimM.startOrProceed s₀ = .ok () s₁ ∧ (after SimM.step s).shop = s₁.shop ∧
      (after SimM.step s).sim = s₁.sim ∧ (after SimM.step s).journal.shown = s₁.journal.shown := by
  obtain ⟨b, hvalidate, alike, good⟩ := h.validate_eq known
  rw [clean.pass h.sane known] at hvalidate
  have shown := (SimM.Mute.validate s.sim.machine s.journal.shown).of_ok hvalidate rfl
  have hstep : SimM.step s = .ok () (after SimM.step s) := by
    rw [eq_conclude SimM.step s, gives]
    rfl
  rw [SimM.step_of_valid hvalidate] at hstep
  obtain ⟨⟨⟩, s₁, hpart, hreport⟩ := bind_eq_ok_iff.mp hstep
  obtain ⟨_, _, ⟨⟩, hreport⟩ := bind_eq_ok_iff.mp hreport
  obtain ⟨text, s₂, hobserve, hreport⟩ := bind_eq_ok_iff.mp hreport
  obtain ⟨-, rfl⟩ := SimM.ofExcept_eq_ok_iff.mp hobserve
  have landed := (EStateM.Result.ok.inj hreport).2
  have told := (SimM.Mute.tell (e := .stepProcessed s₁.sim.stepCount text) rfl _).of_ok hreport rfl
  refine ⟨{ s with
      shop := b.shop, journal := b.journal,
      sim := { s.sim with stepCount := s.sim.stepCount + 1 } }, s₁, ?_, shown, hpart, ?_, ?_, told⟩
  · exact ⟨h.alike.trans alike, good, h.here.machine,
      (alike.tracks h.here.tracks).congr rfl fun _ => rfl, h.here.tape⟩
  · rw [← landed]
  · rw [← landed]

/-- A step that gives up no submachine shows the name of the state after it. -/
theorem shown_step_of_running
    (running : ∀ g below, stack = g :: below → g.state.isFinal = true → below = []) :
    ∃ name, (after SimM.step s).shop.stateName (after SimM.step s).sim = .ok name ∧
      (after SimM.step s).journal.shown = s.journal.shown ++ [name] := by
  obtain ⟨s₀, s₁, h₀, before, hpart, shop, sim, shown⟩ := h.exists_shown_step known clean gives
  rw [shop, sim, shown, ← before]
  cases stack with
  | nil =>
    have idle := h₀.tracks.cursor_of_absent (m := s₀.sim.machine) fun f hf => by cases hf
    unfold SimM.startOrProceed at hpart
    rw [idle] at hpart
    exact SimM.announces_start s₀ s₁ hpart
  | cons g below =>
    have focus := h₀.here.tracks.focus_of_running h₀.good.sane
      (h₀.here.machine ▸ h₀.alike.length ▸ known) (running g below rfl)
    rw [h₀.startOrProceed_eq, SimM.proceed, bind_of_ok (SimM.observe_of_ok focus)] at hpart
    cases hsub : g.state.submachine with
    | some i =>
      rw [hsub] at hpart
      exact SimM.announces_enter g.state i s₀ s₁ hpart
    | none =>
      rw [hsub] at hpart
      obtain ⟨⟨⟩, s₂, hact, ⟨⟩⟩ := bind_eq_ok_iff.mp hpart
      exact SimM.announces_act g.machine g.state s₀ s₁ hact

end Stage.Stands

namespace Stage.Stands

open Workshop

variable {s : Stage} {w : Workshop} {root : MachineId} {g f : Frame} {below : List Frame} {t : Tape}
  (h : s.Stands w root (g :: f :: below, t)) (known : root.index < w.machines.length)
  (clean : w.Clean root) (gives : outcome SimM.step s = .ok ())

include h known clean gives

/-- A step that gives up a submachine shows a level for it if the new state holds it too. -/
theorem shown_step_of_finished (final : g.state.isFinal = true) :
    ∃ q t', (after SimM.step s).Stands w root (⟨f.machine, q⟩ :: below, t') ∧
      (after SimM.step s).journal.shown = s.journal.shown ++
        [pathName ((q.label :: below.map (·.state.label)).reverse ++
          if q.submachine = some g.machine then [g.state.label] else [])] := by
  have move : turn root (g :: f :: below) = .move f below := if_pos final
  obtain ⟨hgo, stands⟩ := h.step_of_move known clean move
  obtain ⟨s₀, s₁, h₀, before, hpart, shop, sim, shown⟩ := h.exists_shown_step known clean gives
  have focus := h₀.here.tracks.focus_of_finished h₀.good.sane
    (h₀.here.machine ▸ h₀.alike.length ▸ known) final
  rw [h₀.startOrProceed_eq, SimM.proceed, bind_of_ok (SimM.observe_of_ok focus)] at hpart
  obtain ⟨⟨⟩, s₂, hact, hclear⟩ := bind_eq_ok_iff.mp hpart
  obtain ⟨name, found, told⟩ := SimM.announces_act f.machine f.state s₀ s₂ hact
  rw [← h₀.go_eq] at hgo stands
  cases hmove : (s₀.shop.machine f.machine).go f.state s₀.tape with
  | error e =>
    rw [hmove, gives] at hgo
    cases hgo
  | ok there =>
    obtain ⟨q, t'⟩ := there
    rw [hmove] at stands
    have stacked := h₀.here.tracks.stacked.tail
    have hf := stacked.live_top
    have rules := ((h₀.alike.clean root).mpr clean).rules (h₀.here.machine ▸ stacked.path_root)
    obtain ⟨-, -, -, hq, -, -⟩ := (h₀.good.sane.arena _).go_eq_ok hmove
    obtain ⟨s₃, hact', rep⟩ := SimM.act_of_ok h₀.good.sane (.of_tracks h₀.here.tracks) rules hf hmove
    cases hact.symm.trans hact'
    have cursor (m : MachineId) :
        s₂.sim.cursor? m = if m = f.machine then some q.id else s₀.sim.cursor? m :=
      (rep.cursor? m).trans (s₀.sim.cursor?_setCursor ..)
    have moved := h₀.here.tracks.stateName_of_moved h₀.good.sane hq cursor
      (h₀.here.machine ▸ h₀.alike.length ▸ known) rep.machine
    rw [show s₂.shop = s₀.shop from rep.shop, moved] at found
    cases found
    refine ⟨q, t', stands, ?_⟩
    -- The finished submachine is given up without a word.
    have same : s₁.journal = s₂.journal := by rw [← (EStateM.Result.ok.inj hclear).2]
    rw [shown, same, told, before]

end Stage.Stands

/-! ## When the name is that of the current state -/

/-- Machine `i` had finished, in state `p`, inside the state of machine `n`, and the state in which
`n` is after it holds `i` again. -/
structure Stage.Reheld (s s' : Stage) (n i : MachineId) (p : State) : Prop where
  inside : s.shop.RunsInside s.sim n i
  current : s.shop.current? s.sim i = .ok (some p)
  final : p.isFinal = true
  again : s'.shop.RunsInside s'.sim n i

namespace Stage.Stands

open Workshop

variable {s s' : Stage} {w : Workshop} {root n i : MachineId} {p : State} {stack : List Frame} {t : Tape}

theorem top_of_reheld (h : s.Stands w root (stack, t)) (reheld : s.Reheld s' n i p) :
    ∃ g f below, stack = g :: f :: below ∧ f.machine = n ∧ g.machine = i ∧ g.state = p := by
  obtain ⟨g, f, below, rfl, hf, rfl, -⟩ :=
    h.here.tracks.top_of_finished h.good.sane ⟨reheld.inside, p, reheld.current, reheld.final⟩
  have current := reheld.current
  rw [h.here.tracks.current_of_mem h.good.sane (.head _)] at current
  cases current
  exact ⟨g, f, below, rfl, hf, rfl, rfl⟩

/-- A finished submachine is held by the next state too exactly if that has it as its submachine. -/
theorem reheld_iff {g f : Frame} {below : List Frame} {q : State} {t' : Tape}
    (h : s.Stands w root (g :: f :: below, t)) (final : g.state.isFinal = true)
    (h' : s'.Stands w root (⟨f.machine, q⟩ :: below, t')) :
    s.Reheld s' n i p ↔
      n = f.machine ∧ i = g.machine ∧ p = g.state ∧ q.submachine = some g.machine := by
  have current' := h'.here.tracks.current_of_mem h'.good.sane (.head _)
  constructor
  · intro reheld
    obtain ⟨_, _, _, ⟨⟩, rfl, rfl, rfl⟩ := h.top_of_reheld reheld
    obtain ⟨q', hq', again⟩ := reheld.again
    cases current'.symm.trans hq'
    exact ⟨rfl, rfl, rfl, again⟩
  · rintro ⟨rfl, rfl, rfl, again⟩
    exact ⟨⟨f.state, h.here.tracks.current_of_mem h.good.sane (.tail _ (.head _)),
      h.here.tracks.stacked.2.1⟩, h.here.tracks.current_of_mem h.good.sane (.head _), final,
      ⟨q, current', again⟩⟩

theorem stateName_eq (h : s.Stands w root (stack, t)) (known : root.index < w.machines.length) :
    s.shop.stateName s.sim = .ok (pathName (stack.map (·.state.label)).reverse) :=
  h.here.tracks.stateName_eq h.good.sane (h.here.machine ▸ h.alike.length ▸ known)

end Stage.Stands

namespace Workshop

variable {w : Workshop} {m : MachineId}

/-- **The state that listeners are shown is the current one, unless a submachine is held again.**
Whatever was asked of a simulator of a valid machine since it was made: a step that succeeds shows
one name.  It is the name of the state after the step exactly if no submachine had finished in the old
state of its machine that the new state holds too.  If there is one, the name that is shown has one
level more, with the label of the final state that the submachine is no longer in. -/
theorem shown_state_is_current_unless_reheld (h : w.Reachable) (hm : m.index < w.machines.length)
    {j₀ : Journal} (valid : outcome (Work.validate m) ⟨w, j₀⟩ = .ok ()) (t : Tape) (j : Journal)
    (calls : List Call) :
    let s := Call.performAll calls (.fresh w m t j)
    let s' := after SimM.step s
    outcome SimM.step s = .ok () →
    ∃ labels stale, s'.shop.stateName s'.sim = .ok (pathName labels) ∧
      s'.journal.shown = s.journal.shown ++ [pathName (labels ++ stale)] ∧
      (pathName (labels ++ stale) = pathName labels ↔ ∀ n i p, ¬ s.Reheld s' n i p) ∧
      ∀ n i p, s.Reheld s' n i p → stale = [p.label] := by
  intro s s' gives
  have clean := h.good.clean_of_valid hm valid
  obtain ⟨⟨stack, t₁⟩, stands⟩ : s.Standing w m := h.standing hm t j calls
  by_cases finished : ∃ g f below, stack = g :: f :: below ∧ g.state.isFinal = true
  · obtain ⟨g, f, below, rfl, final⟩ := finished
    obtain ⟨q, t', stands', shown⟩ := stands.shown_step_of_finished hm clean gives final
    refine ⟨_, _, stands'.stateName_eq hm, shown, ?_, fun n i p reheld => ?_⟩
    · by_cases held : q.submachine = some g.machine
      · have reheld := (stands.reheld_iff final stands').mpr ⟨rfl, rfl, rfl, held⟩
        refine iff_of_false (fun same => ?_) fun none => none _ _ _ reheld
        rw [if_pos held] at same
        exact pathName_concat_ne (by simp) g.state.label same
      · rw [if_neg held, List.append_nil]
        refine iff_of_true rfl fun n i p reheld => ?_
        obtain ⟨-, -, -, held'⟩ := (stands.reheld_iff final stands').mp reheld
        exact held held'
    · obtain ⟨-, -, rfl, held⟩ := (stands.reheld_iff final stands').mp reheld
      exact if_pos held
  · have running (g : Frame) (below : List Frame) (hstack : stack = g :: below)
        (final : g.state.isFinal = true) : below = [] := by
      cases below with
      | nil => rfl
      | cons f rest => exact absurd ⟨g, f, rest, hstack, final⟩ finished
    have none (n i : MachineId) (p : State) : ¬ s.Reheld s' n i p := fun reheld => by
      obtain ⟨g, f, below, hstack, -, -, rfl⟩ := stands.top_of_reheld reheld
      exact finished ⟨g, f, below, hstack, reheld.final⟩
    obtain ⟨name, found, shown⟩ := stands.shown_step_of_running hm clean gives running
    obtain ⟨-, stands'⟩ := stands.step_of_clean hm clean
    rw [stands'.stateName_eq hm] at found
    cases found
    refine ⟨_, [], stands'.stateName_eq hm, ?_, ?_, fun n i p reheld => absurd reheld (none n i p)⟩
    · rw [List.append_nil]
      exact shown
    · rw [List.append_nil]
      exact iff_of_true rfl none

/-- Two states of the outer machine hold the one in the middle.  When the outer machine goes from one to
the other, listeners are shown a level for the final state of the middle machine. -/
theorem threeLevels_shows_a_stale_level :
    let s := Call.performAll [.run 4 0] (.fresh threeLevels.shop ⟨0⟩ (.ofText "10") Journal.empty)
    let s' := after SimM.step s
    threeLevels.shop.Reachable ∧ outcome SimM.step s = .ok () ∧
    ∃ labels, s'.shop.stateName s'.sim = .ok (pathName labels) ∧
      s'.journal.shown = s.journal.shown ++ [pathName (labels ++ ["e"])] := by
  intro s s'
  have valid : outcome (Work.validate ⟨0⟩) ⟨threeLevels.shop, Journal.empty⟩ = .ok () :=
    eq_ok_of_toOption (by decide +kernel)
  have gives : outcome SimM.step s = .ok () := eq_ok_of_toOption (by decide +kernel)
  obtain ⟨labels, stale, name, shown, -, level⟩ :=
    shown_state_is_current_unless_reheld threeLevels_reachable (m := ⟨0⟩) (by decide +kernel) valid
      (.ofText "10") Journal.empty [.run 4 0] gives
  have reheld : s.Reheld s' ⟨0⟩ ⟨1⟩ ⟨1, "e", false, true, [], none⟩ :=
    ⟨⟨⟨0, "a", true, false, [0], some ⟨1⟩⟩, eq_ok_of_toOption (by decide +kernel), rfl⟩,
      eq_ok_of_toOption (by decide +kernel), rfl,
      ⟨⟨1, "b", false, false, [1], some ⟨1⟩⟩, eq_ok_of_toOption (by decide +kernel), rfl⟩⟩
  rw [level _ _ _ reheld] at shown
  exact ⟨threeLevels_reachable, gives, labels, name, shown⟩

/-- After that step the current state is `b`, and the last name that listeners were shown is another. -/
theorem last_shown_state_is_not_current :
    let s := Call.performAll [.run 4 0] (.fresh threeLevels.shop ⟨0⟩ (.ofText "10") Journal.empty)
    let s' := after SimM.step s
    outcome SimM.step s = .ok () ∧ s'.shop.stateName s'.sim = .ok "b" ∧
      s'.journal.shown.getLast? = some "b (e)" :=
  ⟨eq_ok_of_toOption (by decide +kernel), eq_ok_of_toOption (by decide +kernel), by decide +kernel⟩

end Workshop

end MachineLab
