import MachineLab.Archive.Files
import MachineLab.Proofs.Strays

/-!
# Faults that loading reports

Loading a machine turns the faults of a document into a report, all but those of a number that is out of
range or of a text that is nested too deep, which it leaves to the caller.  No document has such a fault:
a document is taken apart field by field and built up through the ordinary edits, and none of these does
arithmetic with its values.  So loading a machine from a file gives a machine or nothing, whatever the
file holds, if only there is room to read it.

## Main definitions

* `Fault.Reported` — a fault that loading reports.
* `Work.Complains` — work that fails only with such faults.

## Main statements

* `Work.complains_readTo` — reading a document is such work.
* `DeskM.loadMachine_of_absent`, `loadMachine_of_deep`, `loadMachine_of_unreadable`,
  `loadMachine_of_refused`, `loadMachine_of_accepted` — what loading gives, whatever the file.
-/

namespace MachineLab

/-- A fault that loading a machine reports. -/
def Fault.Reported (e : Fault) : Prop := (LoadError.fault e).escaping? = none

theorem Fault.reported_machine (cause : MachineFault) : (Fault.machine cause).Reported := rfl

theorem Fault.reported_refusal (cause : Refusal) : (Fault.refusal cause).Reported := rfl

theorem Fault.reported_mismatch {cause : Mismatch}
    (h : ¬ (cause.family = .range ∨ cause.family = .depth)) : (Fault.mismatch cause).Reported :=
  if_neg h

theorem Fault.reported_lacks (v : Value) (operation : String) : (Fault.lacks v operation).Reported :=
  reported_mismatch nofun

/-- A computation that fails only with faults that loading reports. -/
abbrev Complains {α : Type} (x : Except Fault α) : Prop := Yields Fault.Reported (fun _ => True) x

/-! ## Taking values apart -/

namespace Value

theorem complains_item (v : Value) (key : String) : Complains (v.item key) := by
  unfold item
  split
  · split
    · trivial
    · exact Fault.reported_refusal _
  · exact Fault.reported_mismatch nofun

theorem complains_optionalItem (v : Value) (key : String) : Complains (v.optionalItem key) := by
  unfold optionalItem
  split
  · trivial
  · exact Fault.reported_lacks _ _

theorem complains_elements (v : Value) : Complains v.elements := by
  unfold elements
  split
  · trivial
  · trivial
  · trivial
  · exact Fault.reported_mismatch nofun

theorem complains_lookupIn {α : Type} (key : Value) (table : List (Value × α)) :
    Complains (key.lookupIn table) := by
  unfold lookupIn
  split
  · trivial
  · exact Fault.reported_mismatch nofun

end Value

theorem Kind.complains_ofTag (tag : Value) : Complains (Kind.ofTag tag) := by
  unfold Kind.ofTag
  split
  · trivial
  · split
    · trivial
    · exact Fault.reported_refusal _

theorem Direction.complains_ofName (name : Value) : Complains (Direction.ofName name) := by
  unfold Direction.ofName
  split
  · dsimp only
    split_ifs
    · trivial
    · trivial
    · trivial
    · exact Fault.reported_refusal _
  · exact Fault.reported_lacks _ _

namespace Alphabet

theorem complains_place (symbol : List Char) : Complains (place symbol) := by
  unfold place
  split
  · trivial
  · split
    · exact Fault.reported_mismatch nofun
    · trivial

theorem complains_setSymbol (a : Alphabet) (symbol : Value) (included : Bool) :
    Complains (a.setSymbol symbol included) := by
  unfold setSymbol
  split
  · rename_i s
    have := complains_place (Text.upper s).toList
    split
    · trivial
    · trivial
    · rename_i e failed
      rwa [failed] at this
  · exact Fault.reported_lacks _ _

theorem complains_ofSymbols (symbols : List Value) (blank : Bool) :
    Complains (ofSymbols symbols blank) := by
  unfold ofSymbols
  generalize bare blank = a
  induction symbols generalizing a with
  | nil => trivial
  | cons s rest ih => exact (complains_setSymbol a s true).bind fun a' _ => ih a'

theorem complains_ofValue (v : Value) : Complains (ofValue v) := by
  unfold ofValue
  split
  · exact complains_ofSymbols _ _
  · exact Fault.reported_lacks _ _

end Alphabet

/-! ## Building machines -/

theorem Workshop.complains_idOf (v : Value) : Complains (idOf v) := by
  unfold idOf
  split
  · trivial
  · exact Fault.reported_mismatch nofun

theorem Workshop.complains_state (w : Workshop) (m : MachineId) (r : Ref) :
    Complains (w.state m r) := by
  unfold Workshop.state
  cases r with
  | value v =>
    have looked := complains_idOf v
    dsimp only
    cases known : idOf v with
    | error e => rwa [known] at looked
    | ok id? =>
      dsimp only [Except.map]
      cases id?.bind (w.machine m).state? with
      | none => exact Fault.reported_refusal _
      | some s => trivial
  | state owner id =>
    dsimp only
    cases if owner = m then (w.machine m).state? id else none with
    | none => exact Fault.reported_refusal _
    | some s => trivial
  | transition owner id => exact Fault.reported_refusal _

namespace Work

/-- Work that fails only with faults that loading reports. -/
abbrev Complains {α : Type} (work : Work α) : Prop :=
  Meets (fun _ : Bench => True) Fault.Reported (fun _ => True) work

theorem complains_of_conclude {α : Type} {work : Work α} {x : Bench → Except Fault α}
    (same : ∀ b, work b = conclude (x b) b) (h : ∀ b, MachineLab.Complains (x b)) :
    Complains work := by
  intro b _
  have fits := h b
  rw [same b]
  cases hx : x b <;> rw [hx] at fits <;> exact ⟨trivial, fits⟩

theorem complains_ofExcept {α : Type} {x : Except Fault α} (h : MachineLab.Complains x) :
    Complains (ofExcept x) :=
  complains_of_conclude (ofExcept_eq x) fun _ => h

theorem complains_state (m : MachineId) (r : Ref) : Complains (state m r) :=
  complains_of_conclude (state_eq m r) fun b => b.shop.complains_state m r

theorem complains_addTransition (m : MachineId) (source target : Ref) (action : Action) :
    Complains (addTransition m source target action) := by
  unfold addTransition
  refine (complains_state m source).bind fun _ _ => (complains_state m target).bind fun _ _ => ?_
  refine Meets.bind (Q := fun _ => True) (complains_of_conclude (checkAction_eq m action) fun b => ?_)
    fun _ _ _ _ => ⟨trivial, trivial⟩
  split
  · trivial
  · exact Fault.reported_refusal _

theorem complains_attach (m : MachineId) (r : Ref) (inner : Option MachineId) :
    Complains (attach m r inner) := by
  unfold attach
  refine Meets.bind (Q := fun _ => True) (complains_of_conclude (requireNesting_eq m) fun b => ?_)
    fun _ _ => (complains_state m r).bind fun s _ => Meets.read fun b _ => ?_
  · split
    · trivial
    · exact Fault.reported_mismatch nofun
  · dsimp only
    split
    · exact Meets.throw (Fault.reported_refusal _)
    · split
      · exact Meets.throw (Fault.reported_machine _)
      · exact fun _ _ => ⟨trivial, trivial⟩

/-! ## Reading documents -/

theorem complains_readHead (v : Value) : MachineLab.Complains (readHead v) := by
  unfold readHead
  refine (v.complains_optionalItem "format").bind fun format _ => ?_
  split
  · exact Fault.reported_refusal _
  · refine (v.complains_optionalItem "version").bind fun version _ => ?_
    split
    · exact Fault.reported_refusal _
    · exact (v.complains_item "kind").bind fun tag _ => Kind.complains_ofTag tag

theorem complains_readAction (kind : Kind) (e : Value) : MachineLab.Complains (readAction kind e) := by
  unfold readAction
  cases kind with
  | turing =>
    refine (e.complains_item "direction").bind fun name _ => ?_
    refine (Direction.complains_ofName name).bind fun _ _ => ?_
    exact (e.complains_item "input").bind fun _ _ => (e.complains_item "output").bind fun _ _ => trivial
  | acceptor => exact (e.complains_item "input").bind fun _ _ => trivial

theorem complains_readEnd (known : List (Value × Nat)) (e : Value) (key : String) :
    MachineLab.Complains (readEnd known e key) := by
  unfold readEnd
  refine (e.complains_item key).bind fun id _ => (id.complains_lookupIn known).bind fun found _ => ?_
  cases found with
  | some n => trivial
  | none => exact Fault.reported_refusal _

theorem complains_readTransitions (m : MachineId) (kind : Kind) (known : List (Value × Nat))
    (entries : List Value) : Complains (readTransitions m kind known entries) := by
  induction entries with
  | nil => exact Meets.pure trivial
  | cons e rest ih =>
    unfold readTransitions
    refine (complains_ofExcept (complains_readAction kind e)).bind fun action _ => ?_
    refine (complains_ofExcept (complains_readEnd known e "from")).bind fun source _ => ?_
    refine (complains_ofExcept (complains_readEnd known e "to")).bind fun target _ => ?_
    refine Meets.bind (Q := fun _ => True) ?_ fun _ _ => ih
    exact (complains_addTransition m _ _ action).bind fun _ _ => Meets.pure trivial

section

variable {readInner : Value → Work MachineId} (inner : ∀ u, Complains (readInner u))
include inner

theorem complains_readNested (m : MachineId) (kind : Kind) (s : State) (u : Value) :
    Complains (readNested readInner m kind s u) := by
  unfold readNested
  split
  · exact Meets.pure trivial
  · exact Meets.throw (Fault.reported_refusal _)
  · exact (inner _).bind fun i _ => complains_attach m _ (some i)

theorem complains_readStates (m : MachineId) (kind : Kind) (known : List (Value × Nat))
    (entries : List Value) : Complains (readStates readInner m kind known entries) := by
  induction entries generalizing known with
  | nil => exact Meets.pure trivial
  | cons e rest ih =>
    unfold readStates
    refine (complains_ofExcept (e.complains_item "label")).bind fun label _ => ?_
    refine (complains_ofExcept (e.complains_item "start")).bind fun start _ => ?_
    refine (complains_ofExcept (e.complains_item "final")).bind fun final _ => ?_
    refine Meets.bind (Q := fun _ => True) (fun _ _ => ⟨trivial, trivial⟩) fun s _ => ?_
    refine (complains_ofExcept (e.complains_item "id")).bind fun id _ => ?_
    refine (complains_ofExcept (id.complains_lookupIn known)).bind fun found _ => ?_
    cases found with
    | some n => exact Meets.throw (Fault.reported_refusal _)
    | none =>
      refine (complains_ofExcept (e.complains_optionalItem "submachine")).bind fun u _ => ?_
      exact (complains_readNested inner m kind s u).bind fun _ _ => ih _

end

/-- **No document is refused because of a number that is out of range.** -/
theorem complains_readTo (d : Nat) (v : Value) : Complains (readTo d v) := by
  induction d generalizing v with
  | zero => exact Meets.throw (Fault.reported_refusal _)
  | succ d ih =>
    unfold readTo
    refine (complains_ofExcept (complains_readHead v)).bind fun kind _ => ?_
    refine (complains_ofExcept ((v.complains_item "alphabet").bind
      fun u _ => Alphabet.complains_ofValue u)).bind fun a _ => ?_
    -- bringing in the alphabet and the machine cannot fail
    refine Meets.bind (Q := fun _ => True) (fun _ _ => ⟨trivial, trivial⟩) fun i _ => ?_
    refine Meets.bind (Q := fun _ => True) (fun _ _ => ⟨trivial, trivial⟩) fun m _ => ?_
    refine (complains_ofExcept ((v.complains_item "states").bind
      fun u _ => u.complains_elements)).bind fun states _ => ?_
    refine (complains_readStates ih m kind [] states).bind fun known _ => ?_
    refine (complains_ofExcept ((v.complains_item "transitions").bind
      fun u _ => u.complains_elements)).bind fun transitions _ => ?_
    exact (complains_readTransitions m kind known transitions).bind fun _ _ => Meets.pure trivial

/-- A document that is refused leaves the workshop as it was, with a fault that loading reports. -/
theorem reported_of_readDocument {v : Value} {b b' : Bench} {e : Fault}
    (refused : readDocument v b = .error e b') : e.Reported ∧ b'.shop = b.shop := by
  have fits := complains_readTo (v.height + 1) v b trivial
  unfold readDocument atomically at refused
  cases h : readTo (v.height + 1) v b with
  | ok m b₁ =>
    rw [h] at refused
    cases refused
  | error e₁ b₁ =>
    rw [h] at refused fits
    cases refused
    exact ⟨fits.2, rfl⟩

end Work

/-! ## Loading -/

/-- Whatever keeps a file from giving a value is reported, but for a lack of room. -/
theorem Directory.escaping?_of_readJson {files : Directory} {room : Room} {path : String}
    {e : LoadError} (h : files.readJson room path = .error e)
    (shallow : ∀ bracket, e ≠ .json (.tooDeep bracket)) : e.escaping? = none := by
  unfold Directory.readJson checkPath at h
  split_ifs at h
  · cases h
    rfl
  · cases hread : files.read path with
    | error p =>
      simp only [hread] at h
      cases h
      rfl
    | ok bytes =>
      simp only [hread] at h
      cases hdecode : Text.Utf8.decode bytes with
      | error p =>
        simp only [hdecode] at h
        cases h
        rfl
      | ok text =>
        simp only [hdecode] at h
        cases hjson : Json.read room.reading (String.ofList (unifyLineBreaks text.toList)) with
        | error p =>
          simp only [hjson] at h
          cases h
          cases p with
          | malformed problem line column offset => rfl
          | longNumeral n => rfl
          | tooDeep bracket => exact absurd rfl (shallow bracket)
        | ok v =>
          simp only [hjson] at h
          cases h

namespace DeskM

variable {path : String} {d : Desk}

theorem refuseMachine_eq {e : LoadError} (reported : e.escaping? = none) :
    refuseMachine path e d = .ok none { d with
      journal := d.journal.record .error .archive
        ("Error loading machine file '" ++ path ++ "': " ++ e.message) } := by
  unfold refuseMachine
  rw [reported]
  rfl

theorem loadMachine_of_absent (absent : ¬ d.files.holds path = true) :
    ∃ journal, loadMachine path d = .ok none { d with journal } := by
  unfold loadMachine
  rw [bind_of_ok (get_apply d), if_pos (by simpa using absent)]
  exact ⟨_, rfl⟩

section

variable (present : d.files.holds path = true)
include present

theorem loadMachine_of_deep {bracket : Json.Bracket}
    (deep : d.files.readJson d.room path = .error (.json (.tooDeep bracket))) :
    loadMachine path d = .error (.mismatch (.deepText bracket)) d := by
  unfold loadMachine
  rw [bind_of_ok (get_apply d), if_neg (by simpa using present), deep]
  rfl

theorem loadMachine_of_unreadable {e : LoadError} (failed : d.files.readJson d.room path = .error e)
    (shallow : ∀ bracket, e ≠ .json (.tooDeep bracket)) :
    ∃ journal, loadMachine path d = .ok none { d with journal } := by
  unfold loadMachine
  rw [bind_of_ok (get_apply d), if_neg (by simpa using present), failed]
  exact ⟨_, refuseMachine_eq (Directory.escaping?_of_readJson failed shallow)⟩

variable {v : Value} (read : d.files.readJson d.room path = .ok v)
include read

theorem loadMachine_of_refused {e : Fault} {b : Bench}
    (refused : Work.readDocument v ⟨d.shop, d.journal⟩ = .error e b) :
    ∃ journal, loadMachine path d = .ok none { d with journal } := by
  obtain ⟨reported, shop⟩ := Work.reported_of_readDocument refused
  unfold loadMachine
  rw [bind_of_ok (get_apply d), if_neg (by simpa using present), read]
  simp only [refused, shop]
  exact ⟨_, refuseMachine_eq reported⟩

theorem loadMachine_of_accepted {m : MachineId} {b : Bench}
    (accepted : Work.readDocument v ⟨d.shop, d.journal⟩ = .ok m b) :
    ∃ journal, loadMachine path d = .ok (some m) { d with shop := b.shop, journal } := by
  unfold loadMachine
  rw [bind_of_ok (get_apply d), if_neg (by simpa using present), read]
  simp only [accepted]
  exact ⟨_, rfl⟩

end

end DeskM

end MachineLab
