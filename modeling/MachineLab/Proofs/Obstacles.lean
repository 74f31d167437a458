import MachineLab.Proofs.Restoring

/-!
# What stands in the way of reading a setting

The store is not under control of the settings: anything can be in it at the start.  A stored value is
converted and checked, and if it is of no use the default takes its place, so a setting reads as an allowed
value whatever is stored, with three exceptions.  An infinity has no integer part, and that fault is not taken
for a sign that the value is of no use.  Neither is a lack of room, for reading a text that should be a list
or for reporting a value.  And a value that is of no use has to be reported, which fails for an integer with
too many digits.

Nothing that is done with the settings puts such a value into the store.

## Main definitions

* `Definition.obstacle?` — why a stored value cannot be read.
* `Ledger.obstacle?` — why a setting cannot be read.
* `Holding.Kept` — what is stored was there at the start or is allowed.

## Main statements

* `Definition.settled` — which stored values can be read.
* `Ledger.settings_are_usable_but_for_obstacles` — what every setting reads as, whatever was stored and done.
* `Ledger.boundless_settings_cannot_be_read` — values that stand in the way.
-/

namespace MachineLab

/-! ## Obstacles -/

/-- A one with as many zeros as there may be digits is too long to be written. -/
theorem Value.writeError?_power {n : Nat} (long : Text.digitLimit ≤ n) (room : Nat) :
    (Value.int (10 ^ n)).writeError? room = some .longInteger := by
  have digits : ¬ (Nat.toDigits 10 (10 ^ n)).length ≤ Text.digitLimit := by
    rw [Nat.length_toDigits_le_iff (by decide) (by decide), Nat.not_lt]
    exact Nat.pow_le_pow_right (by decide) long
  simp [writeError?, Text.isShort, Int.natAbs_pow, digits]

/-- Why a text cannot be read as a list, if it cannot: there is no room to read it, or none to report that it
is something else. -/
def Settings.listObstacle? (room : Room) (s : String) : Option Mismatch :=
  match Json.read room.reading s with
  | .error (.tooDeep bracket) => some (.deepText bracket)
  | .ok (.list _) => none
  | .ok v => if v.writeError? room.writing = some .tooDeep then some (.unwritable .tooDeep) else none
  | _ => none

/-- Why a stored value cannot be read, if it cannot.  An infinity is no integer.  What cannot be written
cannot be reported either, but need not be where it is taken for a truth value or is a list as asked for. -/
def Definition.obstacle? (d : Definition) (room : Room) (v : Value) : Option Mismatch :=
  match d.default, v with
  | .bool _, _ => none
  | .int _, .float (.infinite _) => some .infiniteInteger
  | .list _, .list _ => none
  | .list _, .text s => Settings.listObstacle? room s
  | _, _ => (v.writeError? room.writing).map .unwritable

/-- Why a setting cannot be read, if it cannot.  What is remembered is read as it is. -/
def Ledger.obstacle? (l : Ledger) (d : Definition) : Option Mismatch :=
  match Dict.find? l.settings.cache d.key with
  | some _ => none
  | none => (Dict.find? l.store d.key).bind (d.obstacle? l.room)

namespace Settings

variable {v : Value} {e : Fault} {room : Room}

theorem spelled_of_writable (writable : v.writeError? room.writing = none) :
    spelled room v = .ok v.display := by
  rw [spelled, writable]

theorem spelled_of_unwritable {e : Value.WriteError} (unwritable : v.writeError? room.writing = some e) :
    spelled room v = .error (.mismatch (.unwritable e)) := by
  rw [spelled, unwritable]

/-- Only an infinity fails to become an integer with a fault that does not say that it is of no use. -/
theorem isBadValue_of_asInt (fails : asInt v = .error e) (finite : ∀ s, v ≠ .float (.infinite s)) :
    SettingsM.isBadValue e = true := by
  cases v with
  | bool b => cases fails
  | int n => cases fails
  | float x =>
    cases x with
    | nan =>
      cases fails
      rfl
    | infinite negative => exact absurd rfl (finite negative)
    | finite negative m k => cases fails
  | text s =>
    simp only [asInt] at fails
    split at fails <;> cases fails <;> rfl
  | _ =>
    cases fails
    rfl

end Settings

namespace Definition

open SettingsM

variable {d : Definition} {v c : Value} {e : Fault} {room : Room}

/-! ## Conversion -/

/-- What a stored value is converted to, in every ledger with the same room. -/
def converted (d : Definition) (room : Room) (v : Value) : Except Fault Value :=
  outcome (convert v d.default) { (Inhabited.default : Ledger) with room }

theorem checked_eq (d : Definition) (room : Room) (v : Value) :
    d.checked room v = do
      let c ← d.converted room v
      if ← d.validate c then return some c
      discard (Settings.spelled room c)
      return none := rfl

theorem converted_bool {b : Bool} (truth : d.default = .bool b) (room : Room) (v : Value) :
    d.converted room v = .ok (.bool (Settings.asBool v)) := by
  rw [converted, truth]
  rfl

theorem converted_int {n : Int} (integer : d.default = .int n) (room : Room) (v : Value) :
    d.converted room v = (Settings.asInt v).map .int := by
  rw [converted, integer]
  simp only [convert]
  cases Settings.asInt v <;> rfl

theorem converted_text {s : String} (text : d.default = .text s) (room : Room) (v : Value) :
    d.converted room v = .ok v := by
  rw [converted, text]
  rfl

/-- Where a list is asked for, what is neither a list nor a text is reported, and gives way to the default. -/
theorem converted_list {items : List Value} (list : d.default = .list items) (room : Room) (v : Value) :
    d.converted room v =
      match v with
      | .list _ => .ok v
      | .text s => Settings.listOfText room s
      | _ => (Settings.spelled room v).map fun _ => .list items := by
  rw [converted, list]
  cases v with
  | list items => rfl
  | text s =>
    change outcome (SettingsM.ofExcept (Settings.listOfText room s)) _ = Settings.listOfText room s
    cases Settings.listOfText room s <;> rfl
  | _ =>
    refine (outcome_bind_spell _ _ _).trans ?_
    generalize Settings.spelled _ _ = report
    cases report <;> rfl

/-- The defaults are truth values, integers, texts and lists. -/
theorem default_cases (hd : d ∈ all) :
    (∃ b, d.default = .bool b) ∨ (∃ n, d.default = .int n) ∨ (∃ s, d.default = .text s) ∨
      ∃ items, d.default = .list items := by
  simp only [all, List.mem_cons, List.not_mem_nil, or_false] at hd
  rcases hd with rfl | rfl | rfl | rfl | rfl | rfl
  · exact .inr (.inl ⟨_, rfl⟩)
  · exact .inr (.inr (.inl ⟨_, rfl⟩))
  · exact .inr (.inr (.inl ⟨_, rfl⟩))
  · exact .inr (.inl ⟨_, rfl⟩)
  · exact .inl ⟨_, rfl⟩
  · exact .inr (.inr (.inr ⟨_, rfl⟩))

/-! ## The check -/

/-- The check of a setting always comes to a verdict. -/
theorem exists_validate (hd : d ∈ all) (v : Value) : ∃ valid, d.validate v = .ok valid := by
  have bounded (d : Definition) {least greatest : Int} (plain : d.rule = none ∧ d.allowed = [])
      (integer : d.default.kind = .int) (bounds : d.least = .int least ∧ d.greatest = .int greatest) :
      ∃ valid, d.validate v = .ok valid := by
    by_cases kind : v.kind = d.default.kind
    · cases v with
      | int n => exact ⟨_, validate_int plain integer bounds n⟩
      | _ => cases kind.trans integer
    · exact ⟨false, by simp only [validate, plain.1, if_pos kind]⟩
  have unbounded (d : Definition) (plain : d.rule = none)
      (other : d.default.kind ≠ .int ∧ d.default.kind ≠ .float) : ∃ valid, d.validate v = .ok valid := by
    by_cases kind : v.kind = d.default.kind
    · have number : isNumber v = false := by
        cases v with
        | int n => exact absurd kind.symm other.1
        | float x => exact absurd kind.symm other.2
        | _ => rfl
      refine ⟨d.allowed.isEmpty || v.isIn d.allowed, ?_⟩
      simp [validate, plain, kind, number, pure, Except.pure]
    · exact ⟨false, by simp only [validate, plain, if_pos kind]⟩
  simp only [all, List.mem_cons, List.not_mem_nil, or_false] at hd
  rcases hd with rfl | rfl | rfl | rfl | rfl | rfl
  · exact bounded maxSteps ⟨rfl, rfl⟩ rfl ⟨rfl, rfl⟩
  · exact unbounded machineKind rfl (by decide)
  · exact ⟨isAlphabetText v, rfl⟩
  · exact bounded tapeCapacity ⟨rfl, rfl⟩ rfl ⟨rfl, rfl⟩
  · exact unbounded notifyViews rfl (by decide)
  · exact unbounded recentFiles rfl (by decide)

/-- Every list is allowed where a list is asked for. -/
theorem valid_list (hd : d ∈ all) (list : d.default.kind = .list) (items : List Value) :
    d.validate (.list items) = .ok true := by
  simp only [all, List.mem_cons, List.not_mem_nil, or_false] at hd
  rcases hd with rfl | rfl | rfl | rfl | rfl | rfl
  case inr.inr.inr.inr.inr => rfl
  all_goals cases list

/-- Where no list is asked for, a value that cannot be written is not allowed. -/
theorem invalid_of_unwritable (hd : d ∈ all) (other : d.default.kind ≠ .list) {e : Value.WriteError}
    (unwritable : v.writeError? room.writing = some e) : d.validate v ≠ .ok true := by
  intro valid
  have simple := simple_of_valid hd valid fun same => absurd (congrArg (·.default.kind) same) other
  cases unwritable.symm.trans (simple.writeError? room.one_le_writing)

theorem checked_of_error (fails : d.converted room v = .error e) : d.checked room v = .error e := by
  rw [checked_eq, fails]
  rfl

/-- A value that is converted to an allowed one, or to one that can be reported, passes the check or is
refused by it. -/
theorem checked_of_converted (hd : d ∈ all) (converts : d.converted room v = .ok c)
    (fine : d.validate c = .ok true ∨ c.writeError? room.writing = none) :
    ∃ found, d.checked room v = .ok found := by
  obtain ⟨valid, verdict⟩ := exists_validate hd c
  rw [checked_eq, converts]
  cases valid with
  | true => exact ⟨some c, by simp only [bind, Except.bind, verdict]; rfl⟩
  | false =>
    have writable := fine.resolve_left fun valid => by cases verdict.symm.trans valid
    have report := Settings.spelled_of_writable writable
    exact ⟨none, by simp only [bind, Except.bind, verdict, report]; rfl⟩

/-- It is the report of a refusal that fails. -/
theorem checked_of_unwritable (hd : d ∈ all) (converts : d.converted room v = .ok c)
    (invalid : d.validate c ≠ .ok true) {e : Value.WriteError}
    (unwritable : c.writeError? room.writing = some e) :
    d.checked room v = .error (.mismatch (.unwritable e)) := by
  obtain ⟨valid, verdict⟩ := exists_validate hd c
  rw [checked_eq, converts]
  cases valid with
  | true => exact absurd verdict invalid
  | false =>
    have report := Settings.spelled_of_unwritable unwritable
    simp only [bind, Except.bind, verdict, report]
    rfl

/-! ## Reading -/

theorem reading_eq (d : Definition) (room : Room) (stored : Option Value) :
    d.reading room stored = (d.own? room stored).getD (.ok d.default) :=
  outcome_search d .null stored { (Inhabited.default : Ledger) with room }

/-- A stored value reads as a value, or else reading fails with what stands in the way. -/
def Settled (d : Definition) (room : Room) (v : Value) : Prop :=
  match d.obstacle? room v with
  | none => ∃ u, d.reading room (some v) = .ok u
  | some cause => d.reading room (some v) = .error (.mismatch cause)

theorem settled_of_clear (clear : d.obstacle? room v = none)
    (read : ∃ u, d.reading room (some v) = .ok u) : d.Settled room v := by
  rw [Settled, clear]
  exact read

theorem settled_of_blocked {cause : Mismatch} (blocked : d.obstacle? room v = some cause)
    (read : d.reading room (some v) = .error (.mismatch cause)) : d.Settled room v := by
  rw [Settled, blocked]
  exact read

/-- Where only what cannot be reported stands in the way, a value is looked at in these two cases. -/
theorem settled_of_report (obstacle : d.obstacle? room v = (v.writeError? room.writing).map .unwritable)
    (clear : v.writeError? room.writing = none → ∃ u, d.reading room (some v) = .ok u)
    (blocked : ∀ e, v.writeError? room.writing = some e →
      d.reading room (some v) = .error (.mismatch (.unwritable e))) : d.Settled room v := by
  cases written : v.writeError? room.writing with
  | none =>
    refine settled_of_clear ?_ (clear written)
    rw [obstacle, written]
    rfl
  | some e =>
    refine settled_of_blocked ?_ (blocked e written)
    rw [obstacle, written]
    rfl

section Present

variable (present : v ≠ .null)
include present

theorem reading_of_checked {found : Option Value} (passes : d.checked room v = .ok found) :
    d.reading room (some v) = .ok (found.getD d.default) := by
  rw [reading_eq, d.own?_of_ne_null room (Option.getD_some ..) present, passes]
  cases found <;> rfl

/-- A value that is of no use gives way to the default once it is reported. -/
theorem reading_of_bad (fails : d.checked room v = .error e) (bad : isBadValue e = true) :
    d.reading room (some v) = (Settings.spelled room v).map fun _ => d.default := by
  rw [reading_eq, d.own?_of_ne_null room (Option.getD_some ..) present, fails]
  simp only [bad, if_true]
  cases Settings.spelled room v <;> rfl

theorem reading_of_fault (fails : d.checked room v = .error e) (other : isBadValue e = false) :
    d.reading room (some v) = .error e := by
  rw [reading_eq, d.own?_of_ne_null room (Option.getD_some ..) present, fails]
  simp only [other, Bool.false_eq_true, if_false]
  rfl

/-- A value that can be reported is read, or the default in its place, unless a fault says something else
than that it is of no use. -/
theorem exists_reading_of_writable (writable : v.writeError? room.writing = none)
    (fine : ∀ e, d.checked room v = .error e → isBadValue e = true) :
    ∃ u, d.reading room (some v) = .ok u := by
  cases checks : d.checked room v with
  | ok found => exact ⟨_, reading_of_checked present checks⟩
  | error e =>
    rw [reading_of_bad present checks (fine e checks), Settings.spelled_of_writable writable]
    exact ⟨d.default, rfl⟩

/-- Where a value of no use cannot be reported, that is the fault. -/
theorem reading_of_unwritable {e : Value.WriteError} (unwritable : v.writeError? room.writing = some e)
    {e' : Fault} (fails : d.checked room v = .error e')
    (cause : isBadValue e' = true ∨ e' = .mismatch (.unwritable e)) :
    d.reading room (some v) = .error (.mismatch (.unwritable e)) := by
  cases bad : isBadValue e' with
  | true =>
    rw [reading_of_bad present fails bad, Settings.spelled_of_unwritable unwritable]
    rfl
  | false =>
    obtain rfl := cause.resolve_left fun good => by cases bad.symm.trans good
    exact reading_of_fault present fails bad

/-- Everything is taken for a truth value. -/
theorem settled_bool (hd : d ∈ all) {b : Bool} (truth : d.default = .bool b) : d.Settled room v := by
  obtain ⟨found, passes⟩ := checked_of_converted hd (converted_bool truth room v)
    (.inr (by simp [Value.writeError?]))
  exact settled_of_clear (by simp [obstacle?, truth]) ⟨_, reading_of_checked present passes⟩

omit present in
/-- Where an integer is asked for and none is given or an integer is refused, that only says that the value is
of no use. -/
theorem isBadValue_of_checked_int (hd : d ∈ all) {n : Int} (integer : d.default = .int n)
    (finite : ∀ negative, v ≠ .float (.infinite negative)) (fails : d.checked room v = .error e) :
    isBadValue e = true := by
  have converts := converted_int integer room v
  cases number : Settings.asInt v with
  | error e' =>
    rw [number] at converts
    cases (checked_of_error converts).symm.trans fails
    exact Settings.isBadValue_of_asInt number finite
  | ok m =>
    rw [number] at converts
    cases long : (Value.int m).writeError? room.writing with
    | none =>
      obtain ⟨found, passes⟩ := checked_of_converted hd converts (.inr long)
      cases passes.symm.trans fails
    | some e' =>
      have invalid := invalid_of_unwritable hd (by rw [integer]; exact nofun) long
      cases (checked_of_unwritable hd converts invalid long).symm.trans fails
      rw [Value.writeError?] at long
      split at long <;> cases long
      rfl

/-- Where an integer is asked for, an infinity stands in the way, and so does what cannot be reported. -/
theorem settled_int (hd : d ∈ all) {n : Int} (integer : d.default = .int n) : d.Settled room v := by
  have converts := converted_int integer room v
  by_cases infinite : ∃ negative, v = .float (.infinite negative)
  · obtain ⟨negative, rfl⟩ := infinite
    have blocked : d.obstacle? room (.float (.infinite negative)) = some .infiniteInteger := by
      simp [obstacle?, integer]
    exact settled_of_blocked blocked (reading_of_fault present (checked_of_error converts) rfl)
  have finite : ∀ negative, v ≠ .float (.infinite negative) := by simpa using infinite
  refine settled_of_report ?_ (fun writable => ?_) fun e unwritable => ?_
  · unfold obstacle?
    rw [integer]
    split <;> simp_all
  · exact exists_reading_of_writable present writable fun e fails =>
      isBadValue_of_checked_int hd integer finite fails
  · -- What cannot be reported is a list, an object or an integer that is too long to be allowed.
    cases v with
    | int m =>
      have invalid := invalid_of_unwritable hd (by rw [integer]; exact nofun) unwritable
      exact reading_of_unwritable present unwritable
        (checked_of_unwritable hd converts invalid unwritable) (.inr rfl)
    | list items => exact reading_of_unwritable present unwritable (checked_of_error converts) (.inl rfl)
    | object fields =>
      exact reading_of_unwritable present unwritable (checked_of_error converts) (.inl rfl)
    | _ => simp [Value.writeError?] at unwritable

/-- Where a text is asked for, what cannot be reported stands in the way. -/
theorem settled_text (hd : d ∈ all) {s : String} (text : d.default = .text s) : d.Settled room v := by
  have converts := converted_text text room v
  refine settled_of_report ?_ (fun writable => ?_) fun e unwritable => ?_
  · unfold obstacle?
    rw [text]
  · obtain ⟨found, passes⟩ := checked_of_converted hd converts (.inr writable)
    exact ⟨_, reading_of_checked present passes⟩
  · have invalid := invalid_of_unwritable hd (by rw [text]; exact nofun) unwritable
    exact reading_of_unwritable present unwritable
      (checked_of_unwritable hd converts invalid unwritable) (.inr rfl)

/-- Where a list is asked for, what is neither a list nor a text has to be reported. -/
theorem settled_list_other (hd : d ∈ all) {items : List Value} (list : d.default = .list items)
    (noList : ∀ items, v ≠ .list items) (noText : ∀ s, v ≠ .text s) : d.Settled room v := by
  have converts : d.converted room v = (Settings.spelled room v).map fun _ => .list items := by
    rw [converted_list list room]
    split
    · exact absurd rfl (noList _)
    · exact absurd rfl (noText _)
    · rfl
  refine settled_of_report ?_ (fun writable => ?_) fun e unwritable => ?_
  · unfold obstacle?
    rw [list]
    split <;> simp_all
  · rw [Settings.spelled_of_writable writable] at converts
    obtain ⟨found, passes⟩ := checked_of_converted hd converts
      (.inl (valid_list hd (congrArg Value.kind list) items))
    exact ⟨_, reading_of_checked present passes⟩
  · rw [Settings.spelled_of_unwritable unwritable] at converts
    exact reading_of_unwritable present unwritable (checked_of_error converts) (.inr rfl)

end Present

section ListText

variable {items : List Value} {s : String}

/-- Where a list is asked for, a text that stands for one is read. -/
theorem exists_reading_list (hd : d ∈ all) (list : d.default = .list items) {items' : List Value}
    (converts : d.converted room (.text s) = .ok (.list items')) :
    ∃ u, d.reading room (some (.text s)) = .ok u := by
  have present : Value.text s ≠ .null := nofun
  obtain ⟨found, passes⟩ := checked_of_converted hd converts
    (.inl (valid_list hd (congrArg Value.kind list) items'))
  exact ⟨_, reading_of_checked present passes⟩

/-- A text that stands for something else than a list is refused by the check, which reports what it
stands for. -/
theorem settled_not_list (hd : d ∈ all) (list : d.default = .list items) {u : Value}
    (converts : d.converted room (.text s) = .ok u) (noList : ∀ items, u ≠ .list items)
    (obstacle : d.obstacle? room (.text s) =
      if u.writeError? room.writing = some .tooDeep then some (.unwritable .tooDeep) else none) :
    d.Settled room (.text s) := by
  have present : Value.text s ≠ .null := nofun
  have writable : (Value.text s).writeError? room.writing = none := by simp [Value.writeError?]
  have invalid : d.validate u ≠ .ok true := by
    intro valid
    have same : u.kind = .list := (kind_of_valid hd valid).trans (congrArg Value.kind list)
    cases u with
    | list items' => exact noList items' rfl
    | _ => cases same
  cases written : u.writeError? room.writing with
  | none =>
    rw [written] at obstacle
    obtain ⟨found, passes⟩ := checked_of_converted hd converts (.inr written)
    exact settled_of_clear obstacle ⟨_, reading_of_checked present passes⟩
  | some e =>
    rw [written] at obstacle
    have fails := checked_of_unwritable hd converts invalid written
    cases e with
    | longInteger =>
      refine settled_of_clear obstacle (exists_reading_of_writable present writable fun e' fails' => ?_)
      cases fails.symm.trans fails'
      rfl
    | tooDeep => exact settled_of_blocked obstacle (reading_of_fault present fails rfl)

/-- Where a list is asked for, a text may be nested too deep to be read, or stand for something else that
is. -/
theorem settled_list_text (hd : d ∈ all) (list : d.default = .list items) (s : String) :
    d.Settled room (.text s) := by
  have present : Value.text s ≠ .null := nofun
  have writable : (Value.text s).writeError? room.writing = none := by simp [Value.writeError?]
  have converts : d.converted room (.text s) = Settings.listOfText room s := converted_list list room _
  have obstacle : d.obstacle? room (.text s) = Settings.listObstacle? room s := by
    simp only [obstacle?, list]
  by_cases empty : s = ""
  · subst empty
    exact settled_of_clear obstacle (exists_reading_list hd list converts)
  rw [Settings.listOfText, if_neg empty] at converts
  rw [Settings.listObstacle?] at obstacle
  cases parsed : Json.read room.reading s with
  | error e =>
    rw [parsed] at converts obstacle
    cases e with
    | malformed problem line column offset =>
      exact settled_of_clear obstacle (exists_reading_list hd list converts)
    | longNumeral n =>
      refine settled_of_clear obstacle (exists_reading_of_writable present writable fun e fails => ?_)
      cases (checked_of_error converts).symm.trans fails
      rfl
    | tooDeep bracket =>
      exact settled_of_blocked obstacle (reading_of_fault present (checked_of_error converts) rfl)
  | ok u =>
    rw [parsed] at converts obstacle
    by_cases isList : ∃ items, u = .list items
    · obtain ⟨items', rfl⟩ := isList
      exact settled_of_clear obstacle (exists_reading_list hd list converts)
    · refine settled_not_list hd list converts (not_exists.mp isList) ?_
      rw [obstacle]
      split <;> simp_all

end ListText

/-- **A stored value is read**, or the default in its place, **unless it stands in the way.** -/
theorem settled (hd : d ∈ all) (room : Room) (v : Value) : d.Settled room v := by
  by_cases present : v = .null
  · subst present
    refine settled_of_clear ?_ ⟨d.default, rfl⟩
    rcases default_cases hd with ⟨b, h⟩ | ⟨n, h⟩ | ⟨s, h⟩ | ⟨items, h⟩ <;>
      simp [obstacle?, h, Value.writeError?]
  · rcases default_cases hd with ⟨b, truth⟩ | ⟨n, integer⟩ | ⟨s, text⟩ | ⟨items, list⟩
    · exact settled_bool present hd truth
    · exact settled_int present hd integer
    · exact settled_text present hd text
    · by_cases isList : ∃ items', v = .list items'
      · -- A list is taken as it is.
        obtain ⟨items', rfl⟩ := isList
        obtain ⟨found, passes⟩ := checked_of_converted hd
          (converted_list list room (.list items')) (.inl (valid_list hd (congrArg Value.kind list) items'))
        exact settled_of_clear (by simp only [obstacle?, list]) ⟨_, reading_of_checked present passes⟩
      by_cases isText : ∃ s, v = .text s
      · obtain ⟨s, rfl⟩ := isText
        exact settled_list_text hd list s
      exact settled_list_other present hd list (not_exists.mp isList) (not_exists.mp isText)

theorem reading_of_obstacle (hd : d ∈ all) {cause : Mismatch} (blocked : d.obstacle? room v = some cause) :
    d.reading room (some v) = .error (.mismatch cause) := by
  have settled := d.settled hd room v
  rwa [Settled, blocked] at settled

theorem exists_reading (hd : d ∈ all) (clear : d.obstacle? room v = none) :
    ∃ u, d.reading room (some v) = .ok u := by
  have settled := d.settled hd room v
  rwa [Settled, clear] at settled

/-- What is allowed does not stand in the way. -/
theorem obstacle?_of_valid (hd : d ∈ all) (valid : d.validate v = .ok true) :
    d.obstacle? room v = none := by
  cases blocked : d.obstacle? room v with
  | none => rfl
  | some cause => cases (reading_of_valid hd valid).symm.trans (reading_of_obstacle hd blocked)

end Definition

/-! ## What is stored -/

namespace Holding

variable {d : Definition} {writes : Prop} {drops : Value → Prop} {first : Option Value} {h h' : Holding}

/-- What is stored of a setting was stored at first or is allowed, and so is what waits. -/
structure Kept (d : Definition) (first : Option Value) (h : Holding) : Prop where
  stored : ∀ v, h.stored = some v → first = some v ∨ d.validate v = .ok true
  waiting : ∀ v, h.waiting = some v → d.validate v = .ok true

theorem Step.kept (hd : d ∈ Definition.all) (step : Step d writes drops h h') (kept : h.Kept d first) :
    h'.Kept d first := by
  cases step with
  | lookUp forgotten found => exact ⟨kept.stored, kept.waiting⟩
  | store may valid closed =>
    refine ⟨fun v same => ?_, kept.waiting⟩
    cases same
    exact .inr valid
  | wait may valid isOpen =>
    refine ⟨kept.stored, fun v same => ?_⟩
    cases same
    exact valid
  | dropBatch may => exact ⟨kept.stored, nofun⟩
  | closeBatch =>
    -- What waits takes the place of what is stored, and it was checked when it was put into the batch.
    refine ⟨fun v same => ?_, nofun⟩
    rcases Option.or_eq_some_iff.mp same with waits | ⟨-, stored⟩
    · exact .inr (kept.waiting v waits)
    · exact kept.stored v stored
  | reset may =>
    refine ⟨fun v same => ?_, nofun⟩
    cases same
    exact .inr (Definition.validate_default hd)

theorem Steps.kept (hd : d ∈ Definition.all) (steps : Steps d writes drops h h') (kept : h.Kept d first) :
    h'.Kept d first := by
  induction steps with
  | refl => exact kept
  | tail _ step ih => exact step.kept hd ih

end Holding

namespace Ledger

open SettingsM

variable {d : Definition} {l : Ledger}

/-- At the start a setting is stored as it was, or with its default. -/
theorem kept_start (hd : d ∈ Definition.all) (l : Ledger) :
    ((after SettingsM.start l).holding d).Kept d (Dict.find? l.store d.key) := by
  refine holds_start (P := fun l' => (l'.holding d).Kept d (Dict.find? l.store d.key))
    ⟨fun _ stored => .inl stored, nofun⟩ (fun _ _ => .modify fun _ kept => kept) fun d' hd' => .modify ?_
  intro l' kept
  refine ⟨fun v stored => ?_, kept.waiting⟩
  simp only [holding, Dict.find?_insert] at stored
  split at stored
  · rename_i same
    cases stored
    obtain rfl := Definition.eq_of_key_eq hd' hd same
    exact .inr (Definition.validate_default hd)
  · exact kept.stored v stored

/-- **Whatever is done**, only what was stored at first can be stored without being allowed. -/
theorem kept_runAll (hd : d ∈ Definition.all) {first : Option Value} (deeds : List SettingsDeed)
    (proper : l.Proper) (kept : (l.holding d).Kept d first) :
    ((SettingsDeed.runAll deeds l).holding d).Kept d first := by
  induction deeds generalizing l with
  | nil => exact kept
  | cons deed rest ih =>
    refine ih (proper.run deed) ?_
    -- A deed takes steps with the setting or forgets what is remembered of it, which is not kept anyway.
    obtain ⟨-, ⟨_, _, steps⟩ | forgotten⟩ := deed.moves hd proper.orderly
    · exact steps.kept hd kept
    · rw [forgotten]
      exact ⟨kept.stored, kept.waiting⟩

theorem room_start (l : Ledger) : (after SettingsM.start l).room = l.room :=
  holds_start (P := fun l' => l'.room = l.room) rfl (fun _ _ => .modify fun _ h => h)
    fun _ _ => .modify fun _ h => h

theorem Proper.room_runAll (proper : l.Proper) (deeds : List SettingsDeed) :
    (SettingsDeed.runAll deeds l).room = l.room := by
  induction deeds generalizing l with
  | nil => rfl
  | cons deed rest ih =>
    refine (ih (proper.run deed)).trans ?_
    obtain ⟨-, ⟨_, _, steps⟩ | forgotten⟩ :=
      deed.moves (d := Definition.maxSteps) (.head _) proper.orderly
    · exact steps.room_eq
    · exact congrArg Holding.room forgotten

/-- What keeps a setting from being read is stored, and the setting is not remembered. -/
theorem stored_of_obstacle {cause : Mismatch} (blocked : l.obstacle? d = some cause) :
    (l.holding d).remembered = none ∧
      ∃ v, (l.holding d).stored = some v ∧ d.obstacle? l.room v = some cause := by
  unfold obstacle? at blocked
  split at blocked
  · cases blocked
  · rename_i forgotten
    exact ⟨forgotten, Option.bind_eq_some_iff.mp blocked⟩

theorem outcome_get_of_obstacle (hd : d ∈ Definition.all) {cause : Mismatch}
    (blocked : l.obstacle? d = some cause) :
    outcome (get d.key .null) l = .error (.mismatch cause) := by
  obtain ⟨forgotten, v, stored, blocked⟩ := stored_of_obstacle blocked
  rw [outcome_get hd, Holding.reads, forgotten, stored]
  exact Definition.reading_of_obstacle hd blocked

theorem exists_outcome_get (hd : d ∈ Definition.all) (clear : l.obstacle? d = none) :
    ∃ v, outcome (get d.key .null) l = .ok v := by
  rw [outcome_get hd, Holding.reads]
  split
  · rename_i v _
    exact ⟨v, rfl⟩
  · rename_i forgotten
    cases stored : (l.holding d).stored with
    | none => exact ⟨d.default, rfl⟩
    | some v =>
      have absent : Dict.find? l.settings.cache d.key = none := forgotten
      have present : Dict.find? l.store d.key = some v := stored
      simp only [obstacle?, absent, present, Option.bind_some] at clear
      exact Definition.exists_reading hd clear

/-- What a setting reads as is allowed, if what is remembered is. -/
theorem Proper.valid_of_get (proper : l.Proper) (hd : d ∈ Definition.all) {v : Value}
    (read : outcome (get d.key .null) l = .ok v) : d.validate v = .ok true := by
  rw [outcome_get hd, Holding.reads] at read
  split at read
  · rename_i remembered
    cases read
    exact proper.vetted d hd v remembered
  · exact Definition.valid_of_reading hd read

/-- **Settings are usable, but for obstacles.**  Start with any store and do anything with the settings, but
for readings with an override.  A setting that nothing keeps from being read reads as a value that it allows,
and only what was stored at first can keep it from being read.  Reading then fails with the cause that the
stored value gives. -/
theorem settings_are_usable_but_for_obstacles (hd : d ∈ Definition.all) (l₀ : Ledger)
    (deeds : List SettingsDeed) :
    let l := SettingsDeed.runAll deeds (after SettingsM.start l₀)
    ((∀ v, Dict.find? l₀.store d.key = some v → d.obstacle? l₀.room v = none) →
      l.obstacle? d = none) ∧
    (l.obstacle? d = none → ∃ v, outcome (get d.key .null) l = .ok v ∧ d.validate v = .ok true) ∧
    ∀ cause, l.obstacle? d = some cause → outcome (get d.key .null) l = .error (.mismatch cause) := by
  intro l
  have proper : l.Proper := (proper_start l₀).runAll deeds
  have kept : (l.holding d).Kept d (Dict.find? l₀.store d.key) :=
    kept_runAll hd deeds (proper_start l₀) (kept_start hd l₀)
  refine ⟨fun clear => ?_, fun clear => ?_, fun cause => outcome_get_of_obstacle hd⟩
  · cases blocked : l.obstacle? d with
    | none => rfl
    | some cause =>
      obtain ⟨-, v, stored, blocked⟩ := stored_of_obstacle blocked
      have room : l.room = l₀.room := ((proper_start l₀).room_runAll deeds).trans (room_start l₀)
      rw [room] at blocked
      rcases kept.stored v stored with first | valid
      · cases (clear v first).symm.trans blocked
      · cases (Definition.obstacle?_of_valid hd valid).symm.trans blocked
  · obtain ⟨v, read⟩ := exists_outcome_get hd clear
    exact ⟨v, read, proper.valid_of_get hd read⟩

theorem mem_tapeCapacity : Definition.tapeCapacity ∈ Definition.all := by simp [Definition.all]

/-- A ledger with a store in which hardly anything is as it should be: a numeral with blanks around it, a list
and a long integer for texts, the undefined number, an object for a truth value and half a list. -/
def unfitStore : Ledger :=
  { (default : Ledger) with
    store :=
      [ (Definition.maxSteps.key, .text " 70 "),
        (Definition.machineKind.key, .list [.null]),
        (Definition.alphabet.key, .int (10 ^ 40)),
        (Definition.tapeCapacity.key, .float .nan),
        (Definition.notifyViews.key, .object [("on", .bool false)]),
        (Definition.recentFiles.key, .text "[1, 2") ] }

/-- What becomes of it when settings are read, changed in a batch, taken over from a file that is not there,
written out and forgotten. -/
def unfitStoreInUse : Ledger :=
  SettingsDeed.runAll
    [ .call (.get Definition.maxSteps.key), .call .beginBatch,
      .call (.set Definition.tapeCapacity.key (.int 250)), .call (.importFrom "absent.json"),
      .exportTo "settings.json", .clearCache ]
    (after SettingsM.start unfitStore)

/-- The capacity of a tape and the recent files can still be read. -/
theorem unfitStore_is_usable :
    (Definition.tapeCapacity ∈ Definition.all ∧ Definition.recentFiles ∈ Definition.all) ∧
    (∃ v, outcome (get Definition.tapeCapacity.key .null) unfitStoreInUse = .ok v ∧
      Definition.tapeCapacity.validate v = .ok true) ∧
    ∃ v, outcome (get Definition.recentFiles.key .null) unfitStoreInUse = .ok v ∧
      Definition.recentFiles.validate v = .ok true := by
  have clear : ∀ d ∈ Definition.all,
      ((Dict.find? unfitStore.store d.key).bind (d.obstacle? unfitStore.room)).isNone := by
    decide +kernel
  have usable {d : Definition} (hd : d ∈ Definition.all) :
      ∃ v, outcome (get d.key .null) unfitStoreInUse = .ok v ∧ d.validate v = .ok true := by
    obtain ⟨first, usable, -⟩ := settings_are_usable_but_for_obstacles hd unfitStore _
    refine usable (first fun v stored => ?_)
    have none := clear d hd
    rw [stored] at none
    exact Option.isNone_iff_eq_none.mp none
  exact ⟨⟨mem_tapeCapacity, mem_recentFiles⟩, usable mem_tapeCapacity, usable mem_recentFiles⟩

/-- A ledger in which the capacity of a tape is an infinity, the step budget has too many digits, and the
recent files are a text for which there is no room. -/
def boundless : Ledger :=
  { (default : Ledger) with
    store :=
      [ (Definition.tapeCapacity.key, .float (.infinite false)),
        (Definition.maxSteps.key, .int (10 ^ Text.digitLimit)),
        (Definition.recentFiles.key, .text (Json.brackets ((default : Room).reading + 1))) ] }

/-- **Some stored values cannot be read**, neither as they are nor as the default. -/
theorem boundless_settings_cannot_be_read :
    let l := after SettingsM.start boundless
    outcome (get Definition.tapeCapacity.key .null) l = .error (.mismatch .infiniteInteger) ∧
    outcome (get Definition.maxSteps.key .null) l = .error (.mismatch (.unwritable .longInteger)) ∧
    outcome (get Definition.recentFiles.key .null) l = .error (.mismatch (.deepText .list)) := by
  intro l
  have blocked {d : Definition} (hd : d ∈ Definition.all) {v : Value} {cause : Mismatch}
      (stored : Dict.find? l.store d.key = some v) (obstacle : d.obstacle? default v = some cause) :
      outcome (get d.key .null) l = .error (.mismatch cause) := by
    have forgotten : l.settings = Settings.fresh := settings_start boundless
    have room : l.room = default := room_start boundless
    refine outcome_get_of_obstacle hd ?_
    rw [obstacle?, forgotten, stored, room]
    exact obstacle
  have long := Value.writeError?_power (Nat.le_refl Text.digitLimit)
  have deep (room : Room) :
      Definition.recentFiles.obstacle? room (.text (Json.brackets (room.reading + 1))) =
        some (.deepText .list) := by
    simp [Definition.obstacle?, Definition.recentFiles, Settings.listObstacle?, Json.read_brackets]
  refine ⟨blocked mem_tapeCapacity rfl rfl, blocked (.head _) rfl ?_,
    blocked mem_recentFiles rfl (deep default)⟩
  simp [Definition.obstacle?, Definition.maxSteps, long]

end Ledger

end MachineLab
