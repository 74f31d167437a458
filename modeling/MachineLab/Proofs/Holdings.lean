import MachineLab.Proofs.Readings
import Mathlib.Logic.Relation

/-!
# Where a setting has values

A setting can have a value in three places: it is remembered, it is stored, and while a batch is open it
may wait among the changes of the batch.  Values are moved between these places in a few ways, which
`Holding.Step` lists for a single setting.

What is remembered agrees with what is stored, or else it waits in the batch.  All steps keep this but
one: a batch can be given up with changes in it, and what is remembered of these then has no backing.

## Main definitions

* `Definition.reading` — what a setting reads as that is not remembered.
* `Holding` — where one setting has values.
* `Holding.Step` — the ways in which these change.
* `Holding.Coherent` — what is remembered is backed by the store or by the batch.
* `Ledger.holding` — where a setting of a ledger has values.
* `Ledger.Stranded` — a change waits behind one that cannot be reported.

## Main statements

* `Holding.Steps.sound` — what is remembered is backed, unless it was dropped.
* `Ledger.step_written` — giving a setting a value is a step.
-/

namespace MachineLab

open Relation

/-! ## Dictionaries -/

namespace Dict

variable {α : Type}

/-- Put all entries of a list into a dictionary. -/
def insertAll (d : Dict α) (entries : List (String × α)) : Dict α :=
  entries.foldl (fun d e => insert d e.1 e.2) d

theorem nodup_keys_insert {d : Dict α} (h : (keys d).Nodup) (k : String) (v : α) :
    (keys (insert d k v)).Nodup := by
  rw [keys_insert]
  split
  · exact h
  · rename_i new
    exact List.nodup_append.mpr ⟨h, List.nodup_singleton k, fun a ha b hb same =>
      new ((same.trans (List.mem_singleton.mp hb)) ▸ ha)⟩

theorem find?_eq_none_of_not_mem {d : Dict α} {key : String} (h : key ∉ keys d) :
    find? d key = none := by
  induction d with
  | nil => rfl
  | cons entry rest ih =>
    obtain ⟨k, v⟩ := entry
    simp only [keys, List.map_cons, List.mem_cons, not_or] at h
    rw [find?_cons, if_neg h.1]
    exact ih h.2

theorem mem_insert {d : Dict α} {key : String} {v : α} {entry : String × α}
    (h : entry ∈ insert d key v) : entry ∈ d ∨ entry = (key, v) := by
  induction d with
  | nil => exact .inr (List.mem_singleton.mp h)
  | cons first rest ih =>
    obtain ⟨k, u⟩ := first
    rw [insert] at h
    split at h
    · rename_i same
      obtain rfl | later := List.mem_cons.mp h
      · exact .inr (by rw [same])
      · exact .inl (List.mem_cons_of_mem _ later)
    · obtain rfl | later := List.mem_cons.mp h
      · exact .inl (List.mem_cons_self ..)
      · exact (ih later).imp_left (List.mem_cons_of_mem _)

theorem find?_append (d d' : Dict α) (key : String) :
    find? (d ++ d') key = (find? d key).or (find? d' key) := by
  induction d with
  | nil => rfl
  | cons entry rest ih =>
    obtain ⟨k, v⟩ := entry
    rw [List.cons_append, find?_cons, find?_cons, ih]
    split <;> rfl

/-- What is found in a dictionary stands in it. -/
theorem exists_append_of_find? {d : Dict α} {key : String} {v : α} (h : find? d key = some v) :
    ∃ before rest, d = before ++ (key, v) :: rest := by
  induction d with
  | nil => cases h
  | cons entry rest ih =>
    obtain ⟨k, u⟩ := entry
    rw [find?_cons] at h
    split at h
    · rename_i same
      cases h
      exact ⟨[], rest, by rw [same]; rfl⟩
    · obtain ⟨before, rest', rfl⟩ := ih h
      exact ⟨(k, u) :: before, rest', rfl⟩

/-- A lookup after putting in a dictionary sees its value, or else the old one. -/
theorem find?_insertAll (d : Dict α) {entries : Dict α} (distinct : (keys entries).Nodup)
    (key : String) :
    find? (insertAll d entries) key = (find? entries key).or (find? d key) := by
  induction entries generalizing d with
  | nil => rfl
  | cons entry rest ih =>
    obtain ⟨k, v⟩ := entry
    simp only [keys, List.map_cons, List.nodup_cons] at distinct
    rw [insertAll, List.foldl_cons, ← insertAll, ih _ distinct.2, find?_insert, find?_cons]
    by_cases h : key = k
    · subst h
      rw [find?_eq_none_of_not_mem distinct.1]
      simp
    · simp [h]

end Dict

/-! ## What a stored value reads as -/

namespace Definition

variable {d : Definition} {v : Value} {room : Room}

/-- What a setting reads as when it is looked for in the store.  It is the same in every ledger with the
same room. -/
def reading (d : Definition) (room : Room) (stored : Option Value) : Except Fault Value :=
  outcome (SettingsM.search d .null (stored.getD .null)) { (Inhabited.default : Ledger) with room }

theorem validate_default (hd : d ∈ all) : d.validate d.default = .ok true := by
  simp only [all, List.mem_cons, List.not_mem_nil, or_false] at hd
  rcases hd with rfl | rfl | rfl | rfl | rfl | rfl <;> exact eq_ok_of_toOption (by decide +kernel)

/-- Every default can be reported. -/
theorem writeError?_default (hd : d ∈ all) (writing : Nat) : d.default.writeError? writing = none := by
  have short : ∀ n ∈ [10000, Tape.defaultCapacity], Text.isShort n = true := by decide
  simp only [all, List.mem_cons, List.not_mem_nil, or_false] at hd
  rcases hd with rfl | rfl | rfl | rfl | rfl | rfl <;>
    simp [maxSteps, machineKind, alphabet, tapeCapacity, notifyViews, recentFiles,
      Value.writeError?, Value.itemsError?, short]

/-- The values that a setting allows are of the kind of its default. -/
theorem kind_of_valid (hd : d ∈ all) (valid : d.validate v = .ok true) : v.kind = d.default.kind := by
  have plain (rule : d.rule = none) : v.kind = d.default.kind := by
    unfold validate at valid
    rw [rule] at valid
    by_contra other
    simp [other] at valid
  simp only [all, List.mem_cons, List.not_mem_nil, or_false] at hd
  rcases hd with rfl | rfl | rfl | rfl | rfl | rfl
  case inr.inr.inl =>
    cases v with
    | text s => rfl
    | _ => cases valid
  all_goals exact plain rfl

theorem default_kind (hd : d ∈ all) : d.default.kind ≠ Value.null.kind := by
  simp only [all, List.mem_cons, List.not_mem_nil, or_false] at hd
  rcases hd with rfl | rfl | rfl | rfl | rfl | rfl <;> decide

end Definition

namespace SettingsM

variable {d : Definition} {v : Value} {l : Ledger} {room : Room}

/-- A value of the right kind needs no conversion. -/
theorem convert_of_kind {fallback : Value} (same : v.kind = fallback.kind) :
    convert v fallback = pure v := by
  cases fallback <;> cases v <;> cases same <;> rfl

/-- **An allowed value is read back as it was stored.** -/
theorem reading_of_valid (hd : d ∈ Definition.all) (valid : d.validate v = .ok true) :
    d.reading room (some v) = .ok v := by
  have kind := Definition.kind_of_valid hd valid
  have checked (l : Ledger) : convertChecked d v d.default l = .ok v l := by
    rw [convertChecked, convert_of_kind kind, pure_bind, valid]
    rfl
  have found (l : Ledger) : search d .null v l = .ok v l := by
    cases v with
    | null => exact absurd kind.symm (Definition.default_kind hd)
    | _ => exact tryCatch_of_ok (checked l)
  exact outcome_of_ok (found _)

/-- Looking for a setting gives what it reads as and only writes to the log. -/
theorem search_eq (d : Definition) (stored : Option Value) (l : Ledger) :
    ∃ log, search d .null (stored.getD .null) l =
      conclude (d.reading l.room stored) (l.logged log) := by
  obtain ⟨result, hsearch⟩ := logs_search d .null (stored.getD .null) l.room
  obtain ⟨_, atDefault⟩ := hsearch { (default : Ledger) with room := l.room } rfl
  rw [Definition.reading, outcome_of_conclude atDefault]
  exact hsearch l rfl

/-- A setting that is not remembered reads as its stored value does, and is remembered. -/
theorem get_of_forgotten (hd : d ∈ Definition.all) (absent : Dict.find? l.settings.cache d.key = none) :
    ∃ log, get d.key .null l = conclude (d.reading l.room (Dict.find? l.store d.key))
      (remembered d.key (d.reading l.room (Dict.find? l.store d.key)) (l.logged log)) := by
  obtain ⟨log, hsearch⟩ := search_eq d (Dict.find? l.store d.key) l
  refine ⟨log, ?_⟩
  rw [get_of_absent (Definition.find?_key hd) .null absent]
  cases hfound : d.reading l.room (Dict.find? l.store d.key) with
  | ok v =>
    rw [hfound] at hsearch
    exact bind_of_ok hsearch
  | error e =>
    rw [hfound] at hsearch
    exact bind_of_error hsearch

end SettingsM

/-! ## One setting -/

/-- The places in which a setting can have a value, whether a batch is open, and the room to read what is
stored. -/
structure Holding where
  remembered : Option Value
  stored : Option Value
  waiting : Option Value
  isOpen : Bool
  room : Room

namespace Holding

variable {d : Definition} {writes : Prop} {drops lost : Value → Prop} {h h' : Holding} {v : Value}

/-- The ways in which the places of a setting change.  `writes` says whether the setting may be given a
new value, and `drops` with which waiting values a batch may be given up. -/
inductive Step (d : Definition) (writes : Prop) (drops : Value → Prop) (h : Holding) : Holding → Prop
  | lookUp {v : Value} (forgotten : h.remembered = none) (found : d.reading h.room h.stored = .ok v) :
      Step d writes drops h { h with remembered := some v }
  | store {v : Value} (may : writes) (valid : d.validate v = .ok true) (closed : h.isOpen = false) :
      Step d writes drops h { h with remembered := some v, stored := some v }
  | wait {v : Value} (may : writes) (valid : d.validate v = .ok true) (isOpen : h.isOpen = true) :
      Step d writes drops h { h with remembered := some v, waiting := some v }
  | dropBatch {isOpen : Bool} (may : ∀ v, h.waiting = some v → drops v) :
      Step d writes drops h { h with waiting := none, isOpen }
  | closeBatch :
      Step d writes drops h { h with stored := h.waiting.or h.stored, waiting := none, isOpen := false }
  | reset (may : writes) :
      Step d writes drops h ⟨some d.default, some d.default, none, false, h.room⟩

/-- What is remembered waits in the batch, or else is what the stored value reads as. -/
structure Coherent (d : Definition) (h : Holding) : Prop where
  waits : ∀ v, h.waiting = some v → d.validate v = .ok true ∧ h.remembered = some v
  backed : h.waiting = none → ∀ v, h.remembered = some v → d.reading h.room h.stored = .ok v
  closed : h.isOpen = false → h.waiting = none

/-- What a setting reads as. -/
def reads (d : Definition) (h : Holding) : Except Fault Value :=
  match h.remembered with
  | some v => .ok v
  | none => d.reading h.room h.stored

/-- Where no batch is open, a coherent setting reads as its stored value does. -/
theorem Coherent.reads_eq (coherent : h.Coherent d) (closed : h.isOpen = false) :
    h.reads d = d.reading h.room h.stored := by
  unfold reads
  split
  · rename_i v remembered
    exact (coherent.backed (coherent.closed closed) v remembered).symm
  · rfl

/-- A value is remembered and waits nowhere, whatever is stored. -/
structure Adrift (v : Value) (h : Holding) : Prop where
  remembered : h.remembered = some v
  waits : h.waiting = none

/-- What is remembered is backed, unless it is a lost value. -/
def Sound (d : Definition) (lost : Value → Prop) (h : Holding) : Prop :=
  h.Coherent d ∨ ∃ v, lost v ∧ h.Adrift v

theorem coherent_stored (hd : d ∈ Definition.all) (valid : d.validate v = .ok true) (isOpen : Bool)
    (room : Room) : Coherent d ⟨some v, some v, none, isOpen, room⟩ := by
  refine ⟨nofun, fun _ u same => ?_, fun _ => rfl⟩
  cases same
  exact SettingsM.reading_of_valid hd valid

theorem coherent_waiting (valid : d.validate v = .ok true) (stored : Option Value) (room : Room) :
    Coherent d ⟨some v, stored, some v, true, room⟩ := by
  refine ⟨fun u waits => ?_, nofun, nofun⟩
  cases waits
  exact ⟨valid, rfl⟩

/-- A step from a coherent setting keeps it so, or gives up a batch with the value that is remembered. -/
theorem Step.of_coherent (hd : d ∈ Definition.all) (step : Step d writes drops h h')
    (coherent : h.Coherent d) : h'.Coherent d ∨ ∃ v, drops v ∧ h'.Adrift v := by
  cases step with
  | lookUp forgotten found =>
    refine .inl ⟨fun v waits => ?_, fun _ v same => ?_, coherent.closed⟩
    · cases forgotten.symm.trans (coherent.waits v waits).2
    · cases same
      exact found
  | store may valid closed =>
    have none := coherent.closed closed
    left
    simp only [none]
    exact coherent_stored hd valid _ _
  | wait may valid isOpen =>
    left
    simp only [isOpen]
    exact coherent_waiting valid _ _
  | dropBatch may =>
    cases waits : h.waiting with
    | none => exact .inl ⟨nofun, fun _ => coherent.backed waits, fun _ => rfl⟩
    | some v => exact .inr ⟨v, may v waits, (coherent.waits v waits).2, rfl⟩
  | closeBatch =>
    refine .inl ⟨nofun, fun _ v remembered => ?_, fun _ => rfl⟩
    cases waits : h.waiting with
    | none => exact coherent.backed waits v remembered
    | some u =>
      obtain ⟨valid, same⟩ := coherent.waits u waits
      cases same.symm.trans remembered
      exact SettingsM.reading_of_valid hd valid
  | reset may => exact .inl (coherent_stored hd (Definition.validate_default hd) false _)

/-- A step from a value without backing leaves it so, or gives the setting another value. -/
theorem Step.of_adrift (hd : d ∈ Definition.all) (step : Step d writes drops h h')
    (adrift : h.Adrift v) : h'.Coherent d ∨ h'.Adrift v := by
  obtain ⟨remembered, waits⟩ := adrift
  cases step with
  | lookUp forgotten found => cases forgotten.symm.trans remembered
  | store may valid closed =>
    left
    simp only [waits]
    exact coherent_stored hd valid _ _
  | wait may valid isOpen =>
    left
    simp only [isOpen]
    exact coherent_waiting valid _ _
  | dropBatch may => exact .inr ⟨remembered, rfl⟩
  | closeBatch => exact .inr ⟨remembered, rfl⟩
  | reset may => exact .inl (coherent_stored hd (Definition.validate_default hd) false _)

/-- **A step keeps a setting sound**, if what it drops counts as lost. -/
theorem Step.sound (hd : d ∈ Definition.all) (loses : ∀ v, drops v → lost v)
    (step : Step d writes drops h h') (sound : h.Sound d lost) : h'.Sound d lost := by
  rcases sound with coherent | ⟨v, hv, adrift⟩
  · rcases step.of_coherent hd coherent with coherent' | ⟨v, hv, adrift⟩
    · exact .inl coherent'
    · exact .inr ⟨v, loses v hv, adrift⟩
  · rcases step.of_adrift hd adrift with coherent' | adrift'
    · exact .inl coherent'
    · exact .inr ⟨v, hv, adrift'⟩

/-- A step forgets nothing, and replaces what is remembered only where it may. -/
theorem Step.remembered_eq (keeps : ¬ writes) (step : Step d writes drops h h')
    (remembered : h.remembered = some v) : h'.remembered = some v := by
  cases step with
  | lookUp forgotten found =>
    rw [forgotten] at remembered
    cases remembered
  | store may _ _ => exact absurd may keeps
  | wait may _ _ => exact absurd may keeps
  | dropBatch _ => exact remembered
  | closeBatch => exact remembered
  | reset may => exact absurd may keeps

/-- Any number of steps. -/
abbrev Steps (d : Definition) (writes : Prop) (drops : Value → Prop) : Holding → Holding → Prop :=
  ReflTransGen (Step d writes drops)

theorem Steps.sound (hd : d ∈ Definition.all) (loses : ∀ v, drops v → lost v)
    (steps : Steps d writes drops h h') (sound : h.Sound d lost) : h'.Sound d lost := by
  induction steps with
  | refl => exact sound
  | tail _ step ih => exact step.sound hd loses ih

theorem Steps.room_eq (steps : Steps d writes drops h h') : h'.room = h.room := by
  induction steps with
  | refl => rfl
  | tail _ step ih => cases step <;> exact ih

theorem Steps.remembered_eq (keeps : ¬ writes) (steps : Steps d writes drops h h')
    (remembered : h.remembered = some v) : h'.remembered = some v := by
  induction steps with
  | refl => exact remembered
  | tail _ step ih => exact step.remembered_eq keeps ih

end Holding

/-! ## Ledgers -/

namespace Ledger

variable {d : Definition} {l : Ledger}

/-- Where a setting has values. -/
def holding (l : Ledger) (d : Definition) : Holding :=
  ⟨Dict.find? l.settings.cache d.key, Dict.find? l.store d.key,
    l.settings.batch.bind (Dict.find? · d.key), l.settings.batch.isSome, l.room⟩

/-- A batch has no two changes of one setting. -/
def Orderly (l : Ledger) : Prop :=
  ∀ changes, l.settings.batch = some changes → (Dict.keys changes).Nodup

/-- A change of a setting waits in the batch behind one that cannot be reported. -/
def Stranded (l : Ledger) (d : Definition) (v : Value) : Prop :=
  ∃ before rest, l.settings.batch = some (before ++ (d.key, v) :: rest) ∧
    ∃ change ∈ before, change.2.writeError? l.room.writing ≠ none

/-- The ledger once a setting was given a value: it is remembered, and stored or put into the batch. -/
def written (l : Ledger) (key : String) (v : Value) : Ledger :=
  let cache := Dict.insert l.settings.cache key v
  match l.settings.batch with
  | some changes => { l with settings := ⟨cache, some (Dict.insert changes key v)⟩ }
  | none => { l with store := Dict.insert l.store key v, settings := ⟨cache, none⟩ }

theorem written_open {changes : Dict Value} (isOpen : l.settings.batch = some changes) (key : String)
    (v : Value) :
    l.written key v =
      { l with settings := ⟨Dict.insert l.settings.cache key v, some (Dict.insert changes key v)⟩ } := by
  simp only [written, isOpen]

theorem written_closed (closed : l.settings.batch = none) (key : String) (v : Value) :
    l.written key v =
      { l with
        store := Dict.insert l.store key v
        settings := ⟨Dict.insert l.settings.cache key v, none⟩ } := by
  simp only [written, closed]

theorem cache_written (l : Ledger) (key : String) (v : Value) :
    (l.written key v).settings.cache = Dict.insert l.settings.cache key v := by
  unfold written
  split <;> rfl

theorem files_written (l : Ledger) (key : String) (v : Value) : (l.written key v).files = l.files := by
  unfold written
  split <;> rfl

theorem room_written (l : Ledger) (key : String) (v : Value) : (l.written key v).room = l.room := by
  unfold written
  split <;> rfl

theorem Orderly.written (h : l.Orderly) (key : String) (v : Value) : (l.written key v).Orderly := by
  cases hbatch : l.settings.batch with
  | none =>
    rw [written_closed hbatch]
    intro changes same
    cases same
  | some changes =>
    rw [written_open hbatch]
    intro changes' same
    cases same
    exact Dict.nodup_keys_insert (h changes hbatch) key v

theorem holding_written_of_ne {key : String} (other : d.key ≠ key) (v : Value) :
    (l.written key v).holding d = l.holding d := by
  cases hbatch : l.settings.batch with
  | none => simp [written_closed hbatch, holding, Dict.find?_insert, other, hbatch]
  | some changes => simp [written_open hbatch, holding, Dict.find?_insert, other, hbatch]

/-- Giving a setting a value is a step of its holding. -/
theorem step_written {writes : Prop} {drops : Value → Prop} (may : writes) {v : Value}
    (valid : d.validate v = .ok true) (l : Ledger) :
    Holding.Step d writes drops (l.holding d) ((l.written d.key v).holding d) := by
  cases hbatch : l.settings.batch with
  | none =>
    have same : (l.written d.key v).holding d =
        { l.holding d with remembered := some v, stored := some v } := by
      simp [written_closed hbatch, holding, Dict.find?_insert, hbatch]
    rw [same]
    exact .store may valid (by simp [holding, hbatch])
  | some changes =>
    have same : (l.written d.key v).holding d =
        { l.holding d with remembered := some v, waiting := some v } := by
      simp [written_open hbatch, holding, Dict.find?_insert, hbatch]
    rw [same]
    exact .wait may valid (by simp [holding, hbatch])

end Ledger

end MachineLab
