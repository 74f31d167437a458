import MachineLab.Proofs.Effects
import MachineLab.Session.Basic
import Mathlib.Data.List.Nodup

/-!
# Reading settings

A setting that is read is remembered, so reading changes the settings of a session.  It does not change
what any setting reads as: what is remembered is what would be found in the store again, and each setting
has a key of its own.  Listeners hear nothing of it.

## Main definitions

* `SettingsM.Logs` — work that does nothing but write to the log, and looks at nothing but the room.
* `Office.reading` — what a setting reads as.
* `Office.SameSettings` — two sessions have the same settings.

## Main statements

* `SettingsM.get_of_cached`, `SettingsM.exists_get_of_stored` — the two ways of reading a setting.
* `SessionM.setting_spec` — what reading a setting does.
-/

namespace MachineLab

/-- The ledger with another log. -/
def Ledger.logged (l : Ledger) (log : Array LogRecord) : Ledger :=
  { l with journal := ⟨l.journal.events, log⟩ }

namespace SettingsM

variable {α β : Type}

/-! ## Work that only writes to the log -/

/-- Work that does nothing but write to the log, and has one result in all ledgers with the same
room. -/
def Logs (work : SettingsM α) : Prop :=
  ∀ room, ∃ result, ∀ l : Ledger, l.room = room → ∃ log, work l = conclude result (l.logged log)

namespace Logs

theorem pure (a : α) : Logs (Pure.pure a) := fun _ => ⟨.ok a, fun l _ => ⟨l.journal.log, rfl⟩⟩

theorem throw (e : Fault) : Logs (throw e : SettingsM α) :=
  fun _ => ⟨.error e, fun l _ => ⟨l.journal.log, rfl⟩⟩

theorem record (level : LogLevel) (message : String) : Logs (record level message) :=
  fun _ => ⟨.ok (), fun _ _ => ⟨_, rfl⟩⟩

theorem ofExcept (r : Except Fault α) : Logs (ofExcept r) := by
  cases r with
  | ok a => exact pure a
  | error e => exact throw e

/-- Work that begins with a look at the room. -/
theorem ofRoom {work : Room → SettingsM α} (h : ∀ room, Logs (work room)) :
    Logs (do work (← EStateM.get).room) := by
  intro room
  obtain ⟨result, hwork⟩ := h room room
  refine ⟨result, ?_⟩
  rintro l rfl
  exact hwork l rfl

theorem spell (v : Value) : Logs (spell v) := ofRoom fun room => ofExcept (Settings.spelled room v)

theorem bind {work : SettingsM α} {rest : α → SettingsM β} (h : Logs work)
    (hrest : ∀ a, Logs (rest a)) : Logs (work >>= rest) := by
  intro room
  obtain ⟨result, hwork⟩ := h room
  cases result with
  | error e =>
    refine ⟨.error e, fun l hl => ?_⟩
    obtain ⟨log, hlog⟩ := hwork l hl
    exact ⟨log, bind_of_error hlog⟩
  | ok a =>
    obtain ⟨result, hafter⟩ := hrest a room
    refine ⟨result, fun l hl => ?_⟩
    obtain ⟨log, hlog⟩ := hwork l hl
    obtain ⟨log', hlog'⟩ := hafter (l.logged log) hl
    exact ⟨log', (bind_of_ok hlog).trans hlog'⟩

theorem tryCatch {work : SettingsM α} {handle : Fault → SettingsM α} (h : Logs work)
    (hhandle : ∀ e, Logs (handle e)) : Logs (tryCatch work handle) := by
  intro room
  obtain ⟨result, hwork⟩ := h room
  cases result with
  | ok a =>
    refine ⟨.ok a, fun l hl => ?_⟩
    obtain ⟨log, hlog⟩ := hwork l hl
    exact ⟨log, tryCatch_of_ok hlog⟩
  | error e =>
    obtain ⟨result, hafter⟩ := hhandle e room
    refine ⟨result, fun l hl => ?_⟩
    obtain ⟨log, hlog⟩ := hwork l hl
    obtain ⟨log', hlog'⟩ := hafter (l.logged log) hl
    exact ⟨log', (tryCatch_of_error hlog).trans hlog'⟩

end Logs

theorem logs_convert (v fallback : Value) : Logs (convert v fallback) := by
  unfold convert
  cases fallback with
  | bool b => exact .pure _
  | int n => exact .bind (.ofExcept _) fun _ => .pure _
  | float x => exact .bind (.ofExcept _) fun _ => .pure _
  | list items =>
    cases v with
    | list items => exact .pure _
    | text s => exact .ofRoom fun room => .ofExcept (Settings.listOfText room s)
    | _ => exact .bind (.spell _) fun _ => .bind (.record _ _) fun _ => .pure _
  | _ => exact .pure _

theorem logs_convertChecked (d : Definition) (v fallback : Value) :
    Logs (convertChecked d v fallback) := by
  refine .bind (logs_convert _ _) fun converted => .bind (.ofExcept _) fun valid => ?_
  cases valid with
  | true => exact .pure _
  | false => exact .bind (.spell _) fun _ => .bind (.record _ _) fun _ => .pure _

theorem logs_complain (d : Definition) (v fallback : Value) (e : Fault) :
    Logs (complain d v fallback e) := by
  unfold complain
  split
  · exact .bind (.spell _) fun _ => .bind (.record _ _) fun _ => .pure _
  · exact .throw _

/-- Looking for a setting in the store is all of reading that only writes to the log. -/
theorem logs_search (d : Definition) (override stored : Value) : Logs (search d override stored) := by
  unfold search
  cases stored with
  | null => exact .bind (.record _ _) fun _ => .pure _
  | _ => exact .tryCatch (logs_convertChecked _ _ _) fun e => logs_complain _ _ _ e

/-! ## The two ways of reading -/

variable {key : String} {d : Definition} {l : Ledger}

/-- Where a lookup begins: the ledger is looked at. -/
theorem look_apply (l : Ledger) : (EStateM.get : SettingsM Ledger) l = .ok l l := rfl

theorem spell_of_writable {v : Value} (h : v.writeError? l.room.writing = none) :
    spell v l = .ok v.display l := by
  simp only [spell, bind, EStateM.bind, look_apply, Settings.spelled, h]
  rfl

theorem spell_of_unwritable {v : Value} {e : Value.WriteError}
    (h : v.writeError? l.room.writing = some e) :
    spell v l = .error (.mismatch (.unwritable e)) l := by
  simp only [spell, bind, EStateM.bind, look_apply, Settings.spelled, h]
  rfl

/-- What comes after a value was written for a message. -/
theorem outcome_bind_spell (v : Value) (rest : String → SettingsM α) (l : Ledger) :
    outcome (spell v >>= rest) l = Settings.spelled l.room v >>= fun shown => outcome (rest shown) l := by
  simp only [Settings.spelled]
  cases written : v.writeError? l.room.writing with
  | none => exact outcome_congr (bind_of_ok (spell_of_writable written))
  | some e => exact outcome_of_error (bind_of_error (spell_of_unwritable written))

/-- What is remembered is read as it is. -/
theorem get_of_cached {v : Value} (cached : Dict.find? l.settings.cache key = some v)
    (override : Value) : get key override l = .ok v l := by
  simp only [get, bind, EStateM.bind, look_apply, cached]
  rfl

/-- The ledger once the outcome of a search is remembered. -/
def remembered (key : String) (found : Except Fault Value) (l : Ledger) : Ledger :=
  match found with
  | .ok v => { l with settings := { l.settings with cache := Dict.insert l.settings.cache key v } }
  | .error _ => l

/-- What is not remembered is looked for in the store, and then remembered. -/
theorem get_of_absent (known : Definition.find? key = some d) (override : Value)
    (absent : Dict.find? l.settings.cache key = none) :
    get key override l =
      (do
        let v ← search d override ((Dict.find? l.store key).getD .null)
        remember key v
        return v : SettingsM Value) l := by
  simp only [get, bind, EStateM.bind, look_apply, absent, known]

/-- The outcome of a search depends on nothing but the room and what is stored. -/
theorem exists_get_of_stored (known : Definition.find? key = some d) (override : Value) (room : Room)
    (stored : Option Value) :
    ∃ found, ∀ l : Ledger, l.room = room → Dict.find? l.settings.cache key = none →
      Dict.find? l.store key = stored →
      ∃ log, get key override l = conclude found (remembered key found (l.logged log)) := by
  obtain ⟨found, hsearch⟩ := logs_search d override (stored.getD .null) room
  refine ⟨found, fun l hroom absent hstored => ?_⟩
  obtain ⟨log, hlog⟩ := hsearch l hroom
  refine ⟨log, ?_⟩
  rw [get_of_absent known override absent, hstored]
  cases found with
  | ok v => exact bind_of_ok hlog
  | error e => exact bind_of_error hlog

/-- **What a setting reads as depends on nothing but what is remembered and stored under its key**, and
on the room. -/
theorem outcome_get_congr (known : Definition.find? key = some d) (override : Value) {l' : Ledger}
    (room : l'.room = l.room)
    (cache : Dict.find? l'.settings.cache key = Dict.find? l.settings.cache key)
    (store : Dict.find? l'.store key = Dict.find? l.store key) :
    outcome (get key override) l' = outcome (get key override) l := by
  cases cached : Dict.find? l.settings.cache key with
  | some v =>
    rw [outcome_of_ok (get_of_cached cached override),
      outcome_of_ok (get_of_cached (cache.trans cached) override)]
  | none =>
    obtain ⟨found, hget⟩ := exists_get_of_stored known override l.room (Dict.find? l.store key)
    obtain ⟨log, here⟩ := hget l rfl cached rfl
    obtain ⟨log', there⟩ := hget l' room (cache.trans cached) store
    rw [outcome_of_conclude here, outcome_of_conclude there]

/-- What reading leaves as it is. -/
structure Untouched (key : String) (l l' : Ledger) : Prop where
  store : l'.store = l.store
  files : l'.files = l.files
  events : l'.journal.events = l.journal.events
  room : l'.room = l.room
  batch : l'.settings.batch = l.settings.batch
  others : ∀ k, k ≠ key → Dict.find? l'.settings.cache k = Dict.find? l.settings.cache k

/-- A setting that there is not reads as the override. -/
theorem get_of_unknown (unknown : Definition.find? key = none) (override : Value)
    (absent : Dict.find? l.settings.cache key = none) :
    ∃ log, get key override l = .ok override (l.logged log) := by
  simp only [get, bind, EStateM.bind, look_apply, absent, unknown]
  exact ⟨_, rfl⟩

/-- **Reading touches nothing** but what is remembered under the key. -/
theorem untouched_get (key : String) (override : Value) (l : Ledger) :
    Untouched key l (after (get key override) l) := by
  cases cached : Dict.find? l.settings.cache key with
  | some v =>
    rw [after_of_ok (get_of_cached cached override)]
    exact ⟨rfl, rfl, rfl, rfl, rfl, fun _ _ => rfl⟩
  | none =>
    cases known : Definition.find? key with
    | none =>
      obtain ⟨log, gives⟩ := get_of_unknown known override cached
      rw [after_of_ok gives]
      exact ⟨rfl, rfl, rfl, rfl, rfl, fun _ _ => rfl⟩
    | some d =>
      obtain ⟨found, hget⟩ := exists_get_of_stored known override l.room (Dict.find? l.store key)
      obtain ⟨log, here⟩ := hget l rfl cached rfl
      rw [after_of_conclude here]
      cases found with
      | error e => exact ⟨rfl, rfl, rfl, rfl, rfl, fun _ _ => rfl⟩
      | ok v =>
        refine ⟨rfl, rfl, rfl, rfl, rfl, fun k hk => ?_⟩
        exact (Dict.find?_insert _ _ _ _).trans (if_neg hk)

/-- What is remembered stays so while settings are read. -/
theorem recalls_get {v : Value} (cached : Dict.find? l.settings.cache key = some v) (k : String)
    (override : Value) : Dict.find? (after (get k override) l).settings.cache key = some v := by
  by_cases same : key = k
  · subst same
    rw [after_of_ok (get_of_cached cached override)]
    exact cached
  · rw [(untouched_get k override l).others key same]
    exact cached

/-- **Reading a setting again gives the same**, and nothing else is touched by it. -/
theorem get_spec (known : Definition.find? key = some d) (override : Value) (l : Ledger) :
    Untouched key l (after (get key override) l) ∧
      outcome (get key override) (after (get key override) l) = outcome (get key override) l := by
  refine ⟨untouched_get key override l, ?_⟩
  cases cached : Dict.find? l.settings.cache key with
  | some v => rw [after_of_ok (get_of_cached cached override)]
  | none =>
    obtain ⟨found, hget⟩ := exists_get_of_stored known override l.room (Dict.find? l.store key)
    obtain ⟨log, here⟩ := hget l rfl cached rfl
    rw [after_of_conclude here, outcome_of_conclude here]
    cases found with
    | error e =>
      obtain ⟨log', again⟩ := hget (l.logged log) rfl cached rfl
      exact outcome_of_conclude again
    | ok v =>
      refine outcome_of_ok (get_of_cached ?_ override)
      exact (Dict.find?_insert _ _ _ _).trans (if_pos rfl)

end SettingsM

/-! ## The settings of a session -/

/-- What a setting reads as in a session. -/
def Office.reading (o : Office) (d : Definition) : Except Fault Value := outcome (SessionM.setting d) o

/-- Every setting reads the same in two sessions. -/
def Office.SameSettings (o o' : Office) : Prop := ∀ d ∈ Definition.all, o'.reading d = o.reading d

theorem Definition.find?_key {d : Definition} (hd : d ∈ all) : find? d.key = some d := by
  simp only [all, List.mem_cons, List.not_mem_nil, or_false] at hd
  rcases hd with rfl | rfl | rfl | rfl | rfl | rfl <;> rfl

/-- Each setting has a key of its own. -/
theorem Definition.eq_of_key_eq {d d' : Definition} (hd : d ∈ all) (hd' : d' ∈ all)
    (same : d'.key = d.key) : d' = d := by
  have found := find?_key hd'
  rw [same, find?_key hd] at found
  exact (Option.some.inj found).symm

namespace SessionM

variable {d : Definition} {o : Office}

/-- Work with settings does not look at the rest of the session. -/
theorem outcome_withSettings {α : Type} (absent : α) (work : SettingsM α) (o : Office) :
    outcome (withSettings absent work) o =
      match o.settings with
      | none => .ok absent
      | some (settings, stored) => outcome work ⟨stored, settings, o.files, o.journal, o.room⟩ := by
  unfold outcome withSettings
  cases o.settings with
  | none => rfl
  | some pair =>
    obtain ⟨settings, stored⟩ := pair
    simp only
    cases work ⟨stored, settings, o.files, o.journal, o.room⟩ <;> rfl

/-- What a setting reads as depends on the settings and the room alone. -/
theorem reading_congr (hd : d ∈ Definition.all) {o' : Office} (same : o'.settings = o.settings)
    (room : o'.room = o.room) : o'.reading d = o.reading d := by
  unfold Office.reading setting
  rw [outcome_withSettings, outcome_withSettings, same]
  cases o.settings with
  | none => rfl
  | some pair => exact SettingsM.outcome_get_congr (Definition.find?_key hd) d.default room rfl rfl

/-- **Reading a setting** changes what is remembered and the log, but not what any setting reads as. -/
theorem setting_spec (hd : d ∈ Definition.all) (o : Office) :
    ∃ settings log,
      setting d o = conclude (o.reading d)
        { o with settings, journal := ⟨o.journal.events, log⟩ } ∧
      o.SameSettings { o with settings, journal := ⟨o.journal.events, log⟩ } := by
  cases hsettings : o.settings with
  | none =>
    have gives : setting d o = .ok d.default o := by
      simp only [setting, withSettings, hsettings]
    have unchanged : { o with settings := none } = o := by rw [← hsettings]
    refine ⟨none, o.journal.log, ?_, fun d' hd' => reading_congr hd' hsettings.symm rfl⟩
    rw [Office.reading, outcome_of_ok gives, gives]
    exact congrArg _ unchanged.symm
  | some pair =>
    obtain ⟨settings, stored⟩ := pair
    let l : Ledger := ⟨stored, settings, o.files, o.journal, o.room⟩
    let l' := after (SettingsM.get d.key d.default) l
    obtain ⟨untouched, again⟩ := SettingsM.get_spec (Definition.find?_key hd) d.default l
    have reads (d' : Definition) : o.reading d' = outcome (SettingsM.get d'.key d'.default) l := by
      rw [Office.reading, setting, outcome_withSettings, hsettings]
    have left : (⟨o.journal.events, l'.journal.log⟩ : Journal) = l'.journal := by
      rw [show o.journal.events = l'.journal.events from untouched.events.symm]
    refine ⟨some (l'.settings, l'.store), l'.journal.log, ?_, fun d' hd' => ?_⟩
    · rw [reads, left]
      have files : l'.files = o.files := untouched.files
      have gives := eq_conclude (SettingsM.get d.key d.default) l
      simp only [setting, withSettings, hsettings]
      rw [gives]
      cases outcome (SettingsM.get d.key d.default) l <;> simp only [conclude] <;> rw [← files]
    · rw [reads, Office.reading, setting, outcome_withSettings]
      by_cases same : d'.key = d.key
      · obtain rfl := Definition.eq_of_key_eq hd hd' same
        refine (SettingsM.outcome_get_congr (Definition.find?_key hd) _ ?_ ?_ ?_).trans again
        · exact untouched.room.symm
        · rfl
        · rfl
      · refine SettingsM.outcome_get_congr (Definition.find?_key hd') _ rfl ?_ ?_
        · exact untouched.others _ same
        · rw [show l'.store = l.store from untouched.store]

end SessionM

end MachineLab
