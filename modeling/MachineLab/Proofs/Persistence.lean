import MachineLab.Proofs.Holdings

/-!
# What becomes of accepted settings

Whatever is done to the settings, each of them changes its values in steps: reading remembers, changing
writes to the store or to the batch, and the end of a batch carries its changes over into the store.
From what the steps keep it follows that what is remembered agrees with what is stored, unless a batch
was given up.  That happens in two ways.  A batch is opened while another is open, or a batch ends with a
change that cannot be reported, and those behind it do not reach the store.

## Main definitions

* `SettingsM.Moves` — work changes the places of a setting in steps.
* `SettingsCall` — what can be asked of the settings.

## Main statements

* `SettingsM.moves_set`, `SettingsM.moves_endBatch`, `SettingsM.moves_importFrom`, `SettingsCall.moves` —
  calls as sequences of steps.
* `Ledger.accepted_settings_persist` — a setting reads the same without its memory, unless a batch was
  given up with a change of it.
* `Ledger.batches_given_up_lose_a_setting` — such a change is lost.
-/

namespace MachineLab

open Relation

/-! ## Work with settings as steps -/

namespace SettingsM

variable {α β : Type} {d : Definition} {writes : Prop} {drops : Value → Prop} {l l' : Ledger}

/-- Some work, done in a ledger, changes where a setting has values in steps. -/
def Moves (d : Definition) (writes : Prop) (drops : Value → Prop) (work : SettingsM α)
    (l : Ledger) : Prop :=
  l.Orderly → (after work l).Orderly ∧
    Holding.Steps d writes drops (l.holding d) ((after work l).holding d)

namespace Moves

variable {work : SettingsM α} {rest : α → SettingsM β}

/-- Work that leaves a setting and the batch alone. -/
theorem still (batch : (after work l).settings.batch = l.settings.batch)
    (same : (after work l).holding d = l.holding d) : Moves d writes drops work l := by
  intro orderly
  refine ⟨fun changes h => orderly changes (batch ▸ h), ?_⟩
  rw [same]

theorem step (orderly : (after work l).Orderly)
    (step : l.Orderly → Holding.Step d writes drops (l.holding d) ((after work l).holding d)) :
    Moves d writes drops work l := fun before => ⟨orderly, .single (step before)⟩

theorem bind (h : Moves d writes drops work l)
    (hrest : ∀ a l', work l = .ok a l' → Moves d writes drops (rest a) l') :
    Moves d writes drops (work >>= rest) l := by
  intro orderly
  obtain ⟨orderly', steps⟩ := h orderly
  cases hwork : work l with
  | error e l' =>
    rw [after_of_error hwork] at orderly' steps
    rw [after_of_error (bind_of_error hwork)]
    exact ⟨orderly', steps⟩
  | ok a l' =>
    rw [after_of_ok hwork] at orderly' steps
    have whole : after (work >>= rest) l = after (rest a) l' := by rw [after, bind_of_ok hwork, after]
    rw [whole]
    obtain ⟨orderly'', steps'⟩ := hrest a l' hwork orderly'
    exact ⟨orderly'', steps.trans steps'⟩

theorem tryCatch {handle : Fault → SettingsM α} (h : Moves d writes drops work l)
    (hhandle : ∀ e l', work l = .error e l' → Moves d writes drops (handle e) l') :
    Moves d writes drops (tryCatch work handle) l := by
  intro orderly
  obtain ⟨orderly', steps⟩ := h orderly
  cases hwork : work l with
  | ok a l' =>
    rw [after_of_ok hwork] at orderly' steps
    rw [after_of_ok (tryCatch_of_ok hwork)]
    exact ⟨orderly', steps⟩
  | error e l' =>
    rw [after_of_error hwork] at orderly' steps
    have whole : after (MonadExcept.tryCatch work handle) l = after (handle e) l' := by
      rw [after, tryCatch_of_error hwork, after]
    rw [whole]
    obtain ⟨orderly'', steps'⟩ := hhandle e l' hwork orderly'
    exact ⟨orderly'', steps.trans steps'⟩

theorem pure (a : α) : Moves d writes drops (Pure.pure a) l := still rfl rfl

theorem throw (e : Fault) : Moves d writes drops (throw e : SettingsM α) l := still rfl rfl

theorem record (level : LogLevel) (message : String) : Moves d writes drops (record level message) l :=
  still rfl rfl

end Moves

/-! ### Reading and changing -/

/-- **Reading a setting** finds it in the store if it was forgotten. -/
theorem moves_get (hd : d ∈ Definition.all) (key : String) (l : Ledger) :
    Moves d writes drops (get key .null) l := by
  cases cached : Dict.find? l.settings.cache key with
  | some v =>
    have gives := get_of_cached cached .null
    exact .still (by rw [after_of_ok gives]) (by rw [after_of_ok gives])
  | none =>
    cases known : Definition.find? key with
    | none =>
      obtain ⟨log, gives⟩ := get_of_unknown known .null cached
      exact .still (by rw [after_of_ok gives]; rfl) (by rw [after_of_ok gives]; rfl)
    | some d' =>
      have hd' : d' ∈ Definition.all := List.mem_of_find?_eq_some known
      obtain rfl : d'.key = key := by simpa using List.find?_some known
      obtain ⟨log, gives⟩ := get_of_forgotten hd' cached
      cases found : d'.reading l.room (Dict.find? l.store d'.key) with
      | error e =>
        rw [found] at gives
        have left : after (get d'.key .null) l = l.logged log := after_of_conclude gives
        exact .still (by rw [left]; rfl) (by rw [left]; rfl)
      | ok v =>
        rw [found] at gives
        have left : after (get d'.key .null) l = remembered d'.key (.ok v) (l.logged log) :=
          after_of_conclude gives
        by_cases same : d.key = d'.key
        · obtain rfl := Definition.eq_of_key_eq hd' hd same
          have recalled : (remembered d.key (.ok v) (l.logged log)).holding d =
              { l.holding d with remembered := some v } := by
            simp [Ledger.holding, remembered, Ledger.logged, Dict.find?_insert]
          intro orderly
          rw [left]
          refine ⟨orderly, .single ?_⟩
          rw [recalled]
          exact .lookUp cached found
        · refine .still (by rw [left]; rfl) ?_
          rw [left]
          simp [Ledger.holding, remembered, Ledger.logged, Dict.find?_insert, same]

/-- What is read is what the places of the setting say. -/
theorem outcome_get (hd : d ∈ Definition.all) (l : Ledger) :
    outcome (get d.key .null) l = (l.holding d).reads d := by
  unfold Holding.reads Ledger.holding
  cases cached : Dict.find? l.settings.cache d.key with
  | some v => exact outcome_of_ok (get_of_cached cached .null)
  | none =>
    obtain ⟨log, gives⟩ := get_of_forgotten hd cached
    exact outcome_of_conclude gives

/-- What is read is remembered. -/
theorem remembered_of_get (hd : d ∈ Definition.all) {v : Value} (read : get d.key .null l = .ok v l') :
    (l'.holding d).remembered = some v := by
  cases cached : Dict.find? l.settings.cache d.key with
  | some u =>
    cases (get_of_cached cached .null).symm.trans read
    exact cached
  | none =>
    obtain ⟨log, gives⟩ := get_of_forgotten hd cached
    obtain ⟨found, left⟩ := conclude_eq_ok_iff.mp (gives.symm.trans read)
    rw [← left, found]
    simp [Ledger.holding, remembered, Dict.find?_insert]

section Set

variable {v : Value} {key : String}

theorem set_of_unknown (unknown : Definition.find? key = none) (v : Value) (l : Ledger) :
    ∃ log, set key v l = .ok false (l.logged log) := by
  simp only [set, unknown]
  exact ⟨_, rfl⟩

/-- A value that is not allowed changes nothing. -/
theorem set_of_invalid (hd : d ∈ Definition.all) (invalid : d.validate v ≠ .ok true) (l : Ledger) :
    ∃ result log, set d.key v l = conclude result (l.logged log) ∧ result ≠ .ok true := by
  simp only [set, Definition.find?_key hd]
  cases hvalid : d.validate v with
  | error e => exact ⟨.error e, l.journal.log, rfl, nofun⟩
  | ok valid =>
    cases valid with
    | true => exact absurd hvalid invalid
    | false =>
      -- The value is reported, which may fail.
      cases written : v.writeError? l.room.writing with
      | some e =>
        exact ⟨.error (.mismatch (.unwritable e)), l.journal.log,
          (bind_of_ok rfl).trans (bind_of_error (spell_of_unwritable written)), nofun⟩
      | none =>
        exact ⟨.ok false, _, (bind_of_ok rfl).trans (bind_of_ok (spell_of_writable written)), nofun⟩

theorem set_of_valid (hd : d ∈ Definition.all) (valid : d.validate v = .ok true) :
    set d.key v = get d.key .null >>= replace d.key v := by
  simp only [set, Definition.find?_key hd, valid]
  rfl

/-- An equal value of the same kind changes nothing; any other is written.  Only then is it reported, so
that a value is written even if this fails. -/
theorem replace_eq (key : String) (v old : Value) (l : Ledger) :
    ∃ result, (result = .ok true ∨ v.writeError? l.room.writing ≠ none) ∧
      (((old.eqv v = true ∧ old.kind = v.kind) ∧
          ∃ log, replace key v old l = conclude result (l.logged log)) ∨
        ∃ journal, replace key v old l = conclude result { l.written key v with journal }) := by
  cases same : old.eqv v && old.kind == v.kind with
  | true =>
    have equal : old.eqv v = true ∧ old.kind = v.kind := by simpa using same
    simp only [replace, same, if_true]
    cases written : v.writeError? l.room.writing with
    | some e =>
      exact ⟨.error (.mismatch (.unwritable e)), .inr nofun,
        .inl ⟨equal, l.journal.log, bind_of_error (spell_of_unwritable written)⟩⟩
    | none => exact ⟨.ok true, .inl rfl, .inl ⟨equal, _, bind_of_ok (spell_of_writable written)⟩⟩
  | false =>
    cases hbatch : l.settings.batch with
    | some changes =>
      refine ⟨.ok true, .inl rfl, .inr ⟨l.journal, ?_⟩⟩
      simp only [replace, same, Bool.false_eq_true, if_false, remember, bind, EStateM.bind, look_apply,
        modify_apply, hbatch, Ledger.written_open hbatch]
      rfl
    | none =>
      let l₁ : Ledger :=
        { l with
          store := Dict.insert l.store key v
          settings := ⟨Dict.insert l.settings.cache key v, none⟩
          journal := l.journal.tell (.settingChanged key v) }
      have stored : replace key v old l =
          (do record .info ("Setting '" ++ key ++ "' changed to: " ++ (← spell v))
              return true) l₁ := by
        simp only [replace, same, Bool.false_eq_true, if_false, remember, bind, EStateM.bind, look_apply,
          modify_apply, hbatch]
        rfl
      rw [Ledger.written_closed hbatch, stored]
      cases written : v.writeError? l.room.writing with
      | some e =>
        exact ⟨.error (.mismatch (.unwritable e)), .inr nofun,
          .inr ⟨_, bind_of_error (spell_of_unwritable written)⟩⟩
      | none =>
        have spelled := spell_of_writable (l := l₁) written
        exact ⟨.ok true, .inl rfl, .inr ⟨_, (bind_of_ok spelled).trans rfl⟩⟩

/-- **Changing a setting** writes it only if the value is allowed, and accepted unless it cannot be
reported. -/
theorem moves_set (hd : d ∈ Definition.all) (key : String) (v : Value) (l : Ledger)
    (may : key = d.key → d.validate v = .ok true →
      outcome (set key v) l = .ok true ∨ v.writeError? l.room.writing ≠ none → writes) :
    Moves d writes drops (set key v) l := by
  cases known : Definition.find? key with
  | none =>
    obtain ⟨log, gives⟩ := set_of_unknown known v l
    exact .still (by rw [after_of_ok gives]; rfl) (by rw [after_of_ok gives]; rfl)
  | some d' =>
    have hd' : d' ∈ Definition.all := List.mem_of_find?_eq_some known
    obtain rfl : d'.key = key := by simpa using List.find?_some known
    by_cases valid : d'.validate v = .ok true
    swap
    · obtain ⟨result, log, gives, -⟩ := set_of_invalid hd' valid l
      have left := after_of_conclude gives
      exact .still (by rw [left]; rfl) (by rw [left]; rfl)
    · rw [set_of_valid hd' valid] at may ⊢
      refine .bind (moves_get hd d'.key l) fun old l₁ read => ?_
      obtain ⟨result, accepted, ⟨-, log, gives⟩ | ⟨journal, gives⟩⟩ := replace_eq d'.key v old l₁
      · have left := after_of_conclude gives
        exact .still (by rw [left]; rfl) (by rw [left]; rfl)
      · have room : l₁.room = l.room := by
          rw [← after_of_ok read]
          exact (untouched_get d'.key .null l).room
        have accepted' : outcome (get d'.key .null >>= replace d'.key v) l = .ok true ∨
            v.writeError? l.room.writing ≠ none := by
          rw [outcome_of_conclude ((bind_of_ok read).trans gives), ← room]
          exact accepted
        intro orderly
        rw [after_of_conclude gives]
        refine ⟨orderly.written d'.key v, ?_⟩
        by_cases same : d.key = d'.key
        · obtain rfl := Definition.eq_of_key_eq hd' hd same
          exact .single (Ledger.step_written (may rfl valid accepted') valid l₁)
        · change Holding.Steps d writes drops (l₁.holding d) ((l₁.written d'.key v).holding d)
          rw [Ledger.holding_written_of_ne same]

/-- A value that is accepted is allowed. -/
theorem valid_of_accepted (hd : d ∈ Definition.all) (accepted : outcome (set d.key v) l = .ok true) :
    d.validate v = .ok true := by
  by_contra invalid
  obtain ⟨result, log, gives, other⟩ := set_of_invalid hd invalid l
  exact other ((outcome_of_conclude gives).symm.trans accepted)

/-- A value that is accepted is remembered, or one that is equal to it. -/
theorem remembered_of_accepted (hd : d ∈ Definition.all)
    (accepted : outcome (set d.key v) l = .ok true) :
    ∃ u, (u = v ∨ u.eqv v = true) ∧ ((after (set d.key v) l).holding d).remembered = some u := by
  have valid := valid_of_accepted hd accepted
  rw [set_of_valid hd valid] at accepted ⊢
  cases read : get d.key .null l with
  | error e l₁ =>
    rw [outcome_of_error (bind_of_error read)] at accepted
    cases accepted
  | ok old l₁ =>
    obtain ⟨result, -, ⟨⟨equal, -⟩, log, gives⟩ | ⟨journal, gives⟩⟩ := replace_eq d.key v old l₁
    · rw [after_of_conclude ((bind_of_ok read).trans gives)]
      have recalled := remembered_of_get hd read
      exact ⟨old, .inr equal, recalled⟩
    · rw [after_of_conclude ((bind_of_ok read).trans gives)]
      refine ⟨v, .inl rfl, ?_⟩
      simp [Ledger.holding, Ledger.cache_written, Dict.find?_insert]

/-- A value that is allowed and can be reported is accepted where the setting is remembered. -/
theorem accepted_of_recalled (hd : d ∈ Definition.all) (valid : d.validate v = .ok true)
    (writable : v.writeError? l.room.writing = none) {old : Value}
    (recalled : Dict.find? l.settings.cache d.key = some old) : outcome (set d.key v) l = .ok true := by
  rw [set_of_valid hd valid, outcome_congr (bind_of_ok (get_of_cached recalled .null))]
  obtain ⟨result, accepted, ⟨-, log, gives⟩ | ⟨journal, gives⟩⟩ := replace_eq d.key v old l
  · exact (outcome_of_conclude gives).trans (accepted.resolve_right fun fails => fails writable)
  · exact (outcome_of_conclude gives).trans (accepted.resolve_right fun fails => fails writable)

/-- What changing a setting leaves behind: at most the setting was read, and then written. -/
theorem after_set (key : String) (v : Value) (l : Ledger) :
    ∃ journal, after (set key v) l = { l with journal } ∨
      after (set key v) l = { after (get key .null) l with journal } ∨
      after (set key v) l = { (after (get key .null) l).written key v with journal } := by
  cases known : Definition.find? key with
  | none =>
    obtain ⟨log, gives⟩ := set_of_unknown known v l
    exact ⟨_, .inl (after_of_ok gives)⟩
  | some d =>
    have hd : d ∈ Definition.all := List.mem_of_find?_eq_some known
    obtain rfl : d.key = key := by simpa using List.find?_some known
    by_cases valid : d.validate v = .ok true
    swap
    · obtain ⟨result, log, gives, -⟩ := set_of_invalid hd valid l
      exact ⟨_, .inl (after_of_conclude gives)⟩
    · rw [set_of_valid hd valid]
      cases read : get d.key .null l with
      | error e l₁ =>
        rw [after_of_error read]
        exact ⟨l₁.journal, .inr (.inl (after_of_error (bind_of_error read)))⟩
      | ok old l₁ =>
        rw [after_of_ok read]
        obtain ⟨result, -, ⟨-, log, gives⟩ | ⟨journal, gives⟩⟩ := replace_eq d.key v old l₁
        · exact ⟨_, .inr (.inl (after_of_conclude ((bind_of_ok read).trans gives)))⟩
        · exact ⟨journal, .inr (.inr (after_of_conclude ((bind_of_ok read).trans gives)))⟩

/-- What is remembered of one setting stays so while another is changed. -/
theorem recalls_set {u : Value} (recalled : Dict.find? l.settings.cache key = some u) {k : String}
    (other : key ≠ k) (v : Value) : Dict.find? (after (set k v) l).settings.cache key = some u := by
  have recalled' := recalls_get recalled k .null
  obtain ⟨journal, left | left | left⟩ := after_set k v l
  · rw [left]
    exact recalled
  · rw [left]
    exact recalled'
  · rw [left, Ledger.cache_written, Dict.find?_insert, if_neg other]
    exact recalled'

end Set

/-- **Adding a file opened lately** changes the list of these files and no other setting. -/
theorem moves_addRecentFile (hd : d ∈ Definition.all) (path : String) (l : Ledger)
    (may : Definition.recentFiles.key = d.key → writes) :
    Moves d writes drops (addRecentFile path) l := by
  refine .bind (moves_get hd _ l) fun recent l₁ _ => ?_
  refine .bind ?_ fun others l₂ _ => ?_
  · cases recent.elements with
    | ok items => exact .pure _
    | error e => exact .throw _
  · refine .bind (moves_set hd _ _ l₂ fun same _ _ => may same) fun _ _ _ => .pure _

/-! ### Batches -/

/-- **Opening a batch** drops the changes of the one that was open. -/
theorem moves_beginBatch (l : Ledger) (may : ∀ v, (l.holding d).waiting = some v → drops v) :
    Moves d writes drops beginBatch l := by
  refine .step ?_ fun _ => .dropBatch may
  intro changes same
  cases same
  exact List.nodup_nil

/-- Changes reach the store up to the first that cannot be reported. -/
theorem commit_eq (changes : Dict Value) (l : Ledger) :
    ∃ reached rest result journal, changes = reached ++ rest ∧
      (result = .ok () ∧ rest = [] ∨ ∃ change ∈ reached, change.2.writeError? l.room.writing ≠ none) ∧
      commit changes l =
        conclude result { l with store := Dict.insertAll l.store reached, journal } := by
  induction changes generalizing l with
  | nil => exact ⟨[], [], .ok (), l.journal, rfl, .inl ⟨rfl, rfl⟩, rfl⟩
  | cons entry rest ih =>
    obtain ⟨key, v⟩ := entry
    let l₁ : Ledger :=
      { l with store := Dict.insert l.store key v, journal := l.journal.tell (.settingChanged key v) }
    have first : commit ((key, v) :: rest) l =
        (do record .info ("Batch setting '" ++ key ++ "' changed to: " ++ (← spell v))
            commit rest) l₁ := rfl
    cases written : v.writeError? l.room.writing with
    | some e =>
      refine ⟨[(key, v)], rest, .error (.mismatch (.unwritable e)), _, rfl,
        .inr ⟨_, List.mem_singleton_self _, ?_⟩,
        first.trans (bind_of_error (spell_of_unwritable written))⟩
      rw [written]
      exact nofun
    | none =>
      obtain ⟨reached, rest', result, journal, rfl, cut, gives⟩ := ih (after (record .info
        ("Batch setting '" ++ key ++ "' changed to: " ++ v.display)) l₁)
      refine ⟨(key, v) :: reached, rest', result, journal, rfl, ?_,
        (first.trans (bind_of_ok (spell_of_writable written))).trans gives⟩
      exact cut.imp_right fun ⟨change, mem, fails⟩ => ⟨change, List.mem_cons_of_mem _ mem, fails⟩

/-- Once a batch has ended, its changes are in the store, up to the first that cannot be reported. -/
theorem endBatch_of_open {changes : Dict Value} (isOpen : l.settings.batch = some changes) :
    ∃ reached rest result journal, changes = reached ++ rest ∧
      (result = .ok () ∧ rest = [] ∨ ∃ change ∈ reached, change.2.writeError? l.room.writing ≠ none) ∧
      endBatch l = conclude result
        { l with
          store := Dict.insertAll l.store reached
          settings := { l.settings with batch := none }
          journal } := by
  obtain ⟨reached, rest, result, journal, split, cut, gives⟩ :=
    commit_eq changes { l with settings := { l.settings with batch := none } }
  refine ⟨reached, rest, result, journal, split, cut, ?_⟩
  simp only [endBatch, bind, EStateM.bind, look_apply, isOpen, modify_apply]
  exact gives

/-- A batch of changes that can all be reported ends with all of them in the store. -/
theorem endBatch_eq {changes : Dict Value} (isOpen : l.settings.batch = some changes)
    (writable : ∀ change ∈ changes, change.2.writeError? l.room.writing = none) :
    ∃ journal, endBatch l = .ok ()
      { l with
        store := Dict.insertAll l.store changes
        settings := { l.settings with batch := none }
        journal } := by
  obtain ⟨reached, rest, result, journal, rfl, ⟨rfl, rfl⟩ | ⟨change, mem, fails⟩, gives⟩ :=
    endBatch_of_open isOpen
  · rw [List.append_nil]
    exact ⟨journal, gives⟩
  · exact absurd (writable change (List.mem_append_left _ mem)) fails

theorem endBatch_of_closed (closed : l.settings.batch = none) : endBatch l = .ok () l := by
  simp only [endBatch, bind, EStateM.bind, look_apply, closed]
  rfl

/-- Ending a batch leaves what is remembered and the files alone. -/
theorem exists_endBatch_eq (l : Ledger) :
    ∃ result l', endBatch l = conclude result l' ∧ l'.settings.cache = l.settings.cache ∧
      l'.files = l.files ∧ l'.room = l.room := by
  cases hbatch : l.settings.batch with
  | none => exact ⟨.ok (), l, endBatch_of_closed hbatch, rfl, rfl, rfl⟩
  | some changes =>
    obtain ⟨reached, rest, result, journal, -, -, gives⟩ := endBatch_of_open hbatch
    exact ⟨result, _, gives, rfl, rfl, rfl⟩

/-- **Ending a batch** stores its changes, but gives up those that are stranded. -/
theorem moves_endBatch (l : Ledger) (may : ∀ v, l.Stranded d v → drops v) :
    Moves d writes drops endBatch l := by
  cases hbatch : l.settings.batch with
  | none =>
    have gives := endBatch_of_closed hbatch
    exact .still (by rw [after_of_ok gives]) (by rw [after_of_ok gives])
  | some changes =>
    obtain ⟨reached, rest, result, journal, rfl, cut, gives⟩ := endBatch_of_open hbatch
    refine .step ?_ fun orderly => ?_
    · rw [after_of_conclude gives]
      intro changes' same
      cases same
    · have distinct := orderly _ hbatch
      rw [Dict.keys, List.map_append] at distinct
      have stored := Dict.find?_insertAll l.store (List.nodup_append.mp distinct).1 d.key
      have places : Ledger.holding
            { l with
              store := Dict.insertAll l.store reached
              settings := { l.settings with batch := none }
              journal } d =
          { l.holding d with
            stored := (Dict.find? reached d.key).or (l.holding d).stored
            waiting := none
            isOpen := false } := by
        simp [Ledger.holding, stored]
      rw [after_of_conclude gives, places]
      cases found : Dict.find? reached d.key with
      | some v =>
        have waits : (l.holding d).waiting = some v := by
          simp [Ledger.holding, hbatch, Dict.find?_append, found]
        rw [← waits]
        exact .closeBatch
      | none =>
        -- The setting is none of those that reached the store: if a change of it waited, it is lost.
        refine .dropBatch fun v waits => may v ?_
        have behind : Dict.find? rest d.key = some v := by
          simpa [Ledger.holding, hbatch, Dict.find?_append, found] using waits
        obtain ⟨before, rest', rfl⟩ := Dict.exists_append_of_find? behind
        obtain ⟨-, empty⟩ | ⟨change, mem, fails⟩ := cut
        · simp at empty
        · exact ⟨reached ++ before, rest', by rw [hbatch, List.append_assoc], change,
            List.mem_append_left _ mem, fails⟩

theorem find?_defaults (hd : d ∈ Definition.all) : Dict.find? defaults d.key = some d.default := by
  simp only [Definition.all, List.mem_cons, List.not_mem_nil, or_false] at hd
  rcases hd with rfl | rfl | rfl | rfl | rfl | rfl <;> rfl

theorem nodup_defaults : (Dict.keys defaults).Nodup := by decide

theorem writeError?_defaults (writing : Nat) :
    ∀ change ∈ defaults, change.2.writeError? writing = none := by
  rw [defaults, List.forall_mem_map]
  exact fun d hd => Definition.writeError?_default hd writing

theorem resetAll_eq (l : Ledger) :
    ∃ journal, resetAll l = .ok ()
      { l with
        store := Dict.insertAll (Dict.insertAll l.store defaults) defaults
        settings := ⟨defaults, none⟩
        journal } := by
  let emptied : Ledger :=
    { l with
      store := Dict.insertAll l.store defaults
      settings := ⟨defaults, some defaults⟩
      journal := l.journal.record .info .settings "Resetting all settings to defaults." }
  have isOpen : emptied.settings.batch = some defaults := rfl
  obtain ⟨journal, ended⟩ := endBatch_eq isOpen (writeError?_defaults l.room.writing)
  have rest : resetAll l =
      (endBatch >>= fun _ => do
        tell .settingsReset
        record .info "Settings have been reset to default values.") emptied := rfl
  refine ⟨(journal.tell .settingsReset).record .info .settings
    "Settings have been reset to default values.", ?_⟩
  rw [rest, bind_of_ok ended]
  simp only [tell, record, bind, EStateM.bind, modify_apply, emptied]

/-- **Resetting** gives every setting its default and ends the batch. -/
theorem moves_resetAll (hd : d ∈ Definition.all) (l : Ledger) (may : writes) :
    Moves d writes drops resetAll l := by
  obtain ⟨journal, gives⟩ := resetAll_eq l
  refine .step ?_ fun _ => ?_
  · rw [after_of_ok gives]
    intro changes same
    cases same
  · have reset : (after resetAll l).holding d =
        ⟨some d.default, some d.default, none, false, l.room⟩ := by
      rw [after_of_ok gives]
      simp [Ledger.holding, Dict.find?_insertAll _ nodup_defaults, find?_defaults hd]
    rw [reset]
    exact .reset may

/-! ### Files -/

/-- Taking over the fields of a file gives a setting a value only if the file has one that is allowed. -/
theorem moves_applyFields (hd : d ∈ Definition.all) (fields : Dict Value) (l : Ledger)
    (may : ∀ v, (d.key, v) ∈ fields → d.validate v = .ok true → writes) :
    Moves d writes drops (applyFields fields) l := by
  induction fields generalizing l with
  | nil => exact .pure _
  | cons entry rest ih =>
    obtain ⟨key, v⟩ := entry
    have later (l : Ledger) : Moves d writes drops (applyFields rest) l :=
      ih l fun u hu => may u (List.mem_cons_of_mem _ hu)
    rw [applyFields]
    split
    · refine .bind (.bind ?_ fun _ _ _ => .pure _) fun _ l₁ _ => later l₁
      refine moves_set hd key v l fun same valid _ => ?_
      subst same
      exact may v (List.mem_cons_self ..) valid
    · exact later l

/-- **Taking settings over from a file** opens a batch of its own if the file is an object, and ends
it. -/
theorem moves_importFrom (hd : d ∈ Definition.all) (path : String) (l : Ledger)
    (mayDrop : ∀ fields v, l.files.readJson l.room path = .ok (.object fields) →
      (l.holding d).waiting = some v ∨
        (after (applyFields fields) (after beginBatch l)).Stranded d v → drops v)
    (may : ∀ fields v, l.files.readJson l.room path = .ok (.object fields) → (d.key, v) ∈ fields →
      d.validate v = .ok true → writes) :
    Moves d writes drops (importFrom path) l := by
  have refused (reason : String) : Moves d writes drops (refuseImport path reason) l :=
    .bind (.record _ _) fun _ _ _ => .pure _
  refine .bind (.still rfl rfl) fun here l' look => ?_
  cases look
  cases hread : l.files.readJson l.room path with
  | error e =>
    cases fault : e.fault? with
    | some cause => simpa only [fault] using Moves.throw cause
    | none => simpa only [fault] using refused e.message
  | ok document =>
    cases document with
    | object fields =>
      refine .bind (moves_beginBatch l fun v waits => mayDrop fields v hread (.inl waits))
        fun _ l₁ begun => ?_
      obtain rfl := after_of_ok begun
      have applied : Moves d writes drops (applyFields fields) (after beginBatch l) :=
        moves_applyFields hd fields _ fun v => may fields v hread
      have ended : Moves d writes drops endBatch (after (applyFields fields) (after beginBatch l)) :=
        moves_endBatch _ fun v stranded => mayDrop fields v hread (.inr stranded)
      refine .bind (.tryCatch applied fun e l₂ failed => ?_) fun _ l₃ done => ?_
      · rw [after_of_error failed] at ended
        exact .bind ended fun _ _ _ => .throw _
      · rw [after_of_ok (ok_of_tryCatch_throw done)] at ended
        exact .bind ended fun _ _ _ => .bind (.record _ _) fun _ _ _ => .pure _
    | _ => exact refused _

end SettingsM

/-! ## Calls -/

/-- What can be asked of the settings, with others changing the files in between. -/
inductive SettingsCall where
  | set (key : String) (v : Value)
  | addRecentFile (path : String)
  | get (key : String)
  | beginBatch
  | endBatch
  | importFrom (path : String)
  | resetAll
  | changeFiles (files : Directory)

namespace SettingsCall

variable {d : Definition} {l : Ledger}

/-- What a call leaves behind, whether it fails or not. -/
def run : SettingsCall → Ledger → Ledger
  | .set key v, l => after (SettingsM.set key v) l
  | .addRecentFile path, l => after (SettingsM.addRecentFile path) l
  | .get key, l => after (SettingsM.get key .null) l
  | .beginBatch, l => after SettingsM.beginBatch l
  | .endBatch, l => after SettingsM.endBatch l
  | .importFrom path, l => after (SettingsM.importFrom path) l
  | .resetAll, l => after SettingsM.resetAll l
  | .changeFiles files, l => { l with files }

/-- What calls leave behind, one after another. -/
def runAll (calls : List SettingsCall) (l : Ledger) : Ledger := calls.foldl (fun l call => call.run l) l

/-- A call gives a setting a value: by a change that is accepted, or allowed and cannot be reported, by a
file that has an allowed value for it, or by a reset. -/
def Replaces (d : Definition) : SettingsCall → Ledger → Prop
  | .set key v, l => key = d.key ∧ (outcome (SettingsM.set key v) l = .ok true ∨
      d.validate v = .ok true ∧ v.writeError? l.room.writing ≠ none)
  | .addRecentFile _, _ => d.key = Definition.recentFiles.key
  | .importFrom path, l => ∃ fields v, l.files.readJson l.room path = .ok (.object fields) ∧
      (d.key, v) ∈ fields ∧ d.validate v = .ok true
  | .resetAll, _ => True
  | _, _ => False

/-- A call gives up a batch in which a value of a setting waits: it opens another one, or it ends the
batch and the value is stranded.  Taking settings over from a file does both, with a batch of its own. -/
def Drops (d : Definition) (v : Value) : SettingsCall → Ledger → Prop
  | .beginBatch, l => (l.holding d).waiting = some v
  | .endBatch, l => l.Stranded d v
  | .importFrom path, l => ∃ fields, l.files.readJson l.room path = .ok (.object fields) ∧
      ((l.holding d).waiting = some v ∨
        (after (SettingsM.applyFields fields) (after SettingsM.beginBatch l)).Stranded d v)
  | _, _ => False

/-- Something is true of one of the calls at the time it is made. -/
def Sometime (p : SettingsCall → Ledger → Prop) : List SettingsCall → Ledger → Prop
  | [], _ => False
  | call :: rest, l => p call l ∨ Sometime p rest (call.run l)

/-- **A call changes the places of a setting in steps**, which write it only if the call replaces its
value, and drop a change of it only if the call does. -/
theorem moves (hd : d ∈ Definition.all) (call : SettingsCall) (orderly : l.Orderly) :
    (call.run l).Orderly ∧
      Holding.Steps d (call.Replaces d l) (Drops d · call l) (l.holding d) ((call.run l).holding d) := by
  cases call with
  | set key v =>
    exact SettingsM.moves_set hd key v l
      (fun same valid accepted => ⟨same, accepted.imp_right fun fails => ⟨valid, fails⟩⟩) orderly
  | addRecentFile path => exact SettingsM.moves_addRecentFile hd path l Eq.symm orderly
  | get key => exact SettingsM.moves_get hd key l orderly
  | beginBatch => exact SettingsM.moves_beginBatch l (fun _ waits => waits) orderly
  | endBatch => exact SettingsM.moves_endBatch l (fun _ stranded => stranded) orderly
  | importFrom path =>
    exact SettingsM.moves_importFrom hd path l (fun fields v read given => ⟨fields, read, given⟩)
      (fun fields v read named valid => ⟨fields, v, read, named, valid⟩) orderly
  | resetAll => exact SettingsM.moves_resetAll hd l trivial orderly
  | changeFiles files => exact ⟨orderly, .refl⟩

theorem orderly_runAll (calls : List SettingsCall) (orderly : l.Orderly) : (runAll calls l).Orderly := by
  induction calls generalizing l with
  | nil => exact orderly
  | cons call rest ih => exact ih (moves (d := Definition.maxSteps) (.head _) call orderly).1

theorem room_runAll (calls : List SettingsCall) (orderly : l.Orderly) :
    (runAll calls l).room = l.room := by
  induction calls generalizing l with
  | nil => rfl
  | cons call rest ih =>
    obtain ⟨orderly', steps⟩ := moves (d := Definition.maxSteps) (.head _) call orderly
    exact (ih orderly').trans steps.room_eq

/-- **Calls keep a setting sound**: what is lost was dropped by one of them. -/
theorem sound_runAll (hd : d ∈ Definition.all) {calls : List SettingsCall} {lost : Value → Prop}
    (orderly : l.Orderly) (loses : ∀ v, Sometime (Drops d v) calls l → lost v)
    (sound : (l.holding d).Sound d lost) : ((runAll calls l).holding d).Sound d lost := by
  induction calls generalizing l with
  | nil => exact sound
  | cons call rest ih =>
    obtain ⟨orderly', steps⟩ := moves hd call orderly
    exact ih orderly' (fun v later => loses v (.inr later))
      (steps.sound hd (fun v drops => loses v (.inl drops)) sound)

/-- What is remembered of a setting stays as long as the setting is not replaced. -/
theorem remembered_runAll (hd : d ∈ Definition.all) {calls : List SettingsCall} (orderly : l.Orderly)
    (kept : ¬ Sometime (Replaces d) calls l) {v : Value}
    (remembered : (l.holding d).remembered = some v) :
    ((runAll calls l).holding d).remembered = some v := by
  induction calls generalizing l with
  | nil => exact remembered
  | cons call rest ih =>
    obtain ⟨orderly', steps⟩ := moves hd call orderly
    exact ih orderly' (fun later => kept (.inr later))
      (steps.remembered_eq (fun now => kept (.inl now)) remembered)

end SettingsCall

namespace Ledger

open SettingsCall

variable {d : Definition}

/-- What holds once all is forgotten, and still holds when something is recorded or a default is stored,
holds at the start. -/
theorem holds_start {P : Ledger → Prop} {l : Ledger} (fresh : P { l with settings := Settings.fresh })
    (recorded : ∀ level text, Preserves P (SettingsM.record level text))
    (stored : ∀ d ∈ Definition.all, Preserves P (SettingsM.putStored d.key d.default)) :
    P (after SettingsM.start l) := by
  have put (ds : List Definition) (known : ∀ d ∈ ds, d ∈ Definition.all) :
      Preserves P (SettingsM.putDefaults ds) := by
    induction ds with
    | nil => exact .pure _
    | cons d rest ih =>
      obtain ⟨hd, later⟩ := List.forall_mem_cons.mp known
      refine .bind .get fun here => ?_
      by_cases absent : (!Dict.contains here.store d.key) = true
      · simp only [absent, if_true]
        exact .bind (recorded _ _) fun _ => .bind (stored d hd) fun _ => ih later
      · simp only [absent]
        exact ih later
  exact Preserves.after_bind (P := P) fresh fun _ => .bind (recorded _ _) fun _ => put _ fun _ h => h

/-- At the start nothing is remembered and no batch is open. -/
theorem settings_start (l : Ledger) : (after SettingsM.start l).settings = Settings.fresh :=
  holds_start (P := fun l => l.settings = Settings.fresh) rfl (fun _ _ => .modify fun _ h => h)
    fun _ _ => .modify fun _ h => h

/-- **No accepted setting is lost, but with a batch that is given up.**  After any calls that leave no
batch open, a setting reads the same once what is remembered is forgotten, unless it reads as a value that
waited in a batch when another one was opened, or behind a change that could not be reported when the
batch ended.  A value that was accepted is in effect, as it is or as one equal to it, as long as no
change, no file and no reset replaces it. -/
theorem accepted_settings_persist (hd : d ∈ Definition.all) (l₀ : Ledger) (calls : List SettingsCall) :
    let start := after SettingsM.start l₀
    let l := runAll calls start
    (l.settings.batch = none →
      outcome (SettingsM.get d.key .null) (after SettingsM.clearCache l) =
        outcome (SettingsM.get d.key .null) l ∨
      ∃ v, outcome (SettingsM.get d.key .null) l = .ok v ∧ Sometime (Drops d v) calls start) ∧
    ∀ earlier v later, calls = earlier ++ .set d.key v :: later →
      outcome (SettingsM.set d.key v) (runAll earlier start) = .ok true →
      ¬ Sometime (Replaces d) later (runAll (earlier ++ [.set d.key v]) start) →
      ∃ u, (u = v ∨ u.eqv v = true) ∧ outcome (SettingsM.get d.key .null) l = .ok u := by
  intro start l
  have fresh : start.settings = Settings.fresh := settings_start l₀
  have orderly : start.Orderly := by
    intro changes same
    rw [fresh] at same
    cases same
  constructor
  · intro closed
    have empty : (start.holding d).Coherent d := by
      unfold holding
      rw [fresh]
      exact ⟨nofun, fun _ => nofun, fun _ => rfl⟩
    have cleared : outcome (SettingsM.get d.key .null) (after SettingsM.clearCache l) =
        d.reading (l.holding d).room (l.holding d).stored := SettingsM.outcome_get hd _
    rw [cleared, SettingsM.outcome_get hd l]
    rcases sound_runAll hd orderly (fun v dropped => dropped) (.inl empty) with
      coherent | ⟨v, dropped, adrift⟩
    · exact .inl (coherent.reads_eq (by rw [holding, closed]; rfl)).symm
    · refine .inr ⟨v, ?_, dropped⟩
      rw [Holding.reads, adrift.remembered]
  · rintro earlier v later rfl accepted kept
    have split : l = runAll later (runAll (earlier ++ [.set d.key v]) start) := by
      simp only [l, runAll, List.foldl_append, List.foldl_cons, List.foldl_nil]
    have afterwards : runAll (earlier ++ [.set d.key v]) start =
        after (SettingsM.set d.key v) (runAll earlier start) := by
      simp only [runAll, List.foldl_append, List.foldl_cons, List.foldl_nil, run]
    obtain ⟨u, equal, remembered⟩ := SettingsM.remembered_of_accepted hd accepted
    rw [← afterwards] at remembered
    refine ⟨u, equal, ?_⟩
    rw [SettingsM.outcome_get hd l, split, Holding.reads,
      remembered_runAll hd (orderly_runAll _ orderly) kept remembered]

/-- What becomes of fresh settings if one of them is changed in a batch and something else is called
before the batch ends. -/
def enlarged (other : SettingsCall) : Ledger :=
  runAll [.beginBatch, .set Definition.tapeCapacity.key (.int 250), other, .endBatch]
    (after SettingsM.start default)

/-- A value that is set in a batch outlives what is remembered. -/
theorem batched_setting_persists :
    outcome (SettingsM.set Definition.tapeCapacity.key (.int 250))
      (runAll [.beginBatch] (after SettingsM.start default)) = .ok true ∧
    (enlarged (.addRecentFile "m.json")).settings.batch = none ∧
    outcome (SettingsM.get Definition.tapeCapacity.key .null)
        (after SettingsM.clearCache (enlarged (.addRecentFile "m.json"))) =
      outcome (SettingsM.get Definition.tapeCapacity.key .null) (enlarged (.addRecentFile "m.json")) ∧
    ∃ u, (u = .int 250 ∨ u.eqv (.int 250) = true) ∧
      outcome (SettingsM.get Definition.tapeCapacity.key .null) (enlarged (.addRecentFile "m.json")) =
        .ok u := by
  have accepted : outcome (SettingsM.set Definition.tapeCapacity.key (.int 250))
      (runAll [.beginBatch] (after SettingsM.start default)) = .ok true :=
    eq_ok_of_toOption (by decide +kernel)
  have closed : (enlarged (.addRecentFile "m.json")).settings.batch = none :=
    Option.isNone_iff_eq_none.mp (by decide +kernel)
  have hd : Definition.tapeCapacity ∈ Definition.all := .tail _ (.tail _ (.tail _ (.head _)))
  obtain ⟨agrees, stays⟩ := accepted_settings_persist hd default
    [.beginBatch, .set Definition.tapeCapacity.key (.int 250), .addRecentFile "m.json", .endBatch]
  rw [enlarged] at closed ⊢
  refine ⟨accepted, closed, (agrees closed).resolve_right ?_,
    stays [.beginBatch] (.int 250) [.addRecentFile "m.json", .endBatch] rfl accepted ?_⟩
  · -- Nothing waits when the batch is opened, and when it ends, no change is ahead of the one of 250.
    have order : (run (.addRecentFile "m.json") (run (.set Definition.tapeCapacity.key (.int 250))
        (run .beginBatch (after SettingsM.start default)))).settings.batch.map Dict.keys =
        some [Definition.tapeCapacity.key, Definition.recentFiles.key] := by decide +kernel
    rintro ⟨v, -, waits | waits | waits | ⟨before, rest, batch, change, ahead, -⟩ | waits⟩
    · cases waits
    · exact waits
    · exact waits
    · rw [batch] at order
      cases before with
      | nil => cases ahead
      | cons first before =>
        cases before with
        | nil =>
          simp only [Dict.keys, Option.map_some, List.cons_append, List.nil_append, List.map_cons,
            Option.some.injEq, List.cons.injEq] at order
          exact absurd order.2.1 (by decide)
        | cons second before => simp [Dict.keys] at order
    · exact waits
  · rintro (replaced | replaced | replaced)
    · have same : Definition.tapeCapacity.key = Definition.recentFiles.key := replaced
      exact absurd same (by decide)
    · exact replaced
    · exact replaced

/-- Recent files among which there is a number that is too long to be reported. -/
def longNumber : Value := .list [.int (Int.pow 10 Text.digitLimit)]

/-- What becomes of fresh settings if one of them is changed in a batch after the recent files, which cannot
be reported. -/
def enlargedBehindNumber : Ledger :=
  runAll [.beginBatch, .set Definition.recentFiles.key longNumber,
    .set Definition.tapeCapacity.key (.int 250), .endBatch] (after SettingsM.start default)

/-- The capacity of a tape is in effect until what is remembered is forgotten, and then it is gone. -/
def LosesCapacity (l : Ledger) : Prop :=
  l.settings.batch = none ∧
  (outcome (SettingsM.get Definition.tapeCapacity.key .null) l).map (·.eqv (.int 250)) = .ok true ∧
  (outcome (SettingsM.get Definition.tapeCapacity.key .null) (after SettingsM.clearCache l)).map
    (·.eqv (.int 250)) = .ok false

/-- **A batch that is given up loses a value that was accepted**, whether another batch is opened in it or a
change before that value cannot be reported. -/
theorem batches_given_up_lose_a_setting :
    (outcome (SettingsM.set Definition.tapeCapacity.key (.int 250))
        (runAll [.beginBatch] (after SettingsM.start default)) = .ok true ∧
      (enlarged .beginBatch).LosesCapacity) ∧
    outcome (SettingsM.set Definition.tapeCapacity.key (.int 250))
        (runAll [.beginBatch, .set Definition.recentFiles.key longNumber]
          (after SettingsM.start default)) = .ok true ∧
      enlargedBehindNumber.LosesCapacity := by
  refine ⟨⟨?_, ?_, ?_, ?_⟩, ?_, ?_, ?_, ?_⟩
  case refine_2 | refine_6 => exact Option.isNone_iff_eq_none.mp (by decide +kernel)
  all_goals exact eq_ok_of_toOption (by decide +kernel)

end Ledger

end MachineLab
