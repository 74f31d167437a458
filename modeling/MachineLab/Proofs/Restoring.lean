import MachineLab.Proofs.Overrides
import MachineLab.Proofs.Recency
import MachineLab.Proofs.TapeFiles

/-!
# Settings that are written out and taken back

A file of settings is taken over entry by entry: each entry is checked, and skipped if it equals what is in
effect.  So it restores the settings if all that was written out passes the check, reads back from the
file as it was, and equals nothing of its kind but itself.

## Main definitions

* `Holding.Vetted` — what is remembered of a setting is allowed.
* `Value.Simple` — values that a file keeps and that equal only themselves.
* `SettingsM.Entry` — an entry holds what is remembered of a setting.
* `SettingsDeed` — what can be done with settings but for overrides, with `Ledger.Proper` as its invariant.

## Main statements

* `Definition.simple_of_valid` — allowed values are simple, but for recent files that are no texts.
* `SettingsM.importFrom_entries` — entries are taken over whatever was remembered before.
* `Ledger.Proper.exported` — a file of settings holds what every setting reads as.
* `Ledger.exported_settings_are_restored` — taking such a file back restores every setting.
-/

namespace MachineLab

open Relation

/-! ## Allowed values -/

namespace Definition

variable {d : Definition} {v : Value} {room : Room}

theorem valid_of_checked {stored : Value} (checked : d.checked room stored = .ok (some v)) :
    d.validate v = .ok true := by
  obtain ⟨converted, -, rest⟩ := except_bind_eq_ok_iff.mp checked
  obtain ⟨valid, hvalid, passed⟩ := except_bind_eq_ok_iff.mp rest
  cases valid with
  | false =>
    obtain ⟨_, -, refused⟩ := except_bind_eq_ok_iff.mp passed
    cases refused
  | true =>
    cases passed
    exact hvalid

/-- What a stored value reads as by itself has passed the check. -/
theorem valid_of_own {stored : Option Value} (own : d.own? room stored = some (.ok v)) :
    d.validate v = .ok true := by
  unfold own? at own
  split at own
  · cases own
  · split at own
    · rename_i found checked
      obtain ⟨c, rfl, same⟩ := Option.map_eq_some_iff.mp own
      cases same
      exact valid_of_checked checked
    · split at own
      · split at own <;> cases own
      · cases own

/-- **What is read from the store is allowed**, whatever is stored. -/
theorem valid_of_reading (hd : d ∈ all) {stored : Option Value}
    (read : d.reading room stored = .ok v) : d.validate v = .ok true := by
  rw [reading, SettingsM.outcome_search] at read
  cases own : d.own? room stored with
  | none =>
    rw [own] at read
    cases read
    exact validate_default hd
  | some result =>
    rw [own, Option.getD_some] at read
    exact valid_of_own (own.trans (congrArg some read))

end Definition

namespace Holding

variable {d : Definition} {writes : Prop} {drops : Value → Prop} {h h' : Holding}

/-- What is remembered of a setting is allowed. -/
def Vetted (d : Definition) (h : Holding) : Prop :=
  ∀ v, h.remembered = some v → d.validate v = .ok true

theorem Step.vetted (hd : d ∈ Definition.all) (step : Step d writes drops h h') (vetted : h.Vetted d) :
    h'.Vetted d := by
  intro v remembered
  cases step with
  | lookUp forgotten found =>
    cases remembered
    exact Definition.valid_of_reading hd found
  | store _ valid _ =>
    cases remembered
    exact valid
  | wait _ valid _ =>
    cases remembered
    exact valid
  | dropBatch _ => exact vetted v remembered
  | closeBatch => exact vetted v remembered
  | reset _ =>
    cases remembered
    exact Definition.validate_default hd

theorem Steps.vetted (hd : d ∈ Definition.all) (steps : Steps d writes drops h h')
    (vetted : h.Vetted d) : h'.Vetted d := by
  induction steps with
  | refl => exact vetted
  | tail _ step ih => exact step.vetted hd ih

/-- Nothing that is remembered is forgotten. -/
theorem Steps.isSome_remembered (steps : Steps d writes drops h h')
    (recalled : h.remembered.isSome = true) : h'.remembered.isSome = true := by
  induction steps with
  | refl => exact recalled
  | tail _ step ih =>
    cases step with
    | dropBatch _ => exact ih
    | closeBatch => exact ih
    | _ => rfl

end Holding

/-! ## Values that a file keeps -/

namespace Value

/-- Texts, truth values, integers of moderate length and lists of texts. -/
def Simple : Value → Prop
  | .bool _ | .text _ => True
  | .int n => Text.isShort n = true
  | .list items => ∃ texts : List String, items = texts.map .text
  | _ => False

variable {v old : Value}

theorem Simple.of_kind (kind : v.kind = .text ∨ v.kind = .bool) : v.Simple := by
  cases v with
  | text s => trivial
  | bool b => trivial
  | _ => rcases kind with kind | kind <;> cases kind

/-- A simple value is read from a file as it was written. -/
theorem Simple.plain (simple : v.Simple) : v.Plain := by
  cases v with
  | list items =>
    obtain ⟨texts, rfl⟩ := simple
    unfold Plain
    induction texts with
    | nil => trivial
    | cons s rest ih => exact ⟨trivial, ih⟩
  | int n => exact simple
  | bool b => trivial
  | text s => trivial
  | _ => exact simple.elim

/-- There is room to report a simple value. -/
theorem Simple.writeError? (simple : v.Simple) {writing : Nat} (pos : 1 ≤ writing) :
    v.writeError? writing = none := by
  cases v with
  | list items =>
    obtain ⟨texts, rfl⟩ := simple
    exact writeError?_texts texts pos
  | int n =>
    have short : Text.isShort n = true := simple
    rw [Value.writeError?, if_pos short]
  | bool b => simp [Value.writeError?]
  | text s => simp [Value.writeError?]
  | _ => exact simple.elim

/-- A simple value is a scalar or a list of these. -/
theorem Simple.height_le (simple : v.Simple) : v.height ≤ 1 := by
  cases v with
  | list items =>
    obtain ⟨texts, rfl⟩ := simple
    have flat : heightItems (texts.map .text) = 0 := by
      induction texts with
      | nil => rfl
      | cons s rest ih => rw [List.map_cons, heightItems, ih]; rfl
    rw [height, flat]
  | object fields => exact simple.elim
  | _ => exact Nat.zero_le 1

/-- Of its own kind, only a simple value itself equals it. -/
theorem Simple.eq_of_eqv (simple : v.Simple) (kind : old.kind = v.kind) (same : old.eqv v = true) :
    old = v := by
  cases v with
  | bool b => exact eq_of_eqv_bool kind same
  | int n => exact eq_of_eqv_int kind same
  | text s => exact eqv_text_iff.mp same
  | list items =>
    obtain ⟨texts, rfl⟩ := simple
    exact eqv_listing.mp same
  | _ => exact simple.elim

end Value

namespace Definition

variable {d : Definition} {v : Value}

/-- A setting with bounds allows the integers within them. -/
theorem validate_int {least greatest : Int} (plain : d.rule = none ∧ d.allowed = [])
    (kind : d.default.kind = .int) (bounds : d.least = .int least ∧ d.greatest = .int greatest) (n : Int) :
    d.validate (.int n) = .ok (decide (least ≤ n ∧ n ≤ greatest)) := by
  have low : below "<" (.int n) d.least (.int n) d.least = .ok (decide (n < least)) := by
    simp only [below, bounds.1, Value.less?_int]
  have high : below ">" d.greatest (.int n) (.int n) d.greatest = .ok (decide (greatest < n)) := by
    simp only [below, bounds.2, Value.less?_int]
  have same : ¬ (Value.int n).kind ≠ d.default.kind := not_not.mpr kind.symm
  simp only [validate, plain.1, plain.2, if_neg same, isNumber, low, high, bind, Except.bind, if_true,
    List.isEmpty_nil, Bool.true_or, pure, Except.pure]
  by_cases below : n < least
  · simp [below]
  · by_cases above : greatest < n
    · simp [below, above]
    · simp [below, above]
      omega

/-- Values that settings allow are simple, as long as the recent files are texts. -/
theorem simple_of_valid (hd : d ∈ all) (valid : d.validate v = .ok true)
    (texts : d = recentFiles → ∃ paths, v = Settings.listing paths) : v.Simple := by
  have kind := kind_of_valid hd valid
  have bounded {least greatest : Int} (plain : d.rule = none ∧ d.allowed = [])
      (integer : d.default.kind = .int) (bounds : d.least = .int least ∧ d.greatest = .int greatest)
      (moderate : 0 ≤ least ∧ greatest < 10 ^ 8) : v.Simple := by
    cases v with
    | int n =>
      rw [validate_int plain integer bounds, Except.ok.injEq, decide_eq_true_iff] at valid
      have few : (Nat.toDigits 10 n.natAbs).length ≤ 8 :=
        (Nat.length_toDigits_le_iff (by decide) (by decide)).mpr (by omega)
      exact decide_eq_true (few.trans (by decide))
    | _ => cases kind.trans integer
  simp only [all, List.mem_cons, List.not_mem_nil, or_false] at hd
  rcases hd with rfl | rfl | rfl | rfl | rfl | rfl
  · exact bounded ⟨rfl, rfl⟩ rfl ⟨rfl, rfl⟩ (by decide)
  · exact .of_kind (.inl kind)
  · exact .of_kind (.inl kind)
  · exact bounded ⟨rfl, rfl⟩ rfl ⟨rfl, rfl⟩ (by decide)
  · exact .of_kind (.inr kind)
  · obtain ⟨paths, rfl⟩ := texts rfl
    exact ⟨paths, rfl⟩

end Definition

/-! ## Writing out -/

namespace SettingsM

variable {d : Definition} {writes : Prop} {drops : Value → Prop} {l l' : Ledger} {values : Dict Value}

theorem moves_getAll (hd : d ∈ Definition.all) (ds : List Definition) (l : Ledger) :
    Moves d writes drops (getAll ds) l := by
  induction ds generalizing l with
  | nil => exact .pure _
  | cons d' rest ih =>
    exact .bind (moves_get hd d'.key l) fun _ l₁ _ => .bind (ih l₁) fun _ _ _ => .pure _

theorem moves_exportTo (hd : d ∈ Definition.all) (path : String) (l : Ledger) :
    Moves d writes drops (exportTo path) l := by
  refine .bind (moves_getAll hd _ l) fun values l₁ _ => .bind ?_ fun _ l₂ _ => ?_
  · cases checkPath path with
    | ok _ => exact .pure _
    | error e => exact .throw _
  · refine .bind (.still rfl rfl) fun here l₃ look => ?_
    cases look
    simp only
    cases l₂.files.write path
      (Text.Utf8.encode (Json.write Json.Layout.settings (.object values)).text) with
    | error e => exact .bind (.record _ _) fun _ _ _ => .pure _
    | ok files =>
      refine .bind (.still rfl rfl) fun _ _ _ => ?_
      cases (Json.write Json.Layout.settings (.object values)).whole with
      | true => exact .bind (.record _ _) fun _ _ _ => .pure _
      | false => exact .throw _

/-- Reading one setting does not change what another one reads as. -/
theorem outcome_get_after_get (hd : d ∈ Definition.all) (key : String) (l : Ledger) :
    outcome (get d.key .null) (after (get key .null) l) = outcome (get d.key .null) l := by
  have known := Definition.find?_key hd
  by_cases same : d.key = key
  · subst same
    exact (get_spec known .null l).2
  · have untouched := untouched_get key .null l
    exact outcome_get_congr known .null untouched.room (untouched.others _ same)
      (by rw [untouched.store])

theorem preserves_outcome_get (hd : d ∈ Definition.all) (r : Except Fault Value) (ds : List Definition) :
    Preserves (fun l => outcome (get d.key .null) l = r) (getAll ds) := by
  induction ds with
  | nil => exact .pure _
  | cons d' rest ih =>
    refine .bind (fun l h => ?_) fun _ => .bind ih fun _ => .pure _
    exact (outcome_get_after_get hd d'.key l).trans h

theorem preserves_recalls (key : String) (v : Value) (ds : List Definition) :
    Preserves (fun l => Dict.find? l.settings.cache key = some v) (getAll ds) := by
  induction ds with
  | nil => exact .pure _
  | cons d rest ih =>
    exact .bind (fun l h => recalls_get h d.key .null) fun _ => .bind ih fun _ => .pure _

/-- An entry has the key of a setting, and the value that is remembered of it. -/
def Entry (l : Ledger) (d : Definition) (entry : String × Value) : Prop :=
  entry.1 = d.key ∧ Dict.find? l.settings.cache d.key = some entry.2

/-- **The values of settings that were read are remembered.** -/
theorem entries_of_getAll {ds : List Definition} (hds : ∀ d ∈ ds, d ∈ Definition.all)
    (read : getAll ds l = .ok values l') : List.Forall₂ (Entry l') ds values := by
  induction ds generalizing l values with
  | nil =>
    cases read
    exact .nil
  | cons d rest ih =>
    obtain ⟨hd, hrest⟩ := List.forall_mem_cons.mp hds
    obtain ⟨v, l₁, first, later⟩ := bind_eq_ok_iff.mp read
    obtain ⟨others, l₂, readRest, whole⟩ := bind_eq_ok_iff.mp later
    cases whole
    have recalled : Dict.find? l₁.settings.cache d.key = some v := remembered_of_get hd first
    exact .cons ⟨rfl, (preserves_recalls d.key v rest).of_ok readRest recalled⟩ (ih hrest readRest)

theorem keys_of_entries {ds : List Definition} (entries : List.Forall₂ (Entry l) ds values) :
    Dict.keys values = ds.map (·.key) := by
  induction entries with
  | nil => rfl
  | cons entry _ ih => exact congrArg₂ _ entry.1 ih

/-- Where the entries are the same, the same is remembered of a setting. -/
theorem recalled_of_entries {ds : List Definition} (entries : List.Forall₂ (Entry l) ds values)
    (entries' : List.Forall₂ (Entry l') ds values) (hd : d ∈ ds) :
    ∃ v, Dict.find? l.settings.cache d.key = some v ∧ Dict.find? l'.settings.cache d.key = some v := by
  induction entries with
  | nil => cases hd
  | cons here _ ih =>
    obtain _ | ⟨here', later'⟩ := entries'
    cases hd with
    | head => exact ⟨_, here.2, here'.2⟩
    | tail _ hd => exact ih later' hd

/-- Settings with simple values make an object that a file keeps. -/
theorem plain_of_entries {ds : List Definition} (entries : List.Forall₂ (Entry l) ds values)
    (distinct : (ds.map (·.key)).Nodup)
    (simple : ∀ d ∈ ds, ∀ v, Dict.find? l.settings.cache d.key = some v → v.Simple) :
    (Value.object values).Plain := by
  refine ⟨(keys_of_entries entries).symm ▸ distinct, ?_⟩
  clear distinct
  induction entries with
  | nil => trivial
  | cons entry _ ih =>
    obtain ⟨here, later⟩ := List.forall_mem_cons.mp simple
    exact ⟨(here _ entry.2).plain, ih later⟩

/-- There is room to read such an object. -/
theorem height_of_entries {ds : List Definition} (entries : List.Forall₂ (Entry l) ds values)
    (simple : ∀ d ∈ ds, ∀ v, Dict.find? l.settings.cache d.key = some v → v.Simple) :
    (Value.object values).height ≤ 2 := by
  refine Nat.succ_le_succ ?_
  induction entries with
  | nil => exact Nat.zero_le 1
  | cons entry _ ih =>
    obtain ⟨here, later⟩ := List.forall_mem_cons.mp simple
    exact Nat.max_le.mpr ⟨(here _ entry.2).height_le, ih later⟩

/-- **Settings that were written out** are remembered, and the file has them. -/
theorem exportTo_eq_ok {path : String} (exported : exportTo path l = .ok true l') :
    ∃ values l₁ files journal, getAll Definition.all l = .ok values l₁ ∧ checkPath path = .ok () ∧
      l₁.files.write path
        (Text.Utf8.encode (Json.write Json.Layout.settings (.object values)).text) = .ok files ∧
      l' = { l₁ with files, journal } := by
  obtain ⟨values, l₁, read, rest⟩ := bind_eq_ok_iff.mp exported
  obtain ⟨_, l₂, clean, rest⟩ := bind_eq_ok_iff.mp rest
  obtain ⟨here, l₃, look, rest⟩ := bind_eq_ok_iff.mp rest
  cases look
  cases hclean : checkPath path with
  | error e =>
    rw [hclean] at clean
    cases clean
  | ok _ =>
    rw [hclean] at clean
    cases clean
    simp only at rest
    cases written : l₁.files.write path
        (Text.Utf8.encode (Json.write Json.Layout.settings (.object values)).text) with
    | error e =>
      rw [written] at rest
      cases rest
    | ok files =>
      rw [written] at rest
      cases whole : (Json.write Json.Layout.settings (.object values)).whole with
      | true =>
        rw [whole] at rest
        cases rest
        exact ⟨values, l₁, files, _, read, rfl, written, rfl⟩
      | false =>
        rw [whole] at rest
        cases rest

/-! ## Taking back -/

/-- A simple value that is allowed is remembered as it is. -/
theorem recalls_set_self {v : Value} (hd : d ∈ Definition.all) (valid : d.validate v = .ok true)
    (simple : v.Simple) {old : Value} (recalled : Dict.find? l.settings.cache d.key = some old) :
    Dict.find? (after (set d.key v) l).settings.cache d.key = some v := by
  have gives : (get d.key .null >>= replace d.key v) l = replace d.key v old l :=
    bind_of_ok (get_of_cached recalled .null)
  rw [set_of_valid hd valid]
  obtain ⟨result, -, ⟨⟨equal, kind⟩, log, replaced⟩ | ⟨journal, replaced⟩⟩ := replace_eq d.key v old l
  · -- The change is skipped because the value is there already.
    rw [after_of_conclude (gives.trans replaced), ← simple.eq_of_eqv kind equal]
    exact recalled
  · rw [after_of_conclude (gives.trans replaced), Ledger.cache_written, Dict.find?_insert, if_pos rfl]

/-- Every change that waits in the batch can be reported. -/
def Reportable (l : Ledger) : Prop :=
  ∀ changes, l.settings.batch = some changes →
    ∀ change ∈ changes, change.2.writeError? l.room.writing = none

/-- A value that can be reported may join the batch. -/
theorem Reportable.set (h : Reportable l) {v : Value} (writable : v.writeError? l.room.writing = none)
    (key : String) : Reportable (after (set key v) l) := by
  have untouched := untouched_get key .null l
  have read : Reportable (after (get key .null) l) := by
    intro changes batch
    rw [untouched.room]
    exact h changes (untouched.batch ▸ batch)
  obtain ⟨journal, left | left | left⟩ := after_set key v l
  · rw [left]
    exact h
  · rw [left]
    exact read
  · rw [left]
    intro changes batch change mem
    rw [Ledger.room_written]
    cases hbatch : (after (get key .null) l).settings.batch with
    | none =>
      rw [Ledger.written_closed hbatch] at batch
      cases batch
    | some earlier =>
      rw [Ledger.written_open hbatch] at batch
      cases batch
      obtain old | rfl := Dict.mem_insert mem
      · exact read earlier hbatch change old
      · rw [untouched.room]
        exact writable

/-- A batch of such changes ends without a fault. -/
theorem Reportable.endBatch (h : Reportable l) :
    ∃ l', endBatch l = .ok () l' ∧ l'.settings.cache = l.settings.cache := by
  cases hbatch : l.settings.batch with
  | none => exact ⟨l, endBatch_of_closed hbatch, rfl⟩
  | some changes =>
    obtain ⟨journal, ended⟩ := endBatch_eq hbatch (h changes hbatch)
    exact ⟨_, ended, rfl⟩

theorem preserves_applyFields {key : String} {fields : Dict Value} (other : key ∉ Dict.keys fields)
    (v : Value) : Preserves (fun l => Dict.find? l.settings.cache key = some v) (applyFields fields) := by
  induction fields with
  | nil => exact .pure _
  | cons entry rest ih =>
    obtain ⟨k, u⟩ := entry
    simp only [Dict.keys, List.map_cons, List.mem_cons, not_or] at other
    rw [applyFields]
    split
    · refine .bind (.bind (fun l recalled => ?_) fun _ => .pure _) fun _ => ih other.2
      exact recalls_set recalled other.1 u
    · exact ih other.2

/-- **Settings that are taken over from entries** are remembered with the values of the entries, whatever
was remembered of them before, and can be reported. -/
theorem applyFields_entries {l₀ : Ledger} {ds : List Definition}
    (entries : List.Forall₂ (Entry l₀) ds values) (hds : ∀ d ∈ ds, d ∈ Definition.all)
    (distinct : (ds.map (·.key)).Nodup)
    (fit : ∀ d ∈ ds, ∀ v, Dict.find? l₀.settings.cache d.key = some v →
      d.validate v = .ok true ∧ v.Simple)
    (recalled : ∀ d ∈ ds, ∃ old, Dict.find? l.settings.cache d.key = some old)
    (reportable : Reportable l) :
    ∃ l', applyFields values l = .ok () l' ∧ List.Forall₂ (Entry l') ds values ∧ Reportable l' := by
  induction entries generalizing l with
  | nil => exact ⟨l, rfl, .nil, reportable⟩
  | @cons d entry ds values here later ih =>
    obtain ⟨key, v⟩ := entry
    obtain ⟨rfl, remembered⟩ : key = d.key ∧ Dict.find? l₀.settings.cache d.key = some v := here
    obtain ⟨hd, hds⟩ := List.forall_mem_cons.mp hds
    obtain ⟨new, distinct⟩ := List.nodup_cons.mp distinct
    obtain ⟨fits, fit⟩ := List.forall_mem_cons.mp fit
    obtain ⟨⟨old, recalledHere⟩, recalled⟩ := List.forall_mem_cons.mp recalled
    obtain ⟨valid, simple⟩ := fits v remembered
    have writable := simple.writeError? l.room.one_le_writing
    have taken := recalls_set_self hd valid simple recalledHere
    have accepted := eq_ok_of_outcome (accepted_of_recalled hd valid writable recalledHere)
    have reportable₁ := reportable.set writable d.key
    generalize after (set d.key v) l = l₁ at taken accepted reportable₁
    have others : ∀ d' ∈ ds, ∃ old, Dict.find? l₁.settings.cache d'.key = some old := by
      intro d' hd'
      obtain ⟨old, recalled⟩ := recalled d' hd'
      have other : d'.key ≠ d.key := fun same => new (List.mem_map.mpr ⟨d', hd', same⟩)
      exact ⟨old, after_of_ok accepted ▸ recalls_set recalled other v⟩
    obtain ⟨l₂, applied, entries, reportable₂⟩ := ih hds distinct fit others reportable₁
    have absent : d.key ∉ Dict.keys values := by
      rw [keys_of_entries later]
      exact new
    refine ⟨l₂, ?_, .cons ⟨rfl, (preserves_applyFields absent v).of_ok applied taken⟩ entries,
      reportable₂⟩
    rw [applyFields, if_pos (by rw [Definition.find?_key hd]; rfl)]
    have noted : (discard <| set d.key v : SettingsM Unit) l = .ok () l₁ := bind_of_ok accepted
    exact (bind_of_ok noted).trans applied

/-- **A file of settings that were written out** is taken over as a whole. -/
theorem importFrom_entries {l₀ : Ledger} {path : String}
    (read : l.files.readJson l.room path = .ok (.object values))
    (entries : List.Forall₂ (Entry l₀) Definition.all values)
    (fit : ∀ d ∈ Definition.all, ∀ v, Dict.find? l₀.settings.cache d.key = some v →
      d.validate v = .ok true ∧ v.Simple)
    (recalled : ∀ d ∈ Definition.all, ∃ old, Dict.find? l.settings.cache d.key = some old) :
    ∃ l', importFrom path l = .ok true l' ∧ List.Forall₂ (Entry l') Definition.all values := by
  let opened : Ledger := { l with settings := { l.settings with batch := some [] } }
  have recalled' : ∀ d ∈ Definition.all, ∃ old, Dict.find? opened.settings.cache d.key = some old :=
    recalled
  have empty : Reportable opened := by
    intro changes batch
    cases batch
    exact nofun
  obtain ⟨l₁, applied, entries', reportable⟩ :=
    applyFields_entries entries (fun _ h => h) nodup_defaults fit recalled' empty
  obtain ⟨l₂, ended, cache⟩ := reportable.endBatch
  have same : Entry l₂ = Entry l₁ := by
    funext d entry
    rw [Entry, Entry, cache]
  have work : importFrom path l =
      (do
        beginBatch
        try applyFields values
        catch e =>
          endBatch
          throw e
        endBatch
        record .info ("Settings imported from: " ++ path)
        return true : SettingsM Bool) l := by
    simp only [importFrom, bind, EStateM.bind, look_apply, read]
  have begun : beginBatch l = .ok () opened := rfl
  refine ⟨_, work.trans ((bind_of_ok begun).trans ((bind_of_ok (tryCatch_of_ok applied)).trans
    (bind_of_ok ended))), ?_⟩
  exact same ▸ entries'

end SettingsM

/-! ## Calls in between -/

section Files

open SettingsM

variable {l : Ledger} {files : Directory}

theorem SettingsM.preserves_files_get (key : String) :
    Preserves (fun l : Ledger => l.files = files) (get key .null) :=
  fun l h => (untouched_get key .null l).files.trans h

theorem SettingsM.preserves_files_set (key : String) (v : Value) :
    Preserves (fun l : Ledger => l.files = files) (set key v) := by
  intro l h
  have read := preserves_files_get key l h
  obtain ⟨journal, left | left | left⟩ := after_set key v l
  · rw [left]
    exact h
  · rw [left]
    exact read
  · rw [left, Ledger.files_written]
    exact read

theorem SettingsM.preserves_files_endBatch :
    Preserves (fun l : Ledger => l.files = files) endBatch := by
  intro l h
  obtain ⟨result, l', gives, -, same, -⟩ := exists_endBatch_eq l
  rw [after_of_conclude gives, same, h]

theorem SettingsM.preserves_files_applyFields (fields : Dict Value) :
    Preserves (fun l : Ledger => l.files = files) (applyFields fields) := by
  induction fields with
  | nil => exact .pure _
  | cons entry rest ih =>
    rw [applyFields]
    split
    · exact .bind (.bind (preserves_files_set _ _) fun _ => .pure _) fun _ => ih
    · exact ih

theorem SettingsM.preserves_files_addRecentFile (path : String) :
    Preserves (fun l : Ledger => l.files = files) (addRecentFile path) := by
  refine .bind (preserves_files_get _) fun recent => .bind ?_ fun others => ?_
  · cases recent.elements with
    | ok items => exact .pure _
    | error e => exact .throw _
  · exact .bind (preserves_files_set _ _) fun _ => .pure _

theorem SettingsM.preserves_files_importFrom (path : String) :
    Preserves (fun l : Ledger => l.files = files) (importFrom path) := by
  have recorded (level : LogLevel) (text : String) :
      Preserves (fun l : Ledger => l.files = files) (record level text) := fun _ h => h
  have refused (reason : String) :
      Preserves (fun l : Ledger => l.files = files) (refuseImport path reason) :=
    .bind (recorded _ _) fun _ => .pure _
  refine .bind .get fun here => ?_
  cases here.files.readJson here.room path with
  | error e =>
    simp only
    cases e.fault? with
    | some cause => exact .throw _
    | none => exact refused _
  | ok v =>
    cases v with
    | object fields =>
      refine .bind (fun _ h => h) fun _ => .bind ?_ fun _ => ?_
      · exact .tryCatch (preserves_files_applyFields _) fun e =>
          .bind preserves_files_endBatch fun _ => .throw _
      · exact .bind preserves_files_endBatch fun _ => .bind (recorded _ _) fun _ => .pure _
    | _ => exact refused _

/-- Calls to the settings leave the files alone. -/
theorem SettingsCall.files_run (call : SettingsCall) (keeps : ∀ files, call ≠ .changeFiles files) :
    (call.run l).files = l.files := by
  cases call with
  | set key v => exact preserves_files_set key v l rfl
  | addRecentFile path => exact preserves_files_addRecentFile path l rfl
  | get key => exact (untouched_get key .null l).files
  | beginBatch => rfl
  | endBatch => exact preserves_files_endBatch l rfl
  | importFrom path => exact preserves_files_importFrom path l rfl
  | resetAll =>
    obtain ⟨journal, gives⟩ := resetAll_eq l
    rw [run, after_of_ok gives]
  | changeFiles files => exact absurd rfl (keeps files)

end Files

namespace SettingsCall

variable {d : Definition} {l : Ledger}

theorem files_runAll {calls : List SettingsCall} (keeps : ∀ files, .changeFiles files ∉ calls) :
    (runAll calls l).files = l.files := by
  induction calls generalizing l with
  | nil => rfl
  | cons call rest ih =>
    have here : (call.run l).files = l.files :=
      call.files_run fun files same => keeps files (same ▸ List.mem_cons_self ..)
    exact (ih fun files later => keeps files (List.mem_cons_of_mem _ later)).trans here

/-- What was remembered of a setting is still remembered, perhaps with another value. -/
theorem isSome_remembered_runAll (hd : d ∈ Definition.all) (calls : List SettingsCall)
    (orderly : l.Orderly) (recalled : (l.holding d).remembered.isSome = true) :
    ((runAll calls l).holding d).remembered.isSome = true := by
  induction calls generalizing l with
  | nil => exact recalled
  | cons call rest ih =>
    obtain ⟨orderly', steps⟩ := moves hd call orderly
    exact ih orderly' (steps.isSome_remembered recalled)

end SettingsCall

/-! ## Everything that can be done with settings -/

/-- What can be done with settings, but for readings with an override. -/
inductive SettingsDeed where
  | call (c : SettingsCall)
  | getCategory (c : Category)
  | exportTo (path : String)
  | sync
  | clearCache

namespace SettingsDeed

/-- What a deed leaves behind, whether it fails or not. -/
def run : SettingsDeed → Ledger → Ledger
  | .call c, l => c.run l
  | .getCategory c, l => after (SettingsM.getCategory c) l
  | .exportTo path, l => after (SettingsM.exportTo path) l
  | .sync, l => after SettingsM.sync l
  | .clearCache, l => after SettingsM.clearCache l

/-- What deeds leave behind, one after another. -/
def runAll (deeds : List SettingsDeed) (l : Ledger) : Ledger := deeds.foldl (fun l deed => deed.run l) l

/-- **A deed changes the places of a setting in steps**, or else what is remembered of it is forgotten. -/
theorem moves {d : Definition} (hd : d ∈ Definition.all) (deed : SettingsDeed) {l : Ledger}
    (orderly : l.Orderly) :
    (deed.run l).Orderly ∧
      ((∃ writes drops, Holding.Steps d writes drops (l.holding d) ((deed.run l).holding d)) ∨
        (deed.run l).holding d = { l.holding d with remembered := none }) := by
  have stepwise {α : Type} {work : SettingsM α}
      (moves : SettingsM.Moves d False (fun _ => False) work l) :
      (after work l).Orderly ∧
        ((∃ writes drops, Holding.Steps d writes drops (l.holding d) ((after work l).holding d)) ∨
          (after work l).holding d = { l.holding d with remembered := none }) :=
    (moves orderly).imp_right fun steps => .inl ⟨_, _, steps⟩
  cases deed with
  | call c => exact (c.moves hd orderly).imp_right fun steps => .inl ⟨_, _, steps⟩
  | getCategory c => exact stepwise (SettingsM.moves_getAll hd _ l)
  | exportTo path => exact stepwise (SettingsM.moves_exportTo hd path l)
  | sync => exact stepwise (.record _ _)
  | clearCache => exact ⟨orderly, .inr rfl⟩

end SettingsDeed

namespace Ledger

open SettingsM

variable {l l' : Ledger}

/-- A batch has no two changes of one setting, and what is remembered of a setting is allowed. -/
structure Proper (l : Ledger) : Prop where
  orderly : l.Orderly
  vetted : ∀ d ∈ Definition.all, (l.holding d).Vetted d

/-- **Whatever is done, what is remembered is allowed.** -/
theorem Proper.run (proper : l.Proper) (deed : SettingsDeed) : (deed.run l).Proper := by
  constructor
  · exact (deed.moves (d := Definition.maxSteps) (.head _) proper.orderly).1
  · intro d hd
    obtain ⟨-, ⟨_, _, steps⟩ | forgotten⟩ := deed.moves hd proper.orderly
    · exact steps.vetted hd (proper.vetted d hd)
    · rw [forgotten]
      exact nofun

theorem Proper.runAll (proper : l.Proper) (deeds : List SettingsDeed) :
    (SettingsDeed.runAll deeds l).Proper := by
  induction deeds generalizing l with
  | nil => exact proper
  | cons deed rest ih => exact ih (proper.run deed)

theorem proper_start (l : Ledger) : (after SettingsM.start l).Proper := by
  have fresh := settings_start l
  constructor
  · intro changes same
    rw [fresh] at same
    cases same
  · intro d _ v recalled
    simp only [holding, fresh] at recalled
    cases recalled

/-- What is remembered of settings in order can be written out and taken back, if the recent files are
texts. -/
theorem Proper.fit (proper : l.Proper) {paths : List String}
    (texts : outcome (get Definition.recentFiles.key .null) l = .ok (Settings.listing paths))
    {d : Definition} (hd : d ∈ Definition.all) {v : Value}
    (recalled : Dict.find? l.settings.cache d.key = some v) : d.validate v = .ok true ∧ v.Simple := by
  have valid := proper.vetted d hd v recalled
  refine ⟨valid, Definition.simple_of_valid hd valid ?_⟩
  rintro rfl
  rw [outcome_of_ok (get_of_cached recalled .null)] at texts
  exact ⟨paths, Except.ok.inj texts⟩

/-- **A file of settings** holds what every setting reads as. -/
theorem Proper.exported (proper : l.Proper) {path : String} {paths : List String}
    (texts : outcome (get Definition.recentFiles.key .null) l = .ok (Settings.listing paths))
    (exported : exportTo path l = .ok true l') :
    l'.Proper ∧
      (∀ d ∈ Definition.all, outcome (get d.key .null) l' = outcome (get d.key .null) l) ∧
      ∃ values, l'.files.readJson l'.room path = .ok (.object values) ∧
        List.Forall₂ (Entry l') Definition.all values := by
  have proper' : l'.Proper := after_of_ok exported ▸ proper.run (.exportTo path)
  obtain ⟨values, l₁, files, journal, read, clean, written, rfl⟩ := exportTo_eq_ok exported
  have same (d : Definition) (hd : d ∈ Definition.all) :
      outcome (get d.key .null) { l₁ with files, journal } = outcome (get d.key .null) l := by
    have read : outcome (get d.key .null) l₁ = outcome (get d.key .null) l :=
      (preserves_outcome_get hd _ Definition.all).of_ok read rfl
    rw [← read]
    exact outcome_get_congr (Definition.find?_key hd) .null rfl rfl rfl
  have entries := entries_of_getAll (fun _ h => h) read
  have texts' := (same Definition.recentFiles mem_recentFiles).trans texts
  have simple (d : Definition) (hd : d ∈ Definition.all) (v : Value)
      (recalled : Dict.find? l₁.settings.cache d.key = some v) : v.Simple :=
    (proper'.fit texts' hd recalled).2
  have plain : (Value.object values).Plain := plain_of_entries entries nodup_defaults simple
  have fits := (height_of_entries entries simple).trans l₁.room.two_le_reading
  exact ⟨proper', same, values, Directory.readJson_write plain fits clean written, entries⟩

/-- **Exported settings can be restored.**  However the settings got to where they are, once they are
written to a file, with recent files that are texts, that file can be taken back after any calls that
leave it alone, also within a batch, and every setting reads again as it did. -/
theorem exported_settings_are_restored (l₀ : Ledger) (deeds : List SettingsDeed) (path : String)
    (paths : List String) (calls : List SettingsCall) :
    let l := SettingsDeed.runAll deeds (after SettingsM.start l₀)
    let l' := SettingsCall.runAll calls (after (exportTo path) l)
    outcome (get Definition.recentFiles.key .null) l = .ok (Settings.listing paths) →
    outcome (exportTo path) l = .ok true →
    (∀ files, .changeFiles files ∉ calls) →
    outcome (importFrom path) l' = .ok true ∧
      ∀ d ∈ Definition.all,
        outcome (get d.key .null) (after (importFrom path) l') = outcome (get d.key .null) l := by
  intro l l' texts exported keeps
  have proper : l.Proper := (proper_start l₀).runAll deeds
  obtain ⟨proper₁, same, values, written, entries⟩ := proper.exported texts (eq_ok_of_outcome exported)
  have texts₁ := (same Definition.recentFiles mem_recentFiles).trans texts
  have kept : l'.files.readJson l'.room path = .ok (.object values) := by
    rw [SettingsCall.files_runAll keeps, SettingsCall.room_runAll calls proper₁.orderly]
    exact written
  have recalled (d : Definition) (hd : d ∈ Definition.all) :
      ∃ old, Dict.find? l'.settings.cache d.key = some old := by
    -- Every setting was read to be written out, and no call forgets it.
    obtain ⟨v, recalled, -⟩ := recalled_of_entries entries entries hd
    exact Option.isSome_iff_exists.mp <| SettingsCall.isSome_remembered_runAll hd calls proper₁.orderly
      (Option.isSome_of_eq_some recalled)
  obtain ⟨l₂, imported, entries'⟩ :=
    importFrom_entries kept entries (fun d hd v => proper₁.fit texts₁ hd) recalled
  refine ⟨outcome_of_ok imported, fun d hd => ?_⟩
  obtain ⟨v, recalled₁, recalled₂⟩ := recalled_of_entries entries entries' hd
  rw [after_of_ok imported, ← same d hd, outcome_of_ok (get_of_cached recalled₁ .null),
    outcome_of_ok (get_of_cached recalled₂ .null)]

/-- Settings are changed and forgotten, written out, and then reset and changed within a batch, with recent
files that are no texts. -/
theorem settings_survive_a_reset :
    let l := SettingsDeed.runAll
      [.call (.set Definition.tapeCapacity.key (.int 250)), .call (.addRecentFile "a.tmachine"), .clearCache]
      (after SettingsM.start default)
    let l' := SettingsCall.runAll
      [.resetAll, .beginBatch, .set Definition.recentFiles.key (.list [.int 1])]
      (after (exportTo "settings.json") l)
    (outcome (get Definition.recentFiles.key .null) l').toOption.map
      (·.eqv (Settings.listing ["a.tmachine"])) = some false ∧
    outcome (importFrom "settings.json") l' = .ok true ∧
    (∀ d ∈ Definition.all,
      outcome (get d.key .null) (after (importFrom "settings.json") l') = outcome (get d.key .null) l) ∧
    outcome (get Definition.recentFiles.key .null) (after (importFrom "settings.json") l') =
      .ok (Settings.listing ["a.tmachine"]) := by
  intro l l'
  have texts : outcome (get Definition.recentFiles.key .null) l =
      .ok (Settings.listing ["a.tmachine"]) := by
    have equal : (outcome (get Definition.recentFiles.key .null) l).toOption.map
        (·.eqv (Settings.listing ["a.tmachine"])) = some true := by decide +kernel
    obtain ⟨v, gives, same⟩ := Option.map_eq_some_iff.mp equal
    rw [eq_ok_of_toOption gives, Value.eqv_listing.mp same]
  have exported : outcome (exportTo "settings.json") l = .ok true := eq_ok_of_toOption (by decide +kernel)
  obtain ⟨imported, same⟩ := exported_settings_are_restored default _ "settings.json" ["a.tmachine"]
    [.resetAll, .beginBatch, .set Definition.recentFiles.key (.list [.int 1])] texts exported (by simp)
  exact ⟨by decide +kernel, imported, same,
    (same Definition.recentFiles mem_recentFiles).trans texts⟩

end Ledger

end MachineLab
