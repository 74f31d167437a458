import MachineLab.Proofs.Persistence

/-!
# Overrides

A stored value that is of no use gives way to a fallback: the override of the call, or else the default.
What is found is remembered, fallback or not.  So a setting whose stored value is of use, and one that there
is not, reads the same after any readings.  One that falls back goes on reading as the fallback of its first
reading, whatever later readings bring.

## Main definitions

* `Definition.own?` — what a stored value reads as by itself, if it is of use.
* `Ledger.FallsBack` — the stored value of a setting is of no use.

## Main statements

* `SettingsM.outcome_search` — a search gives the stored value, or else the fallback.
* `Ledger.outcome_get_readAll` — the first reading of a setting decides all later ones.
* `Ledger.reading_is_clean_but_for_fallbacks` — when readings leave a setting as it reads.
* `Ledger.override_shows_up_later` — a fallback that a later reading gives back.
-/

namespace MachineLab

namespace Definition

/-- Convert a stored value and check it; nothing if it is not allowed, which has to be reported. -/
def checked (d : Definition) (room : Room) (v : Value) : Except Fault (Option Value) := do
  let converted ← outcome (SettingsM.convert v d.default) { (Inhabited.default : Ledger) with room }
  if ← d.validate converted then return some converted
  discard (Settings.spelled room converted)
  return none

/-- What a stored value reads as by itself.  A value that is missing, cannot be converted or is not allowed
is of no use; a fault that says something else is passed on, and so is one of the report. -/
def own? (d : Definition) (room : Room) (stored : Option Value) : Option (Except Fault Value) :=
  match stored.getD .null with
  | .null => none
  | v =>
    match d.checked room v with
    | .ok found => found.map .ok
    | .error e =>
      if SettingsM.isBadValue e then
        match Settings.spelled room v with
        | .ok _ => none
        | .error e => some (.error e)
      else some (.error e)

theorem own?_of_ne_null (d : Definition) (room : Room) {stored : Option Value} {v : Value}
    (hv : stored.getD .null = v) (present : v ≠ .null) :
    d.own? room stored =
      match d.checked room v with
      | .ok found => found.map .ok
      | .error e =>
        if SettingsM.isBadValue e then
          match Settings.spelled room v with
          | .ok _ => none
          | .error e => some (.error e)
        else some (.error e) := by
  simp only [own?, hv]

end Definition

namespace SettingsM

variable {d : Definition} {l : Ledger}

/-- A conversion gives the same in every ledger with the same room. -/
theorem convert_eq (v fallback : Value) (l : Ledger) :
    ∃ log, convert v fallback l =
      conclude (outcome (convert v fallback) { (default : Ledger) with room := l.room })
        (l.logged log) := by
  obtain ⟨result, hconvert⟩ := logs_convert v fallback l.room
  obtain ⟨_, atDefault⟩ := hconvert { (default : Ledger) with room := l.room } rfl
  rw [outcome_of_conclude atDefault]
  exact hconvert l rfl

/-- A conversion with a check gives what passes, or else the fallback. -/
theorem outcome_convertChecked (d : Definition) (v fallback : Value) (l : Ledger) :
    outcome (convertChecked d v fallback) l = (d.checked l.room v).map (·.getD fallback) := by
  obtain ⟨log, converts⟩ := convert_eq v d.default l
  unfold Definition.checked
  cases converted : outcome (convert v d.default) { (default : Ledger) with room := l.room } with
  | error e =>
    rw [converted] at converts
    exact outcome_of_error (bind_of_error converts)
  | ok c =>
    rw [converted] at converts
    refine (outcome_congr (bind_of_ok converts)).trans ?_
    change _ = (d.validate c >>= _).map _
    generalize d.validate c = valid
    cases valid with
    | error e => rfl
    | ok valid =>
      cases valid with
      | true => rfl
      | false =>
        refine (outcome_congr (bind_of_ok rfl)).trans ((outcome_bind_spell c _ _).trans ?_)
        change (Settings.spelled l.room c >>= _) = (discard (Settings.spelled l.room c) >>= _).map _
        generalize Settings.spelled l.room c = report
        cases report <;> rfl

theorem outcome_complain (d : Definition) (v fallback : Value) (e : Fault) (l : Ledger) :
    outcome (complain d v fallback e) l =
      if isBadValue e then (Settings.spelled l.room v).map fun _ => fallback else .error e := by
  unfold complain
  split_ifs
  · rw [outcome_bind_spell]
    cases Settings.spelled l.room v <;> rfl
  · rfl

theorem search_of_ne_null {v : Value} (present : v ≠ .null) (d : Definition) (override : Value) :
    search d override v =
      tryCatch (convertChecked d v (d.fallback override)) (complain d v (d.fallback override)) := by
  cases v with
  | null => exact absurd rfl present
  | _ => rfl

/-- **A search gives what the stored value reads as by itself, or else the fallback.** -/
theorem outcome_search (d : Definition) (override : Value) (stored : Option Value) (l : Ledger) :
    outcome (search d override (stored.getD .null)) l =
      (d.own? l.room stored).getD (.ok (d.fallback override)) := by
  generalize hv : stored.getD .null = v
  by_cases present : v = .null
  · subst present
    simp only [Definition.own?, hv]
    rfl
  · have converts := eq_conclude (convertChecked d v (d.fallback override)) l
    rw [outcome_convertChecked] at converts
    rw [search_of_ne_null present, d.own?_of_ne_null l.room hv present]
    have room : (after (convertChecked d v (d.fallback override)) l).room = l.room := by
      obtain ⟨_, hlogs⟩ := logs_convertChecked d v (d.fallback override) l.room
      obtain ⟨log, left⟩ := hlogs l rfl
      rw [after_of_conclude left]
      rfl
    cases hchecked : d.checked l.room v with
    | ok found =>
      rw [hchecked] at converts
      rw [outcome_of_ok (tryCatch_of_ok converts)]
      cases found <;> rfl
    | error e =>
      rw [hchecked] at converts
      rw [outcome_congr (tryCatch_of_error converts), outcome_complain, room]
      split_ifs with bad
      · simp only [bad, if_true]
        cases Settings.spelled l.room v <;> rfl
      · simp [bad]

section Forgotten

variable {key : String} (known : Definition.find? key = some d)
  (absent : Dict.find? l.settings.cache key = none)
include known absent

/-- A setting that is not remembered reads as its stored value does by itself, or else as the fallback, and
what it reads as is remembered. -/
theorem get_of_search (override : Value) :
    ∃ log, get key override l =
      conclude ((d.own? l.room (Dict.find? l.store key)).getD (.ok (d.fallback override)))
        (remembered key ((d.own? l.room (Dict.find? l.store key)).getD (.ok (d.fallback override)))
          (l.logged log)) := by
  obtain ⟨found, hsearch⟩ := logs_search d override ((Dict.find? l.store key).getD .null) l.room
  obtain ⟨log, searched⟩ := hsearch l rfl
  refine ⟨log, ?_⟩
  rw [← outcome_search, outcome_of_conclude searched, get_of_absent known override absent]
  cases found with
  | ok v => exact bind_of_ok searched
  | error e => exact bind_of_error searched

/-- A stored value that is of use is read whatever the override is. -/
theorem outcome_get_of_own {result : Except Fault Value}
    (own : d.own? l.room (Dict.find? l.store key) = some result) (override : Value) :
    outcome (get key override) l = result := by
  obtain ⟨log, gives⟩ := get_of_search known absent override
  rw [outcome_of_conclude gives, own, Option.getD_some]

/-- A stored value that is of no use gives way to the fallback. -/
theorem outcome_get_of_useless (useless : d.own? l.room (Dict.find? l.store key) = none)
    (override : Value) :
    outcome (get key override) l = .ok (d.fallback override) := by
  obtain ⟨log, gives⟩ := get_of_search known absent override
  rw [outcome_of_conclude gives, useless, Option.getD_none]

end Forgotten

end SettingsM

namespace Ledger

open SettingsM

variable {d : Definition} {l : Ledger} {key : String}

/-- Settings are read one after another, each with an override. -/
def readAll (reads : List (String × Value)) (l : Ledger) : Ledger :=
  reads.foldl (fun l read => after (get read.1 read.2) l) l

theorem recalls_readAll {v : Value} (cached : Dict.find? l.settings.cache key = some v)
    (reads : List (String × Value)) : Dict.find? (readAll reads l).settings.cache key = some v := by
  induction reads generalizing l with
  | nil => exact cached
  | cons read rest ih => exact ih (recalls_get cached read.1 read.2)

/-- **The first reading of a setting decides all later ones**: they give what it gives, as if they had its
override. -/
theorem outcome_get_readAll (known : Definition.find? key = some d)
    (absent : Dict.find? l.settings.cache key = none) (reads : List (String × Value)) (override : Value) :
    outcome (get key override) (readAll reads l) =
      outcome (get key ((Dict.find? reads key).getD override)) l := by
  induction reads generalizing l with
  | nil => rfl
  | cons read rest ih =>
    obtain ⟨k, o⟩ := read
    rw [Dict.find?_cons]
    have untouched := untouched_get k o l
    by_cases same : key = k
    · subst same
      rw [if_pos rfl, Option.getD_some]
      obtain ⟨log, gives⟩ := get_of_search known absent o
      have left := after_of_conclude gives
      rw [outcome_of_conclude gives]
      cases found : (d.own? l.room (Dict.find? l.store key)).getD (.ok (d.fallback o)) with
      | ok v =>
        have cached : Dict.find? (after (get key o) l).settings.cache key = some v := by
          rw [left, found]
          exact (Dict.find?_insert _ _ _ _).trans (if_pos rfl)
        exact outcome_of_ok (get_of_cached (recalls_readAll cached rest) override)
      | error e =>
        -- Only a fault of the stored value itself is passed on; then nothing is remembered.
        have own : d.own? l.room (Dict.find? l.store key) = some (.error e) := by
          cases own : d.own? l.room (Dict.find? l.store key) with
          | none => simp [own] at found
          | some result => rw [← found, own, Option.getD_some]
        have absent' : Dict.find? (after (get key o) l).settings.cache key = none := by
          rw [left, found]
          exact absent
        refine (ih absent').trans (outcome_get_of_own known absent' ?_ _)
        rw [untouched.store, untouched.room, own]
    · rw [if_neg same]
      have absent' : Dict.find? (after (get k o) l).settings.cache key = none := by
        rw [untouched.others key same, absent]
      exact (ih absent').trans (outcome_get_congr known _ untouched.room (untouched.others key same)
        (by rw [untouched.store]))

/-- A setting that there is not reads as the override, whatever was read before. -/
theorem outcome_get_readAll_of_unknown (unknown : Definition.find? key = none)
    (absent : Dict.find? l.settings.cache key = none) (reads : List (String × Value)) (override : Value) :
    outcome (get key override) (readAll reads l) = .ok override := by
  induction reads generalizing l with
  | nil =>
    obtain ⟨log, gives⟩ := get_of_unknown unknown override absent
    exact outcome_of_ok gives
  | cons read rest ih =>
    obtain ⟨k, o⟩ := read
    have absent' : Dict.find? (after (get k o) l).settings.cache key = none := by
      by_cases same : key = k
      · subst same
        obtain ⟨log, gives⟩ := get_of_unknown unknown o absent
        rw [after_of_ok gives]
        exact absent
      · rw [(untouched_get k o l).others key same, absent]
    exact ih absent'

/-- What is stored for a setting is of no use, so that a fallback takes its place. -/
def FallsBack (l : Ledger) (d : Definition) : Prop := d.own? l.room (Dict.find? l.store d.key) = none

/-- **Reading leaves settings as they read, but for fallbacks.**  Where nothing is remembered to begin with,
let settings be read with any overrides.  A setting that there is not, and one whose stored value is of use,
then read with any override as they would have at the beginning.  One that falls back reads as the fallback
of its first reading; this is the fallback of the reading itself if all overrides that were given for the
setting stand for one fallback. -/
theorem reading_is_clean_but_for_fallbacks (l : Ledger) (reads : List (String × Value))
    (override : Value) :
    let start := after clearCache l
    (∀ key, Definition.find? key = none →
      outcome (get key override) (readAll reads start) = outcome (get key override) start) ∧
    ∀ d ∈ Definition.all,
      ((l.FallsBack d → ∀ read ∈ reads, read.1 = d.key → d.fallback read.2 = d.fallback override) →
        outcome (get d.key override) (readAll reads start) = outcome (get d.key override) start) ∧
      (l.FallsBack d →
        outcome (get d.key override) start = .ok (d.fallback override) ∧
        outcome (get d.key override) (readAll reads start) =
          .ok (d.fallback ((Dict.find? reads d.key).getD override))) := by
  intro start
  have absent (key : String) : Dict.find? start.settings.cache key = none := rfl
  refine ⟨fun key unknown => ?_, fun d hd => ?_⟩
  · have atStart := outcome_get_readAll_of_unknown unknown (absent key) [] override
    exact (outcome_get_readAll_of_unknown unknown (absent key) reads override).trans atStart.symm
  have known := Definition.find?_key hd
  have useless (fallsBack : l.FallsBack d) (o : Value) :
      outcome (get d.key o) start = .ok (d.fallback o) :=
    outcome_get_of_useless known (absent d.key) fallsBack o
  rw [outcome_get_readAll known (absent d.key)]
  refine ⟨fun agree => ?_, fun fallsBack => ⟨useless fallsBack _, useless fallsBack _⟩⟩
  cases own : d.own? l.room (Dict.find? l.store d.key) with
  | some result =>
    rw [outcome_get_of_own known (absent d.key) own, outcome_get_of_own known (absent d.key) own]
  | none =>
    rw [useless own, useless own]
    cases first : Dict.find? reads d.key with
    | none => rfl
    | some o =>
      obtain ⟨before, rest, rfl, -⟩ := List.lookup_eq_some_iff.mp first
      exact congrArg _ (agree own (d.key, o) (by simp) rfl)

/-- A ledger in which the stored capacity of a tape is below the least one, and the stored step budget is
the text of a number. -/
def lowCapacity : Ledger :=
  { (default : Ledger) with
    store := [(Definition.tapeCapacity.key, .int 5), (Definition.maxSteps.key, .text "70")] }

theorem lowCapacity_fallsBack : lowCapacity.FallsBack Definition.tapeCapacity :=
  Option.isNone_iff_eq_none.mp (by decide +kernel)

/-- The capacity goes on reading as the override of its first reading, and the step budget reads as it did. -/
theorem lowCapacity_reads_as_first_override :
    let reads : List (String × Value) :=
      [(Definition.tapeCapacity.key, .int 250), (Definition.maxSteps.key, .int 1),
        (Definition.tapeCapacity.key, .int 400)]
    let start := after clearCache lowCapacity
    lowCapacity.FallsBack Definition.tapeCapacity ∧
    outcome (get Definition.tapeCapacity.key .null) (readAll reads start) = .ok (.int 250) ∧
    ¬ lowCapacity.FallsBack Definition.maxSteps ∧
    outcome (get Definition.maxSteps.key (.int 2)) (readAll reads start) =
      outcome (get Definition.maxSteps.key (.int 2)) start := by
  intro reads start
  have hd : Definition.tapeCapacity ∈ Definition.all := .tail _ (.tail _ (.tail _ (.head _)))
  have useful : ¬ lowCapacity.FallsBack Definition.maxSteps := by
    rw [FallsBack, ← Option.isNone_iff_eq_none]
    decide +kernel
  obtain ⟨-, capacity⟩ := (reading_is_clean_but_for_fallbacks lowCapacity reads .null).2 _ hd
  obtain ⟨budget, -⟩ := (reading_is_clean_but_for_fallbacks lowCapacity reads (.int 2)).2
    Definition.maxSteps (.head _)
  exact ⟨lowCapacity_fallsBack, (capacity lowCapacity_fallsBack).2, useful,
    budget fun fallsBack => absurd fallsBack useful⟩

/-- **An override shows up in a later reading**: the capacity reads as its default, but no longer once it was
read with an override. -/
theorem override_shows_up_later :
    outcome (get Definition.tapeCapacity.key .null) (after clearCache lowCapacity) = .ok (.int 100) ∧
    outcome (get Definition.tapeCapacity.key .null)
      (readAll [(Definition.tapeCapacity.key, .int 250)] (after clearCache lowCapacity)) =
        .ok (.int 250) := by
  have known : Definition.find? Definition.tapeCapacity.key = some Definition.tapeCapacity := rfl
  have falls (override : Value) := outcome_get_of_useless (l := after clearCache lowCapacity) known rfl
    lowCapacity_fallsBack override
  exact ⟨falls .null, (outcome_get_readAll known rfl _ _).trans (falls (.int 250))⟩

end Ledger

end MachineLab
