import MachineLab.Proofs.Equality
import MachineLab.Proofs.Persistence

/-!
# Files opened lately

A file that is added goes to the front of a list that is cut off after ten.  Cutting it off at every
addition loses nothing: the list is always what it would be if the whole history were kept, rid of
repetitions and cut off once.

## Main definitions

* `Settings.push` — a file goes to the front.
* `Settings.latest` — the distinct files of a history, latest first, up to ten.
* `SettingsCall.Bystander` — calls that leave the list alone.

## Main statements

* `Settings.latest_concat` — one more file, added to the list that was cut off.
* `SettingsM.recalls_addRecentFile` — what is remembered once a file was added.
* `Ledger.recent_files_are_the_latest` — the list after any history.
-/

namespace MachineLab

/-! ## Distinct items of a list -/

section Lists

variable {α : Type} [BEq α] [LawfulBEq α]

/-- Among the distinct items, those with a property are the distinct ones of the items with the property. -/
theorem eraseDups_filter (p : α → Bool) (items : List α) :
    (items.filter p).eraseDups = items.eraseDups.filter p := by
  cases items with
  | nil => rfl
  | cons a rest =>
    rw [List.eraseDups_cons, List.filter_cons, List.filter_cons,
      ← eraseDups_filter p (rest.filter fun b => !b == a), List.filter_filter]
    split_ifs with ha
    · rw [List.eraseDups_cons, List.filter_filter]
      simp only [Bool.and_comm]
    · have same : rest.filter (fun b => p b && !b == a) = rest.filter p := by
        refine List.filter_congr fun b _ => ?_
        cases hb : p b with
        | false => rfl
        | true =>
          have other : b ≠ a := fun same => ha (same ▸ hb)
          simp [other]
      rw [same]
termination_by items.length
decreasing_by exact Nat.lt_succ_of_le (List.length_filter_le _ _)

theorem nodup_eraseDups (items : List α) : items.eraseDups.Nodup := by
  cases items with
  | nil => exact List.nodup_nil
  | cons a rest =>
    rw [List.eraseDups_cons, List.nodup_cons]
    exact ⟨by simp [List.mem_eraseDups], nodup_eraseDups (rest.filter fun b => !b == a)⟩
termination_by items.length
decreasing_by exact Nat.lt_succ_of_le (List.length_filter_le _ _)

/-- Where one item is left out, one more of the others is enough. -/
theorem take_filter_take {items : List α} (distinct : items.Nodup) (a : α) (n : Nat) :
    ((items.take (n + 1)).filter (· != a)).take n = (items.filter (· != a)).take n := by
  induction items generalizing n with
  | nil => rfl
  | cons b rest ih =>
    obtain ⟨new, distinct'⟩ := List.nodup_cons.mp distinct
    rw [List.take_succ_cons, List.filter_cons, List.filter_cons]
    by_cases same : b = a
    · subst same
      have whole (items : List α) (absent : b ∉ items) : items.filter (· != b) = items := by
        refine List.filter_eq_self.mpr fun c hc => ?_
        have other : c ≠ b := fun same => absent (same ▸ hc)
        simpa using other
      simp [whole rest new, whole (rest.take n) fun h => new (List.mem_of_mem_take h), List.take_take]
    · cases n with
      | zero => rfl
      | succ n => simp [same, ih distinct' n]

end Lists

/-! ## Histories -/

namespace Settings

/-- The list of recent files once a file was added. -/
def push (recent : List String) (path : String) : List String :=
  (path :: recent.filter (· != path)).take maxRecentFiles

/-- The first ten of the distinct files of a history, from its end. -/
def latest (history : List String) : List String := history.reverse.eraseDups.take maxRecentFiles

/-- **A file that is added to the list that was cut off** gives the same as one added to the whole history. -/
theorem latest_concat (history : List String) (path : String) :
    latest (history ++ [path]) = push (latest history) path := by
  have distinct := nodup_eraseDups history.reverse
  have others : (history.reverse.filter fun p => !p == path).eraseDups =
      history.reverse.eraseDups.filter (· != path) := eraseDups_filter _ _
  rw [latest, List.reverse_concat, List.eraseDups_cons, others, push, latest]
  simp only [maxRecentFiles, List.take_succ_cons]
  rw [take_filter_take distinct path 9]

/-- Files that are added one after another continue the history. -/
theorem foldl_push (earlier later : List String) :
    later.foldl push (latest earlier) = latest (earlier ++ later) := by
  induction later generalizing earlier with
  | nil => rw [List.foldl_nil, List.append_nil]
  | cons path rest ih => rw [List.foldl_cons, ← latest_concat, ih, List.append_assoc, List.singleton_append]

theorem nodup_latest (history : List String) : (latest history).Nodup :=
  (nodup_eraseDups _).sublist (List.take_sublist _ _)

theorem length_latest_le (history : List String) : (latest history).length ≤ maxRecentFiles :=
  List.length_take_le _ _

/-- What is in the list was there before or was added. -/
theorem mem_foldl_push {recent later : List String} {path : String}
    (h : path ∈ later.foldl push recent) : path ∈ later ∨ path ∈ recent := by
  induction later generalizing recent with
  | nil => exact .inr h
  | cons next rest ih =>
    rcases ih h with added | kept
    · exact .inl (List.mem_cons_of_mem _ added)
    · rcases List.mem_cons.mp (List.mem_of_mem_take kept) with rfl | old
      · exact .inl (List.mem_cons_self ..)
      · exact .inr (List.mem_filter.mp old).1

/-- A list of paths as the value of a setting. -/
def listing (paths : List String) : Value := .list (paths.map .text)

end Settings

/-! ## Lists of texts as values -/

namespace Value

/-- Only a list of texts equals it. -/
theorem eqv_listing {v : Value} {paths : List String} :
    v.eqv (Settings.listing paths) = true ↔ v = Settings.listing paths := by
  cases v <;> simp [Settings.listing, eqv, measure?, eqvItems_texts]

/-- There is room to report a list of texts. -/
theorem writeError?_texts (paths : List String) {writing : Nat} (pos : 1 ≤ writing) :
    (list (paths.map .text)).writeError? writing = none := by
  obtain ⟨room, rfl⟩ := Nat.exists_eq_add_of_le' pos
  rw [writeError?]
  induction paths with
  | nil => rfl
  | cons path rest ih => simp [itemsError?, writeError?, ih]

end Value

namespace SettingsM

open Settings

variable {l : Ledger}

theorem valid_listing (paths : List String) :
    Definition.recentFiles.validate (listing paths) = .ok true := rfl

/-- What is left of the list once a file was taken out of it. -/
theorem filter_listing (recent : List String) (path : String) :
    (recent.map Value.text).filter (fun v => !v.eqv (.text path)) =
      (recent.filter (· != path)).map .text := by
  rw [List.filter_map]
  refine congrArg _ (List.filter_congr fun p _ => ?_)
  simp [Value.eqv, bne]

theorem mem_recentFiles : Definition.recentFiles ∈ Definition.all := by simp [Definition.all]

/-- **A file that is added** goes to the front of the list as it was read. -/
theorem recalls_addRecentFile {recent : List String}
    (read : outcome (get Definition.recentFiles.key .null) l = .ok (listing recent)) (path : String) :
    Dict.find? (after (addRecentFile path) l).settings.cache Definition.recentFiles.key =
      some (listing (push recent path)) := by
  have gives := eq_ok_of_outcome read
  generalize after (get Definition.recentFiles.key .null) l = l₁ at gives
  have pushed : Value.list ((.text path ::
      (recent.map Value.text).filter fun v => !v.eqv (.text path)).take maxRecentFiles) =
      listing (push recent path) := by
    rw [filter_listing, listing, push, List.map_take, List.map_cons]
  have accepted : outcome (set Definition.recentFiles.key (listing (push recent path))) l₁ = .ok true :=
    accepted_of_recalled mem_recentFiles (valid_listing _)
      (Value.writeError?_texts _ l₁.room.one_le_writing) (remembered_of_get mem_recentFiles gives)
  obtain ⟨u, equal, recalled⟩ := remembered_of_accepted mem_recentFiles accepted
  obtain rfl : u = listing (push recent path) := equal.elim id Value.eqv_listing.mp
  have whole : addRecentFile path l =
      (discard (set Definition.recentFiles.key (listing (push recent path)))) l₁ := by
    rw [← pushed]
    exact bind_of_ok gives
  rw [after_of_ok (whole.trans (bind_of_ok (eq_ok_of_outcome accepted)))]
  exact recalled

end SettingsM

/-! ## Calls -/

namespace SettingsCall

open Settings

variable {l : Ledger}

/-- A call that does not give the list of recent files a value. -/
def Bystander : SettingsCall → Prop
  | .get _ | .beginBatch | .endBatch | .changeFiles _ => True
  | .set key _ => Definition.recentFiles.key ≠ key
  | _ => False

theorem Bystander.recalls {call : SettingsCall} (bystander : call.Bystander) {v : Value}
    (recalled : Dict.find? l.settings.cache Definition.recentFiles.key = some v) :
    Dict.find? (call.run l).settings.cache Definition.recentFiles.key = some v := by
  cases call with
  | set key u => exact SettingsM.recalls_set recalled bystander u
  | get key => exact SettingsM.recalls_get recalled key .null
  | beginBatch => exact recalled
  | endBatch =>
    obtain ⟨result, l', gives, cache, -⟩ := SettingsM.exists_endBatch_eq l
    rw [run, after_of_conclude gives, cache]
    exact recalled
  | changeFiles files => exact recalled
  | _ => exact bystander.elim

theorem recalls_bystanders {calls : List SettingsCall} (bystanders : ∀ call ∈ calls, call.Bystander)
    {v : Value} (recalled : Dict.find? l.settings.cache Definition.recentFiles.key = some v) :
    Dict.find? (runAll calls l).settings.cache Definition.recentFiles.key = some v := by
  induction calls generalizing l with
  | nil => exact recalled
  | cons call rest ih =>
    obtain ⟨here, later⟩ := List.forall_mem_cons.mp bystanders
    exact ih later (here.recalls recalled)

/-- Files are added one after another, each followed by some other calls. -/
def adding (turns : List (String × List SettingsCall)) : List SettingsCall :=
  turns.flatMap fun turn => .addRecentFile turn.1 :: turn.2

/-- **What the list reads as after files were added**, if the calls in between leave it alone. -/
theorem outcome_get_adding {turns : List (String × List SettingsCall)}
    (bystanders : ∀ turn ∈ turns, ∀ call ∈ turn.2, call.Bystander) {recent : List String}
    (read : outcome (SettingsM.get Definition.recentFiles.key .null) l = .ok (listing recent)) :
    outcome (SettingsM.get Definition.recentFiles.key .null) (runAll (adding turns) l) =
      .ok (listing ((turns.map (·.1)).foldl push recent)) := by
  induction turns generalizing l recent with
  | nil => exact read
  | cons turn rest ih =>
    obtain ⟨path, calls⟩ := turn
    obtain ⟨here, later⟩ := List.forall_mem_cons.mp bystanders
    have recalled := recalls_bystanders here (SettingsM.recalls_addRecentFile read path)
    have split : runAll (adding ((path, calls) :: rest)) l =
        runAll (adding rest) (runAll calls (after (SettingsM.addRecentFile path) l)) := by
      simp only [runAll, adding, List.flatMap_cons, List.foldl_append, List.foldl_cons, run]
    rw [split, List.map_cons, List.foldl_cons]
    exact ih later (outcome_of_ok (SettingsM.get_of_cached recalled .null))

end SettingsCall

namespace Ledger

open Settings SettingsCall

/-- **The recent files are the latest of the history.**  Let the list read as empty, and let files be added
one after another; in between, batches may be opened and ended, any setting may be read and others may be
changed.  Then the list reads as the first ten distinct files from the end of the history.  No file is in it
twice, and one that was pushed out is in it again only if it was added again. -/
theorem recent_files_are_the_latest (l : Ledger)
    (empty : outcome (SettingsM.get Definition.recentFiles.key .null) l = .ok (.list []))
    (turns : List (String × List SettingsCall))
    (bystanders : ∀ turn ∈ turns, ∀ call ∈ turn.2, call.Bystander) :
    let history := turns.map (·.1)
    outcome (SettingsM.get Definition.recentFiles.key .null) (runAll (adding turns) l) =
      .ok (listing (latest history)) ∧
    (latest history).Nodup ∧ (latest history).length ≤ 10 ∧
    ∀ earlier later path, history = earlier ++ later →
      path ∈ latest history → path ∉ latest earlier → path ∈ later := by
  intro history
  refine ⟨?_, nodup_latest history, length_latest_le history, ?_⟩
  · have unused : outcome (SettingsM.get Definition.recentFiles.key .null) l =
        .ok (listing (latest [])) := empty
    have read := outcome_get_adding bystanders unused
    rwa [foldl_push, List.nil_append] at read
  · intro earlier later path split back out
    rw [split, ← foldl_push] at back
    exact (mem_foldl_push back).resolve_right out

/-- Twelve files are added to fresh settings, in and out of batches: one of them again before it is pushed
out, and one after. -/
theorem reopened_file_comes_back :
    let start := after SettingsM.start default
    let turns : List (String × List SettingsCall) :=
      [("a", [.beginBatch]), ("b", []), ("c", [.set Definition.maxSteps.key (.int 5)]), ("d", []),
        ("b", [.endBatch]), ("e", []), ("f", [.beginBatch]), ("g", []), ("h", [.beginBatch]), ("i", []),
        ("j", []), ("k", [.endBatch, .get Definition.recentFiles.key]), ("l", [])]
    outcome (SettingsM.get Definition.recentFiles.key .null) start = .ok (.list []) ∧
    outcome (SettingsM.get Definition.recentFiles.key .null) (runAll (adding turns) start) =
      .ok (listing ["l", "k", "j", "i", "h", "g", "f", "e", "b", "d"]) ∧
    outcome (SettingsM.get Definition.recentFiles.key .null)
        (runAll (adding (turns ++ [("a", [])])) start) =
      .ok (listing ["a", "l", "k", "j", "i", "h", "g", "f", "e", "b"]) := by
  intro start turns
  have empty : outcome (SettingsM.get Definition.recentFiles.key .null) start = .ok (.list []) := rfl
  have other : Definition.recentFiles.key ≠ Definition.maxSteps.key := by decide
  have bystanders : ∀ turn ∈ turns ++ [("a", [])], ∀ call ∈ turn.2, call.Bystander := by
    simp [turns, Bystander, other]
  have before : ∀ turn ∈ turns, ∀ call ∈ turn.2, call.Bystander := fun turn mem =>
    bystanders turn (List.mem_append_left _ mem)
  exact ⟨empty, (recent_files_are_the_latest start empty turns before).1,
    (recent_files_are_the_latest start empty (turns ++ [("a", [])]) bystanders).1⟩

end Ledger

end MachineLab
