import MachineLab.Proofs.Bytes
import MachineLab.Proofs.Endless
import MachineLab.Proofs.Loading
import MachineLab.Proofs.Rendering
import MachineLab.Proofs.Sessions

/-!
# Tape files

A tape is saved as a document and loaded from one.  What was saved is loaded again with the same text:
the directory gives back the bytes, the bytes are decoded to the text that they encode, and the text is
read as the value that was written.

Loading refuses most files that hold no tape, and the log says why.  Three things it does not refuse but
fails on: bytes that are no text, integers with too many digits, and brackets inside one another for
which there is no room.  `Directory.Garbled` says which files these are.

## Main definitions

* `Directory.Garbled` — the files that defeat loading.
* `Tape.Tidy` — no cell holds a space.

## Main statements

* `Directory.read_write`, `Directory.readJson_write` — what was written is read.
* `DeskM.loadTape_of_garbled`, `DeskM.loadTape_of_not_garbled` — what loading gives.
* `DeskM.loadTape_saveTape` — a saved tape is loaded with its text.
* `tape_files_load_unless_garbled` — all of this, for sessions too.
-/

namespace MachineLab

namespace Directory

variable {d d' : Directory} {names : List String} {node : Node} {room : Room}

/-! ## Reading what was written -/

theorem node?_put (inner : names ≠ []) (other : List String) :
    (d.put names node).node? other = if other = names then some node else d.node? other := by
  cases other with
  | nil => simp [node?, inner.symm]
  | cons name rest =>
    simp only [node?, put, List.lookup_cons]
    by_cases same : name :: rest = names
    · simp [same]
    · simp [same, lookup_filter_ne, beq_eq_false_iff_ne.mpr same]

/-- Where a path leads does not depend on what stands at a place that is no folder. -/
theorem follow_put (vacant : d.node? names ≠ some .folder) {here parts : List String}
    {target : Target} (h : d.follow here parts = .ok target) :
    (d.put names node).follow here parts = .ok target := by
  have inner : names ≠ [] := by
    rintro rfl
    exact vacant rfl
  have kept {here : List String} (folder : d.node? here = some .folder) :
      (d.put names node).node? here = some .folder := by
    rw [node?_put inner, if_neg (by rintro rfl; exact vacant folder), folder]
  induction parts generalizing here with
  | nil => exact h
  | cons part rest ih =>
    unfold follow at h ⊢
    cases stands : d.node? here with
    | none =>
      rw [stands] at h
      cases h
    | some n =>
      cases n with
      | file bytes =>
        rw [stands] at h
        cases h
      | folder =>
        rw [stands] at h
        rw [kept stands]
        simp only at h ⊢
        split_ifs at h ⊢ with blank up long
        · cases rest with
          | nil => exact h
          | cons next rest => exact ih h
        · exact ih h
        · split at h
          · exact h
          · exact h
          · exact ih h

/-- A file is read exactly if a path leads to it without asking for a folder. -/
theorem read_eq_ok_iff {path : String} {bytes : List UInt8} :
    d.read path = .ok bytes ↔
      ∃ names, d.resolve path = .ok ⟨names, false⟩ ∧ d.node? names = some (.file bytes) := by
  unfold read
  cases d.resolve path with
  | error e => simp [bind, Except.bind]
  | ok target =>
    obtain ⟨names, folder⟩ := target
    cases hn : d.node? names with
    | none => simp [bind, Except.bind, hn]
    | some n => cases n <;> cases folder <;> simp [bind, Except.bind, pure, Except.pure, hn]

theorem holds_of_read {path : String} {bytes : List UInt8} (h : d.read path = .ok bytes) :
    d.holds path = true := by
  obtain ⟨names, leads, stands⟩ := read_eq_ok_iff.mp h
  simp [holds, leads, stands]

/-- A file that was read, whatever came of it, is there. -/
theorem holds_of_readJson {path : String} {result : Except LoadError Value}
    (h : d.readJson room path = result) (path_ok : ∀ e place, result ≠ .error (.path e place))
    (fault_ok : ∀ f, result ≠ .error (.fault f)) : d.holds path = true := by
  subst h
  unfold readJson at path_ok fault_ok
  cases clean : checkPath path with
  | error e => simp [clean] at fault_ok
  | ok _ =>
    cases read : d.read path with
    | error e => simp [clean, read] at path_ok
    | ok bytes => exact holds_of_read read

/-- A file that was written is there, with what was written. -/
theorem read_write {path : String} {bytes : List UInt8} (h : d.write path bytes = .ok d') :
    d'.read path = .ok bytes := by
  unfold write at h
  cases leads : d.resolve path with
  | error e => simp [leads, bind, Except.bind] at h
  | ok target =>
    obtain ⟨names, folder⟩ := target
    by_cases refused : (folder || d.node? names == some .folder) = true
    · simp [leads, bind, Except.bind, refused] at h
    · obtain rfl : d.put names (.file bytes) = d' := by
        simpa [leads, bind, Except.bind, pure, Except.pure, refused] using h
      obtain ⟨rfl, vacant⟩ : folder = false ∧ d.node? names ≠ some .folder := by simpa using refused
      have inner : names ≠ [] := fun root => vacant (by rw [root]; rfl)
      refine read_eq_ok_iff.mpr ⟨names, ?_, by rw [node?_put inner, if_pos rfl]⟩
      unfold resolve at leads ⊢
      split_ifs at leads ⊢
      exact follow_put vacant leads

/-! ## Values in files -/

theorem unifyLineBreaks_of_not_mem {cs : List Char} (h : '\r' ∉ cs) : unifyLineBreaks cs = cs := by
  fun_induction unifyLineBreaks cs with
  | case1 => simp at h
  | case2 => simp at h
  | case3 c rest _ _ ih =>
    rw [ih fun mem => h (List.mem_cons_of_mem _ mem)]
  | case4 => rfl

/-- What is in a file whose bytes are a text is what the text reads as, with its line breaks made
uniform. -/
theorem readJson_of_text {path s : String} (room : Room) (clean : checkPath path = .ok ())
    (h : d.read path = .ok (Text.Utf8.encode s)) :
    d.readJson room path =
      (Json.read room.reading (String.ofList (unifyLineBreaks s.toList))).mapError
        LoadError.json := by
  simp only [readJson, clean, h, Text.Utf8.decode_eq_ok_iff.mpr rfl]
  cases Json.read room.reading (String.ofList (unifyLineBreaks s.toList)) <;> rfl

/-- A file that holds a written value has the value in it. -/
theorem readJson_of_render {path : String} {layout : Json.Layout} {v : Value} (plain : v.Plain)
    (fits : v.height ≤ room.reading) (clean : checkPath path = .ok ())
    (h : d.read path = .ok (Text.Utf8.encode (Json.render layout v))) :
    d.readJson room path = .ok v := by
  have uniform : unifyLineBreaks (Json.render layout v).toList = (Json.render layout v).toList :=
    unifyLineBreaks_of_not_mem (Json.return_not_mem_renderAt layout 0 v plain)
  rw [readJson_of_text room clean h, uniform, String.ofList_toList, Json.read_render layout plain fits]
  rfl

/-- A value that was written to a file is the value in it. -/
theorem readJson_write {path : String} {layout : Json.Layout} {v : Value} (plain : v.Plain)
    (fits : v.height ≤ room.reading) (clean : checkPath path = .ok ())
    (h : d.write path (Text.Utf8.encode (Json.write layout v).text) = .ok d') :
    d'.readJson room path = .ok v := by
  rw [Json.write, Json.writeAt_of_plain layout 0 v plain] at h
  exact readJson_of_render plain fits clean (read_write h)

/-- The file at a path is garbled: its bytes are no text, or its text is read up to an integer with
more digits than are allowed, or up to a bracket for which there is no room. -/
def Garbled (d : Directory) (room : Room) (path : String) : Prop :=
  ∃ bytes, d.read path = .ok bytes ∧
    ((∀ s, bytes ≠ Text.Utf8.encode s) ∨
      ∃ s, bytes = Text.Utf8.encode s ∧
        let parsed := Json.read room.reading (String.ofList (unifyLineBreaks s.toList))
        (∃ n, parsed = .error (.longNumeral n)) ∨ ∃ bracket, parsed = .error (.tooDeep bracket))

end Directory

/-! ## Loading a tape -/

namespace DeskM

variable {path : String} {d : Desk}

/-- A value that is a document of a tape gives a tape with the text in it, any other gives none. -/
theorem loadTape_of_value {v : Value} (held : d.files.holds path = true)
    (value : d.files.readJson d.room path = .ok v) (capacity : Option Int) :
    ∃ journal, loadTape path capacity d =
      .ok ((tapeText v).toOption.map fun text =>
        Tape.ofText text (capacity.getD Tape.defaultCapacity)) { d with journal } := by
  unfold loadTape
  rw [bind_of_ok (get_apply d), value]
  simp only [held, Bool.not_true, Bool.false_eq_true, if_false]
  cases tapeText v with
  | error problem => exact ⟨_, rfl⟩
  | ok text => exact ⟨_, rfl⟩

/-- What stands in the way of a value and is a fault is left to the caller. -/
theorem loadTape_of_fault {e : LoadError} {f : Fault} (held : d.files.holds path = true)
    (value : d.files.readJson d.room path = .error e) (fault : e.fault? = some f)
    (capacity : Option Int) : loadTape path capacity d = .error f d := by
  unfold loadTape
  rw [bind_of_ok (get_apply d), value]
  simp only [held, Bool.not_true, Bool.false_eq_true, if_false, fault]
  rfl

/-- What stands in the way of a value and is no fault is logged. -/
theorem loadTape_of_refused {e : LoadError} (held : d.files.holds path = true)
    (value : d.files.readJson d.room path = .error e) (fault : e.fault? = none)
    (capacity : Option Int) : ∃ journal, loadTape path capacity d = .ok none { d with journal } := by
  unfold loadTape
  rw [bind_of_ok (get_apply d), value]
  simp only [held, Bool.not_true, Bool.false_eq_true, if_false, fault]
  exact ⟨_, rfl⟩

/-- A garbled file is a fault, and nothing is done. -/
theorem loadTape_of_garbled (clean : checkPath path = .ok ()) (garbled : d.files.Garbled d.room path)
    (capacity : Option Int) : ∃ p, loadTape path capacity d = .error (.mismatch p) d := by
  obtain ⟨bytes, read, garbled⟩ := garbled
  have held := Directory.holds_of_read read
  obtain alien | ⟨s, rfl, ⟨n, long⟩ | ⟨bracket, deep⟩⟩ := garbled
  · cases decoded : Text.Utf8.decode bytes with
    | ok s => exact absurd (Text.Utf8.decode_eq_ok_iff.mp decoded) (alien s)
    | error e =>
      have value : d.files.readJson d.room path = .error (.fault (.mismatch (.undecodable e))) := by
        simp only [Directory.readJson, clean, read, decoded]
      exact ⟨_, loadTape_of_fault held value rfl capacity⟩
  · have value := Directory.readJson_of_text d.room clean read
    rw [long] at value
    exact ⟨_, loadTape_of_fault held value rfl capacity⟩
  · have value := Directory.readJson_of_text d.room clean read
    rw [deep] at value
    exact ⟨_, loadTape_of_fault held value rfl capacity⟩

/-- Whatever else stands at a path, there is a tape in it or none; only the log grows. -/
theorem loadTape_of_not_garbled (proper : d.files.holds path = true → checkPath path = .ok ())
    (sound : ¬ d.files.Garbled d.room path) (capacity : Option Int) :
    ∃ (text? : Option String) (journal : Journal), loadTape path capacity d =
      .ok (text?.map fun text => Tape.ofText text (capacity.getD Tape.defaultCapacity))
        { d with journal } := by
  cases held : d.files.holds path with
  | false =>
    unfold loadTape
    rw [bind_of_ok (get_apply d)]
    simp only [held, Bool.not_false, if_true]
    exact ⟨none, _, rfl⟩
  | true =>
    have clean := proper held
    cases read : d.files.read path with
    | error e =>
      have value : d.files.readJson d.room path = .error (.path e path) := by
        simp only [Directory.readJson, clean, read]
      exact ⟨none, loadTape_of_refused held value rfl capacity⟩
    | ok bytes =>
      cases decoded : Text.Utf8.decode bytes with
      | error e =>
        refine absurd ⟨bytes, read, .inl fun s same => ?_⟩ sound
        rw [Text.Utf8.decode_eq_ok_iff.mpr same] at decoded
        cases decoded
      | ok s =>
        obtain rfl := Text.Utf8.decode_eq_ok_iff.mp decoded
        have value := Directory.readJson_of_text d.room clean read
        cases parsed : Json.read d.room.reading (String.ofList (unifyLineBreaks s.toList)) with
        | error e =>
          rw [parsed] at value
          cases e with
          | malformed problem line column offset =>
            exact ⟨none, loadTape_of_refused held value rfl capacity⟩
          | longNumeral n => exact absurd ⟨_, read, .inr ⟨s, rfl, .inl ⟨n, parsed⟩⟩⟩ sound
          | tooDeep bracket => exact absurd ⟨_, read, .inr ⟨s, rfl, .inr ⟨bracket, parsed⟩⟩⟩ sound
        | ok v =>
          rw [parsed] at value
          exact ⟨_, loadTape_of_value held value capacity⟩

/-! ## Saving a tape and loading it again -/

/-- Writing a value either does not succeed, or puts the value into the file. -/
theorem writeJson_spec (path : String) (layout : Json.Layout) {v : Value} (plain : v.Plain)
    (d : Desk) (fits : v.height ≤ d.room.reading) :
    (∃ f, writeJson path layout v d = .error f d) ∨
      (∃ e, writeJson path layout v d = .ok (some e) d) ∨
      ∃ files, writeJson path layout v d = .ok none { d with files } ∧
        files.holds path = true ∧ files.readJson d.room path = .ok v := by
  unfold writeJson
  cases clean : checkPath path with
  | error f => exact .inl ⟨f, rfl⟩
  | ok u =>
    simp only
    rw [bind_of_ok (get_apply d)]
    cases written : d.files.write path (Text.Utf8.encode (Json.write layout v).text) with
    | error e => exact .inr (.inl ⟨e, rfl⟩)
    | ok files =>
      have whole : (Json.write layout v).whole = true := by
        rw [Json.write, Json.writeAt_of_plain layout 0 v plain]
      refine .inr (.inr ⟨files, ?_, Directory.holds_of_read (Directory.read_write written),
        Directory.readJson_write plain fits clean written⟩)
      simp only [whole]
      rfl

theorem plain_document (t : Tape) : t.document.Plain := by
  have digits : Text.isShort formatVersion = true := by decide
  simp [Tape.document, Value.Plain, Value.PlainFields, Dict.keys, digits]

theorem height_document (t : Tape) : t.document.height = 1 := rfl

theorem tapeText_document (t : Tape) : tapeText t.document = .ok t.contents := by
  simp [tapeText, Tape.document, Value.item, Value.optionalItem, Dict.find?_cons, Value.eqv_text_self,
    Value.eqv_int_self]

/-- A tape that was saved is loaded with the same text. -/
theorem loadTape_saveTape {t : Tape} (saved : outcome (saveTape t path) d = .ok true)
    (capacity : Option Int) :
    let d' := after (saveTape t path) d
    ∃ journal, loadTape (withExtension path tapeExtension) capacity d' =
      .ok (some (Tape.ofText t.contents (capacity.getD Tape.defaultCapacity)))
        { d' with journal } := by
  have fits : t.document.height ≤ d.room.reading := by
    rw [height_document]
    exact Nat.le_of_succ_le d.room.two_le_reading
  have written := writeJson_spec (withExtension path tapeExtension) .document (plain_document t) d fits
  unfold saveTape at saved ⊢
  simp only at saved ⊢
  obtain ⟨f, failed⟩ | ⟨e, refused⟩ | ⟨files, done, held, value⟩ := written
  · rw [outcome_congr (bind_of_error failed)] at saved
    cases saved
  · rw [outcome_congr (bind_of_ok refused)] at saved
    cases saved
  · rw [after_congr (bind_of_ok done)]
    have loads := loadTape_of_value (d := { d with
      files
      journal := d.journal.record .info .archive
        ("Tape saved to: " ++ withExtension path tapeExtension) }) held value capacity
    rw [tapeText_document] at loads
    exact loads

end DeskM

namespace Tape

variable {t : Tape}

/-- No cell holds a space, which is another way to write the blank. -/
def Tidy (t : Tape) : Prop := ∀ i, t.cellAt i ≠ " "

theorem cellOf_ne_space (c : Char) : cellOf c ≠ " " := by
  unfold cellOf
  split
  · decide
  · rename_i other
    exact fun same => other (String.singleton_inj (d := ' ').mp same)

theorem tidy_ofText (text : String) (capacity : Int) : (ofText text capacity).Tidy := by
  intro i
  rw [cellAt_ofText]
  exact cellOf_ne_space _

theorem tidy_apply (h : t.Tidy) {op : Op} {t' : Tape} (applied : t.apply op = .ok t') :
    t'.Tidy := by
  intro i
  have blank : blankCell ≠ " " := by decide
  cases op with
  | left =>
    by_cases parked : t.head = 0
    · simp [apply, moveLeft?, parked] at applied
    · simp only [apply, moveLeft?, parked, if_false] at applied
      cases applied
      exact h i
  | right =>
    cases applied
    simpa using h i
  | write symbol =>
    cases applied
    rw [cellAt_write]
    split_ifs with here space
    · exact blank
    · exact space
    · exact h i
  | rewind =>
    cases applied
    exact h i
  | clear =>
    cases applied
    rw [cellAt_clear]
    exact blank
  | load text =>
    cases applied
    rw [cellAt_load]
    exact cellOf_ne_space _

/-- A tape stays tidy, whatever is done to it. -/
theorem tidy_performAll (ops : List Op) {r : Reel} (h : r.tape.Tidy) :
    (performAll ops r).tape.Tidy := by
  induction ops generalizing r with
  | nil => exact h
  | cons op ops ih =>
    refine ih fun i => ?_
    unfold after perform
    cases applied : r.tape.apply op with
    | ok t' => exact tidy_apply h applied i
    | error f => exact h i

/-- A tape made of the text of another has the same text. -/
theorem Shows.contents_ofText {e : Endless} (h : t.Shows e) (capacity : Int) :
    (ofText t.contents capacity).contents = t.contents := by
  have again := shows_ofText t.contents capacity
  rw [h.ofText_contents] at again
  have length : (ofText t.contents capacity).length = t.length :=
    again.isLeast_length.unique h.isLeast_length
  rw [again.contents_eq, length]
  exact h.contents_eq.symm

/-- A tidy tape with one character in each cell shows an endless one. -/
theorem Tidy.exists_shows (tidy : t.Tidy) (single : ∀ i, (t.cellAt i).length = 1) :
    ∃ e, t.Shows e := by
  have character (i : Nat) : ∃ c, t.cellAt i = String.singleton c := by
    have one := single i
    rw [← String.length_toList, List.length_eq_one_iff] at one
    obtain ⟨c, hc⟩ := one
    exact ⟨c, String.toList_inj.mp (by rw [hc, String.toList_singleton])⟩
  choose cells cell using character
  exact ⟨⟨cells, t.head, fun i space => tidy i (by rw [cell, space]; rfl)⟩, rfl, cell⟩

end Tape

namespace SessionM

variable {path : String} {o : Office}

/-- A fault in loading a tape is all that happens. -/
theorem openTape_of_error {f : Fault}
    (failed : DeskM.loadTape path none ⟨o.shop, o.files, o.journal, o.room⟩ =
      .error f ⟨o.shop, o.files, o.journal, o.room⟩) : openTape path o = .error f o := by
  have opened : atDesk (DeskM.loadTape path none) o = .error f o := by
    unfold atDesk
    rw [failed]
  exact bind_of_error opened

/-- If there is no tape, that is told and nothing else happens. -/
theorem openTape_of_none {journal : Journal}
    (loaded : DeskM.loadTape path none ⟨o.shop, o.files, o.journal, o.room⟩ =
      .ok none ⟨o.shop, o.files, journal, o.room⟩) :
    ∃ journal, openTape path o = .ok false { o with journal } := by
  have opened : atDesk (DeskM.loadTape path none) o = .ok none { o with journal } := by
    unfold atDesk
    rw [loaded]
  unfold openTape
  rw [bind_of_ok opened]
  exact ⟨_, rfl⟩

/-- The text of a tape in a file becomes the input. -/
theorem openTape_of_some {t : Tape} {journal : Journal}
    (loaded : DeskM.loadTape path none ⟨o.shop, o.files, o.journal, o.room⟩ =
      .ok (some t) ⟨o.shop, o.files, journal, o.room⟩) :
    ∃ journal, openTape path o = .ok true { o with
      session := { o.session with
        inputText := .text t.contents
        tape := o.session.tape.load t.contents
        simulator := o.session.simulator.map Simulator.reset }
      journal } := by
  have opened : atDesk (DeskM.loadTape path none) o = .ok (some t) { o with journal } := by
    unfold atDesk
    rw [loaded]
  obtain ⟨journal', set⟩ := setTape_eq t.contents { o with journal }
  unfold openTape
  rw [bind_of_ok opened]
  simp only
  rw [bind_of_ok set]
  exact ⟨_, rfl⟩

end SessionM

/-- **Tape files can be loaded unless they are garbled.**  A garbled file is a fault for those who load
it, and nothing is done.  Whatever else stands at a path, loading gives none or a tape with its head on
the first cell, whatever its capacity, and only the log grows; a session learns whether there is a
tape, and if there is none, it keeps its tape, its input and its simulator.  A tape with one character
in each cell, whatever has been done to it, is loaded with its text once it is saved. -/
theorem tape_files_load_unless_garbled (o : Office) (path : String) (capacity : Option Int)
    (proper : o.files.holds path = true → checkPath path = .ok ()) :
    let d : Desk := ⟨o.shop, o.files, o.journal, o.room⟩
    (o.files.Garbled o.room path → ∃ p p',
      DeskM.loadTape path capacity d = .error (.mismatch p) d ∧
      SessionM.openTape path o = .error (.mismatch p') o) ∧
    (¬ o.files.Garbled o.room path →
      (∃ t? journal, DeskM.loadTape path capacity d = .ok t? { d with journal } ∧
        ∀ t ∈ t?, t.head = 0 ∧ ∃ text, t = Tape.ofText text (capacity.getD Tape.defaultCapacity)) ∧
      ((∃ journal, SessionM.openTape path o = .ok false { o with journal }) ∨
        ∃ text journal, SessionM.openTape path o = .ok true { o with
          session := { o.session with
            inputText := .text text
            tape := o.session.tape.load text
            simulator := o.session.simulator.map Simulator.reset }
          journal })) ∧
    ∀ (text : String) (cells : Int) (ops : List Tape.Op) (j : Journal),
      let t := (Tape.performAll ops ⟨Tape.ofText text cells, j⟩).tape
      (∀ i, (t.cellAt i).length = 1) → outcome (DeskM.saveTape t path) d = .ok true →
      ∃ t' d', DeskM.loadTape (withExtension path tapeExtension) capacity
          (after (DeskM.saveTape t path) d) = .ok (some t') d' ∧
        t'.contents = t.contents ∧ t'.head = 0 := by
  intro d
  refine ⟨fun garbled => ?_, fun sound => ⟨?_, ?_⟩, ?_⟩
  · have clean : checkPath path = .ok () := by
      obtain ⟨bytes, read, -⟩ := garbled
      exact proper (Directory.holds_of_read read)
    obtain ⟨p, failed⟩ := DeskM.loadTape_of_garbled (d := d) clean garbled capacity
    obtain ⟨p', failed'⟩ := DeskM.loadTape_of_garbled (d := d) clean garbled none
    exact ⟨p, p', failed, SessionM.openTape_of_error failed'⟩
  · obtain ⟨text?, journal, loaded⟩ := DeskM.loadTape_of_not_garbled (d := d) proper sound capacity
    refine ⟨_, journal, loaded, fun t ht => ?_⟩
    obtain ⟨text, -, rfl⟩ := Option.map_eq_some_iff.mp ht
    exact ⟨rfl, text, rfl⟩
  · obtain ⟨text?, journal, loaded⟩ := DeskM.loadTape_of_not_garbled (d := d) proper sound none
    cases text? with
    | none => exact .inl (SessionM.openTape_of_none loaded)
    | some text => exact .inr ⟨_, SessionM.openTape_of_some loaded⟩
  · intro text cells ops j t single saved
    obtain ⟨journal, loaded⟩ := DeskM.loadTape_saveTape saved capacity
    have tidy : t.Tidy := Tape.tidy_performAll ops (Tape.tidy_ofText text cells)
    obtain ⟨e, shows⟩ := tidy.exists_shows single
    exact ⟨_, _, loaded, shows.contents_ofText _, rfl⟩

/-- An office with a tape file in its directory. -/
def Office.withTapeFile (bytes : List UInt8) : Office :=
  { (default : Office) with files := ⟨[(["t.tape"], .file bytes)]⟩ }

theorem Office.read_withTapeFile (bytes : List UInt8) :
    (withTapeFile bytes).files.read "t.tape" = .ok bytes := by
  have relative : ("t.tape" = "" || "t.tape".startsWith "/") = false := by decide +kernel
  have name : Directory.parts "t.tape" = ["t.tape"] := by decide +kernel
  have leads : (withTapeFile bytes).files.resolve "t.tape" = .ok ⟨["t.tape"], false⟩ := by
    rw [Directory.resolve, relative, name]
    rfl
  exact Directory.read_eq_ok_iff.mpr ⟨_, leads, rfl⟩

theorem Office.garbled_stray_byte (room : Room) :
    (withTapeFile [0xFF]).files.Garbled room "t.tape" := by
  refine ⟨[0xFF], read_withTapeFile _, .inl fun s same => ?_⟩
  have decoded := Text.Utf8.decode_eq_ok_iff.mpr same
  have none : (Text.Utf8.decode [0xFF]).toOption = none := by decide
  rw [decoded] at none
  cases none

theorem Office.garbled_brackets (room : Room) :
    (withTapeFile (Text.Utf8.encode (Json.brackets (room.reading + 1)))).files.Garbled room
      "t.tape" := by
  refine ⟨_, read_withTapeFile _, .inr ⟨_, rfl, .inr ⟨.list, ?_⟩⟩⟩
  have uniform : '\r' ∉ (Json.brackets (room.reading + 1)).toList := by simp [Json.brackets]
  rw [Directory.unifyLineBreaks_of_not_mem uniform, String.ofList_toList, Json.read_brackets]

/-- The garbled file is a fault until a tape is saved in its place. -/
theorem saved_tape_is_loaded :
    let o := Office.withTapeFile [0xFF]
    let d : Desk := ⟨o.shop, o.files, o.journal, o.room⟩
    let t := (Tape.performAll [.right, .write "λ"] ⟨Tape.ofText "0 1", .empty⟩).tape
    (∃ p, DeskM.loadTape "t.tape" none d = .error (.mismatch p) d) ∧
      outcome (DeskM.saveTape t "t.tape") d = .ok true ∧
      ∃ t' d', DeskM.loadTape "t.tape" none (after (DeskM.saveTape t "t.tape") d) =
          .ok (some t') d' ∧ t'.contents = "0λ1" ∧ t'.head = 0 := by
  intro o d t
  have proper : checkPath "t.tape" = .ok () := eq_ok_of_toOption (by decide +kernel)
  have garbled : o.files.Garbled o.room "t.tape" := Office.garbled_stray_byte o.room
  have extended : withExtension "t.tape" tapeExtension = "t.tape" := by decide +kernel
  have contents : t.contents = "0λ1" := by decide +kernel
  have saved : outcome (DeskM.saveTape t "t.tape") d = .ok true :=
    eq_ok_of_toOption (by decide +kernel)
  have single (i : Nat) : (t.cellAt i).length = 1 := by
    have shows := (Tape.shows_ofText "0 1" Tape.defaultCapacity).performAll (r := ⟨_, .empty⟩)
      [.right, .write 'λ']
    exact (congrArg String.length (shows.cell i)).trans String.length_singleton
  have results := tape_files_load_unless_garbled o "t.tape" none fun _ => proper
  obtain ⟨p, -, failed, -⟩ := results.1 garbled
  have loaded := results.2.2 "0 1" Tape.defaultCapacity [.right, .write "λ"] .empty single saved
  rw [extended, contents] at loaded
  exact ⟨⟨p, failed⟩, saved, loaded⟩

/-- The tape file in the directory can be loaded by no one. -/
def Office.DefeatsLoading (o : Office) : Prop :=
  (∀ capacity t? d',
    DeskM.loadTape "t.tape" capacity ⟨o.shop, o.files, o.journal, o.room⟩ ≠ .ok t? d') ∧
  ∀ b o', SessionM.openTape "t.tape" o ≠ .ok b o'

theorem Office.defeatsLoading_of_garbled {o : Office} (garbled : o.files.Garbled o.room "t.tape") :
    o.DefeatsLoading := by
  have proper : checkPath "t.tape" = .ok () := eq_ok_of_toOption (by decide +kernel)
  have fails (capacity : Option Int) := DeskM.loadTape_of_garbled
    (d := ⟨o.shop, o.files, o.journal, o.room⟩) proper garbled capacity
  constructor
  · intro capacity t? d' loaded
    obtain ⟨p, failed⟩ := fails capacity
    cases failed.symm.trans loaded
  · intro b o' opened
    obtain ⟨p, failed⟩ := fails none
    cases (SessionM.openTape_of_error failed).symm.trans opened

/-- A file with a byte that is no text can be loaded by no one, and neither can one with more brackets than
there is room for. -/
theorem garbled_files_defeat_loading :
    (Office.withTapeFile [0xFF]).DefeatsLoading ∧
    (Office.withTapeFile
      (Text.Utf8.encode (Json.brackets ((default : Room).reading + 1)))).DefeatsLoading :=
  ⟨Office.defeatsLoading_of_garbled (Office.garbled_stray_byte default),
    Office.defeatsLoading_of_garbled (Office.garbled_brackets default)⟩

end MachineLab
