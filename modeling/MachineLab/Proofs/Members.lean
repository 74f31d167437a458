import MachineLab.Workshop.Document
import Mathlib.Data.List.Basic

/-!
# Members of alphabets

Whether a symbol is a member depends on nothing but which places of an alphabet are taken, so an
alphabet can be written down as the text of its members and read back.  Membership itself is decided
for every text but two: the ligatures `ﬅ` and `ﬆ` become two letters in upper case.

## Main definitions

* `Alphabet.Same` — the same places are taken.
* `Alphabet.Slot.char` — the character of a place.

## Main statements

* `Alphabet.exists_ofText_toText` — reading the text of an alphabet gives its members back.
* `Alphabet.contains_text_eq_error_iff` — for which texts membership fails.
-/

namespace MachineLab.Alphabet

/-! ## The same members -/

/-- Two alphabets have the same members, whatever their histories are. -/
structure Same (a a' : Alphabet) : Prop where
  letters : a'.letters = a.letters
  digits : a'.digits = a.digits
  blank : a'.blank = a.blank

namespace Same

variable {a a' : Alphabet}

theorem has (h : a.Same a') (slot : Slot) : a'.has slot = a.has slot := by
  cases slot <;> simp [Alphabet.has, h.letters, h.digits, h.blank]

theorem of_has (h : ∀ slot, a'.has slot = a.has slot) : a.Same a' := by
  refine ⟨?_, ?_, h .blank⟩
  · ext i hi
    exact h (.letter ⟨i, hi⟩)
  · ext i hi
    exact h (.digit ⟨i, hi⟩)

theorem contains (h : a.Same a') (v : Value) : a'.contains v = a.contains v := by
  unfold Alphabet.contains containsText
  simp only [h.has]

theorem symbols (h : a.Same a') : a'.symbols = a.symbols := by
  unfold Alphabet.symbols
  rw [h.letters, h.digits]

end Same

/-! ## Places and their characters -/

/-- The character of a place. -/
def Slot.char : Slot → Char
  | .letter i => Char.ofNat ('A'.toNat + i.val)
  | .digit i => Char.ofNat ('0'.toNat + i.val)
  | .blank => blankChar

theorem slot?_char (slot : Slot) : slot? slot.char = some slot := by
  cases slot with
  | letter i => revert i; decide
  | digit i => revert i; decide
  | blank => rfl

theorem upperChar_char (slot : Slot) : Text.upperChar slot.char = [slot.char] := by
  cases slot with
  | letter i => revert i; decide
  | digit i => revert i; decide
  | blank => rfl

theorem char_ne_blank {slot : Slot} (h : slot ≠ .blank) :
    (slot.char == blankChar || slot.char == ' ') = false := by
  cases slot with
  | letter i => revert i; decide
  | digit i => revert i; decide
  | blank => exact absurd rfl h

/-- Adding a character takes its place, if it has one. -/
theorem setSymbol_singleton (a : Alphabet) (c : Char) (included : Bool) :
    a.setSymbol (.text (String.singleton c)) included =
      (place (Text.upperChar c)).map fun slot => slot.elim a (a.setSlot · included) := by
  have upper : (Text.upper (String.singleton c)).toList = Text.upperChar c := by simp [Text.upper]
  simp only [setSymbol, upper]
  cases place (Text.upperChar c) with
  | error e => rfl
  | ok slot => cases slot <;> rfl

theorem get_set {n : Nat} (v : Vector Bool n) (i j : Fin n) (b : Bool) :
    (v.set i b).get j = if j = i then b else v.get j := by
  have hget (v : Vector Bool n) : v.get j = v[j.val] := rfl
  rw [hget, hget, Vector.getElem_set]
  simp [Fin.ext_iff, eq_comm]

theorem has_setSlot (a : Alphabet) (slot x : Slot) (included : Bool) :
    (a.setSlot slot included).has x = if x = slot then included else a.has x := by
  cases slot <;> cases x <;> simp [setSlot, has, get_set]

theorem has_bare (blank : Bool) (slot : Slot) :
    (bare blank).has slot = (decide (slot = .blank) && blank) := by
  cases slot with
  | letter i => revert i; decide +revert
  | digit i => revert i; decide +revert
  | blank => rfl

/-! ## Writing and reading -/

/-- The places that are taken, apart from that of the blank. -/
def slots (a : Alphabet) : List Slot :=
  ((List.finRange 26).filter (a.letters.get ·)).map .letter ++
    ((List.finRange 10).filter (a.digits.get ·)).map .digit

theorem symbols_eq (a : Alphabet) : a.symbols = a.slots.map Slot.char := by
  simp [symbols, slots, Slot.char, Function.comp_def]

theorem mem_slots (a : Alphabet) (slot : Slot) :
    slot ∈ a.slots ↔ slot ≠ .blank ∧ a.has slot = true := by
  cases slot <;> simp [slots, has]

/-- Characters that are added one after the other take their places, unless one of them fails. -/
theorem foldlM_setSymbol (cs : List Char) (a : Alphabet) :
    match (cs.map fun c => Value.text (String.singleton c)).foldlM
        (fun (a : Alphabet) s => a.setSymbol s true) a with
    | .ok a' => (∀ c ∈ cs, ∃ slot, place (Text.upperChar c) = .ok slot) ∧
        ∀ slot, a'.has slot = true ↔
          a.has slot = true ∨ ∃ c ∈ cs, place (Text.upperChar c) = .ok (some slot)
    | .error e => ∃ c ∈ cs, place (Text.upperChar c) = .error e := by
  induction cs generalizing a with
  | nil => simp [pure, Except.pure]
  | cons c rest ih =>
    rw [List.map_cons, List.foldlM_cons, setSymbol_singleton]
    cases hplace : place (Text.upperChar c) with
    | error e => exact ⟨c, List.mem_cons_self .., hplace⟩
    | ok here =>
      have taken (slot : Slot) : (here.elim a (a.setSlot · true)).has slot = true ↔
          a.has slot = true ∨ here = some slot := by
        cases here with
        | none => simp
        | some x =>
          rw [Option.elim_some, has_setSlot, Option.some_inj, eq_comm (a := x)]
          by_cases same : slot = x <;> simp [same]
      have later := ih (here.elim a (a.setSlot · true))
      simp only [Except.map, bind, Except.bind]
      split at later
      · refine ⟨List.forall_mem_cons.mpr ⟨⟨here, hplace⟩, later.1⟩, fun slot => ?_⟩
        rw [later.2, taken, or_assoc]
        simp [hplace]
      · obtain ⟨c', hc', failed⟩ := later
        exact ⟨c', List.mem_cons_of_mem _ hc', failed⟩

/-- The characters of a text other than blanks. -/
def unblanked (s : String) : List Char := s.toList.filter fun c => !(c == blankChar || c == ' ')

theorem ofText_eq (s : String) :
    ofText s = ((unblanked s).map fun c => Value.text (String.singleton c)).foldlM
      (fun (a : Alphabet) s => a.setSymbol s true)
      (bare (s.toList.any fun c => c == blankChar || c == ' ')) := by
  simp only [ofText, ofSymbols, textSymbols, String.toList_ofList, unblanked]

/-- A text that is read: the blanks in it are noticed, and its other characters take their places. -/
theorem members_of_ofText {s : String} {a : Alphabet} (h : ofText s = .ok a) :
    (∀ c ∈ unblanked s, ∃ slot, place (Text.upperChar c) = .ok slot) ∧
    ∀ slot, a.has slot = true ↔
      (slot = .blank ∧ s.toList.any (fun c => c == blankChar || c == ' ') = true) ∨
        ∃ c ∈ unblanked s, place (Text.upperChar c) = .ok (some slot) := by
  have read := foldlM_setSymbol (unblanked s)
    (bare (s.toList.any fun c => c == blankChar || c == ' '))
  rw [← ofText_eq, h] at read
  simpa only [has_bare, Bool.and_eq_true, decide_eq_true_iff] using read

/-- A text that cannot be read has a character that fails. -/
theorem exists_of_ofText_error {s : String} {e : Fault} (h : ofText s = .error e) :
    ∃ c ∈ unblanked s, place (Text.upperChar c) = .error e := by
  have read := foldlM_setSymbol (unblanked s)
    (bare (s.toList.any fun c => c == blankChar || c == ' '))
  rwa [← ofText_eq, h] at read

/-- **Reading the text of an alphabet gives its members back.** -/
theorem exists_ofText_toText (a : Alphabet) : ∃ a', ofText a.toText = .ok a' ∧ a.Same a' := by
  have plain : a.symbols.filter (fun c => !(c == blankChar || c == ' ')) = a.symbols := by
    rw [List.filter_eq_self, symbols_eq]
    intro c hc
    obtain ⟨slot, hslot, rfl⟩ := List.mem_map.mp hc
    rw [char_ne_blank ((a.mem_slots slot).mp hslot).1]
    rfl
  have noBlank : a.symbols.any (fun c => c == blankChar || c == ' ') = false := by
    rw [List.any_eq_false, symbols_eq]
    intro c hc
    obtain ⟨slot, hslot, rfl⟩ := List.mem_map.mp hc
    rw [char_ne_blank ((a.mem_slots slot).mp hslot).1]
    exact Bool.false_ne_true
  have htext : a.toText.toList = a.symbols ++ if a.blank then [blankChar] else [] := by
    simp [toText]
  have kept : unblanked a.toText = a.symbols := by
    rw [unblanked, htext, List.filter_append, plain]
    cases a.blank <;> simp
  have blank : a.toText.toList.any (fun c => c == blankChar || c == ' ') = a.blank := by
    rw [htext, List.any_append, noBlank]
    cases a.blank <;> simp
  have placed (slot : Slot) : place (Text.upperChar slot.char) = .ok (some slot) := by
    rw [upperChar_char, place, slot?_char]
  cases read : ofText a.toText with
  | ok a' =>
    have members := (members_of_ofText read).2
    rw [kept, blank, symbols_eq] at members
    refine ⟨a', rfl, .of_has fun slot => Bool.eq_iff_iff.mpr ?_⟩
    simp only [members, List.mem_map, exists_exists_and_eq_and, placed, Except.ok.injEq,
      Option.some.injEq, exists_eq_right, mem_slots]
    cases slot <;> simp [has]
  | error e =>
    obtain ⟨c, hc, failed⟩ := exists_of_ofText_error read
    rw [kept, symbols_eq] at hc
    obtain ⟨slot, -, rfl⟩ := List.mem_map.mp hc
    rw [placed] at failed
    cases failed

/-! ## Where membership fails -/

theorem mem_of_lookup {k : Nat} {codes : List Nat} {table : List (Nat × List Nat)}
    (h : table.lookup k = some codes) : (k, codes) ∈ table := by
  obtain ⟨before, rest, rfl, -⟩ := List.lookup_eq_some_iff.mp h
  simp

/-- Only two characters become, in upper case, a run of several letters or digits. -/
theorem eq_ligature_of_place_error {c : Char} {e : Fault}
    (h : place (Text.upperChar c) = .error e) : c = 'ﬅ' ∨ c = 'ﬆ' := by
  have table : ∀ entry ∈ Text.caseExpansions,
      (place (entry.2.map Char.ofNat)).toOption = none →
        entry.1 = 'ﬅ'.toNat ∨ entry.1 = 'ﬆ'.toNat := by decide +kernel
  unfold Text.upperChar Text.upperWide at h
  split at h
  · cases h
  · split at h
    · rename_i codes hlookup
      have found := table _ (mem_of_lookup hlookup) (by rw [h]; rfl)
      exact found.imp Char.toNat_inj.mp Char.toNat_inj.mp
    · split at h <;> cases h

/-- **Membership fails for two texts and no other.** -/
theorem contains_text_eq_error_iff (a : Alphabet) (s : String) :
    (∃ e, a.contains (.text s) = .error e) ↔ s = "ﬅ" ∨ s = "ﬆ" := by
  constructor
  · rintro ⟨e, h⟩
    unfold contains containsText at h
    split at h
    · cases h
    · simp only at h
      split at h
      · rename_i c hc
        have hs : s = String.singleton c := by
          rw [← s.ofList_toList, hc]
          rfl
        split at h
        · cases h
        · cases h
        · rename_i e' hplace
          rcases eq_ligature_of_place_error hplace with rfl | rfl
          · exact .inl hs
          · exact .inr hs
      · cases h
  · rintro (rfl | rfl)
    · exact ⟨_, rfl⟩
    · exact ⟨_, rfl⟩

end MachineLab.Alphabet
