import MachineLab.Proofs.Members

/-!
# The text form of alphabets

An alphabet is written as its letters, its digits and its blank, in this order.  Alphabets with the same
members are written alike and others are not, so the text is a name for the members.  A text that is read
may spell the members in any order and case and as often as it likes; once it is written again it is in
order.

## Main definitions

* `Alphabet.spelling` — the letters, the digits and the blank that a text spells.

## Main statements

* `Alphabet.toText_eq_iff`, `Alphabet.contains_eq_iff` — text and membership tell alphabets apart.
* `Alphabet.toText_of_ofText` — what a text that was read is written as.
* `Alphabet.text_form_is_canonical` — all of it.
-/

namespace MachineLab.Alphabet

variable {a b : Alphabet}

/-! ## Telling alphabets apart -/

theorem Same.symm (h : a.Same b) : b.Same a := ⟨h.letters.symm, h.digits.symm, h.blank.symm⟩

theorem Same.trans {c : Alphabet} (h : a.Same b) (h' : b.Same c) : a.Same c :=
  ⟨h'.letters.trans h.letters, h'.digits.trans h.digits, h'.blank.trans h.blank⟩

theorem sameMembers_iff : a.sameMembers b = true ↔ b.Same a := by
  simp only [sameMembers, Bool.and_eq_true, beq_iff_eq]
  constructor
  · rintro ⟨⟨letters, digits⟩, blank⟩
    exact ⟨letters, digits, blank⟩
  · exact fun h => ⟨⟨h.letters, h.digits⟩, h.blank⟩

/-- Alphabets are written alike exactly if they have the same members. -/
theorem toText_eq_iff : a.toText = b.toText ↔ b.Same a := by
  constructor
  · intro alike
    obtain ⟨a', hread, same⟩ := a.exists_ofText_toText
    obtain ⟨b', hread', same'⟩ := b.exists_ofText_toText
    rw [alike, hread'] at hread
    cases hread
    exact same'.trans same.symm
  · intro same
    rw [toText, toText, same.symbols, same.blank]

theorem contains_char (a : Alphabet) (slot : Slot) :
    a.contains (.text (String.singleton slot.char)) = .ok (a.has slot) := by
  simp [contains, Value.truth, containsText, upperChar_char, place, slot?_char]

/-- Membership of the characters tells alphabets apart. -/
theorem contains_eq_iff :
    (∀ c : Char,
      a.contains (.text (String.singleton c)) = b.contains (.text (String.singleton c))) ↔
      b.Same a := by
  constructor
  · intro agree
    refine .of_has fun slot => ?_
    have here := agree slot.char
    rw [contains_char, contains_char] at here
    exact Except.ok.inj here
  · exact fun same c => same.contains _

/-! ## What a text spells -/

/-- The letters and the digits that a text has in upper case, each once and in order, and the blank if it
has one or a space. -/
def spelling (s : String) : String :=
  String.ofList
    (((allLetters ++ allDigits).filter fun c => decide ([c] ∈ s.toList.map Text.upperChar)) ++
      if blankChar ∈ s.toList ∨ ' ' ∈ s.toList then [blankChar] else [])

theorem nodup_spelling (s : String) : (spelling s).toList.Nodup := by
  have distinct : (allLetters ++ allDigits ++ [blankChar]).Nodup := by decide
  refine distinct.sublist ?_
  rw [spelling, String.toList_ofList]
  refine List.filter_sublist.append ?_
  split
  · exact List.Sublist.refl _
  · exact List.nil_sublist _

/-- The places of the letters and the digits, in the order in which they are written. -/
def writtenSlots : List Slot := (List.finRange 26).map .letter ++ (List.finRange 10).map .digit

theorem map_char_writtenSlots : writtenSlots.map Slot.char = allLetters ++ allDigits := by decide

theorem slots_eq (a : Alphabet) : a.slots = writtenSlots.filter a.has := by
  rw [slots, writtenSlots, List.filter_append, List.filter_map, List.filter_map]
  rfl

theorem blank_not_mem_writtenSlots : Slot.blank ∉ writtenSlots := by decide

/-- The members other than the blank, told by their characters. -/
theorem symbols_eq_filter {p : Char → Bool} (told : ∀ slot, slot ≠ .blank → a.has slot = p slot.char) :
    a.symbols = (allLetters ++ allDigits).filter p := by
  rw [symbols_eq, slots_eq, ← map_char_writtenSlots, List.filter_map]
  refine congrArg _ (List.filter_congr fun slot written => ?_)
  exact told slot fun blank => blank_not_mem_writtenSlots (blank ▸ written)

/-- A place other than that of the blank belongs to one character. -/
theorem eq_char_of_slot? {x : Char} {slot : Slot} (h : slot? x = some slot) (plain : slot ≠ .blank) :
    x = slot.char := by
  unfold slot? at h
  split_ifs at h with letter digit
  · cases h
    rw [Slot.char, Nat.add_sub_cancel' letter.1, Char.ofNat_toNat]
  · cases h
    rw [Slot.char, Nat.add_sub_cancel' digit.1, Char.ofNat_toNat]
  · cases h
    exact absurd rfl plain

theorem blank_of_slot? {x : Char} (h : slot? x = some .blank) : x = ' ' ∨ x = blankChar := by
  unfold slot? at h
  split_ifs at h with letter digit blank
  · cases h
  · cases h
  · exact blank

theorem place_eq_some_iff {symbol : List Char} {slot : Slot} :
    place symbol = .ok (some slot) ↔ ∃ x, symbol = [x] ∧ slot? x = some slot := by
  unfold place
  split
  · simp
  · rename_i other
    constructor
    · split_ifs <;> exact nofun
    · rintro ⟨x, rfl, -⟩
      exact absurd rfl (other x)

/-- A number that is no code of a character stands for the character zero. -/
theorem toNat_of_ofNat {n : Nat} {x : Char} (h : Char.ofNat n = x) (positive : 0 < x.toNat) :
    x.toNat = n := by
  by_cases valid : n.isValidChar
  · rw [← h, Char.ofNat, dif_pos valid]
    rfl
  · rw [← h, Char.ofNat, dif_neg valid] at positive
    exact absurd positive (by decide)

/-- No character but a blank is a blank in upper case. -/
theorem eq_of_upperChar_eq_blank {c x : Char} (h : Text.upperChar c = [x])
    (blank : x = ' ' ∨ x = blankChar) : c = x := by
  have ascii : ∀ n : Fin 128, (Char.ofNat n).toUpper = ' ' ∨ (Char.ofNat n).toUpper = blankChar →
    (Char.ofNat n).toUpper = Char.ofNat n := by decide
  have expansions : ∀ entry ∈ Text.caseExpansions, entry.2.length ≠ 1 := by decide +kernel
  have runs : ∀ r ∈ Text.caseRuns, ∀ code ∈ [' '.toNat, blankChar.toNat],
      r.holds ((code : Int) - r.shift).toNat = false := by decide +kernel
  unfold Text.upperChar Text.upperWide at h
  split at h
  · rename_i small
    cases h
    have kept := ascii ⟨c.toNat, small⟩
    rw [Char.ofNat_toNat] at kept
    exact (kept blank).symm
  · split at h
    · rename_i codes found
      have single := congrArg List.length h
      rw [List.length_map] at single
      exact absurd single (expansions _ (mem_of_lookup found))
    · split at h
      · rename_i r found
        have shifted : Char.ofNat ((c.toNat : Int) + r.shift).toNat = x := List.singleton_inj.mp h
        have positive : 0 < x.toNat := by rcases blank with rfl | rfl <;> decide
        have code : x.toNat = ((c.toNat : Int) + r.shift).toNat := toNat_of_ofNat shifted positive
        have back : ((x.toNat : Int) - r.shift).toNat = c.toNat := by omega
        have listed : x.toNat ∈ [' '.toNat, blankChar.toNat] := by rcases blank with rfl | rfl <;> decide
        have missed := runs r (List.mem_of_find?_eq_some found) x.toNat listed
        have held := List.find?_some found
        rw [back] at missed
        exact absurd held (ne_true_of_eq_false missed)
      · exact List.singleton_inj.mp h

/-! ## Reading and writing -/

section Read

variable {s : String}

/-- An alphabet that was read from a text has the blank if the text does. -/
theorem blank_of_ofText (h : ofText s = .ok a) :
    a.blank = true ↔ blankChar ∈ s.toList ∨ ' ' ∈ s.toList := by
  have members := (members_of_ofText h).2 .blank
  have other : ¬ ∃ c ∈ unblanked s, place (Text.upperChar c) = .ok (some .blank) := by
    rintro ⟨c, kept, placed⟩
    obtain ⟨x, upper, taken⟩ := place_eq_some_iff.mp placed
    have blank := blank_of_slot? taken
    rw [eq_of_upperChar_eq_blank upper blank] at kept
    rcases blank with rfl | rfl <;> exact absurd (List.mem_filter.mp kept).2 (by decide)
  rw [or_iff_left other] at members
  refine members.trans ?_
  simp [and_or_left, exists_or]

/-- An alphabet that was read from a text has the letters and digits that the text has in upper case. -/
theorem has_of_ofText (h : ofText s = .ok a) {slot : Slot} (plain : slot ≠ .blank) :
    a.has slot = true ↔ [slot.char] ∈ s.toList.map Text.upperChar := by
  rw [(members_of_ofText h).2, List.mem_map]
  simp only [plain, false_and, false_or]
  constructor
  · rintro ⟨c, kept, placed⟩
    obtain ⟨x, upper, taken⟩ := place_eq_some_iff.mp placed
    exact ⟨c, (List.mem_filter.mp kept).1, eq_char_of_slot? taken plain ▸ upper⟩
  · rintro ⟨c, mem, upper⟩
    refine ⟨c, List.mem_filter.mpr ⟨mem, ?_⟩, place_eq_some_iff.mpr ⟨_, upper, slot?_char slot⟩⟩
    -- A blank is its own upper case, which is no letter and no digit.
    have letter := char_ne_blank plain
    cases blank : (c == blankChar || c == ' ') with
    | false => rfl
    | true =>
      rcases (by simpa using blank : c = blankChar ∨ c = ' ') with rfl | rfl
      all_goals
        rw [← List.singleton_inj.mp upper] at letter
        exact absurd letter (by decide)

/-- **A text that is read and written again** gives what it spells. -/
theorem toText_of_ofText (h : ofText s = .ok a) : a.toText = spelling s := by
  have symbols : a.symbols =
      (allLetters ++ allDigits).filter fun c => decide ([c] ∈ s.toList.map Text.upperChar) :=
    symbols_eq_filter fun slot plain => by rw [Bool.eq_iff_iff, has_of_ofText h plain, decide_eq_true_iff]
  simp only [toText, spelling, symbols, blank_of_ofText h]

/-- A text is read unless it has one of the characters for which membership fails. -/
theorem exists_ofText_iff : (∃ a, ofText s = .ok a) ↔ 'ﬅ' ∉ s.toList ∧ 'ﬆ' ∉ s.toList := by
  have unplaced (c : Char) (h : c = 'ﬅ' ∨ c = 'ﬆ') (slot : Option Slot) :
      place (Text.upperChar c) ≠ .ok slot := by
    rcases h with rfl | rfl <;> exact nofun
  constructor
  · rintro ⟨a, h⟩
    have absent (c : Char) (ligature : c = 'ﬅ' ∨ c = 'ﬆ') : c ∉ s.toList := by
      intro mem
      have kept : c ∈ unblanked s :=
        List.mem_filter.mpr ⟨mem, by rcases ligature with rfl | rfl <;> decide⟩
      obtain ⟨slot, placed⟩ := (members_of_ofText h).1 c kept
      exact unplaced c ligature slot placed
    exact ⟨absent _ (.inl rfl), absent _ (.inr rfl)⟩
  · rintro ⟨noLong, noShort⟩
    cases h : ofText s with
    | ok a => exact ⟨a, rfl⟩
    | error e =>
      obtain ⟨c, kept, failed⟩ := exists_of_ofText_error h
      have mem := (List.mem_filter.mp kept).1
      rcases eq_ligature_of_place_error failed with rfl | rfl
      · exact absurd mem noLong
      · exact absurd mem noShort

end Read

/-- **The text of an alphabet is a name for its members.**  Reading it gives the members back.  Two
alphabets are equal exactly if they are written alike, and exactly if membership of every character is the
same in both.  Every text without one of two ligatures can be read, and is then written as what it spells:
the letters and then the digits among its characters in upper case, each once, and the blank if the text
has a blank or a space. -/
theorem text_form_is_canonical :
    (∀ a : Alphabet, ∃ a', ofText a.toText = .ok a' ∧ a'.sameMembers a = true) ∧
    (∀ a b : Alphabet,
      (a.sameMembers b = true ↔ a.toText = b.toText) ∧
      (a.toText = b.toText ↔ ∀ c : Char,
        a.contains (.text (String.singleton c)) = b.contains (.text (String.singleton c)))) ∧
    ∀ s : String,
      ((∃ a, ofText s = .ok a) ↔ 'ﬅ' ∉ s.toList ∧ 'ﬆ' ∉ s.toList) ∧
      ∀ a, ofText s = .ok a → a.toText = spelling s ∧ a.toText.toList.Nodup := by
  refine ⟨fun a => ?_, fun a b => ⟨?_, ?_⟩, fun s => ⟨exists_ofText_iff, fun a h => ?_⟩⟩
  · obtain ⟨a', hread, same⟩ := a.exists_ofText_toText
    exact ⟨a', hread, sameMembers_iff.mpr same⟩
  · rw [sameMembers_iff, toText_eq_iff]
  · rw [toText_eq_iff, contains_eq_iff]
  · have written := toText_of_ofText h
    exact ⟨written, written ▸ nodup_spelling s⟩

/-- A text out of order, with repetitions, a space for the blank, a letter whose upper case is ASCII and one
whose upper case is no single letter. -/
theorem jumbled_text_is_put_in_order :
    ∃ a, ofText "b1 aßıA01" = .ok a ∧ a.toText = "ABI01_" ∧ a.toText.toList.Nodup := by
  obtain ⟨-, -, read⟩ := text_form_is_canonical
  obtain ⟨legible, written⟩ := read "b1 aßıA01"
  obtain ⟨a, h⟩ := legible.mpr (by decide)
  obtain ⟨spelled, distinct⟩ := written a h
  have spelling_eq : spelling "b1 aßıA01" = "ABI01_" := by decide +kernel
  exact ⟨a, h, spelled.trans spelling_eq, distinct⟩

end MachineLab.Alphabet
