import MachineLab.Text.Utf8
import Mathlib.Tactic.IntervalCases

/-!
# Texts and bytes

Reading bytes as text undoes writing text as bytes, and nothing else can be read: a byte sequence is
read exactly if it is what some text is written as, and then as that text.

The two sides meet in the sequences that stand for one character.  The reader goes over such a
sequence in several steps, the writer makes it in one.

## Main definitions

* `Utf8.Sequence` — the bytes of one character.

## Main statements

* `Utf8.decode_eq_ok_iff` — what can be read is what can be written.
-/

namespace MachineLab.Text.Utf8

/-- The byte sequences that stand for a character, with its code: the shortest ones, and none for a
surrogate or beyond the last code. -/
inductive Sequence : List UInt8 → Nat → Prop
  | one {a : UInt8} {n : Nat} (ha : a.toNat < 0x80) (code : n = a.toNat) : Sequence [a] n
  | two {a b : UInt8} {n : Nat} (ha : 0xC2 ≤ a.toNat ∧ a.toNat ≤ 0xDF)
    (hb : 0x80 ≤ b.toNat ∧ b.toNat ≤ 0xBF)
    (code : n = (a.toNat - 0xC0) * 64 + (b.toNat - 0x80)) : Sequence [a, b] n
  | three {a b c : UInt8} {n : Nat} (ha : 0xE0 ≤ a.toNat ∧ a.toNat ≤ 0xEF)
    (hb : (if a.toNat = 0xE0 then 0xA0 else 0x80) ≤ b.toNat ∧
      b.toNat ≤ if a.toNat = 0xED then 0x9F else 0xBF)
    (hc : 0x80 ≤ c.toNat ∧ c.toNat ≤ 0xBF)
    (code : n = ((a.toNat - 0xE0) * 64 + (b.toNat - 0x80)) * 64 + (c.toNat - 0x80)) :
    Sequence [a, b, c] n
  | four {a b c d : UInt8} {n : Nat} (ha : 0xF0 ≤ a.toNat ∧ a.toNat ≤ 0xF4)
    (hb : (if a.toNat = 0xF0 then 0x90 else 0x80) ≤ b.toNat ∧
      b.toNat ≤ if a.toNat = 0xF4 then 0x8F else 0xBF)
    (hc : 0x80 ≤ c.toNat ∧ c.toNat ≤ 0xBF) (hd : 0x80 ≤ d.toNat ∧ d.toNat ≤ 0xBF)
    (code : n = (((a.toNat - 0xF0) * 64 + (b.toNat - 0x80)) * 64 + (c.toNat - 0x80)) * 64 +
      (d.toNat - 0x80)) :
    Sequence [a, b, c, d] n

/-! ## First bytes -/

theorem lead?_two {n : Nat} (h : 0xC2 ≤ n ∧ n ≤ 0xDF) : lead? n = some ⟨1, n - 0xC0, 0x80, 0xBF⟩ :=
  if_pos h

theorem lead?_three {n : Nat} (h : 0xE0 ≤ n ∧ n ≤ 0xEF) :
    lead? n = some ⟨2, n - 0xE0, if n = 0xE0 then 0xA0 else 0x80,
      if n = 0xED then 0x9F else 0xBF⟩ := by
  obtain ⟨least, greatest⟩ := h
  interval_cases n <;> rfl

theorem lead?_four {n : Nat} (h : 0xF0 ≤ n ∧ n ≤ 0xF4) :
    lead? n = some ⟨3, n - 0xF0, if n = 0xF0 then 0x90 else 0x80,
      if n = 0xF4 then 0x8F else 0xBF⟩ := by
  obtain ⟨least, greatest⟩ := h
  interval_cases n <;> rfl

theorem lead?_isSome {n : Nat} (h : (lead? n).isSome = true) :
    (0xC2 ≤ n ∧ n ≤ 0xDF) ∨ (0xE0 ≤ n ∧ n ≤ 0xEF) ∨ (0xF0 ≤ n ∧ n ≤ 0xF4) := by
  unfold lead? at h
  grind

/-! ## Reading -/

variable {o n : Nat} {done cs : List Char} {seq rest : List UInt8}

/-- The reader goes over a sequence to the next one. -/
theorem decodeFrom_sequence (h : Sequence seq n) :
    decodeFrom o none done (seq ++ rest) =
      decodeFrom (o + seq.length) none (Char.ofNat n :: done) rest := by
  cases h with
  | one ha code => simp [decodeFrom, ha, code]
  | two ha hb code =>
    have high := Nat.not_lt.mpr (Nat.le_trans (by decide : 0x80 ≤ 0xC2) ha.1)
    simp [decodeFrom, high, lead?_two ha, hb, code]
  | three ha hb hc code =>
    have high := Nat.not_lt.mpr (Nat.le_trans (by decide : 0x80 ≤ 0xE0) ha.1)
    simp [decodeFrom, high, lead?_three ha, hb, hc, code]
  | four ha hb hc hd code =>
    have high := Nat.not_lt.mpr (Nat.le_trans (by decide : 0x80 ≤ 0xF0) ha.1)
    simp [decodeFrom, high, lead?_four ha, hb, hc, hd, code]

/-- Inside a sequence the reader needs a byte in the range that it expects, and then the rest. -/
theorem continues_of_ok {p : Pending} {bytes : List UInt8}
    (h : decodeFrom o (some p) done bytes = .ok cs) :
    ∃ b rest, bytes = b :: rest ∧ (p.least ≤ b.toNat ∧ b.toNat ≤ p.greatest) ∧
      (1 < p.more → decodeFrom (o + 1) (some ⟨p.offset, p.first, p.taken + 1, p.more - 1,
        p.payload * 64 + (b.toNat - 0x80), 0x80, 0xBF⟩) done rest = .ok cs) := by
  cases bytes with
  | nil => cases h
  | cons b rest =>
    simp only [decodeFrom] at h
    split at h
    · rename_i inside
      refine ⟨b, rest, rfl, inside, fun more => ?_⟩
      rwa [if_neg (Nat.not_le.mpr more)] at h
    · cases h

/-- What can be read begins with a sequence, unless there is nothing left. -/
theorem exists_sequence_of_ok {bytes : List UInt8} (h : decodeFrom o none done bytes = .ok cs) :
    bytes = [] ∨ ∃ seq n rest, Sequence seq n ∧ bytes = seq ++ rest := by
  cases bytes with
  | nil => exact .inl rfl
  | cons a rest =>
    refine .inr ?_
    by_cases low : a.toNat < 0x80
    · exact ⟨[a], _, rest, .one low rfl, rfl⟩
    simp only [decodeFrom, if_neg low] at h
    cases hlead : lead? a.toNat with
    | none =>
      rw [hlead] at h
      cases h
    | some l =>
      rw [hlead] at h
      obtain two | three | four := lead?_isSome (n := a.toNat) (by rw [hlead]; rfl)
      · cases hlead.symm.trans (lead?_two two)
        obtain ⟨b, rest, rfl, hb, -⟩ := continues_of_ok h
        exact ⟨[a, b], _, rest, .two two hb rfl, rfl⟩
      · cases hlead.symm.trans (lead?_three three)
        obtain ⟨b, rest, rfl, hb, h⟩ := continues_of_ok h
        obtain ⟨c, rest, rfl, hc, -⟩ := continues_of_ok (h (show 1 < 2 by decide))
        exact ⟨[a, b, c], _, rest, .three three hb hc rfl, rfl⟩
      · cases hlead.symm.trans (lead?_four four)
        obtain ⟨b, rest, rfl, hb, h⟩ := continues_of_ok h
        obtain ⟨c, rest, rfl, hc, h⟩ := continues_of_ok (h (show 1 < 3 by decide))
        obtain ⟨d, rest, rfl, hd, -⟩ := continues_of_ok (h (show 1 < 2 by decide))
        exact ⟨[a, b, c, d], _, rest, .four four hb hc hd rfl, rfl⟩

/-! ## Writing -/

/-- A character is written as a sequence. -/
theorem sequence_utf8EncodeChar (c : Char) : Sequence (String.utf8EncodeChar c) c.toNat := by
  have valid : c.val.toNat < 0xD800 ∨ (0xDFFF < c.val.toNat ∧ c.val.toNat < 0x110000) := c.valid
  have byte {n : Nat} (h : n < 256) : (UInt8.ofNat n).toNat = n := by
    rw [UInt8.toNat_ofNat', Nat.mod_eq_of_lt h]
  fun_cases String.utf8EncodeChar c with
  | case1 v h =>
    have ha := byte (n := v) (by omega)
    exact .one (by omega) ha.symm
  | case2 v h₁ h =>
    have ha := byte (n := v / 64 % 0x20 + 0xc0) (by omega)
    have hb := byte (n := v % 0x40 + 0x80) (by omega)
    refine .two (by omega) (by omega) ?_
    change v = _
    omega
  | case3 v h₁ h₂ h =>
    have ha := byte (n := v / 4096 % 0x10 + 0xe0) (by omega)
    have hb := byte (n := v / 64 % 0x40 + 0x80) (by omega)
    have hc := byte (n := v % 0x40 + 0x80) (by omega)
    refine .three (by omega) ?_ (by omega) ?_
    · split <;> split <;> omega
    · change v = _
      omega
  | case4 v h₁ h₂ h₃ =>
    have ha := byte (n := v / 262144 % 0x08 + 0xf0) (by omega)
    have hb := byte (n := v / 4096 % 0x40 + 0x80) (by omega)
    have hc := byte (n := v / 64 % 0x40 + 0x80) (by omega)
    have hd := byte (n := v % 0x40 + 0x80) (by omega)
    refine .four (by omega) ?_ (by omega) (by omega) ?_
    · split <;> split <;> omega
    · change v = _
      omega

/-- The code of a sequence is that of a character. -/
theorem Sequence.isValidChar (h : Sequence seq n) : n.isValidChar := by
  unfold Nat.isValidChar
  cases h with
  | one ha code => omega
  | two ha hb code => omega
  | three ha hb hc code =>
    obtain ⟨least, greatest⟩ := hb
    split at least <;> split at greatest <;> omega
  | four ha hb hc hd code =>
    obtain ⟨least, greatest⟩ := hb
    split at least <;> split at greatest <;> omega

/-- A sequence is what its character is written as. -/
theorem utf8EncodeChar_of_sequence (h : Sequence seq n) :
    String.utf8EncodeChar (Char.ofNat n) = seq := by
  have value : (Char.ofNat n).val.toNat = n := by
    unfold Char.ofNat
    rw [dif_pos h.isValidChar]
    rfl
  have byte {a : UInt8} {x : Nat} (same : x = a.toNat) : UInt8.ofNat x = a := by
    rw [same, UInt8.ofNat_toNat]
  unfold String.utf8EncodeChar
  simp only [value]
  cases h with
  | one ha code => rw [if_pos (by omega), byte code]
  | @two a b _ ha hb code =>
    have first : UInt8.ofNat (n / 64 % 0x20 + 0xc0) = a := byte (by omega)
    have second : UInt8.ofNat (n % 0x40 + 0x80) = b := byte (by omega)
    rw [if_neg (by omega), if_pos (by omega), first, second]
  | @three a b c _ ha hb hc code =>
    obtain ⟨least, greatest⟩ := hb
    have range : 0x80 ≤ b.toNat ∧ b.toNat ≤ 0xBF ∧ 0x800 ≤ n := by
      split at least <;> split at greatest <;> omega
    have first : UInt8.ofNat (n / 4096 % 0x10 + 0xe0) = a := byte (by omega)
    have second : UInt8.ofNat (n / 64 % 0x40 + 0x80) = b := byte (by omega)
    have third : UInt8.ofNat (n % 0x40 + 0x80) = c := byte (by omega)
    rw [if_neg (by omega), if_neg (by omega), if_pos (by omega), first, second, third]
  | @four a b c d _ ha hb hc hd code =>
    obtain ⟨least, greatest⟩ := hb
    have range : 0x80 ≤ b.toNat ∧ b.toNat ≤ 0xBF ∧ 0x10000 ≤ n := by
      split at least <;> split at greatest <;> omega
    have first : UInt8.ofNat (n / 262144 % 0x08 + 0xf0) = a := byte (by omega)
    have second : UInt8.ofNat (n / 4096 % 0x40 + 0x80) = b := byte (by omega)
    have third : UInt8.ofNat (n / 64 % 0x40 + 0x80) = c := byte (by omega)
    have fourth : UInt8.ofNat (n % 0x40 + 0x80) = d := byte (by omega)
    rw [if_neg (by omega), if_neg (by omega), if_neg (by omega), first, second, third, fourth]

/-- The list of packed bytes, taken out one by one, is the list that they were packed from. -/
theorem toList_toByteArray (l : List UInt8) : l.toByteArray.toList = l := by
  have loop (i : Nat) (r : List UInt8) :
      ByteArray.toList.loop l.toByteArray i r = r.reverse ++ l.drop i := by
    fun_induction ByteArray.toList.loop l.toByteArray i r with
    | case1 i r h ih =>
      rw [List.size_toByteArray] at h
      have byte : l.toByteArray.get! i = l[i] := by
        simp [ByteArray.get!, h]
      rw [ih, byte, List.reverse_cons, List.append_assoc, List.singleton_append,
        ← List.drop_eq_getElem_cons]
    | case2 i r h =>
      rw [List.size_toByteArray] at h
      rw [List.drop_eq_nil_of_le (by omega), List.append_nil]
  exact loop 0 []

/-- The bytes of a text are those of its characters. -/
theorem encode_eq (s : String) : encode s = s.toList.flatMap String.utf8EncodeChar := by
  have bytes : s.toUTF8 = (s.toList.flatMap String.utf8EncodeChar).toByteArray := by
    rw [String.toUTF8_eq_toByteArray, ← List.utf8Encode, ← String.toByteArray_ofList,
      String.ofList_toList]
  rw [encode, bytes, toList_toByteArray]

/-! ## Both -/

/-- The reader gives back the characters that were written. -/
theorem decodeFrom_flatMap (text : List Char) :
    decodeFrom o none done (text.flatMap String.utf8EncodeChar) = .ok (done.reverse ++ text) := by
  induction text generalizing o done with
  | nil => simp [decodeFrom]
  | cons c text ih =>
    rw [List.flatMap_cons, decodeFrom_sequence (sequence_utf8EncodeChar c), ih, Char.ofNat_toNat]
    simp

/-- The reader reads nothing but characters that can be written. -/
theorem eq_flatMap_of_ok {bytes : List UInt8} (h : decodeFrom o none done bytes = .ok cs) :
    ∃ text, cs = done.reverse ++ text ∧ bytes = text.flatMap String.utf8EncodeChar := by
  -- The induction is on the number of bytes, since a step takes a whole sequence.
  induction hlength : bytes.length using Nat.strong_induction_on generalizing bytes o done with
  | _ length ih =>
    obtain rfl | ⟨seq, n, rest, hseq, rfl⟩ := exists_sequence_of_ok h
    · cases h
      exact ⟨[], by simp, rfl⟩
    · have shorter : rest.length < length := by
        have : 0 < seq.length := by cases hseq <;> exact Nat.succ_pos _
        rw [← hlength, List.length_append]
        omega
      rw [decodeFrom_sequence hseq] at h
      obtain ⟨text, rfl, rfl⟩ := ih rest.length shorter h rfl
      refine ⟨Char.ofNat n :: text, by simp, ?_⟩
      rw [List.flatMap_cons, utf8EncodeChar_of_sequence hseq]

/-- **What can be read is what can be written.**  A byte sequence is read as a text exactly if it is
what that text is written as. -/
theorem decode_eq_ok_iff {bytes : List UInt8} {s : String} :
    decode bytes = .ok s ↔ bytes = encode s := by
  rw [encode_eq]
  constructor
  · intro h
    unfold decode at h
    split at h
    · rename_i cs hcs
      obtain ⟨text, rfl, rfl⟩ := eq_flatMap_of_ok hcs
      cases h
      simp
    · cases h
  · rintro rfl
    simp [decode, decodeFrom_flatMap]

end MachineLab.Text.Utf8
