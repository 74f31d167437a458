import MachineLab.Json.Printer
import MachineLab.Json.Reader
import MachineLab.Value.Access
import Mathlib.Data.List.Nodup
import Mathlib.Tactic.IntervalCases

/-!
# Reading what was written

A value without doubles, with distinct field names and with integers within the digit limit is read
back as it was written, if there is room for its height.  The reader counts down fuel, one unit for each
value, item and field; the characters of what was written are fuel enough, and the induction is on that
fuel.

## Main results

* `Json.readString_join` — a string is read back, with its escapes.
* `Json.readNumber_toString` — an integer is read back.
* `Json.read_render` — a value is read back.
* `Json.writeAt_of_plain` — all of it gets into a file.
* `Json.read_brackets` — a text for which there is no room.
* `Json.return_not_mem_renderAt` — a written value has no line break of another convention.
-/

namespace MachineLab

/-! ## Digits -/

namespace Text

theorem ofDigits_concat (ds : List Nat) (d : Nat) : ofDigits (ds ++ [d]) = 10 * ofDigits ds + d := by
  simp [ofDigits]

theorem digitValue?_digitChar {d : Nat} (h : d < 10) : digitValue? d.digitChar = some d := by
  interval_cases d <;> decide

/-- The digits of a number have its value. -/
theorem ofDigits_toDigits (n : Nat) : ofDigits ((Nat.toDigits 10 n).filterMap digitValue?) = n := by
  induction n using Nat.strong_induction_on with
  | _ n ih =>
    by_cases small : n < 10
    · simp [Nat.toDigits_of_lt_base small, digitValue?_digitChar small, ofDigits]
    · rw [Nat.toDigits_of_base_le (by decide) (by omega), List.filterMap_append]
      have last : n % 10 < 10 := Nat.mod_lt _ (by decide)
      simp only [List.filterMap_cons, List.filterMap_nil, digitValue?_digitChar last]
      rw [ofDigits_concat, ih (n / 10) (by omega)]
      omega

/-- A number other than zero does not begin with the digit zero. -/
theorem head?_toDigits_ne {n : Nat} (pos : 0 < n) : (Nat.toDigits 10 n).head? ≠ some '0' := by
  induction n using Nat.strong_induction_on with
  | _ n ih =>
    by_cases small : n < 10
    · simp [Nat.toDigits_of_lt_base small]
      omega
    · rw [Nat.toDigits_of_base_le (by decide) (by omega), List.head?_append]
      have := ih (n / 10) (by omega) (by omega)
      cases h : (Nat.toDigits 10 (n / 10)).head? with
      | none => exact absurd (List.head?_eq_none_iff.mp h) Nat.toDigits_ne_nil
      | some c => simpa [h] using this

theorem toList_hexDigits_succ {width : Nat} (pos : 0 < width) (n : Nat) :
    (hexDigits (width + 1) n).toList =
      (hexDigits width (n / 16)).toList ++ [(n % 16).digitChar] := by
  unfold hexDigits
  simp only [String.toList_ofList]
  by_cases small : n < 16
  · obtain ⟨k, rfl⟩ : ∃ k, width = k + 1 := Nat.exists_eq_succ_of_ne_zero (by omega)
    rw [Nat.div_eq_of_lt small, Nat.mod_eq_of_lt small, Nat.toDigits_of_lt_base small,
      Nat.toDigits_zero]
    simp [List.replicate_succ']
  · rw [Nat.toDigits_of_base_le (by decide) (by omega)]
    simp

/-- Four hexadecimal digits. -/
theorem toList_hexDigits {n : Nat} (h : n < 0x10000) :
    (hexDigits 4 n).toList =
      [(n / 16 / 16 / 16).digitChar, (n / 16 / 16 % 16).digitChar, (n / 16 % 16).digitChar,
        (n % 16).digitChar] := by
  have top : (hexDigits 1 (n / 16 / 16 / 16)).toList = [(n / 16 / 16 / 16).digitChar] := by
    simp [hexDigits, Nat.toDigits_of_lt_base (b := 16) (n := n / 16 / 16 / 16) (by omega)]
  rw [toList_hexDigits_succ (by decide), toList_hexDigits_succ (by decide),
    toList_hexDigits_succ (by decide), top]
  rfl

end Text

namespace Json

theorem hexValue?_digitChar {d : Nat} (h : d < 16) : hexValue? d.digitChar = some d := by
  interval_cases d <;> decide

/-! ## Strings -/

variable {start : Nat} {done rest : List Char}

/-- A unit that is escaped is read as a unit. -/
theorem readString_unitEscape {n : Nat} (h : n < 0x10000) (s : Chars) (more : rest ≠ []) :
    readString start .plain s ((unitEscape n).toList ++ rest) =
      readString start .plain (s.pushUnit n) rest := by
  have digits := Text.toList_hexDigits h
  have value : (((n / 16 / 16 / 16) * 16 + n / 16 / 16 % 16) * 16 + n / 16 % 16) * 16 + n % 16 = n := by
    omega
  have more' : rest.isEmpty = false := by simpa using more
  simp only [unitEscape, String.toList_append, digits]
  simp [readString, hexValue?_digitChar (d := n / 16 / 16 / 16) (by omega),
    hexValue?_digitChar (d := n / 16 / 16 % 16) (by omega),
    hexValue?_digitChar (d := n / 16 % 16) (by omega),
    hexValue?_digitChar (d := n % 16) (by omega), more', value]

/-- A character that is escaped by its code is read as that character, in two parts if it lies beyond
the basic plane. -/
theorem readString_charEscape (c : Char) (more : rest ≠ []) :
    readString start .plain ⟨done, none⟩ ((charEscape c).toList ++ rest) =
      readString start .plain ⟨c :: done, none⟩ rest := by
  have valid : c.toNat < 0xD800 ∨ (0xDFFF < c.toNat ∧ c.toNat < 0x110000) := c.valid
  unfold charEscape
  by_cases basic : c.toNat < 0x10000
  · have push : (⟨done, none⟩ : Chars).pushUnit c.toNat = ⟨c :: done, none⟩ := by
      simp only [Chars.pushUnit]
      rw [if_neg (by omega), if_neg (by omega), Char.ofNat_toNat]
      rfl
    simp only [if_pos basic]
    rw [readString_unitEscape basic _ more, push]
  · obtain ⟨m, hm⟩ : ∃ m, m = c.toNat - 0x10000 := ⟨_, rfl⟩
    have lead : (⟨done, none⟩ : Chars).pushUnit (0xD800 + m / 0x400) =
        ⟨done, some (0xD800 + m / 0x400)⟩ := by
      simp only [Chars.pushUnit]
      rw [if_pos (by omega)]
    have join : (⟨done, some (0xD800 + m / 0x400)⟩ : Chars).pushUnit (0xDC00 + m % 0x400) =
        ⟨c :: done, none⟩ := by
      have code : 0x10000 + (0xD800 + m / 0x400 - 0xD800) * 0x400 +
          (0xDC00 + m % 0x400 - 0xDC00) = c.toNat := by omega
      simp only [Chars.pushUnit]
      rw [if_pos (by omega), code, Char.ofNat_toNat]
    have apart : (unitEscape (0xDC00 + m % 0x400)).toList ++ rest ≠ [] := by simp [more]
    simp only [if_neg basic, ← hm, String.toList_append, List.append_assoc]
    rw [readString_unitEscape (by omega) _ apart, lead, readString_unitEscape (by omega) _ more, join]

/-- An escape of one letter is read as the character that it stands for. -/
theorem readString_escape {e c : Char} (letter : escaped? e = some c) (short : e ≠ 'u') :
    readString start .plain ⟨done, none⟩ ('\\' :: e :: rest) =
      readString start .plain ⟨c :: done, none⟩ rest := by
  simp [readString, letter, short, Chars.push, Chars.settle]

/-- A character inside a string is read as itself. -/
theorem readString_stringChar (ascii : Bool) (c : Char) (more : rest ≠ []) :
    readString start .plain ⟨done, none⟩ ((stringChar ascii c).toList ++ rest) =
      readString start .plain ⟨c :: done, none⟩ rest := by
  fun_cases stringChar ascii c with
  | case1 h => exact readString_escape (by rw [eq_of_beq h]; rfl) (by decide)
  | case2 _ h => exact readString_escape (by rw [eq_of_beq h]; rfl) (by decide)
  | case3 _ _ h => exact readString_escape (by rw [eq_of_beq h]; rfl) (by decide)
  | case4 _ _ _ h => exact readString_escape (by rw [eq_of_beq h]; rfl) (by decide)
  | case5 _ _ _ _ h => exact readString_escape (by rw [eq_of_beq h]; rfl) (by decide)
  | case6 _ _ _ _ _ h =>
    exact readString_escape (by rw [← Char.ofNat_toNat c, eq_of_beq h]; rfl) (by decide)
  | case7 _ _ _ _ _ _ h =>
    exact readString_escape (by rw [← Char.ofNat_toNat c, eq_of_beq h]; rfl) (by decide)
  | case8 => exact readString_charEscape c more
  | case9 => exact readString_charEscape c more
  | case10 quote backslash _ _ _ _ _ control _ =>
    simp [readString, quote, backslash, control, Chars.push, Chars.settle]

/-- A string that was written is read as its text, up to the quote that ends it. -/
theorem readString_join (ascii : Bool) (cs : List Char) :
    readString start .plain ⟨done, none⟩
        ((String.join (cs.map (stringChar ascii))).toList ++ '"' :: rest) =
      .ok (String.ofList (done.reverse ++ cs), rest) := by
  induction cs generalizing done with
  | nil => simp [readString, Chars.settle]
  | cons c cs ih =>
    rw [List.map_cons, String.join_cons, String.toList_append, List.append_assoc,
      readString_stringChar ascii c (by simp), ih]
    simp

/-! ## Numbers -/

/-- What can follow a value: nothing, a comma or a line break. -/
def Stops (cs : List Char) : Prop := ∀ c, cs.head? = some c → c = ',' ∨ c = '\n'

theorem takeRun_append {digits : List Char} (run : ∀ c ∈ digits, c.isDigit = true)
    (stops : Stops rest) : takeRun (digits ++ rest) = (digits, rest) := by
  have ended : rest.takeWhile Char.isDigit = [] ∧ rest.dropWhile Char.isDigit = rest := by
    cases rest with
    | nil => exact ⟨rfl, rfl⟩
    | cons c rest => obtain rfl | rfl := stops c rfl <;> exact ⟨rfl, rfl⟩
  rw [takeRun, List.takeWhile_append_of_pos run, List.dropWhile_append_of_pos run, ended.1, ended.2,
    List.append_nil]

/-- The digits of a natural number are taken as they stand. -/
theorem takeWhole_toDigits (n : Nat) (stops : Stops rest) :
    takeWhole (Nat.toDigits 10 n ++ rest) = (Nat.toDigits 10 n, rest) := by
  obtain rfl | pos := Nat.eq_zero_or_pos n
  · rfl
  · have run : takeRun (Nat.toDigits 10 n ++ rest) = (Nat.toDigits 10 n, rest) :=
      takeRun_append (fun c hc => Nat.isDigit_of_mem_toDigits (by decide) (by decide) hc) stops
    rw [← run]
    unfold takeWhole
    split
    · rename_i h
      have zero : (Nat.toDigits 10 n ++ rest).head? = some '0' := by rw [h]; rfl
      rw [List.head?_append_of_ne_nil _ Nat.toDigits_ne_nil] at zero
      exact absurd zero (Text.head?_toDigits_ne pos)
    · rfl

/-- A number without a fraction and an exponent ends where a value may end. -/
theorem takeFraction_of_stops (stops : Stops rest) : takeFraction rest = ([], rest) := by
  cases rest with
  | nil => rfl
  | cons c rest => obtain rfl | rfl := stops c rfl <;> rfl

theorem takeExponent?_of_stops (stops : Stops rest) : takeExponent? rest = none := by
  cases rest with
  | nil => rfl
  | cons c rest => obtain rfl | rfl := stops c rfl <;> rfl

/-- An integer within the digit limit is read as itself. -/
theorem readNumber_toString (n : Int) (short : (Nat.toDigits 10 n.natAbs).length ≤ Text.digitLimit)
    (stops : Stops rest) : readNumber ((toString n).toList ++ rest) = .ok (.int n, rest) := by
  obtain ⟨c, ds, hds⟩ := List.exists_cons_of_ne_nil (Nat.toDigits_ne_nil (n := n.natAbs) (b := 10))
  have whole := takeWhole_toDigits n.natAbs stops
  have value := Text.ofDigits_toDigits n.natAbs
  have digit : c.isDigit = true :=
    Nat.isDigit_of_mem_toDigits (n := n.natAbs) (b := 10) (by decide) (by decide) (by simp [hds])
  rw [hds] at whole value short
  have long : ¬ Text.digitLimit < (c :: ds).length := Nat.not_lt.mpr short
  unfold readNumber
  split
  rename_i negative body sign
  have parts : body = c :: ds ++ rest ∧ Binary64.signed negative n.natAbs = n := by
    cases n with
    | ofNat m =>
      rw [show (toString (Int.ofNat m)).toList = c :: ds from Nat.toList_repr.trans hds] at sign
      split at sign
      · rename_i h
        cases h
        cases digit
      · cases sign
        exact ⟨rfl, rfl⟩
    | negSucc m =>
      have text : (toString (Int.negSucc m)).toList = '-' :: c :: ds := by
        change ("-" ++ (m + 1).repr).toList = _
        rw [String.toList_append, Nat.toList_repr, show Nat.toDigits 10 (m + 1) = c :: ds from hds]
        rfl
      rw [text] at sign
      cases sign
      exact ⟨rfl, rfl⟩
  obtain ⟨rfl, signed⟩ := parts
  rw [whole]
  simp only [takeFraction_of_stops stops, takeExponent?_of_stops stops, List.append_nil, value, signed,
    List.isEmpty_nil, Bool.not_true, Bool.false_eq_true, if_false, if_neg long]

/-! ## Blanks -/

theorem skip_newline (layout : Layout) (depth : Nat) (cs : List Char) :
    skip ((newline layout depth).toList ++ cs) = skip cs := by
  refine List.dropWhile_append_of_pos fun c hc => ?_
  simp only [newline, String.toList_append, String.toList_ofList, List.mem_append,
    List.mem_replicate] at hc
  obtain hc | ⟨-, rfl⟩ := hc
  · obtain rfl : c = '\n' := by simpa using hc
    rfl
  · rfl

theorem skip_cons {c : Char} (h : isSpace c = false) (cs : List Char) : skip (c :: cs) = c :: cs := by
  simp [skip, h]

/-- What is written between values ends them. -/
theorem stops_newline (layout : Layout) (depth : Nat) (cs : List Char) :
    Stops ((newline layout depth).toList ++ cs) := by
  intro c hc
  simp only [newline, String.toList_append] at hc
  exact .inr (Option.some.inj hc).symm

end Json

mutual

/-- The values that can be written and read back: no doubles, no integers beyond the digit limit, and
no two fields of one name. -/
def Value.Plain : Value → Prop
  | .float _ => False
  | .int n => Text.isShort n = true
  | .list items => Value.PlainItems items
  | .object fields => (Dict.keys fields).Nodup ∧ Value.PlainFields fields
  | _ => True

/-- The items of a list can be written and read back. -/
def Value.PlainItems : List Value → Prop
  | [] => True
  | v :: rest => v.Plain ∧ Value.PlainItems rest

/-- The values of fields can be written and read back. -/
def Value.PlainFields : List (String × Value) → Prop
  | [] => True
  | (_, v) :: rest => v.Plain ∧ Value.PlainFields rest

end

namespace Json

variable {rest : List Char}

theorem toList_string (ascii : Bool) (s : String) :
    (string ascii s).toList =
      '"' :: ((String.join (s.toList.map (stringChar ascii))).toList ++ ['"']) := by
  simp [string]

theorem toList_list (layout : Layout) (depth : Nat) (v : Value) (items : List Value)
    (rest : List Char) :
    (renderAt layout depth (.list (v :: items))).toList ++ rest =
      '[' :: ((newline layout (depth + 1)).toList ++ ((renderAt layout (depth + 1) v).toList ++
        ((renderItems layout depth items).toList ++ ((newline layout depth).toList ++ ']' :: rest)))) := by
  simp [renderAt]

theorem toList_object (layout : Layout) (depth : Nat) (key : String) (v : Value)
    (fields : List (String × Value)) (rest : List Char) :
    (renderAt layout depth (.object ((key, v) :: fields))).toList ++ rest =
      '\x7b' :: ((newline layout (depth + 1)).toList ++ ((string layout.ascii key).toList ++
        (": ".toList ++ ((renderAt layout (depth + 1) v).toList ++
          ((renderFields layout depth fields).toList ++
            ((newline layout depth).toList ++ '\x7d' :: rest)))))) := by
  simp [renderAt]

/-- An integer begins with a digit, or with a sign and a digit. -/
theorem exists_toString (n : Int) :
    ∃ c cs, (toString n).toList = c :: cs ∧
      (c.isDigit = true ∨ c = '-' ∧ ∃ d ds, cs = d :: ds ∧ d.isDigit = true) := by
  have digits (m : Nat) : ∃ c cs, m.repr.toList = c :: cs ∧ c.isDigit = true := by
    obtain ⟨c, cs, h⟩ := List.exists_cons_of_ne_nil (Nat.toDigits_ne_nil (n := m) (b := 10))
    exact ⟨c, cs, Nat.toList_repr.trans h,
      Nat.isDigit_of_mem_toDigits (n := m) (b := 10) (by decide) (by decide) (by simp [h])⟩
  cases n with
  | ofNat m =>
    obtain ⟨c, cs, h, digit⟩ := digits m
    exact ⟨c, cs, h, .inl digit⟩
  | negSucc m =>
    obtain ⟨c, cs, h, digit⟩ := digits (m + 1)
    refine ⟨'-', c :: cs, ?_, .inr ⟨rfl, c, cs, rfl, digit⟩⟩
    change ("-" ++ (m + 1).repr).toList = _
    rw [String.toList_append, h]
    rfl

theorem ne_of_isDigit {c d : Char} (h : c.isDigit = true) (other : d.isDigit = false) : c ≠ d := by
  rintro rfl
  rw [h] at other
  cases other

/-- A value that was written begins with a character that is neither a blank nor a mark that can
stand before or after values. -/
theorem exists_renderAt (layout : Layout) (depth : Nat) {v : Value} (plain : v.Plain) :
    ∃ c cs, (renderAt layout depth v).toList = c :: cs ∧ isSpace c = false ∧ c ≠ ']' ∧
      c.toNat ≠ 0xFEFF := by
  match v with
  | .null => exact ⟨'n', _, by rw [renderAt]; rfl, by decide, by decide, by decide⟩
  | .bool true => exact ⟨'t', _, by rw [renderAt]; rfl, by decide, by decide, by decide⟩
  | .bool false => exact ⟨'f', _, by rw [renderAt]; rfl, by decide, by decide, by decide⟩
  | .int n =>
    obtain ⟨c, cs, h, digit | ⟨rfl, -⟩⟩ := exists_toString n
    · refine ⟨c, cs, by rw [renderAt, h], ?_, ne_of_isDigit digit (by decide), fun code => ?_⟩
      · simp [isSpace, ne_of_isDigit digit (d := ' ') (by decide),
          ne_of_isDigit digit (d := '\t') (by decide), ne_of_isDigit digit (d := '\n') (by decide),
          ne_of_isDigit digit (d := '\r') (by decide)]
      · refine ne_of_isDigit digit (d := Char.ofNat 0xFEFF) (by decide) ?_
        rw [← code, Char.ofNat_toNat]
    · exact ⟨'-', cs, by rw [renderAt, h], by decide, by decide, by decide⟩
  | .text s => exact ⟨'"', _, by rw [renderAt, toList_string], by decide, by decide, by decide⟩
  | .list [] => exact ⟨'[', _, by rw [renderAt]; rfl, by decide, by decide, by decide⟩
  | .list (v :: items) =>
    exact ⟨'[', _, by rw [← List.append_nil (String.toList _), toList_list], by decide, by decide,
      by decide⟩
  | .object [] => exact ⟨'\x7b', _, by rw [renderAt]; rfl, by decide, by decide, by decide⟩
  | .object ((key, v) :: fields) =>
    exact ⟨'\x7b', _, by rw [← List.append_nil (String.toList _), toList_object], by decide,
      by decide, by decide⟩

theorem skip_renderAt (layout : Layout) (depth : Nat) {v : Value} (plain : v.Plain) (cs : List Char) :
    skip ((renderAt layout depth v).toList ++ cs) = (renderAt layout depth v).toList ++ cs := by
  obtain ⟨c, rest, opening, space, -⟩ := exists_renderAt layout depth plain
  rw [opening, List.cons_append, skip_cons space]

/-- Reading with some fuel gives back whatever was written with no more characters than that, if there
is room for its height. -/
structure ReadsBack (layout : Layout) (fuel : Nat) : Prop where
  value : ∀ (v : Value) (depth room : Nat) (rest : List Char), v.Plain → v.height ≤ room →
    (renderAt layout depth v).length ≤ fuel → Stops rest →
    readValue fuel room ((renderAt layout depth v).toList ++ rest) = .ok (v, rest)
  items : ∀ (v : Value) (items : List Value) (depth room : Nat) (done : List Value)
    (rest : List Char), v.Plain → Value.PlainItems items → Value.heightItems (v :: items) ≤ room →
    (renderAt layout (depth + 1) v).length + (renderItems layout depth items).length < fuel →
    readItems fuel room done ((renderAt layout (depth + 1) v).toList ++
      ((renderItems layout depth items).toList ++ ((newline layout depth).toList ++ ']' :: rest))) =
      .ok (.list (done.reverse ++ v :: items), rest)
  fields : ∀ (key : String) (v : Value) (fields : Dict Value) (depth room : Nat) (done : Dict Value)
    (rest : List Char), v.Plain → Value.PlainFields fields →
    Value.heightFields ((key, v) :: fields) ≤ room →
    (Dict.keys (done ++ (key, v) :: fields)).Nodup →
    (string layout.ascii key).length + (renderAt layout (depth + 1) v).length +
      (renderFields layout depth fields).length < fuel →
    readFields fuel room done ((string layout.ascii key).toList ++ (": ".toList ++
      ((renderAt layout (depth + 1) v).toList ++ ((renderFields layout depth fields).toList ++
        ((newline layout depth).toList ++ '\x7d' :: rest))))) =
      .ok (.object (done ++ (key, v) :: fields), rest)

theorem literal_null : readScalar ("null".toList ++ rest) = .ok (.null, rest) := by
  simp [readScalar, literals]

theorem literal_bool (b : Bool) :
    readScalar ((if b then "true" else "false").toList ++ rest) = .ok (.bool b, rest) := by
  cases b <;> simp [readScalar, literals]

theorem readScalar_int (n : Int) (short : Text.isShort n = true)
    (stops : Stops rest) : readScalar ((toString n).toList ++ rest) = .ok (.int n, rest) := by
  have none : (literals.find? fun l => l.1.isPrefixOf ((toString n).toList ++ rest)) = none := by
    obtain ⟨c, cs, h, digit | ⟨rfl, d, ds, rfl, digit⟩⟩ := exists_toString n
    · have ne (x : Char) (other : x.isDigit = false) : x ≠ c := (ne_of_isDigit digit other).symm
      rw [h]
      simp [literals, ne 'n' rfl, ne 't' rfl, ne 'f' rfl, ne 'N' rfl, ne 'I' rfl, ne '-' rfl]
    · have ne : 'I' ≠ d := (ne_of_isDigit digit rfl).symm
      rw [h]
      simp [literals, ne]
  rw [readScalar, none]
  exact readNumber_toString n (of_decide_eq_true short) stops

theorem readString_string (start : Nat) (ascii : Bool) (s : String) :
    readString start .plain .empty
        ((String.join (s.toList.map (stringChar ascii))).toList ++ '"' :: rest) = .ok (s, rest) := by
  rw [Chars.empty, readString_join, List.reverse_nil, List.nil_append, String.ofList_toList]

/-- What is no string, no list and no object is a scalar. -/
theorem readValue_scalar {c : Char} (cs : List Char) (fuel room : Nat) (string : c ≠ '"')
    (object : c ≠ '\x7b') (list : c ≠ '[') :
    readValue (fuel + 1) room (c :: cs) = readScalar (c :: cs) := by
  simp [readValue, string, object, list]

theorem readValue_int (n : Int) (short : Text.isShort n = true) (fuel room : Nat)
    (stops : Stops rest) :
    readValue (fuel + 1) room ((toString n).toList ++ rest) = .ok (.int n, rest) := by
  rw [← readScalar_int n short stops]
  obtain ⟨c, cs, h, digit | ⟨rfl, -⟩⟩ := exists_toString n
  · rw [h]
    exact readValue_scalar _ fuel room (ne_of_isDigit digit (by decide))
      (ne_of_isDigit digit (by decide)) (ne_of_isDigit digit (by decide))
  · rw [h]
    exact readValue_scalar _ fuel room (by decide) (by decide) (by decide)

theorem readValue_text (ascii : Bool) (s : String) (fuel room : Nat) :
    readValue (fuel + 1) room ((string ascii s).toList ++ rest) = .ok (.text s, rest) := by
  rw [toList_string, List.cons_append, List.append_assoc, List.singleton_append]
  simp only [readValue, beq_self_eq_true, if_true]
  rw [readString_string]

namespace ReadsBack

variable {layout : Layout} {fuel room : Nat}

/-- A list is read back if its items are. -/
theorem list_succ (h : ReadsBack layout fuel) {v : Value} {items : List Value} {depth : Nat}
    (plain : v.Plain) (plains : Value.PlainItems items)
    (fits : Value.heightItems (v :: items) ≤ room)
    (enough : (renderAt layout depth (.list (v :: items))).length ≤ fuel + 1) :
    readValue (fuel + 1) (room + 1) ((renderAt layout depth (.list (v :: items))).toList ++ rest) =
      .ok (.list (v :: items), rest) := by
  have brackets : "[".length = 1 ∧ "]".length = 1 := ⟨rfl, rfl⟩
  have reads := h.items v items depth room [] rest plain plains fits (by
    simp only [renderAt, String.length_append, brackets] at enough
    omega)
  obtain ⟨c, cs, opening, space, bracket, -⟩ := exists_renderAt layout (depth + 1) plain
  rw [toList_list, readValue]
  rw [opening, List.cons_append] at reads ⊢
  have notString : ('[' == '"') = false := rfl
  have notObject : ('[' == '\x7b') = false := rfl
  simp only [notString, notObject, Bool.false_eq_true, if_false, beq_self_eq_true, if_true]
  rw [skip_newline, skip_cons space]
  simp only [beq_eq_false_iff_ne.mpr bracket, Bool.false_eq_true, if_false, reads]
  rfl

/-- The items of a list are read back one by one. -/
theorem items_succ (h : ReadsBack layout fuel) {v : Value} {items : List Value} {depth : Nat}
    (done : List Value) (plain : v.Plain) (plains : Value.PlainItems items)
    (fits : Value.heightItems (v :: items) ≤ room)
    (enough : (renderAt layout (depth + 1) v).length + (renderItems layout depth items).length <
      fuel + 1) :
    readItems (fuel + 1) room done ((renderAt layout (depth + 1) v).toList ++
      ((renderItems layout depth items).toList ++ ((newline layout depth).toList ++ ']' :: rest))) =
      .ok (.list (done.reverse ++ v :: items), rest) := by
  obtain ⟨first, others⟩ := Nat.max_le.mp fits
  rw [readItems]
  cases items with
  | nil =>
    have reads := h.value v (depth + 1) room ((newline layout depth).toList ++ ']' :: rest) plain
      first (by omega) (stops_newline layout depth _)
    rw [renderItems, String.toList_empty, List.nil_append, reads]
    simp only
    rw [skip_newline, skip_cons (by decide)]
    simp
  | cons v' items =>
    have comma : ",".length = 1 := rfl
    simp only [renderItems, String.length_append, comma] at enough
    have text : (renderItems layout depth (v' :: items)).toList ++
          ((newline layout depth).toList ++ ']' :: rest) =
        ',' :: ((newline layout (depth + 1)).toList ++ ((renderAt layout (depth + 1) v').toList ++
          ((renderItems layout depth items).toList ++
            ((newline layout depth).toList ++ ']' :: rest)))) := by
      simp [renderItems]
    have reads := h.value v (depth + 1) room ((renderItems layout depth (v' :: items)).toList ++
      ((newline layout depth).toList ++ ']' :: rest)) plain first (by omega) (by
        rw [text]
        exact fun c hc => .inl (Option.some.inj hc).symm)
    have next := h.items v' items depth room (v :: done) rest plains.1 plains.2 others (by omega)
    have notEnd : (',' == ']') = false := rfl
    rw [reads, text]
    simp only
    rw [skip_cons (by decide)]
    simp only [notEnd, Bool.false_eq_true, if_false, beq_self_eq_true, if_true]
    rw [skip_newline, skip_renderAt layout _ plains.1, next]
    simp

/-- The fields of an object are read back one by one. -/
theorem fields_succ (h : ReadsBack layout fuel) {key : String} {v : Value} {fields : Dict Value}
    {depth : Nat} (done : Dict Value) (plain : v.Plain) (plains : Value.PlainFields fields)
    (fits : Value.heightFields ((key, v) :: fields) ≤ room)
    (distinct : (Dict.keys (done ++ (key, v) :: fields)).Nodup)
    (enough : (string layout.ascii key).length + (renderAt layout (depth + 1) v).length +
      (renderFields layout depth fields).length < fuel + 1) :
    readFields (fuel + 1) room done ((string layout.ascii key).toList ++ (": ".toList ++
      ((renderAt layout (depth + 1) v).toList ++ ((renderFields layout depth fields).toList ++
        ((newline layout depth).toList ++ '\x7d' :: rest))))) =
      .ok (.object (done ++ (key, v) :: fields), rest) := by
  have new : key ∉ Dict.keys done := by
    simp only [Dict.keys, List.map_append, List.map_cons, List.nodup_append] at distinct
    exact fun mem => distinct.2.2 key mem key (List.mem_cons_self ..) rfl
  have blank (cs : List Char) : skip (' ' :: cs) = skip cs := rfl
  obtain ⟨first, others⟩ := Nat.max_le.mp fits
  rw [toList_string, List.cons_append, List.append_assoc, List.singleton_append, readFields]
  simp only [bne_self_eq_false, Bool.false_eq_true, if_false]
  rw [readString_string]
  simp only
  rw [show ": ".toList = [':', ' '] from rfl, List.cons_append, skip_cons (by decide)]
  simp only [bne_self_eq_false, Bool.false_eq_true, if_false]
  rw [List.singleton_append, blank, skip_renderAt layout _ plain]
  cases fields with
  | nil =>
    have reads := h.value v (depth + 1) room ((newline layout depth).toList ++ '\x7d' :: rest) plain
      first (by omega) (stops_newline layout depth _)
    rw [renderFields, String.toList_empty, List.nil_append, reads]
    simp only
    rw [skip_newline, skip_cons (by decide)]
    simp [Dict.insert_of_not_mem new]
  | cons field fields =>
    obtain ⟨key', v'⟩ := field
    have comma : ",".length = 1 := rfl
    simp only [renderFields, String.length_append, comma] at enough
    have text : (renderFields layout depth ((key', v') :: fields)).toList ++
          ((newline layout depth).toList ++ '\x7d' :: rest) =
        ',' :: ((newline layout (depth + 1)).toList ++ ((string layout.ascii key').toList ++
          (": ".toList ++ ((renderAt layout (depth + 1) v').toList ++
            ((renderFields layout depth fields).toList ++
              ((newline layout depth).toList ++ '\x7d' :: rest)))))) := by
      simp [renderFields]
    have reads := h.value v (depth + 1) room
      ((renderFields layout depth ((key', v') :: fields)).toList ++
        ((newline layout depth).toList ++ '\x7d' :: rest)) plain first (by omega) (by
        rw [text]
        exact fun c hc => .inl (Option.some.inj hc).symm)
    have next := h.fields key' v' fields depth room (done ++ [(key, v)]) rest plains.1 plains.2 others
      (by simpa using distinct) (by omega)
    have notEnd : (',' == '\x7d') = false := rfl
    rw [reads, text]
    simp only
    rw [skip_cons (by decide)]
    simp only [notEnd, Bool.false_eq_true, if_false, beq_self_eq_true, if_true]
    rw [skip_newline, toList_string, List.cons_append, skip_cons (by decide),
      Dict.insert_of_not_mem new]
    rw [toList_string, List.cons_append] at next
    rw [next]
    simp

/-- An object is read back if its fields are. -/
theorem object_succ (h : ReadsBack layout fuel) {key : String} {v : Value} {fields : Dict Value}
    {depth : Nat} (plain : v.Plain) (plains : Value.PlainFields fields)
    (fits : Value.heightFields ((key, v) :: fields) ≤ room)
    (distinct : (Dict.keys ((key, v) :: fields)).Nodup)
    (enough : (renderAt layout depth (.object ((key, v) :: fields))).length ≤ fuel + 1) :
    readValue (fuel + 1) (room + 1)
        ((renderAt layout depth (.object ((key, v) :: fields))).toList ++ rest) =
      .ok (.object ((key, v) :: fields), rest) := by
  have braces : "\x7b".length = 1 ∧ "\x7d".length = 1 := ⟨rfl, rfl⟩
  have reads := h.fields key v fields depth room [] rest plain plains fits distinct (by
    simp only [renderAt, String.length_append, braces] at enough
    omega)
  have notString : ('\x7b' == '"') = false := rfl
  have notEnd : ('"' == '\x7d') = false := rfl
  rw [toList_object, readValue]
  rw [toList_string, List.cons_append] at reads ⊢
  simp only [notString, Bool.false_eq_true, if_false, beq_self_eq_true, if_true]
  rw [skip_newline, skip_cons (by decide)]
  simp only [notEnd, Bool.false_eq_true, if_false, reads]
  rfl

/-- A value is read back if its parts are. -/
theorem value_succ (h : ReadsBack layout fuel) {v : Value} {depth : Nat} (plain : v.Plain)
    (fits : v.height ≤ room) (enough : (renderAt layout depth v).length ≤ fuel + 1)
    (stops : Stops rest) :
    readValue (fuel + 1) room ((renderAt layout depth v).toList ++ rest) = .ok (v, rest) := by
  cases v with
  | null =>
    rw [renderAt, ← literal_null]
    exact readValue_scalar _ fuel room (by decide) (by decide) (by decide)
  | bool b =>
    rw [renderAt, ← literal_bool]
    cases b <;> exact readValue_scalar _ fuel room (by decide) (by decide) (by decide)
  | int n =>
    rw [renderAt]
    exact readValue_int n (by simpa [Value.Plain] using plain) fuel room stops
  | float x => simp [Value.Plain] at plain
  | text s =>
    rw [renderAt]
    exact readValue_text layout.ascii s fuel room
  | list items =>
    rw [Value.height] at fits
    obtain ⟨room, rfl⟩ := Nat.exists_eq_add_of_le' (Nat.le_of_add_left_le fits)
    cases items with
    | nil =>
      rw [renderAt]
      rfl
    | cons v items =>
      rw [Value.Plain, Value.PlainItems] at plain
      exact h.list_succ plain.1 plain.2 (Nat.le_of_succ_le_succ fits) enough
  | object fields =>
    rw [Value.height] at fits
    obtain ⟨room, rfl⟩ := Nat.exists_eq_add_of_le' (Nat.le_of_add_left_le fits)
    cases fields with
    | nil =>
      rw [renderAt]
      rfl
    | cons field fields =>
      obtain ⟨key, v⟩ := field
      rw [Value.Plain, Value.PlainFields] at plain
      exact h.object_succ plain.2.1 plain.2.2 (Nat.le_of_succ_le_succ fits) plain.1 enough

end ReadsBack

/-- Fuel for the characters of what was written is fuel enough to read it. -/
theorem readsBack (layout : Layout) (fuel : Nat) : ReadsBack layout fuel := by
  induction fuel with
  | zero =>
    refine ⟨fun v depth room rest plain _ enough _ => ?_, ?_, ?_⟩
    · obtain ⟨c, cs, opening, -⟩ := exists_renderAt layout depth plain
      rw [← String.length_toList, opening] at enough
      cases enough
    · intros
      contradiction
    · intros
      contradiction
  | succ fuel ih =>
    exact {
      value := fun v depth room rest plain fits enough stops => ih.value_succ plain fits enough stops
      items := fun v items depth room done rest plain plains fits enough =>
        ih.items_succ done plain plains fits enough
      fields := fun key v fields depth room done rest plain plains fits distinct enough =>
        ih.fields_succ done plain plains fits distinct enough }

/-- Reading inverts writing. -/
theorem read_render (layout : Layout) {v : Value} (plain : v.Plain) {room : Nat}
    (fits : v.height ≤ room) : read room (render layout v) = .ok v := by
  obtain ⟨c, cs, opening, space, -, mark⟩ := exists_renderAt layout 0 plain
  have reads := (readsBack layout (2 * (c :: cs).length + 3)).value v 0 room [] plain fits
    (by rw [← String.length_toList, opening]; omega) (by simp [Stops])
  rw [opening, List.append_nil] at reads
  have blank : skip [] = [] := rfl
  simp only [read, readChars, render, opening, beq_eq_false_iff_ne.mpr mark, Bool.false_eq_true,
    if_false, skip_cons space, reads, blank]

/-! ## Brackets for which there is no room -/

/-- A text of opening brackets. -/
def brackets (n : Nat) : String := String.ofList (List.replicate n '[')

theorem readValue_brackets (room : Nat) {fuel : Nat} (enough : 2 * room < fuel) :
    readValue fuel room (List.replicate (room + 1) '[') = .error (.tooDeep .list) := by
  induction room generalizing fuel with
  | zero =>
    obtain ⟨fuel, rfl⟩ := Nat.exists_eq_add_of_le' enough
    rfl
  | succ room ih =>
    -- A list takes two units of fuel, one as a value and one for its first item.
    obtain ⟨fuel, rfl⟩ : ∃ k, fuel = k + 1 + 1 := ⟨fuel - 2, by omega⟩
    have inner : readValue fuel room (List.replicate (room + 1) '[') = .error (.tooDeep .list) :=
      ih (by omega)
    have list : ('[' == '"') = false ∧ ('[' == '\x7b') = false ∧ ('[' == ']') = false :=
      ⟨rfl, rfl, rfl⟩
    rw [List.replicate_succ] at inner
    rw [List.replicate_succ, readValue, List.replicate_succ, skip_cons (by decide)]
    simp only [list, Bool.false_eq_true, if_false, beq_self_eq_true, if_true, readItems, inner]

/-- One bracket more than there is room for is too many. -/
theorem read_brackets (room : Nat) : read room (brackets (room + 1)) = .error (.tooDeep .list) := by
  have parsed := readValue_brackets room (show 2 * room < 2 * (room + 1) + 3 by omega)
  have mark : ('['.toNat == 0xFEFF) = false := rfl
  have blank : isSpace '[' = false := by decide
  rw [List.replicate_succ] at parsed
  rw [read, brackets, String.toList_ofList, List.replicate_succ]
  simp only [readChars, mark, Bool.false_eq_true, if_false, skip_cons blank, List.length_cons,
    List.length_replicate, parsed]
  rfl

/-! ## What gets into a file -/

@[simp] theorem Written.andThen_whole (text : String) (w : Written) :
    Written.andThen ⟨text, true⟩ w = ⟨text ++ w.text, w.whole⟩ := rfl

@[simp] theorem writeItem_whole (lead text : String) (v : Value) :
    writeItem lead v ⟨text, true⟩ = ⟨lead ++ text, true⟩ := by
  cases v <;> rfl

mutual

/-- A value that can be read back is written whole. -/
theorem writeAt_of_plain (layout : Layout) (depth : Nat) :
    ∀ v : Value, v.Plain → writeAt layout depth v = ⟨renderAt layout depth v, true⟩
  | .null, _ | .bool _, _ | .text _, _ | .list [], _ | .object [], _ => rfl
  | .int n, plain => by
    rw [Value.Plain] at plain
    rw [writeAt, if_pos plain, renderAt]
  | .float x, plain => by simp [Value.Plain] at plain
  | .list (v :: items), plain => by
    rw [Value.Plain, Value.PlainItems] at plain
    have hv := writeAt_of_plain layout (depth + 1) v plain.1
    have hitems := writeItems_of_plain layout depth items plain.2
    simp [writeAt, renderAt, hv, hitems, String.append_assoc]
  | .object ((key, v) :: fields), plain => by
    rw [Value.Plain, Value.PlainFields] at plain
    have hv := writeAt_of_plain layout (depth + 1) v plain.2.1
    have hfields := writeFields_of_plain layout depth fields plain.2.2
    simp [writeAt, renderAt, hv, hfields, String.append_assoc]

theorem writeItems_of_plain (layout : Layout) (depth : Nat) :
    ∀ items : List Value, Value.PlainItems items →
      writeItems layout depth items = ⟨renderItems layout depth items, true⟩
  | [], _ => rfl
  | v :: items, plains => by
    rw [Value.PlainItems] at plains
    have hv := writeAt_of_plain layout (depth + 1) v plains.1
    have hitems := writeItems_of_plain layout depth items plains.2
    simp [writeItems, renderItems, hv, hitems]

theorem writeFields_of_plain (layout : Layout) (depth : Nat) :
    ∀ fields : List (String × Value), Value.PlainFields fields →
      writeFields layout depth fields = ⟨renderFields layout depth fields, true⟩
  | [], _ => rfl
  | (key, v) :: fields, plains => by
    rw [Value.PlainFields] at plains
    have hv := writeAt_of_plain layout (depth + 1) v plains.1
    have hfields := writeFields_of_plain layout depth fields plains.2
    simp [writeFields, renderFields, hv, hfields, String.append_assoc]

end

/-! ## Line breaks -/

theorem return_not_mem_unitEscape {n : Nat} (h : n < 0x10000) : '\r' ∉ (unitEscape n).toList := by
  have digit {d : Nat} (hd : d < 16) : '\r' ≠ d.digitChar := by
    intro same
    have value := hexValue?_digitChar hd
    rw [← same] at value
    cases value
  simp [unitEscape, Text.toList_hexDigits h, digit (d := n / 16 / 16 / 16) (by omega),
    digit (d := n / 16 / 16 % 16) (by omega), digit (d := n / 16 % 16) (by omega),
    digit (d := n % 16) (by omega)]

theorem return_not_mem_charEscape (c : Char) : '\r' ∉ (charEscape c).toList := by
  have valid : c.toNat < 0xD800 ∨ (0xDFFF < c.toNat ∧ c.toNat < 0x110000) := c.valid
  unfold charEscape
  by_cases basic : c.toNat < 0x10000
  · simpa only [if_pos basic] using return_not_mem_unitEscape basic
  · simp only [if_neg basic, String.toList_append, List.mem_append, not_or]
    exact ⟨return_not_mem_unitEscape (by omega), return_not_mem_unitEscape (by omega)⟩

theorem return_not_mem_stringChar (ascii : Bool) (c : Char) :
    '\r' ∉ (stringChar ascii c).toList := by
  fun_cases stringChar ascii c with
  | case8 => exact return_not_mem_charEscape c
  | case9 => exact return_not_mem_charEscape c
  | case10 _ _ _ other =>
    have ne : '\r' ≠ c := fun same => other (beq_iff_eq.mpr same.symm)
    simp [ne]
  | _ => decide

theorem return_not_mem_string (ascii : Bool) (s : String) : '\r' ∉ (string ascii s).toList := by
  simp [toList_string, return_not_mem_stringChar]

theorem return_not_mem_newline (layout : Layout) (depth : Nat) :
    '\r' ∉ (newline layout depth).toList := by
  simp [newline]

theorem return_not_mem_toString (n : Int) : '\r' ∉ (toString n).toList := by
  have digits (m : Nat) : '\r' ∉ Nat.toDigits 10 m := by
    intro mem
    cases Nat.isDigit_of_mem_toDigits (by decide) (by decide) mem
  cases n with
  | ofNat m =>
    change '\r' ∉ m.repr.toList
    rw [Nat.toList_repr]
    exact digits m
  | negSucc m =>
    change '\r' ∉ ("-" ++ (m + 1).repr).toList
    simp [digits]

mutual

/-- No carriage return is written, whatever the texts of a value are. -/
theorem return_not_mem_renderAt (layout : Layout) (depth : Nat) :
    ∀ v : Value, v.Plain → '\r' ∉ (renderAt layout depth v).toList
  | .null, _ => by simp [renderAt]
  | .bool b, _ => by cases b <;> simp [renderAt]
  | .int n, _ => by
    rw [renderAt]
    exact return_not_mem_toString n
  | .float x, plain => by simp [Value.Plain] at plain
  | .text s, _ => by
    rw [renderAt]
    exact return_not_mem_string _ s
  | .list [], _ => by simp [renderAt]
  | .list (v :: items), plain => by
    rw [Value.Plain, Value.PlainItems] at plain
    have hv := return_not_mem_renderAt layout (depth + 1) v plain.1
    have hitems := return_not_mem_renderItems layout depth items plain.2
    simp [renderAt, return_not_mem_newline, hv, hitems]
  | .object [], _ => by simp [renderAt]
  | .object ((key, v) :: fields), plain => by
    rw [Value.Plain, Value.PlainFields] at plain
    have hv := return_not_mem_renderAt layout (depth + 1) v plain.2.1
    have hfields := return_not_mem_renderFields layout depth fields plain.2.2
    simp [renderAt, return_not_mem_newline, return_not_mem_string, hv, hfields]

theorem return_not_mem_renderItems (layout : Layout) (depth : Nat) :
    ∀ items : List Value, Value.PlainItems items → '\r' ∉ (renderItems layout depth items).toList
  | [], _ => by simp [renderItems]
  | v :: items, plains => by
    rw [Value.PlainItems] at plains
    have hv := return_not_mem_renderAt layout (depth + 1) v plains.1
    have hitems := return_not_mem_renderItems layout depth items plains.2
    simp [renderItems, return_not_mem_newline, hv, hitems]

theorem return_not_mem_renderFields (layout : Layout) (depth : Nat) :
    ∀ fields : List (String × Value), Value.PlainFields fields →
      '\r' ∉ (renderFields layout depth fields).toList
  | [], _ => by simp [renderFields]
  | (key, v) :: fields, plains => by
    rw [Value.PlainFields] at plains
    have hv := return_not_mem_renderAt layout (depth + 1) v plains.1
    have hfields := return_not_mem_renderFields layout depth fields plains.2
    simp [renderFields, return_not_mem_newline, return_not_mem_string, hv, hfields]

end

end Json

end MachineLab
