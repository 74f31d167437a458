import MachineLab.Value.Basic

/-!
# Comparing values

Values are compared across the numeric kinds, so equal values need not be the same.  They are for texts and
lists of texts, and for two integers or two truth values.

## Main statements

* `Value.eqv_text_iff`, `Value.eqvItems_texts` — equality with a text and with texts.
* `Value.eqv_int_iff`, `Value.eqv_bool_iff` — equality of two integers and of two truth values.
* `Value.less?_int` — the order of integers.
-/

namespace MachineLab

namespace Binary64

theorem unit_pos : 0 < Int.pow 2 (-leastExponent).toNat := Int.pow_pos (show (0 : Int) < 2 by decide)

theorem scaleInt_inj {a b : Int} : scaleInt a = scaleInt b ↔ a = b := by
  rw [scaleInt, scaleInt, Int.mul_eq_mul_right_iff (Int.ne_of_gt unit_pos)]

theorem scaleInt_lt {a b : Int} : scaleInt a < scaleInt b ↔ a < b := by
  rw [scaleInt, scaleInt, Int.mul_lt_mul_right unit_pos]

end Binary64

namespace Value

/-- Only the undefined number is compared in another way as a part than by itself. -/
theorem samePart_of_defined {v v' : Value} (defined : v.isUndefined = false) : v.samePart v' = v.eqv v' := by
  rw [samePart, defined, Bool.false_and, Bool.or_false]

example : (float .nan).eqv (.float .nan) = false ∧ (float .nan).samePart (.float .nan) = true := by
  constructor <;> cbv

/-! ## Texts -/

theorem eqv_text_iff {v : Value} {s : String} : v.eqv (.text s) = true ↔ v = .text s := by
  cases v <;> simp [eqv, measure?]

theorem text_eqv_iff {s : String} {v : Value} : (text s).eqv v = true ↔ .text s = v := by
  cases v <;> simp [eqv, measure?]

theorem eqv_text_self (s : String) : (text s).eqv (.text s) = true := eqv_text_iff.mpr rfl

theorem samePart_text_iff {v : Value} {s : String} : (text s).samePart v = true ↔ v = .text s := by
  rw [samePart_of_defined rfl, text_eqv_iff, eq_comm]

theorem samePart_text_self (s : String) : (text s).samePart (.text s) = true := samePart_text_iff.mpr rfl

/-- A list equals a list of texts only if it is the same. -/
theorem eqvItems_texts {items : List Value} {texts : List String} :
    eqvItems items (texts.map .text) = true ↔ items = texts.map .text := by
  induction texts generalizing items with
  | nil => cases items <;> simp [eqvItems]
  | cons s rest ih =>
    cases items with
    | nil => simp [eqvItems]
    | cons v items => simp [eqvItems, isUndefined, eqv_text_iff, ih]

/-! ## Numbers -/

theorem eqv_int_iff {a b : Int} : (int a).eqv (.int b) = true ↔ a = b := by
  simp [eqv, measure?, Measure.same, Binary64.scaleInt_inj]

theorem eqv_bool_iff {b c : Bool} : (bool b).eqv (.bool c) = true ↔ b = c := by
  cases b <;> cases c <;> simp [eqv, measure?, Measure.same, Binary64.scaleInt_inj]

theorem eqv_int_self (n : Int) : (int n).eqv (.int n) = true := eqv_int_iff.mpr rfl

theorem eq_of_eqv_int {v : Value} {n : Int} (kind : v.kind = .int) (same : v.eqv (.int n) = true) :
    v = .int n := by
  cases v with
  | int k => rw [eqv_int_iff.mp same]
  | _ => cases kind

theorem eq_of_eqv_bool {v : Value} {b : Bool} (kind : v.kind = .bool) (same : v.eqv (.bool b) = true) :
    v = .bool b := by
  cases v with
  | bool c => rw [eqv_bool_iff.mp same]
  | _ => cases kind

theorem less?_int (a b : Int) : (int a).less? (.int b) = some (decide (a < b)) := by
  simp only [less?, measure?, Measure.less, Binary64.scaleInt_lt]

/-- Identifiers are compared as keys just as they are compared as numbers. -/
theorem samePart_id (a b : Nat) : (int a).samePart (.int b) = (a == b) := by
  rw [samePart_of_defined rfl, Bool.eq_iff_iff, eqv_int_iff, beq_iff_eq, Int.natCast_inj]

end Value

end MachineLab
