/-!
# Binary floating-point numbers, kept exactly

A double is held as its sign, its integer significand and its binary exponent, so that
comparison, truncation and reading are integer arithmetic and nothing is ever approximated twice.

## Main definitions

* `Binary64.ofRatio` — the double nearest to a ratio of naturals, ties to the even significand.
* `Binary64.ofDecimal` — the double nearest to a decimal numeral.
* `Binary64.scaled?` — the value in units of the smallest positive double, which is the order key.
* `Binary64.truncate?` — the integer part.
-/

namespace MachineLab

/-- A number of the 64-bit binary format.  `finite s m e` is `m · 2 ^ e`, negated when `s` holds.
The functions below produce significands under `2 ^ 53` and exponents from `-1074` to `971`. -/
inductive Binary64 where
  | finite (negative : Bool) (significand : Nat) (exponent : Int)
  | infinite (negative : Bool)
  | nan
deriving DecidableEq, Repr, Inhabited

namespace Binary64

/-- The exponent of the smallest positive double. -/
def leastExponent : Int := -1074

/-- The largest exponent of a finite double. -/
def greatestExponent : Int := 971

/-- `num / den` rounded to the nearest natural number, a half going to the even neighbour. -/
def roundDiv (num den : Nat) : Nat :=
  let q := num / den
  let r := num % den
  if den < 2 * r ∨ (2 * r = den ∧ q % 2 = 1) then q + 1 else q

/-- The ratio `num / den` divided by `2 ^ e`, again as a ratio of naturals. -/
def shiftRatio (num den : Nat) (e : Int) : Nat × Nat :=
  if 0 ≤ e then (num, den * Nat.pow 2 e.toNat) else (num * Nat.pow 2 (-e).toNat, den)

/-- The double nearest to `num / den`.  Ratios past the largest double become infinite. -/
def ofRatio (negative : Bool) (num den : Nat) : Binary64 :=
  if num = 0 then .finite negative 0 leastExponent
  else
    let low : Int := (Nat.log2 num : Int) - (Nat.log2 den : Int) - 53
    let (n, d) := shiftRatio num den low
    let fitted := if n < d * Nat.pow 2 53 then low else low + 1
    let e := max fitted leastExponent
    let (n, d) := shiftRatio num den e
    let m := roundDiv n d
    let (m, e) := if m = Nat.pow 2 53 then (Nat.pow 2 52, e + 1) else (m, e)
    if greatestExponent < e then .infinite negative else .finite negative m e

/-- The double nearest to `digits · 10 ^ exponent`.  Numerals far outside the range of the format
are settled by their size alone. -/
def ofDecimal (negative : Bool) (digits : Nat) (exponent : Int) : Binary64 :=
  if digits = 0 then .finite negative 0 leastExponent
  else
    let magnitude : Int := (Nat.log2 digits : Int) * 30103 / 100000 + exponent
    if 320 < magnitude then .infinite negative
    else if magnitude < -340 then .finite negative 0 leastExponent
    else if 0 ≤ exponent then ofRatio negative (digits * Nat.pow 10 exponent.toNat) 1
    else ofRatio negative digits (Nat.pow 10 (-exponent).toNat)

def ofInt (n : Int) : Binary64 := ofRatio (n < 0) n.natAbs 1

def isZero : Binary64 → Bool
  | .finite _ m _ => m == 0
  | _ => false

def signed (negative : Bool) (n : Nat) : Int := if negative then -(n : Int) else n

/-- The value of a finite double in units of the smallest positive one. -/
def scaled? : Binary64 → Option Int
  | .finite s m e => some (signed s (m * Nat.pow 2 (e - leastExponent).toNat))
  | _ => none

/-- An integer in the same units. -/
def scaleInt (n : Int) : Int := n * Int.pow 2 (-leastExponent).toNat

/-- The integer part of a finite double, cut off toward zero. -/
def truncate? : Binary64 → Option Int
  | .finite s m e =>
    some (signed s (if 0 ≤ e then m * Nat.pow 2 e.toNat else m / Nat.pow 2 (-e).toNat))
  | _ => none

/-- The integer that a double equals, if it equals one. -/
def toInt? (x : Binary64) : Option Int :=
  match x.scaled?, x.truncate? with
  | some v, some n => if v = scaleInt n then some n else none
  | _, _ => none

end Binary64

end MachineLab
