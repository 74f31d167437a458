import MachineLab.Number.Binary64

/-!
# The shortest decimal that reads back

A double is written with the fewest significant digits that identify it, and among those with the
digits nearest to its value.  Exponents from `-4` to `15` are written positionally with at least one
digit after the point; the others in scientific notation with an exponent of at least two digits.

## Main definitions

* `Binary64.shortestDigits` — the digits and the decimal exponent.
* `Binary64.text` — the written form.
-/

namespace MachineLab.Binary64

/-- The place of the leading digit of `num / den`: the `p` with `10 ^ p ≤ num / den < 10 ^ (p + 1)`,
searched upward from an estimate that is never too large.  Two corrections are enough. -/
def leadingPlace (num den : Nat) : Int :=
  let atLeast (p : Int) : Bool :=
    if 0 ≤ p then den * Nat.pow 10 p.toNat ≤ num else den ≤ num * Nat.pow 10 (-p).toNat
  let estimate : Int :=
    ((Nat.log2 num : Int) - (Nat.log2 den : Int) - 1) * 30103 / 100000 - 1
  if atLeast (estimate + 3) then estimate + 3
  else if atLeast (estimate + 2) then estimate + 2
  else if atLeast (estimate + 1) then estimate + 1
  else estimate

/-- A double's value and the two ends of the interval of reals that round to it, as numerators over
one denominator. -/
structure Neighbourhood where
  value : Nat
  lower : Nat
  upper : Nat
  den : Nat
  /-- Whether the ends themselves round to the double. -/
  closed : Bool

/-- The interval of reals that round to the positive double `m · 2 ^ e`. -/
def neighbourhood (m : Nat) (e : Int) : Neighbourhood :=
  let below := if m = Nat.pow 2 52 ∧ leastExponent < e then 1 else 2
  let up := if 0 ≤ e then Nat.pow 2 e.toNat else 1
  let den := if 0 ≤ e then 4 else 4 * Nat.pow 2 (-e).toNat
  { value := 4 * m * up
    lower := (4 * m - below) * up
    upper := (4 * m + 2) * up
    den := den
    closed := m % 2 == 0 }

/-- Whether `digits · 10 ^ place` lies in the interval. -/
def Neighbourhood.holds (n : Neighbourhood) (digits : Nat) (place : Int) : Bool :=
  let (point, unit) :=
    if 0 ≤ place then (digits * Nat.pow 10 place.toNat * n.den, 1)
    else (digits * n.den, Nat.pow 10 (-place).toNat)
  if n.closed then n.lower * unit ≤ point && point ≤ n.upper * unit
  else n.lower * unit < point && point < n.upper * unit

/-- The multiple of `10 ^ place` to write for the value, if one of its two neighbours on that grid
identifies it: the nearer one, and at an exact tie the even one. -/
def Neighbourhood.gridPoint? (n : Neighbourhood) (place : Int) : Option Nat :=
  let (num, den) :=
    if 0 ≤ place then (n.value, n.den * Nat.pow 10 place.toNat)
    else (n.value * Nat.pow 10 (-place).toNat, n.den)
  let down := num / den
  match n.holds down place, n.holds (down + 1) place with
  | true, true => some (roundDiv num den)
  | true, false => some down
  | false, true => some (down + 1)
  | false, false => none

/-- Search the grids of `count`, `count + 1`, … significant digits. -/
def Neighbourhood.search (n : Neighbourhood) (lead : Int) : Nat → Nat → Nat × Int
  | 0, _ => (n.value / n.den, 0)
  | fuel + 1, count =>
    let place := lead - count + 1
    match n.gridPoint? place with
    | some digits => (digits, place)
    | none => n.search lead fuel (count + 1)

/-- Drop trailing zeros of a numeral, raising its exponent instead. -/
def dropZeros : Nat → Nat → Int → Nat × Int
  | 0, digits, place => (digits, place)
  | fuel + 1, digits, place =>
    if digits ≠ 0 ∧ digits % 10 = 0 then dropZeros fuel (digits / 10) (place + 1)
    else (digits, place)

/-- The shortest digits of the positive double `m · 2 ^ e`, and the place of the last one.
Seventeen digits always suffice. -/
def shortestDigits (m : Nat) (e : Int) : Nat × Int :=
  let n := neighbourhood m e
  let (digits, place) := n.search (leadingPlace n.value n.den) 18 1
  dropZeros 20 digits place

def zeros (n : Nat) : String := String.ofList (List.replicate n '0')

/-- Pad an unsigned exponent to two digits. -/
def exponentText (e : Int) : String :=
  let digits := toString e.natAbs
  (if e < 0 then "-" else "+") ++ (if digits.length < 2 then "0" ++ digits else digits)

def layout (digits : Nat) (place : Int) : String :=
  let ds := toString digits
  let point : Int := ds.length + place
  if -4 < point ∧ point ≤ 16 then
    if point ≤ 0 then "0." ++ zeros (-point).toNat ++ ds
    else if (ds.length : Int) ≤ point then ds ++ zeros (point - ds.length).toNat ++ ".0"
    else String.ofList (ds.toList.take point.toNat) ++ "." ++
      String.ofList (ds.toList.drop point.toNat)
  else
    let mantissa := match ds.toList with
      | [] => ""
      | [d] => String.singleton d
      | d :: rest => String.ofList (d :: '.' :: rest)
    mantissa ++ "e" ++ exponentText (point - 1)

def text : Binary64 → String
  | .nan => "nan"
  | .infinite s => if s then "-inf" else "inf"
  | .finite s m e =>
    (if s then "-" else "") ++
      if m = 0 then "0.0" else
        let (digits, place) := shortestDigits m e
        layout digits place

end MachineLab.Binary64
