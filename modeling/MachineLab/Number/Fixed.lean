import MachineLab.Number.Shortest

/-!
# Decimals of a chosen precision

A double is written with a fixed number of places, with a fixed number of significant digits in
scientific notation, or in whichever of the two suits its size.  Every digit is taken from the exact
value, a half going to the even neighbour.

## Main definitions

* `Binary64.fixedText`, `Binary64.scientificText`, `Binary64.generalText` — the three notations, for
  the absolute value of a finite double.
-/

namespace MachineLab.Binary64

/-- The absolute value `m · 2 ^ e` as a ratio. -/
def ratio (m : Nat) (e : Int) : Nat × Nat :=
  if 0 ≤ e then (m * Nat.pow 2 e.toNat, 1) else (m, Nat.pow 2 (-e).toNat)

/-- `num / den` in units of `10 ^ place`, rounded. -/
def roundAt (num den : Nat) (place : Int) : Nat :=
  if 0 ≤ place then roundDiv num (den * Nat.pow 10 place.toNat)
  else roundDiv (num * Nat.pow 10 (-place).toNat) den

/-- The digits of `n`, at least `width` of them. -/
def paddedDigits (width n : Nat) : String :=
  let ds := toString n
  zeros (width - ds.length) ++ ds

/-- A numeral whose last `places` digits stand behind the point.  The point is dropped when nothing
stands behind it, unless it is to be kept. -/
def pointed (places : Nat) (keepPoint : Bool) (n : Nat) : String :=
  let ds := (paddedDigits (places + 1) n).toList
  let whole := String.ofList (ds.take (ds.length - places))
  if places = 0 then (if keepPoint then whole ++ "." else whole)
  else whole ++ "." ++ String.ofList (ds.drop (ds.length - places))

def fixedText (m : Nat) (e : Int) (places : Nat) (keepPoint : Bool) : String :=
  let (num, den) := ratio m e
  pointed places keepPoint (roundAt num den (-places))

/-- The leading digits, `places` of them behind the first one, and the exponent of the first. -/
def scientificDigits (m : Nat) (e : Int) (places : Nat) : Nat × Int :=
  if m = 0 then (0, 0)
  else
    let (num, den) := ratio m e
    let lead := leadingPlace num den
    let n := roundAt num den (lead - places)
    if n = Nat.pow 10 (places + 1) then (Nat.pow 10 places, lead + 1) else (n, lead)

def scientificText (m : Nat) (e : Int) (places : Nat) (keepPoint : Bool) : String :=
  let (n, lead) := scientificDigits m e places
  pointed places keepPoint n ++ "e" ++ exponentText lead

/-- Drop the zeros that end a fraction, and a point that ends a numeral. -/
def trimFraction (s : String) : String :=
  if s.toList.contains '.' then
    let kept := (s.toList.reverse.dropWhile (· == '0'))
    String.ofList (match kept with
      | '.' :: rest => rest.reverse
      | _ => kept.reverse)
  else s

/-- The notation that suits the size of the number, with a number of significant digits. -/
def generalText (m : Nat) (e : Int) (significant : Nat) (keepPoint : Bool) : String :=
  let p := max 1 significant
  let (n, lead) := scientificDigits m e (p - 1)
  let trim (s : String) : String := if keepPoint then s else trimFraction s
  if -4 ≤ lead ∧ lead < p then
    trim (fixedText m e ((p : Int) - 1 - lead).toNat keepPoint)
  else trim (pointed (p - 1) keepPoint n) ++ "e" ++ exponentText lead

end MachineLab.Binary64
