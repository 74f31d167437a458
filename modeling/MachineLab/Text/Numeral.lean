import MachineLab.Number.Binary64

/-!
# Numerals in free text

An integer numeral may be surrounded by blanks, may carry a sign, uses the decimal digits of any
script, and may set single underscores between digits.  A number with a point or an exponent follows
the same rules; infinities and the undefined number are spelled out.

## Main definitions

* `isBlank`, `digitValue?` — the character classes.
* `readInt` — integer numerals.
* `readNumber?` — numbers with a fraction or an exponent.
-/

namespace MachineLab.Text

/-- The zeros of the decimal digits of each script; the other nine digits follow. -/
def digitZeros : List Nat := [
  0x30, 0x660, 0x6F0, 0x7C0, 0x966, 0x9E6, 0xA66, 0xAE6, 0xB66, 0xBE6, 0xC66, 0xCE6, 0xD66,
  0xDE6, 0xE50, 0xED0, 0xF20, 0x1040, 0x1090, 0x17E0, 0x1810, 0x1946, 0x19D0, 0x1A80, 0x1A90,
  0x1B50, 0x1BB0, 0x1C40, 0x1C50, 0xA620, 0xA8D0, 0xA900, 0xA9D0, 0xA9F0, 0xAA50, 0xABF0, 0xFF10,
  0x104A0, 0x10D30, 0x11066, 0x110F0, 0x11136, 0x111D0, 0x112F0, 0x11450, 0x114D0, 0x11650,
  0x116C0, 0x11730, 0x118E0, 0x11950, 0x11C50, 0x11D50, 0x11DA0, 0x16A60, 0x16AC0, 0x16B50,
  0x1D7CE, 0x1D7D8, 0x1D7E2, 0x1D7EC, 0x1D7F6, 0x1E140, 0x1E2F0, 0x1E950, 0x1FBF0]

/-- The value of a decimal digit of any script. -/
def digitValue? (c : Char) : Option Nat :=
  if c.toNat < 0x80 then (if c.isDigit then some (c.toNat - 0x30) else none)
  else (digitZeros.find? fun z => z ≤ c.toNat && c.toNat < z + 10).map (c.toNat - ·)

/-- The blanks that may surround a numeral. -/
def isBlank (c : Char) : Bool :=
  c == ' ' || (0x09 ≤ c.toNat && c.toNat ≤ 0x0D) ||
    [0x85, 0xA0, 0x1680, 0x2028, 0x2029, 0x202F, 0x205F, 0x3000].contains c.toNat ||
    (0x2000 ≤ c.toNat && c.toNat ≤ 0x200A)

def strip (cs : List Char) : List Char :=
  ((cs.dropWhile isBlank).reverse.dropWhile isBlank).reverse

/-- Split a sign off: whether it was a minus, and the rest. -/
def splitSign : List Char → Bool × List Char
  | '-' :: rest => (true, rest)
  | '+' :: rest => (false, rest)
  | cs => (false, cs)

/-- Whether underscores stand singly between digits; `afterDigit` tells what came before. -/
def wellSpaced (afterDigit : Bool) : List Char → Bool
  | [] => afterDigit
  | c :: rest => if c == '_' then afterDigit && wellSpaced false rest else wellSpaced true rest

def inDigitRun (c : Char) : Bool := c == '_' || (digitValue? c).isSome

/-- A possibly empty run of digits at the start of a text: the values of the digits and what follows
the run.  Fails when an underscore is not between two digits. -/
def takeDigits? (cs : List Char) : Option (List Nat × List Char) :=
  let run := cs.takeWhile inDigitRun
  if run.isEmpty || wellSpaced false run then
    some (run.filterMap digitValue?, cs.dropWhile inDigitRun)
  else none

/-- The natural number with the given decimal digits, most significant first. -/
def ofDigits (ds : List Nat) : Nat := ds.foldl (fun n d => 10 * n + d) 0

/-- The longest integer numeral that is converted, in digits. -/
def digitLimit : Nat := 4300

/-- Whether an integer has no more digits than are read and written. -/
def isShort (n : Int) : Bool := (Nat.toDigits 10 n.natAbs).length ≤ digitLimit

inductive NumeralError where
  | malformed
  | tooLong (digits : Nat)
deriving DecidableEq, Repr

/-- Read an integer numeral.  Too many digits are complained of before anything that follows them. -/
def readInt (s : String) : Except NumeralError Int :=
  let (negative, body) := splitSign (strip s.toList)
  match takeDigits? body with
  | some (d :: ds, rest) =>
    let count := (d :: ds).length
    if digitLimit < count then .error (.tooLong count)
    else if rest.isEmpty then .ok (Binary64.signed negative (ofDigits (d :: ds)))
    else .error .malformed
  | _ => .error .malformed

/-- Read an exponent such as `e-7`; a text without one has exponent zero. -/
def takeExponent? : List Char → Option (Int × List Char)
  | c :: rest =>
    if c == 'e' || c == 'E' then
      let (negative, body) := splitSign rest
      match takeDigits? body with
      | some (d :: ds, left) => some (Binary64.signed negative (ofDigits (d :: ds)), left)
      | _ => none
    else some (0, c :: rest)
  | [] => some (0, [])

/-- Read a number written with digits, an optional fraction and an optional exponent. -/
def readDecimal? (negative : Bool) (body : List Char) : Option Binary64 := do
  let (whole, rest) ← takeDigits? body
  let (fraction, rest) ← match rest with
    | '.' :: after => takeDigits? after
    | _ => some ([], rest)
  let (e, rest) ← takeExponent? rest
  if (whole ++ fraction).isEmpty || !rest.isEmpty then none
  else some (Binary64.ofDecimal negative (ofDigits (whole ++ fraction)) (e - fraction.length))

/-- Read a number, one of the words for the infinities, or the word for the undefined number. -/
def readNumber? (s : String) : Option Binary64 :=
  let (negative, body) := splitSign (strip s.toList)
  let word := String.ofList (body.map Char.toLower)
  if word == "inf" || word == "infinity" then some (.infinite negative)
  else if word == "nan" then some .nan
  else readDecimal? negative body

end MachineLab.Text
