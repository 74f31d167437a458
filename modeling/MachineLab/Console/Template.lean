import MachineLab.Number.Fixed
import MachineLab.Value.Display

/-!
# Filling in templates

A message can be a template with placeholders such as `%s` or `%-8.3f`, which are filled in with
values in order, or by name such as `%(key)s` when the values are the fields of one object.  Filling
in fails when a placeholder is malformed, when a value does not suit its placeholder, and when there
are too few or too many values.

## Main definitions

* `Template.fill` — fill in a template.
-/

namespace MachineLab.Template

/-- How a placeholder is to be filled in. -/
structure Style where
  leftAdjust : Bool := false
  sign : Bool := false
  blankSign : Bool := false
  alternate : Bool := false
  zeroFill : Bool := false
  width : Nat := 0
  precision : Option Nat := none

/-- The values that are left. -/
structure Supply where
  items : List Value
  /-- The fields that placeholders can name. -/
  fields : Option (Dict Value)

def Supply.next? (s : Supply) : Option (Value × Supply) :=
  match s.items with
  | v :: rest => some (v, { s with items := rest })
  | [] => none

/-! ## Values in place -/

/-- Write characters outside the printable ASCII range as escapes. -/
def asciiOnly (s : String) : String :=
  String.join (s.toList.map fun c =>
    if c.toNat < 0x7F then String.singleton c else Text.escapeCode c.toNat)

def pad (st : Style) (s : String) : String :=
  let blanks := String.ofList (List.replicate (st.width - s.length) ' ')
  if st.leftAdjust then s ++ blanks else blanks ++ s

def textField (st : Style) (s : String) : String :=
  pad st (match st.precision with
    | some n => String.ofList (s.toList.take n)
    | none => s)

/-- A number from its sign, its leading mark and its digits. -/
def numberField (st : Style) (negative : Bool) (mark digits : String) : String :=
  let sign :=
    if negative then "-" else if st.sign then "+" else if st.blankSign then " " else ""
  let body := sign ++ mark ++ digits
  if st.zeroFill && !st.leftAdjust then
    sign ++ mark ++ Binary64.zeros (st.width - body.length) ++ digits
  else pad st body

def integerField (st : Style) (n : Int) (base : Nat) (mark : String) (upper : Bool) : String :=
  let ds := String.ofList (Nat.toDigits base n.natAbs)
  let ds := Binary64.zeros (st.precision.getD 0 - ds.length) ++ ds
  let ds := if upper then ds.toUpper else ds
  numberField st (n < 0) (if st.alternate then mark else "") ds

inductive Form where
  | fixed | scientific | general

/-- The double that a number stands for. -/
def numberOf? : Value → Option Binary64
  | .float x => some x
  | .int n =>
    match Binary64.ofInt n with
    | .infinite _ => none
    | x => some x
  | .bool b => some (Binary64.ofInt (if b then 1 else 0))
  | _ => none

def doubleField (st : Style) (x : Binary64) (how : Form) (upper : Bool) : String :=
  let p := st.precision.getD 6
  let (negative, body) := match x with
    | .nan => (false, "nan")
    | .infinite s => (s, "inf")
    | .finite s m e =>
      (s, match how with
        | .fixed => Binary64.fixedText m e p st.alternate
        | .scientific => Binary64.scientificText m e p st.alternate
        | .general => Binary64.generalText m e p st.alternate)
  numberField st negative "" (if upper then body.toUpper else body)

/-- The integer that a value stands for in a decimal placeholder. -/
def decimalOf? : Value → Option Int
  | .int n => some n
  | .bool b => some (if b then 1 else 0)
  | .float x => x.truncate?
  | _ => none

/-- The integer that a value stands for in another base. -/
def wholeOf? : Value → Option Int
  | .int n => some n
  | .bool b => some (if b then 1 else 0)
  | _ => none

/-- The character that a value stands for. -/
def characterOf? : Value → Option Char
  | .text s =>
    match s.toList with
    | [c] => some c
    | _ => none
  | v => do
    let n ← wholeOf? v
    if 0 ≤ n ∧ n < 0x110000 then some (Char.ofNat n.toNat) else none

/-- Fill in a placeholder that ends with the given letter. -/
def convert? (st : Style) (letter : Char) (v : Value) : Option String :=
  match letter with
  | 's' => some (textField st v.display)
  | 'r' => some (textField st v.quoted)
  | 'a' => some (textField st (asciiOnly v.quoted))
  | 'c' => (characterOf? v).map fun c => pad st (String.singleton c)
  | 'd' | 'i' | 'u' => (decimalOf? v).map fun n => integerField { st with alternate := false } n 10 "" false
  | 'x' => (wholeOf? v).map fun n => integerField st n 16 "0x" false
  | 'X' => (wholeOf? v).map fun n => integerField st n 16 "0X" true
  | 'o' => (wholeOf? v).map fun n => integerField st n 8 "0o" false
  | 'f' => (numberOf? v).map fun x => doubleField st x .fixed false
  | 'F' => (numberOf? v).map fun x => doubleField st x .fixed true
  | 'e' => (numberOf? v).map fun x => doubleField st x .scientific false
  | 'E' => (numberOf? v).map fun x => doubleField st x .scientific true
  | 'g' => (numberOf? v).map fun x => doubleField st x .general false
  | 'G' => (numberOf? v).map fun x => doubleField st x .general true
  | _ => none

/-! ## Placeholders -/

/-- Split a name in balanced parentheses off, the opening one being read already. -/
def takeName (depth : Nat) (done : List Char) : List Char → Option (String × List Char)
  | [] => none
  | c :: rest =>
    if c == ')' then
      if depth = 0 then some (String.ofList done.reverse, rest)
      else takeName (depth - 1) (c :: done) rest
    else if c == '(' then takeName (depth + 1) (c :: done) rest
    else takeName depth (c :: done) rest

/-- Take a name off, and with it choose the value to fill in. -/
def takeKey (cs : List Char) (s : Supply) : Option (List Char × Supply) :=
  match cs with
  | '(' :: rest => do
    let fields ← s.fields
    let (name, rest) ← takeName 0 [] rest
    let v ← Dict.find? fields name
    return (rest, { s with items := [v] })
  | _ => some (cs, s)

def takeFlags (st : Style) : List Char → Style × List Char
  | [] => (st, [])
  | c :: rest =>
    match c with
    | '-' => takeFlags { st with leftAdjust := true } rest
    | '+' => takeFlags { st with sign := true } rest
    | ' ' => takeFlags { st with blankSign := true } rest
    | '#' => takeFlags { st with alternate := true } rest
    | '0' => takeFlags { st with zeroFill := true } rest
    | _ => (st, c :: rest)

/-- The largest width and precision. -/
def sizeLimit : Nat := Nat.pow 2 31 - 1

/-- Take a number off: digits, or a star that stands for the next value. -/
def takeSize (cs : List Char) (s : Supply) : Option (Int × List Char × Supply) :=
  match cs with
  | '*' :: rest => do
    let (v, s) ← s.next?
    let n ← wholeOf? v
    if sizeLimit < n.natAbs then none else some (n, rest, s)
  | _ =>
    let n := (cs.takeWhile Char.isDigit).foldl (fun n c => 10 * n + (c.toNat - '0'.toNat)) 0
    if sizeLimit < n then none else some (n, cs.dropWhile Char.isDigit, s)

def takePrecision (cs : List Char) (s : Supply) : Option (Option Nat × List Char × Supply) :=
  match cs with
  | '.' :: rest => do
    let (n, rest, s) ← takeSize rest s
    return (some n.toNat, rest, s)
  | _ => some (none, cs, s)

/-- Take a letter off that says how long a number is; it has no meaning here. -/
def takeLength : List Char → List Char
  | c :: rest => if c == 'h' || c == 'l' || c == 'L' then rest else c :: rest
  | [] => []

/-- Fill in the placeholder that starts after a percent sign. -/
def placeholder (cs : List Char) (s : Supply) : Option (String × List Char × Supply) :=
  match cs with
  | '%' :: rest => some ("%", rest, s)
  | _ => do
    let (cs, s) ← takeKey cs s
    let (st, cs) := takeFlags {} cs
    let (width, cs, s) ← takeSize cs s
    let st := { st with leftAdjust := st.leftAdjust || width < 0, width := width.natAbs }
    let (precision, cs, s) ← takePrecision cs s
    let st := { st with precision }
    match takeLength cs with
    | [] => none
    | letter :: rest =>
      let (v, s) ← s.next?
      let text ← convert? st letter v
      return (text, rest, s)

/-- Fill in a template from some place on.  Every round takes at least one character. -/
def fillFrom : Nat → List Char → Supply → String → Option String
  | 0, _, _, _ => none
  | fuel + 1, cs, s, done =>
    match cs with
    | [] => if s.fields.isNone && !s.items.isEmpty then none else some done
    | '%' :: rest =>
      match placeholder rest s with
      | none => none
      | some (text, rest, s) => fillFrom fuel rest s (done ++ text)
    | c :: rest => fillFrom fuel rest s (done.push c)

/-- The values for a template: the fields of a single object that has some, or the values in order. -/
def supplyOf : List Value → Supply
  | [.object (f :: fields)] => ⟨[.object (f :: fields)], some (f :: fields)⟩
  | items => ⟨items, none⟩

/-- Fill in a template.  Without values it stands as it is. -/
def fill (template : String) (values : List Value) : Option String :=
  if values.isEmpty then some template
  else fillFrom (template.length + 1) template.toList (supplyOf values) ""

end MachineLab.Template
