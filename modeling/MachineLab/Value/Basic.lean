import MachineLab.Number.Binary64
import MachineLab.Dict

/-!
# Dynamic values

Documents, settings and references arrive as values whose type is known only when they are looked
at.  Integers, doubles and truth values form one numeric scale: `1`, `1.0` and `true` are equal, also
as keys.

## Main definitions

* `Value` — the values.
* `Value.truth` — which values count as true.
* `Value.eqv` — equality across the numeric kinds; objects compare without regard to order.
* `Value.less?` — the numeric order.
* `Value.index?` — the natural number that a value equals.
-/

namespace MachineLab

/-- A value of a document. -/
inductive Value where
  | null
  | bool (b : Bool)
  | int (n : Int)
  | float (x : Binary64)
  | text (s : String)
  | list (items : List Value)
  | object (fields : List (String × Value))
deriving Repr, Inhabited

namespace Value

inductive Kind where
  | null | bool | int | float | text | list | object
deriving DecidableEq, Repr

def kind : Value → Kind
  | .null => .null
  | .bool _ => .bool
  | .int _ => .int
  | .float _ => .float
  | .text _ => .text
  | .list _ => .list
  | .object _ => .object

/-- The name under which messages speak of a kind. -/
def Kind.name : Kind → String
  | .null => "NoneType"
  | .bool => "bool"
  | .int => "int"
  | .float => "float"
  | .text => "str"
  | .list => "list"
  | .object => "dict"

/-- Zeros, the empty text, the empty collections and null count as false. -/
def truth : Value → Bool
  | .null => false
  | .bool b => b
  | .int n => n != 0
  | .float x => !x.isZero
  | .text s => s != ""
  | .list items => !items.isEmpty
  | .object fields => !fields.isEmpty

/-- Lists and objects cannot be keys. -/
def isKey : Value → Bool
  | .list _ | .object _ => false
  | _ => true

/-- A place on the numeric scale, in units of the smallest positive double. -/
inductive Measure where
  | undefined
  | bottom
  | at (units : Int)
  | top
deriving DecidableEq, Repr

def measure? : Value → Option Measure
  | .bool b => some (.at (Binary64.scaleInt (if b then 1 else 0)))
  | .int n => some (.at (Binary64.scaleInt n))
  | .float .nan => some .undefined
  | .float (.infinite true) => some .bottom
  | .float (.infinite false) => some .top
  | .float (.finite s m e) =>
    some (match (Binary64.finite s m e).scaled? with
      | some units => .at units
      | none => .undefined)
  | _ => none

/-- Equality on the scale; the undefined number equals nothing. -/
def Measure.same : Measure → Measure → Bool
  | .undefined, _ => false
  | a, b => a == b

/-- Strict order on the scale; the undefined number is below nothing and above nothing. -/
def Measure.less : Measure → Measure → Bool
  | .undefined, _ | _, .undefined => false
  | .bottom, b => b != .bottom
  | _, .bottom => false
  | .at a, .at b => a < b
  | .at _, .top => true
  | .top, _ => false

/-- The numeric order.  Values that are not numbers are not compared. -/
def less? (a b : Value) : Option Bool :=
  match a.measure?, b.measure? with
  | some x, some y => some (x.less y)
  | _, _ => none

def isUndefined : Value → Bool
  | .float .nan => true
  | _ => false

mutual

/-- Equality of values, across the numeric kinds.  The undefined number by itself equals nothing, but
as a part of a collection it equals itself. -/
def eqv : Value → Value → Bool
  | .null, .null => true
  | .text a, .text b => a == b
  | .list xs, .list ys => eqvItems xs ys
  | .object xs, .object ys => xs.length == ys.length && eqvFields xs ys
  | a, b =>
    match a.measure?, b.measure? with
    | some x, some y => x.same y
    | _, _ => false

def eqvItems : List Value → List Value → Bool
  | [], [] => true
  | x :: xs, y :: ys => (eqv x y || x.isUndefined && y.isUndefined) && eqvItems xs ys
  | _, _ => false

/-- Whether the second object holds every field of the first with an equal value. -/
def eqvFields : List (String × Value) → List (String × Value) → Bool
  | [], _ => true
  | (key, x) :: rest, ys =>
    (match Dict.find? ys key with
      | some y => eqv x y || x.isUndefined && y.isUndefined
      | none => false) && eqvFields rest ys

end

/-- Equality of the parts of collections, where the undefined number equals itself. -/
def samePart (a b : Value) : Bool := eqv a b || a.isUndefined && b.isUndefined

/-- Whether a list holds a value equal to the given one. -/
def isIn (v : Value) (items : List Value) : Bool := items.any v.samePart

/-- The natural number that a value equals, so that it can stand for an index. -/
def index? : Value → Option Nat
  | .bool b => some (if b then 1 else 0)
  | .int n => if 0 ≤ n then some n.toNat else none
  | .float x =>
    match x.toInt? with
    | some n => if 0 ≤ n then some n.toNat else none
    | none => none
  | _ => none

def field? : Value → String → Option Value
  | .object fields, key => Dict.find? fields key
  | _, _ => none

end Value

end MachineLab
