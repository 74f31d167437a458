import MachineLab.Number.Shortest
import MachineLab.Text.Numeral
import MachineLab.Text.Quoted
import MachineLab.Value.Basic

/-!
# How values are written in messages

`Value.quoted` writes texts in quotes, lists in brackets and objects in braces.  `Value.display` is
the same, except that a text on its own stands as it is.  Integers are held to the length to which they
are read, and there is room for so many levels of items and no more; `Value.writeError?` says what is in
the way of writing a value.
-/

namespace MachineLab.Value

def boolText (b : Bool) : String := if b then "True" else "False"

mutual

/-- The written form with texts in quotes. -/
def quoted : Value → String
  | .null => "None"
  | .bool b => boolText b
  | .int n => toString n
  | .float x => x.text
  | .text s => Text.quoted s
  | .list items => "[" ++ ", ".intercalate (quotedItems items) ++ "]"
  | .object fields => "\x7b" ++ ", ".intercalate (quotedFields fields) ++ "\x7d"

def quotedItems : List Value → List String
  | [] => []
  | v :: rest => quoted v :: quotedItems rest

def quotedFields : List (String × Value) → List String
  | [] => []
  | (key, v) :: rest => (Text.quoted key ++ ": " ++ quoted v) :: quotedFields rest

end

/-- The written form with a text on its own as it is. -/
def display : Value → String
  | .text s => s
  | v => v.quoted

/-- Why a value cannot be written. -/
inductive WriteError where
  | longInteger
  | tooDeep
deriving DecidableEq, Repr

mutual

/-- The first thing in the way of writing a value, with room for a number of levels of items. -/
def writeError? : Nat → Value → Option WriteError
  | _, .int n => if Text.isShort n then none else some .longInteger
  | room, .list items => itemsError? room items
  | room, .object fields => fieldsError? room fields
  | _, _ => none

def itemsError? : Nat → List Value → Option WriteError
  | _, [] => none
  | 0, _ :: _ => some .tooDeep
  | room + 1, v :: rest => (writeError? room v).or (itemsError? (room + 1) rest)

def fieldsError? : Nat → List (String × Value) → Option WriteError
  | _, [] => none
  | 0, _ :: _ => some .tooDeep
  | room + 1, (_, v) :: rest => (writeError? room v).or (fieldsError? (room + 1) rest)

end

end MachineLab.Value
