import MachineLab.Fault

/-!
# Taking values apart

Documents are read field by field.  Each access says what it needs and fails with the fault of a
missing field or of a value of the wrong kind.
-/

namespace MachineLab.Value

def item (v : Value) (key : String) : Except Fault Value :=
  match v with
  | .object fields =>
    match Dict.find? fields key with
    | some found => .ok found
    | none => .error (.refusal (.missingKey (.text key)))
  | other => .error (.mismatch (.notIndexable other.kind))

/-- The field of an object, null when it is missing. -/
def optionalItem (v : Value) (key : String) : Except Fault Value :=
  match v with
  | .object fields => .ok ((Dict.find? fields key).getD .null)
  | other => .error (.lacks other "get")

/-- The values that a collection runs through: the items of a list, the characters of a text, the
names of an object's fields. -/
def elements : Value → Except Fault (List Value)
  | .list items => .ok items
  | .text s => .ok (s.toList.map fun c => .text (String.singleton c))
  | .object fields => .ok (fields.map fun f => .text f.1)
  | other => .error (.mismatch (.notIterable other.kind))

/-- An integer; a truth value counts as one. -/
def integer : Value → Except Fault Int
  | .int n => .ok n
  | .bool b => .ok (if b then 1 else 0)
  | other => .error (.mismatch (.unordered ">" other.kind .int))

/-- The value under a key of a table, where keys are compared as values. -/
def lookupIn {α : Type} (key : Value) (table : List (Value × α)) : Except Fault (Option α) :=
  if key.isKey then .ok ((table.find? fun entry => entry.1.samePart key).map (·.2))
  else .error (.mismatch (.notKey key.kind))

mutual

/-- How deep a value is nested. -/
def height : Value → Nat
  | .list items => heightItems items + 1
  | .object fields => heightFields fields + 1
  | _ => 0

def heightItems : List Value → Nat
  | [] => 0
  | v :: rest => max v.height (heightItems rest)

def heightFields : List (String × Value) → Nat
  | [] => 0
  | (_, v) :: rest => max v.height (heightFields rest)

end

end MachineLab.Value
