import MachineLab.Json.Reader
import MachineLab.Kind
import MachineLab.Text.Utf8
import MachineLab.Value.Display

/-!
# What can go wrong

A fault is one of three things.  A *machine fault* reports that a step could not be carried out or
that a computation has halted.  A *refusal* reports an argument that the library rejects on purpose.
A *mismatch* reports a value of a kind with which an operation can do nothing.

## Main definitions

* `Defect` — why a machine is not deterministic.
* `MachineFault`, `Refusal`, `Mismatch`, `Fault` — the causes.
* `Fault.message` — their wording.
-/

namespace MachineLab

/-! ## Defects -/

/-- The first rule that a machine breaks.  Edges are given by their description. -/
inductive Defect where
  | nested (label : String) (inner : Defect)
  | severalStarts
  | severalFinals
  | leavesFinal (label : String)
  | undefinedInput (edge : String)
  | undefinedAction (edge : String)
  | emptyInput (edge : String)
  | repeatedInput (label : String) (input : Value)
  | foreignInput (edge : String)
  | foreignOutput (edge : String)
  | missingInput (label : String) (symbol : Char)
  | noStart
  | noFinal
deriving Repr, Inhabited

def Defect.message : Defect → String
  | .nested label inner => "Submachine of state " ++ label ++ ": " ++ inner.message
  | .severalStarts => "Machine has more than one start state."
  | .severalFinals => "Machine has more than one final state."
  | .leavesFinal label => "Machine has a transition leaving the final state " ++ label ++ "."
  | .undefinedInput edge => "Transition " ++ edge ++ " has an undefined input."
  | .undefinedAction edge => "Transition " ++ edge ++ " has an undefined action."
  | .emptyInput edge => "Transition " ++ edge ++ " uses a lambda edge."
  | .repeatedInput label input =>
    "State " ++ label ++ " has more than one transition with input " ++ input.display ++ "."
  | .foreignInput edge => "Transition " ++ edge ++ " has an input which is not in the alphabet."
  | .foreignOutput edge => "Transition " ++ edge ++ " has an action which is not in the alphabet."
  | .missingInput label symbol =>
    "State " ++ label ++ " does not have a transition for input " ++ String.singleton symbol ++ "."
  | .noStart => "Machine has no start state."
  | .noFinal => "Machine has no final state."

/-! ## Machine faults -/

/-- Why a step could not be carried out, or how a computation halted. -/
inductive MachineFault where
  /-- The machine breaks a rule of its kind. -/
  | nondeterministic (defect : Defect)
  /-- The head was told to move left of the first cell. -/
  | tapeBounds
  /-- A Turing machine has no transition to take and has not halted. -/
  | undefinedTransition (parked final : Bool)
  /-- Attaching would make a machine contain itself. -/
  | submachineCycle (inner : Value) (label : String) (outer : Value)
  /-- A Turing machine halted with its head parked. -/
  | halted (machine : Value) (label : String)
  /-- An acceptor came to the end of its input in a final state. -/
  | accepted
  /-- An acceptor came to the end of its input in another state. -/
  | rejected
  /-- An acceptor has no transition for the symbol under the head. -/
  | stuck (label symbol : String)
deriving Repr, Inhabited

namespace MachineFault

def isCompletion : MachineFault → Bool
  | .halted _ _ | .accepted => true
  | _ => false

def isFailure : MachineFault → Bool
  | .rejected | .stuck _ _ => true
  | _ => false

/-- The class under which a fault is published. -/
def className : MachineFault → String
  | .nondeterministic _ => "NondeterministicError"
  | .tapeBounds => "TapeBoundsError"
  | .undefinedTransition _ _ => "UndefinedTransitionError"
  | .submachineCycle _ _ _ => "SubmachineCycleError"
  | .halted _ _ | .accepted => "ComputationCompleted"
  | .rejected | .stuck _ _ => "ComputationFailed"

def message : MachineFault → String
  | .nondeterministic defect => defect.message
  | .tapeBounds => "The r/w head cannot move past the start of the tape."
  | .undefinedTransition false false =>
    "The r/w head was not parked, and the last state was not an accepting state."
  | .undefinedTransition false true => "The r/w head was not parked."
  | .undefinedTransition true _ => "The last state was not an accepting state."
  | .submachineCycle inner label outer =>
    "Attaching '" ++ inner.display ++ "' to state " ++ label ++ " of '" ++ outer.display ++
      "' would make the machine contain itself."
  | .halted machine label => "Machine '" ++ machine.display ++ "' halted in " ++ label ++ "."
  | .accepted => "The input string was accepted."
  | .rejected => "The input string was not accepted."
  | .stuck label symbol => "Undefined transition from " ++ label ++ " on input " ++ symbol ++ "."

end MachineFault

/-! ## Refusals -/

/-- An argument that is rejected on purpose. -/
inductive Refusal where
  | foreignState (reference : String) (machine : Value)
  | foreignTransition (reference : String) (machine : Value)
  | wrongAction (machine action : Kind)
  | notNestable
  | noSimulator (subject : String)
  | notMachineDocument (format : Value)
  | unsupportedVersion (version : Value)
  | unknownKind (kind : Value)
  | duplicateState (id : Value)
  | acceptorSubmachine
  | unknownCategory (category : Value)
  | missingKey (key : Value)
  | notListed
deriving Repr, Inhabited

def Refusal.message : Refusal → String
  | .foreignState reference machine =>
    "State " ++ reference ++ " does not belong to machine '" ++ machine.display ++ "'."
  | .foreignTransition reference machine =>
    "Transition " ++ reference ++ " does not belong to machine '" ++ machine.display ++ "'."
  | .wrongAction machine action =>
    machine.machineName ++ " transitions need a " ++ machine.actionName ++ ", got " ++
      action.actionName ++ "."
  | .notNestable => "Only Turing machines can be nested as submachines."
  | .noSimulator subject => "No simulator for " ++ subject ++ "."
  | .notMachineDocument format => "Not a machine document (format=" ++ format.quoted ++ ")."
  | .unsupportedVersion version =>
    "Unsupported machine format version " ++ version.quoted ++ "."
  | .unknownKind kind => kind.quoted ++ " is not a valid MachineKind"
  | .duplicateState id => "Duplicate state id " ++ id.display ++ "."
  | .acceptorSubmachine => "Only Turing machine states can hold submachines."
  | .unknownCategory category => category.quoted ++ " is not a valid SettingCategory"
  | .missingKey key => key.quoted
  | .notListed => "list.remove(x): x not in list"

/-! ## Mismatches -/

/-- A value of a kind with which an operation can do nothing. -/
inductive Mismatch where
  /-- Lists and objects cannot be keys. -/
  | notKey (kind : Value.Kind)
  | noLength (kind : Value.Kind)
  /-- A symbol became a text that is not one character long. -/
  | notOneCharacter (length : Nat)
  /-- A value, named by its kind, lacks an operation. -/
  | lacks (owner operation : String)
  /-- Acceptors hold no submachines. -/
  | noNesting
  | notIterable (kind : Value.Kind)
  | notIndexable (kind : Value.Kind)
  /-- An action's input stands for its text and is none. -/
  | notText (kind : Value.Kind)
  | unordered (sign : String) (left right : Value.Kind)
  | notInteger (kind : Value.Kind)
  | notNumber (kind : Value.Kind)
  | badInteger (text : String)
  | longInteger (digits : Nat)
  /-- A text has more brackets open at once than there is room for. -/
  | deepText (bracket : Json.Bracket)
  /-- Something needs a value that cannot be written. -/
  | unwritable (error : Value.WriteError)
  | badNumber (text : String)
  | undefinedInteger
  | infiniteInteger
  | hugeNumber
  | undecodable (error : Text.Utf8.DecodeError)
  | nullInPath
deriving Repr

inductive Mismatch.Family where
  | kind | operation | value | range | encoding | depth
deriving DecidableEq, Repr

namespace Mismatch

def family : Mismatch → Family
  | .lacks _ _ | .noNesting => .operation
  | .badInteger _ | .longInteger _ | .unwritable .longInteger | .badNumber _ | .undefinedInteger
  | .nullInPath => .value
  | .infiniteInteger | .hugeNumber => .range
  | .undecodable _ => .encoding
  | .deepText _ | .unwritable .tooDeep => .depth
  | _ => .kind

/-- The first 200 characters of a text, all that a message quotes of a bad integer. -/
def excerpt (text : String) : String := String.ofList (text.toList.take 200)

def message : Mismatch → String
  | .notKey kind => "unhashable type: '" ++ kind.name ++ "'"
  | .noLength kind => "object of type '" ++ kind.name ++ "' has no len()"
  | .notOneCharacter length =>
    "ord() expected a character, but string of length " ++ toString length ++ " found"
  | .lacks owner operation => "'" ++ owner ++ "' object has no attribute '" ++ operation ++ "'"
  | .noNesting => "Acceptors hold no submachines."
  | .notIterable kind => "'" ++ kind.name ++ "' object is not iterable"
  | .notIndexable .text => "string indices must be integers, not 'str'"
  | .notIndexable .list => "list indices must be integers or slices, not str"
  | .notIndexable kind => "'" ++ kind.name ++ "' object is not subscriptable"
  | .notText kind => "__str__ returned non-string (type " ++ kind.name ++ ")"
  | .unordered sign left right =>
    "'" ++ sign ++ "' not supported between instances of '" ++ left.name ++ "' and '" ++
      right.name ++ "'"
  | .notInteger kind =>
    "int() argument must be a string, a bytes-like object or a real number, not '" ++
      kind.name ++ "'"
  | .notNumber kind => "float() argument must be a string or a real number, not '" ++ kind.name ++ "'"
  | .badInteger text => "invalid literal for int() with base 10: " ++ excerpt (Text.quoted text)
  | .longInteger digits => (Json.ReadError.longNumeral digits).message
  | .deepText bracket => (Json.ReadError.tooDeep bracket).message
  | .unwritable .longInteger =>
    "Exceeds the limit (" ++ toString Text.digitLimit ++
      " digits) for integer string conversion; use sys.set_int_max_str_digits() to increase the limit"
  | .unwritable .tooDeep => "maximum recursion depth exceeded while getting the repr of an object"
  | .badNumber text => "could not convert string to float: " ++ Text.quoted text
  | .undefinedInteger => "cannot convert float NaN to integer"
  | .infiniteInteger => "cannot convert float infinity to integer"
  | .hugeNumber => "int too large to convert to float"
  | .undecodable error => error.message
  | .nullInPath => "embedded null byte"

end Mismatch

/-! ## Faults -/

/-- Why an operation gave no result. -/
inductive Fault where
  | machine (cause : MachineFault)
  | refusal (cause : Refusal)
  | mismatch (cause : Mismatch)
deriving Repr

namespace Fault

def message : Fault → String
  | .machine cause => cause.message
  | .refusal cause => cause.message
  | .mismatch cause => cause.message

/-- The fault of a value without an operation. -/
def lacks (v : Value) (operation : String) : Fault := .mismatch (.lacks v.kind.name operation)

end Fault

end MachineLab
