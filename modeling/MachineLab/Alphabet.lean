import MachineLab.Fault
import MachineLab.Text.Uppercase

/-!
# Alphabets

An alphabet is a set of letters `A`–`Z`, digits `0`–`9` and possibly the blank.  Letters are taken in
upper case.  Every edit counts up a revision, so that whoever remembers a fact about an alphabet can
tell whether it may have changed.

## Main definitions

* `Alphabet.contains` — membership of a symbol.
* `Alphabet.setSymbol`, `setLetters`, `setDigits`, `setBlank` — the edits.
* `Alphabet.toText`, `Alphabet.ofText` — the compact form, such as `01_`.
-/

namespace MachineLab

def blankChar : Char := '_'

/-- The content of a blank cell. -/
def blankCell : String := "_"

/-- A finite set of tape symbols, with a count of its edits. -/
structure Alphabet where
  letters : Vector Bool 26
  digits : Vector Bool 10
  blank : Bool
  revision : Nat
deriving DecidableEq, Repr

namespace Alphabet

instance : Inhabited Alphabet := ⟨⟨Vector.replicate 26 false, Vector.replicate 10 false, false, 0⟩⟩

/-- A place that a symbol can have in an alphabet. -/
inductive Slot where
  | letter (i : Fin 26)
  | digit (i : Fin 10)
  | blank
deriving DecidableEq, Repr

/-- The place of a single character, taken as it is. -/
def slot? (c : Char) : Option Slot :=
  if h : 'A'.toNat ≤ c.toNat ∧ c.toNat - 'A'.toNat < 26 then
    some (.letter ⟨c.toNat - 'A'.toNat, h.2⟩)
  else if h : '0'.toNat ≤ c.toNat ∧ c.toNat - '0'.toNat < 10 then
    some (.digit ⟨c.toNat - '0'.toNat, h.2⟩)
  else if c = ' ' ∨ c = blankChar then some .blank
  else none

def allLetters : List Char := "ABCDEFGHIJKLMNOPQRSTUVWXYZ".toList

def allDigits : List Char := "0123456789".toList

def occursIn (part : List Char) : List Char → Bool
  | [] => part.isEmpty
  | c :: rest => part.isPrefixOf (c :: rest) || occursIn part rest

/-- The place of an upper-cased symbol.  A run of letters or of digits that is not one character
long, the empty one included, is no symbol at all; any other text is simply not a member. -/
def place (symbol : List Char) : Except Fault (Option Slot) :=
  match symbol with
  | [c] => .ok (slot? c)
  | _ =>
    if occursIn symbol allLetters || occursIn symbol allDigits then
      .error (.mismatch (.notOneCharacter symbol.length))
    else .ok none

/-- Whether a place is taken. -/
def has (a : Alphabet) : Slot → Bool
  | .letter i => a.letters.get i
  | .digit i => a.digits.get i
  | .blank => a.blank

/-- Whether a text is a member.  Only texts of one character can be. -/
def containsText (a : Alphabet) (s : String) : Except Fault Bool :=
  match s.toList with
  | [c] =>
    match place (Text.upperChar c) with
    | .ok (some slot) => .ok (a.has slot)
    | .ok none => .ok false
    | .error e => .error e
  | _ => .ok false

/-- Whether a symbol is a member.  Values that count as false are not; other values that are no texts
have no length or no upper case. -/
def contains (a : Alphabet) (symbol : Value) : Except Fault Bool :=
  if !symbol.truth then .ok false
  else match symbol with
    | .text s => a.containsText s
    | .list items =>
      if items.length = 1 then .error (.lacks symbol "upper") else .ok false
    | .object fields =>
      if fields.length = 1 then .error (.lacks symbol "upper") else .ok false
    | v => .error (.mismatch (.noLength v.kind))

/-! ## Edits -/

def setSlot (a : Alphabet) (slot : Slot) (included : Bool) : Alphabet :=
  match slot with
  | .letter i => { a with letters := a.letters.set i included, revision := a.revision + 1 }
  | .digit i => { a with digits := a.digits.set i included, revision := a.revision + 1 }
  | .blank => { a with blank := included, revision := a.revision + 1 }

/-- Add or remove a symbol.  A symbol without a place is ignored and counts as no edit. -/
def setSymbol (a : Alphabet) (symbol : Value) (included : Bool) : Except Fault Alphabet :=
  match symbol with
  | .text s =>
    match place (Text.upper s).toList with
    | .ok (some slot) => .ok (a.setSlot slot included)
    | .ok none => .ok a
    | .error e => .error e
  | v => .error (.lacks v "upper")

def setLetters (a : Alphabet) (included : Bool) : Alphabet :=
  { a with letters := Vector.replicate 26 included, revision := a.revision + 1 }

def setDigits (a : Alphabet) (included : Bool) : Alphabet :=
  { a with digits := Vector.replicate 10 included, revision := a.revision + 1 }

def setBlank (a : Alphabet) (included : Bool) : Alphabet :=
  { a with blank := included, revision := a.revision + 1 }

/-! ## Construction -/

/-- The alphabet with at most the blank. -/
def bare (blank : Bool) : Alphabet :=
  ⟨Vector.replicate 26 false, Vector.replicate 10 false, blank, 0⟩

def ofSymbols (symbols : List Value) (blank : Bool) : Except Fault Alphabet :=
  symbols.foldlM (fun a s => a.setSymbol s true) (bare blank)

/-- The symbols of a text, one for each character. -/
def textSymbols (s : String) : List Value := s.toList.map fun c => .text (String.singleton c)

/-- The alphabet of a new machine: both binary digits and the blank. -/
def binary : Alphabet :=
  ((bare true).setSlot (.digit 0) true).setSlot (.digit 1) true

/-- An independent alphabet with the same members and no edits. -/
def copy (a : Alphabet) : Alphabet := { a with revision := 0 }

def sameMembers (a b : Alphabet) : Bool :=
  a.letters == b.letters && a.digits == b.digits && a.blank == b.blank

/-! ## Text form -/

def symbols (a : Alphabet) : List Char :=
  ((List.finRange 26).filter (a.letters.get ·)).map (fun i => Char.ofNat ('A'.toNat + i.val)) ++
    ((List.finRange 10).filter (a.digits.get ·)).map (fun i => Char.ofNat ('0'.toNat + i.val))

/-- The members in order, the blank last. -/
def toText (a : Alphabet) : String :=
  String.ofList (a.symbols ++ if a.blank then [blankChar] else [])

/-- The alphabet of the characters of a text, where a blank may be written as a space. -/
def ofText (s : String) : Except Fault Alphabet :=
  let isBlank (c : Char) : Bool := c == blankChar || c == ' '
  ofSymbols (textSymbols (String.ofList (s.toList.filter (!isBlank ·)))) (s.toList.any isBlank)

def display (a : Alphabet) : String := "Alphabet(" ++ Text.quoted a.toText ++ ")"

end Alphabet

end MachineLab
