import MachineLab.Text.Numeral
import MachineLab.Value.Basic

/-!
# Reading JSON

Numbers without a fraction and an exponent are integers of any size up to the digit limit, others
are doubles; the undefined number and the infinities may be spelled out.  Of several fields with one
name the last value counts, in the place of the first.  Control characters inside strings and a byte
order mark are refused.  An escaped surrogate without its partner reads as the replacement character.

Lists and objects are read inside one another only as deep as there is room.  How much room there is
depends on who reads and is given; one bracket too many is not taken for a fault of the text.

## Main definitions

* `Json.read` — the value of a text, or the first fault in it with its line and column, or word that
  there is not enough room.
-/

namespace MachineLab.Json

/-- What is wrong with a text. -/
inductive Problem where
  | expectingValue
  | expectingName
  | expectingColon
  | expectingComma
  | unterminatedString
  | controlCharacter
  | badEscape
  | badUnicodeEscape
  | extraData
  | byteOrderMark
deriving DecidableEq, Repr

def Problem.message : Problem → String
  | .expectingValue => "Expecting value"
  | .expectingName => "Expecting property name enclosed in double quotes"
  | .expectingColon => "Expecting ':' delimiter"
  | .expectingComma => "Expecting ',' delimiter"
  | .unterminatedString => "Unterminated string starting at"
  | .controlCharacter => "Invalid control character at"
  | .badEscape => "Invalid \\escape"
  | .badUnicodeEscape => "Invalid \\uXXXX escape"
  | .extraData => "Extra data"
  | .byteOrderMark => "Unexpected UTF-8 BOM (decode using utf-8-sig)"

/-- What an opening bracket begins. -/
inductive Bracket where
  | list | object
deriving DecidableEq, Repr

def Bracket.name : Bracket → String
  | .list => "array"
  | .object => "object"

/-- Why a text was not read. -/
inductive ReadError where
  /-- The text is not JSON; the offset counts characters. -/
  | malformed (problem : Problem) (line column offset : Nat)
  /-- The text has an integer numeral beyond the digit limit. -/
  | longNumeral (digits : Nat)
  /-- There is no room to go inside one more bracket. -/
  | tooDeep (bracket : Bracket)
deriving DecidableEq, Repr

/-- A fault met while reading: what is wrong and how many characters were left at its place. -/
inductive Failure where
  | here (problem : Problem) (left : Nat)
  | longNumeral (digits : Nat)
  | tooDeep (bracket : Bracket)

/-- A reader's answer: what it read and what follows. -/
abbrev Parsed (α : Type) := Except Failure (α × List Char)

/-- Refuse the text at the place where the given characters are left. -/
def fail {α : Type} (problem : Problem) (cs : List Char) : Except Failure α :=
  .error (.here problem cs.length)

/-- The blanks between tokens. -/
def isSpace (c : Char) : Bool := c == ' ' || c == '\t' || c == '\n' || c == '\r'

/-- Drop the blanks at the start of a text. -/
def skip (cs : List Char) : List Char := cs.dropWhile isSpace

/-! ## Strings -/

def hexValue? (c : Char) : Option Nat :=
  if '0' ≤ c ∧ c ≤ '9' then some (c.toNat - 0x30)
  else if 'a' ≤ c ∧ c ≤ 'f' then some (c.toNat - 0x61 + 10)
  else if 'A' ≤ c ∧ c ≤ 'F' then some (c.toNat - 0x41 + 10)
  else none

def escaped? (c : Char) : Option Char :=
  if c == '"' || c == '\\' || c == '/' then some c
  else if c == 'n' then some '\n'
  else if c == 't' then some '\t'
  else if c == 'r' then some '\r'
  else if c == 'b' then some (Char.ofNat 0x08)
  else if c == 'f' then some (Char.ofNat 0x0C)
  else none

/-- The characters read so far, the last one first, and a leading surrogate that waits for its
partner. -/
structure Chars where
  done : List Char
  lead : Option Nat

def Chars.empty : Chars := ⟨[], none⟩

/-- The character that stands for a surrogate without a partner. -/
def replacement : Char := Char.ofNat 0xFFFD

/-- Give up waiting for a trailing surrogate. -/
def Chars.settle (s : Chars) : List Char :=
  match s.lead with
  | some _ => replacement :: s.done
  | none => s.done

def Chars.push (s : Chars) (c : Char) : Chars := ⟨c :: s.settle, none⟩

/-- Add an escaped 16-bit unit, joining a pair of surrogates. -/
def Chars.pushUnit (s : Chars) (unit : Nat) : Chars :=
  match s.lead with
  | some high =>
    if 0xDC00 ≤ unit ∧ unit ≤ 0xDFFF then
      ⟨Char.ofNat (0x10000 + (high - 0xD800) * 0x400 + (unit - 0xDC00)) :: s.done, none⟩
    else if 0xD800 ≤ unit ∧ unit ≤ 0xDBFF then ⟨s.settle, some unit⟩
    else s.push (if 0xDC00 ≤ unit ∧ unit ≤ 0xDFFF then replacement else Char.ofNat unit)
  | none =>
    if 0xD800 ≤ unit ∧ unit ≤ 0xDBFF then ⟨s.done, some unit⟩
    else s.push (if 0xDC00 ≤ unit ∧ unit ≤ 0xDFFF then replacement else Char.ofNat unit)

/-- Where the reader of a string stands. -/
inductive StringState where
  | plain
  /-- After a backslash, at which `left` characters were left. -/
  | escape (left : Nat)
  /-- After `count` digits of a unit; `left` characters were left at its letter. -/
  | unit (left count value : Nat)

/-- Read the rest of a string whose opening quote had `start` characters left. -/
def readString (start : Nat) (state : StringState) (s : Chars) : List Char → Parsed String
  | [] =>
    match state with
    | .unit left _ _ => .error (.here .badUnicodeEscape left)
    | _ => .error (.here .unterminatedString start)
  | c :: rest =>
    match state with
    | .plain =>
      if c == '"' then .ok (String.ofList s.settle.reverse, rest)
      else if c == '\\' then readString start (.escape (rest.length + 1)) s rest
      else if c.toNat < 0x20 then .error (.here .controlCharacter (rest.length + 1))
      else readString start .plain (s.push c) rest
    | .escape left =>
      if c == 'u' then readString start (.unit (rest.length + 1) 0 0) s rest
      else match escaped? c with
        | some e => readString start .plain (s.push e) rest
        | none => .error (.here .badEscape left)
    | .unit left count value =>
      match hexValue? c with
      | none => .error (.here .badUnicodeEscape left)
      | some d =>
        let value := value * 16 + d
        if count < 3 then readString start (.unit left (count + 1) value) s rest
        else if rest.isEmpty then .error (.here .badUnicodeEscape left)
        else readString start .plain (s.pushUnit value) rest

/-! ## Numbers -/

/-- A run of ASCII digits and what follows it. -/
def takeRun (cs : List Char) : List Char × List Char :=
  (cs.takeWhile Char.isDigit, cs.dropWhile Char.isDigit)

/-- The integer part of a number: a zero alone, or digits that do not start with zero. -/
def takeWhole (cs : List Char) : List Char × List Char :=
  match cs with
  | '0' :: rest => (['0'], rest)
  | _ => takeRun cs

/-- A fraction: a point and at least one digit. -/
def takeFraction (cs : List Char) : List Char × List Char :=
  match cs with
  | '.' :: rest =>
    match takeRun rest with
    | ([], _) => ([], cs)
    | found => found
  | _ => ([], cs)

/-- An exponent with its sign and at least one digit. -/
def takeExponent? (cs : List Char) : Option (Int × List Char) :=
  match cs with
  | c :: rest =>
    if c == 'e' || c == 'E' then
      let (negative, body) := Text.splitSign rest
      match takeRun body with
      | ([], _) => none
      | (ds, left) =>
        some (Binary64.signed negative (Text.ofDigits (ds.filterMap Text.digitValue?)), left)
    else none
  | [] => none

def readNumber (cs : List Char) : Parsed Value :=
  let (negative, body) := match cs with
    | '-' :: rest => (true, rest)
    | _ => (false, cs)
  match takeWhole body with
  | ([], _) => fail .expectingValue cs
  | (whole, rest) =>
    let (fraction, rest) := takeFraction rest
    let digits := Text.ofDigits ((whole ++ fraction).filterMap Text.digitValue?)
    match takeExponent? rest with
    | some (e, left) =>
      .ok (.float (Binary64.ofDecimal negative digits (e - fraction.length)), left)
    | none =>
      if !fraction.isEmpty then
        .ok (.float (Binary64.ofDecimal negative digits (-fraction.length)), rest)
      else if Text.digitLimit < whole.length then .error (.longNumeral whole.length)
      else .ok (.int (Binary64.signed negative digits), rest)

def literals : List (List Char × Value) :=
  [ ("null".toList, .null), ("true".toList, .bool true), ("false".toList, .bool false),
    ("NaN".toList, .float .nan), ("Infinity".toList, .float (.infinite false)),
    ("-Infinity".toList, .float (.infinite true)) ]

def readScalar (cs : List Char) : Parsed Value :=
  match literals.find? fun l => l.1.isPrefixOf cs with
  | some (word, v) => .ok (v, cs.drop word.length)
  | none => readNumber cs

/-! ## Values -/

mutual

/-- Read a value, with room for a number of brackets. -/
def readValue (fuel room : Nat) (cs : List Char) : Parsed Value :=
  match fuel with
  | 0 => fail .expectingValue cs
  | fuel + 1 =>
    match cs with
    | [] => fail .expectingValue cs
    | c :: rest =>
      if c == '"' then
        match readString cs.length .plain .empty rest with
        | .ok (s, left) => .ok (.text s, left)
        | .error e => .error e
      else if c == '\x7b' then
        match room with
        | 0 => .error (.tooDeep .object)
        | room + 1 =>
          match skip rest with
          | [] => fail .expectingName []
          | d :: left =>
            if d == '\x7d' then .ok (.object [], left) else readFields fuel room [] (d :: left)
      else if c == '[' then
        match room with
        | 0 => .error (.tooDeep .list)
        | room + 1 =>
          match skip rest with
          | [] => fail .expectingValue []
          | d :: left =>
            if d == ']' then .ok (.list [], left) else readItems fuel room [] (d :: left)
      else readScalar cs

/-- Read the items of a list from the start of one on.  `done` holds the items before it, the last
one first. -/
def readItems (fuel room : Nat) (done : List Value) (cs : List Char) : Parsed Value :=
  match fuel with
  | 0 => fail .expectingValue cs
  | fuel + 1 =>
    match readValue fuel room cs with
    | .error e => .error e
    | .ok (v, rest) =>
      match skip rest with
      | [] => fail .expectingComma []
      | c :: left =>
        if c == ']' then .ok (.list (v :: done).reverse, left)
        else if c == ',' then readItems fuel room (v :: done) (skip left)
        else fail .expectingComma (c :: left)

/-- Read the fields of an object from the name of one on. -/
def readFields (fuel room : Nat) (done : Dict Value) (cs : List Char) : Parsed Value :=
  match fuel with
  | 0 => fail .expectingName cs
  | fuel + 1 =>
    match cs with
    | [] => fail .expectingName cs
    | c :: rest =>
      if c != '"' then fail .expectingName cs
      else match readString cs.length .plain .empty rest with
        | .error e => .error e
        | .ok (key, rest) =>
          match skip rest with
          | [] => fail .expectingColon []
          | d :: rest =>
            if d != ':' then fail .expectingColon (d :: rest)
            else match readValue fuel room (skip rest) with
              | .error e => .error e
              | .ok (v, rest) =>
                match skip rest with
                | [] => fail .expectingComma []
                | d :: left =>
                  let done := Dict.insert done key v
                  if d == '\x7d' then .ok (.object done, left)
                  else if d == ',' then readFields fuel room done (skip left)
                  else fail .expectingComma (d :: left)

end

/-- Give a fault its line and column. -/
def locate (cs : List Char) : Failure → ReadError
  | .longNumeral n => .longNumeral n
  | .tooDeep bracket => .tooDeep bracket
  | .here problem left =>
    let before := cs.take (cs.length - left)
    let line := before.count '\n' + 1
    let column := (before.reverse.takeWhile (· != '\n')).length + 1
    .malformed problem line column before.length

/-- Read a whole text as one value. -/
def readChars (room : Nat) (cs : List Char) : Except Failure Value :=
  match cs with
  | c :: _ =>
    if c.toNat == 0xFEFF then fail .byteOrderMark cs
    else
      match readValue (2 * cs.length + 3) room (skip cs) with
      | .error e => .error e
      | .ok (v, rest) =>
        match skip rest with
        | [] => .ok v
        | extra => fail .extraData extra
  | [] => fail .expectingValue cs

/-- Read a text as one value, with room for a number of brackets that are open at once. -/
def read (room : Nat) (s : String) : Except ReadError Value :=
  match readChars room s.toList with
  | .ok v => .ok v
  | .error e => .error (locate s.toList e)

def ReadError.message : ReadError → String
  | .malformed problem line column offset =>
    problem.message ++ ": line " ++ toString line ++ " column " ++ toString column ++
      " (char " ++ toString offset ++ ")"
  | .longNumeral digits =>
    "Exceeds the limit (" ++ toString Text.digitLimit ++
      " digits) for integer string conversion: value has " ++ toString digits ++
      " digits; use sys.set_int_max_str_digits() to increase the limit"
  | .tooDeep bracket =>
    "maximum recursion depth exceeded while decoding a JSON " ++ bracket.name ++
      " from a unicode string"

end MachineLab.Json
