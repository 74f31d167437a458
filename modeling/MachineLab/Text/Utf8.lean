import MachineLab.Text.Quoted

/-!
# Reading bytes as text

Text files are UTF-8.  Reading is strict: the first sequence that is no encoding of a character
stops it, and the error says where that sequence stands and what is wrong with it.

## Main definitions

* `Utf8.decode` — characters of a byte sequence, or the first fault in it.
* `Utf8.encode` — the bytes of a text.
-/

namespace MachineLab.Text.Utf8

/-- What is wrong with a byte sequence. -/
inductive Problem where
  | invalidStart
  | invalidContinuation
  | unexpectedEnd
deriving DecidableEq, Repr

/-- A fault: the offset of the sequence, its first byte, its length and what is wrong with it. -/
structure DecodeError where
  offset : Nat
  first : UInt8
  length : Nat
  problem : Problem
deriving DecidableEq, Repr

def Problem.message : Problem → String
  | .invalidStart => "invalid start byte"
  | .invalidContinuation => "invalid continuation byte"
  | .unexpectedEnd => "unexpected end of data"

def DecodeError.message (e : DecodeError) : String :=
  let place :=
    if e.length ≤ 1 then
      "byte 0x" ++ hexDigits 2 e.first.toNat ++ " in position " ++ toString e.offset
    else
      "bytes in position " ++ toString e.offset ++ "-" ++ toString (e.offset + e.length - 1)
  "'utf-8' codec can't decode " ++ place ++ ": " ++ e.problem.message

/-- What the first byte of a sequence promises: the number of further bytes, its payload, and the
least and the greatest second byte. -/
structure Lead where
  more : Nat
  payload : Nat
  least : Nat
  greatest : Nat

/-- Classify a first byte outside the ASCII range. -/
def lead? (b : Nat) : Option Lead :=
  if 0xC2 ≤ b ∧ b ≤ 0xDF then some ⟨1, b - 0xC0, 0x80, 0xBF⟩
  else if b = 0xE0 then some ⟨2, 0, 0xA0, 0xBF⟩
  else if b = 0xED then some ⟨2, 0xD, 0x80, 0x9F⟩
  else if 0xE1 ≤ b ∧ b ≤ 0xEF then some ⟨2, b - 0xE0, 0x80, 0xBF⟩
  else if b = 0xF0 then some ⟨3, 0, 0x90, 0xBF⟩
  else if b = 0xF4 then some ⟨3, 4, 0x80, 0x8F⟩
  else if 0xF1 ≤ b ∧ b ≤ 0xF3 then some ⟨3, b - 0xF0, 0x80, 0xBF⟩
  else none

/-- Where the reader stands inside a sequence. -/
structure Pending where
  offset : Nat
  first : UInt8
  taken : Nat
  more : Nat
  payload : Nat
  least : Nat
  greatest : Nat

/-- Read bytes from a given offset.  `pending` is the sequence begun and not yet finished, and
`done` holds the characters read so far, the last one first. -/
def decodeFrom (offset : Nat) (pending : Option Pending) (done : List Char) :
    List UInt8 → Except DecodeError (List Char)
  | [] =>
    match pending with
    | none => .ok done.reverse
    | some p => .error ⟨p.offset, p.first, p.taken, .unexpectedEnd⟩
  | b :: rest =>
    let n := b.toNat
    match pending with
    | none =>
      if n < 0x80 then decodeFrom (offset + 1) none (Char.ofNat n :: done) rest
      else match lead? n with
        | none => .error ⟨offset, b, 1, .invalidStart⟩
        | some l =>
          decodeFrom (offset + 1)
            (some ⟨offset, b, 1, l.more, l.payload, l.least, l.greatest⟩) done rest
    | some p =>
      if p.least ≤ n ∧ n ≤ p.greatest then
        let payload := p.payload * 64 + (n - 0x80)
        if p.more ≤ 1 then decodeFrom (offset + 1) none (Char.ofNat payload :: done) rest
        else
          decodeFrom (offset + 1)
            (some ⟨p.offset, p.first, p.taken + 1, p.more - 1, payload, 0x80, 0xBF⟩) done rest
      else .error ⟨p.offset, p.first, p.taken, .invalidContinuation⟩

def decode (bytes : List UInt8) : Except DecodeError String :=
  match decodeFrom 0 none [] bytes with
  | .ok cs => .ok (String.ofList cs)
  | .error e => .error e

def encode (s : String) : List UInt8 := s.toUTF8.toList

end MachineLab.Text.Utf8
