import MachineLab.Number.Shortest
import MachineLab.Text.Numeral
import MachineLab.Text.Quoted
import MachineLab.Value.Basic

/-!
# Writing JSON

A layout says how deep each level is indented and whether characters outside the ASCII range are
escaped.  Documents are written with four blanks and raw characters, exported settings with two
blanks and escapes.  An integer that has too many digits cuts the text of a file short.  How deep
values are nested makes no difference here: a writer is taken to have room for all of them.

## Main definitions

* `Json.Layout` — the choices of a writer.
* `Json.render` — a value over several lines.
* `Json.write` — what of it gets into a file.
* `Json.renderLine` — a value on one line.
-/

namespace MachineLab.Json

/-- The choices of a writer. -/
structure Layout where
  /-- Blanks per level. -/
  indent : Nat
  /-- Whether characters outside the printable ASCII range are escaped. -/
  ascii : Bool

def Layout.document : Layout := ⟨4, false⟩

def Layout.settings : Layout := ⟨2, true⟩

def unitEscape (n : Nat) : String := "\\u" ++ Text.hexDigits 4 n

/-- The escape of a character, as a pair of units beyond the basic plane. -/
def charEscape (c : Char) : String :=
  let n := c.toNat
  if n < 0x10000 then unitEscape n
  else
    let m := n - 0x10000
    unitEscape (0xD800 + m / 0x400) ++ unitEscape (0xDC00 + m % 0x400)

/-- One character inside a JSON string. -/
def stringChar (ascii : Bool) (c : Char) : String :=
  if c == '"' then "\\\""
  else if c == '\\' then "\\\\"
  else if c == '\n' then "\\n"
  else if c == '\r' then "\\r"
  else if c == '\t' then "\\t"
  else if c.toNat == 0x0C then "\\f"
  else if c.toNat == 0x08 then "\\b"
  else if c.toNat < 0x20 then charEscape c
  else if ascii && 0x7E < c.toNat then charEscape c
  else String.singleton c

def string (ascii : Bool) (s : String) : String :=
  "\"" ++ String.join (s.toList.map (stringChar ascii)) ++ "\""

/-- A double; the numbers that JSON lacks are spelled out. -/
def number : Binary64 → String
  | .nan => "NaN"
  | .infinite s => if s then "-Infinity" else "Infinity"
  | x => x.text

/-- A line break followed by the blanks of a level. -/
def newline (layout : Layout) (depth : Nat) : String :=
  "\n" ++ String.ofList (List.replicate (layout.indent * depth) ' ')

mutual

/-- A value at a level of nesting. -/
def renderAt (layout : Layout) (depth : Nat) : Value → String
  | .null => "null"
  | .bool b => if b then "true" else "false"
  | .int n => toString n
  | .float x => number x
  | .text s => string layout.ascii s
  | .list [] => "[]"
  | .list (v :: rest) =>
    "[" ++ newline layout (depth + 1) ++ renderAt layout (depth + 1) v ++
      renderItems layout depth rest ++ newline layout depth ++ "]"
  | .object [] => "\x7b\x7d"
  | .object ((key, v) :: rest) =>
    "\x7b" ++ newline layout (depth + 1) ++ string layout.ascii key ++ ": " ++
      renderAt layout (depth + 1) v ++ renderFields layout depth rest ++ newline layout depth ++
      "\x7d"

def renderItems (layout : Layout) (depth : Nat) : List Value → String
  | [] => ""
  | v :: rest =>
    "," ++ newline layout (depth + 1) ++ renderAt layout (depth + 1) v ++
      renderItems layout depth rest

def renderFields (layout : Layout) (depth : Nat) : List (String × Value) → String
  | [] => ""
  | (key, v) :: rest =>
    "," ++ newline layout (depth + 1) ++ string layout.ascii key ++ ": " ++
      renderAt layout (depth + 1) v ++ renderFields layout depth rest

end

/-- A value over several lines, without a final line break. -/
def render (layout : Layout) (v : Value) : String := renderAt layout 0 v

/-- Some text, and whether it is all that was to be written. -/
structure Written where
  text : String
  whole : Bool

/-- Go on writing, unless the text was cut short. -/
def Written.andThen (w : Written) (rest : Written) : Written :=
  if w.whole then ⟨w.text ++ rest.text, rest.whole⟩ else w

/-- An item with what leads up to it.  A number is written together with its lead or not at all. -/
def writeItem (lead : String) (v : Value) (item : Written) : Written :=
  match v with
  | .int _ => if item.whole then ⟨lead ++ item.text, true⟩ else item
  | _ => Written.andThen ⟨lead, true⟩ item

mutual

/-- What gets into a file of a value at a level of nesting: everything up to an integer with too many
digits. -/
def writeAt (layout : Layout) (depth : Nat) : Value → Written
  | .int n => if Text.isShort n then ⟨toString n, true⟩ else ⟨"", false⟩
  | .list (v :: rest) =>
    (writeItem ("[" ++ newline layout (depth + 1)) v (writeAt layout (depth + 1) v)).andThen
      ((writeItems layout depth rest).andThen ⟨newline layout depth ++ "]", true⟩)
  | .object ((key, v) :: rest) =>
    Written.andThen ⟨"\x7b" ++ newline layout (depth + 1) ++ string layout.ascii key ++ ": ", true⟩
      ((writeAt layout (depth + 1) v).andThen
        ((writeFields layout depth rest).andThen ⟨newline layout depth ++ "\x7d", true⟩))
  | v => ⟨renderAt layout depth v, true⟩

def writeItems (layout : Layout) (depth : Nat) : List Value → Written
  | [] => ⟨"", true⟩
  | v :: rest =>
    (writeItem ("," ++ newline layout (depth + 1)) v (writeAt layout (depth + 1) v)).andThen
      (writeItems layout depth rest)

def writeFields (layout : Layout) (depth : Nat) : List (String × Value) → Written
  | [] => ⟨"", true⟩
  | (key, v) :: rest =>
    Written.andThen ⟨"," ++ newline layout (depth + 1) ++ string layout.ascii key ++ ": ", true⟩
      ((writeAt layout (depth + 1) v).andThen (writeFields layout depth rest))

end

/-- What gets into a file of a value. -/
def write (layout : Layout) (v : Value) : Written := writeAt layout 0 v

mutual

def renderLine : Value → String
  | .null => "null"
  | .bool b => if b then "true" else "false"
  | .int n => toString n
  | .float x => number x
  | .text s => string false s
  | .list items => "[" ++ ",".intercalate (renderLineItems items) ++ "]"
  | .object fields => "\x7b" ++ ",".intercalate (renderLineFields fields) ++ "\x7d"

def renderLineItems : List Value → List String
  | [] => []
  | v :: rest => renderLine v :: renderLineItems rest

def renderLineFields : List (String × Value) → List String
  | [] => []
  | (key, v) :: rest => (string false key ++ ":" ++ renderLine v) :: renderLineFields rest

end

end MachineLab.Json
