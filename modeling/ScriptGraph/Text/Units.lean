/-!
# Offsets in bytes and in UTF-16 code units

Syntax trees count UTF-8 bytes; editors count lines and UTF-16 code units. This module turns a byte
offset into the line in which it lies and the number of code units before it, in the line or in the
whole text, with a table of the places where the lines start. An offset inside a character counts
that character as one unit, because the bytes before the offset then end in an incomplete sequence,
which decodes to one replacement character.
-/

namespace ScriptGraph

/-- A line and a character within it, both counted from zero. -/
structure Position where
  line : Nat
  character : Nat
deriving DecidableEq, Repr, Inhabited

/-- The span between two positions. -/
structure Range where
  start : Position
  stop : Position
deriving DecidableEq, Repr, Inhabited

namespace Text

/-- The number of UTF-16 code units of a character. -/
def units (c : Char) : Nat :=
  if 0x10000 ≤ c.val.toNat then 2 else 1

/-- The number of UTF-16 code units of a text. -/
def unitLength : List Char → Nat
  | [] => 0
  | c :: rest => units c + unitLength rest

/-- The code units among the first `bytes` bytes of a text. -/
def unitsBefore (bytes : Nat) : List Char → Nat
  | [] => 0
  | c :: rest =>
    if bytes = 0 then 0
    else if c.utf8Size ≤ bytes then units c + unitsBefore (bytes - c.utf8Size) rest
    -- The offset lies inside the character.
    else 1

/-- Where a line starts: the bytes and the code units before it, and the text from it on. -/
structure LineStart where
  bytes : Nat
  units : Nat
  rest : List Char
deriving Inhabited

/-- The lines that start within a text, after each of its line feeds. Before the text there are
`bytes` bytes and `unitCount` code units. -/
def laterLines (bytes unitCount : Nat) : List Char → List LineStart
  | [] => []
  | c :: rest =>
    let later := laterLines (bytes + c.utf8Size) (unitCount + units c) rest
    if c = '\n' then ⟨bytes + c.utf8Size, unitCount + units c, rest⟩ :: later else later

/-- The starts of the lines of a text. -/
def lineStarts (text : List Char) : List LineStart :=
  ⟨0, 0, text⟩ :: laterLines 0 0 text

/-- The line of a byte offset, the last one that does not start after it. -/
def lineAt (bytes : Nat) (starts : List LineStart) : Nat :=
  starts.countP (·.bytes ≤ bytes) - 1

/-- The position of a byte offset, clamped to the end of the text. -/
def position (bytes : Nat) (text : List Char) : Position :=
  let starts := lineStarts text
  let line := lineAt bytes starts
  let start := starts.getD line ⟨0, 0, text⟩
  ⟨line, unitsBefore (bytes - start.bytes) start.rest⟩

/-- The number of code units before a byte offset: those before its line, and those in it. -/
def offset (bytes : Nat) (text : List Char) : Nat :=
  let p := position bytes text
  ((lineStarts text).getD p.line ⟨0, 0, text⟩).units + p.character

/-- The pieces of a text between its line ends, each of which is a line feed with or without a
carriage return before it. -/
def lines : List Char → List (List Char)
  | [] => [[]]
  | '\r' :: '\n' :: rest => [] :: lines rest
  | c :: rest =>
    if c = '\n' then [] :: lines rest
    else
      match lines rest with
      | [] => [[c]]
      | piece :: pieces => (c :: piece) :: pieces

/-- The number of lines. -/
def lineCount (text : List Char) : Nat :=
  (lines text).length

end Text

end ScriptGraph
