import ScriptGraph.Dialect
import ScriptGraph.Json.Basic
import ScriptGraph.Syntax.Tree
import ScriptGraph.Text.Units

/-!
# Source files

A source file is a text together with its name, its dialect and its syntax tree. Offsets into it
count bytes; `offset`, `position` and `range` turn them into UTF-16 code units, lines and
characters.
-/

namespace ScriptGraph

/-- A text that has been read into a syntax tree. The ambient library is bundled with every
analysis; another file may have its name. -/
structure Source where
  fileName : String
  text : String
  dialect : Dialect
  tree : Syntax.Tree
  isBundled : Bool := false
deriving Inhabited

/-- The counts that describe the size of a text. -/
structure TextStats where
  chars : Nat
  lines : Nat
deriving DecidableEq, Repr

/-- The number of characters and lines of a text. -/
def TextStats.ofText (text : String) : TextStats :=
  ⟨text.toList.length, Text.lineCount text.toList⟩

/-- The counts as an object. -/
def TextStats.toJson (s : TextStats) : Json :=
  .object [("chars", .nat s.chars), ("lines", .nat s.lines)]

namespace Source

/-- The text between two byte offsets. -/
def slice (s : Source) (start stop : Nat) : String :=
  String.Pos.Raw.extract s.text ⟨start⟩ ⟨stop⟩

/-- The line and character of a byte offset. -/
def position (s : Source) (bytes : Nat) : Position :=
  Text.position bytes s.text.toList

/-- The number of UTF-16 code units before a byte offset. -/
def offset (s : Source) (bytes : Nat) : Nat :=
  Text.offset bytes s.text.toList

/-- The range between two byte offsets. -/
def range (s : Source) (start stop : Nat) : Range :=
  ⟨s.position start, s.position stop⟩

/-- The range of the whole text. -/
def fullRange (s : Source) : Range :=
  ⟨⟨0, 0⟩, s.position s.text.utf8ByteSize⟩

end Source

end ScriptGraph
