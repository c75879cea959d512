/-!
# Blank characters

The characters that count as white space in labels and type texts, and the two operations on
runs of them: collapsing every run to one space, and splitting a text into its words.
-/

namespace ScriptGraph.Text

/-- White space in the sense of the Unicode property `White_Space`, together with the four
information separators U+001C to U+001F. -/
def isBlank (c : Char) : Bool :=
  let v := c.val.toNat
  (0x09 ≤ v && v ≤ 0x0D) || (0x1C ≤ v && v ≤ 0x20) || v == 0x85 || v == 0xA0 || v == 0x1680 ||
    (0x2000 ≤ v && v ≤ 0x200A) || v == 0x2028 || v == 0x2029 || v == 0x202F || v == 0x205F ||
    v == 0x3000

/-- Writes one space for every maximal run of blank characters. `inRun` says that the character
just before was blank, so that its space is already written. -/
def collapseFrom (inRun : Bool) : List Char → List Char
  | [] => []
  | c :: rest =>
    if isBlank c then
      if inRun then collapseFrom true rest else ' ' :: collapseFrom true rest
    else c :: collapseFrom false rest

/-- One space for every maximal run of blank characters. -/
def collapse (text : String) : String :=
  String.ofList (collapseFrom false text.toList)

/-- The words of a text: its maximal runs of characters that are not blank. `word` is the word
being read, backwards. -/
def wordsFrom (word : List Char) : List Char → List (List Char)
  | [] => if word.isEmpty then [] else [word.reverse]
  | c :: rest =>
    if isBlank c then
      if word.isEmpty then wordsFrom [] rest else word.reverse :: wordsFrom [] rest
    else wordsFrom (c :: word) rest

/-- The words of a text, joined by single spaces. -/
def joinWords (text : String) : String :=
  " ".intercalate ((wordsFrom [] text.toList).map String.ofList)

end ScriptGraph.Text
