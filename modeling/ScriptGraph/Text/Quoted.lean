/-!
# Quoted spellings

The text inside a string spelling. A spelling counts as quoted when it starts and ends with the
same quotation mark; any other text stands for itself. Escapes are not interpreted.
-/

namespace ScriptGraph.Text

/-- A single quote, a double quote or a back quote. -/
def isQuote (c : Char) : Bool :=
  c == '\'' || c == '"' || c.val == 0x60

/-- The characters between two equal quotation marks, or all of them. -/
def unquoteChars (text : List Char) : List Char :=
  match text with
  | first :: second :: rest =>
    -- A mark that stands alone has no other end, so two characters are needed.
    if isQuote first && (second :: rest).getLast? == some first then (second :: rest).dropLast
    else text
  | _ => text

/-- The text between two equal quotation marks, or the whole text. -/
def unquote (text : String) : String :=
  String.ofList (unquoteChars text.toList)

end ScriptGraph.Text
