import ScriptGraph.Syntax.Tree

/-!
# Scanning

The text that is still to be read, with its byte offset, and the scanners for single tokens:
blanks and comments, words, punctuation, numbers, strings and regular expressions. Each scanner
takes a list of characters and returns how many of them it accepts.
-/

namespace ScriptGraph.Syntax

/-- What is left of a text, and the byte offset it starts at. -/
structure Cursor where
  rest : List Char
  offset : Nat
deriving Inhabited

/-- The number of bytes of a list of characters. -/
def byteLength : List Char → Nat
  | [] => 0
  | c :: rest => c.utf8Size + byteLength rest

namespace Cursor

/-- Moves past the first `n` characters. -/
def advance (c : Cursor) (n : Nat) : Cursor :=
  ⟨c.rest.drop n, c.offset + byteLength (c.rest.take n)⟩

end Cursor

namespace Scan

/-- White space between tokens, line ends among them. -/
def isSpace (c : Char) : Bool :=
  let v := c.val.toNat
  (0x09 ≤ v && v ≤ 0x0D) || v == 0x20 || v == 0x85 || v == 0xA0 || v == 0x1680 ||
    (0x2000 ≤ v && v ≤ 0x200B) || v == 0x2028 || v == 0x2029 || v == 0x202F || v == 0x205F ||
    v == 0x2060 || v == 0x3000 || v == 0xFEFF

/-- The characters that end a line comment. -/
def isLineEnd (c : Char) : Bool :=
  c == '\n' || c == '\r' || c.val == 0x2028 || c.val == 0x2029

/-- A character that may start a word. Every character beyond ASCII that is not white space
may. -/
def isWordStart (c : Char) : Bool :=
  c.isAlpha || c == '_' || c == '$' || (0x7F ≤ c.val.toNat && !isSpace c)

/-- A character that may continue a word. -/
def isWordPart (c : Char) : Bool :=
  isWordStart c || c.isDigit

/-- The length of an escaped character inside a word: a backslash, a `u` and hexadecimal digits,
bare or in braces. -/
def wordEscape : List Char → Nat
  | '\\' :: 'u' :: '\x7b' :: rest => (rest.takeWhile (· != '\x7d')).length + 4
  | '\\' :: 'u' :: _ => 6
  | _ => 0

/-- The length of the rest of a word. `skip` counts characters of an escape still to pass. -/
def wordRest (skip : Nat) : List Char → Nat
  | [] => 0
  | c :: rest =>
    match skip with
    -- Inside an escape every character counts.
    | k + 1 => wordRest k rest + 1
    | 0 =>
      if isWordPart c then wordRest 0 rest + 1
      else if wordEscape (c :: rest) != 0 then wordRest (wordEscape (c :: rest) - 1) rest + 1
      else 0

/-- The length of the word at the front, or zero. -/
def word : List Char → Nat
  | [] => 0
  | c :: rest =>
    if isWordStart c || wordEscape (c :: rest) != 0 then wordRest 0 (c :: rest) else 0

/-- The length of a block comment after its opening: all up to and including the first `*/`. -/
def blockComment : List Char → Option Nat
  | [] => none
  | '*' :: '/' :: _ => some 2
  | _ :: rest => (blockComment rest).map (· + 1)

/-- The length of the comment at the front. -/
def comment : List Char → Option Nat
  | '/' :: '/' :: rest => some ((rest.takeWhile fun c => !isLineEnd c).length + 2)
  | '/' :: '*' :: rest => (blockComment rest).map (· + 2)
  | _ => none

/-- The spellings of punctuation, each before its own beginnings. -/
def punctuation : List (List Char) :=
  [">>>=", "...", "===", "!==", "**=", "<<=", ">>=", ">>>", "&&=", "||=", "??=", "=>", "==", "!=",
    "<=", ">=", "&&", "||", "??", "?.", "++", "--", "+=", "-=", "*=", "/=", "%=", "&=", "|=", "^=",
    "<<", ">>", "**", "\x7b", "\x7d", "(", ")", "[", "]", ";", ",", "<", ">", "+", "-", "*", "/",
    "%", "&", "|", "^", "!", "~", "?", ":", "=", ".", "@", "#", "\x60"].map String.toList

/-- The longest punctuation at the front. A `?` before a decimal fraction stands alone. -/
def punct (cs : List Char) : Option (List Char) :=
  match cs with
  | '?' :: '.' :: d :: _ =>
    -- In `a ?.5 : b` the point belongs to the number.
    if d.isDigit then some ['?'] else some ['?', '.']
  | _ => punctuation.find? (·.isPrefixOf cs)

/-- A digit or a separator between digits. -/
def isDigitPart (c : Char) : Bool :=
  c.isDigit || c == '_'

/-- The length of an exponent at the front, or zero. -/
def exponent : List Char → Nat
  | e :: sign :: d :: rest =>
    if e == 'e' || e == 'E' then
      if (sign == '+' || sign == '-') && d.isDigit then (rest.takeWhile isDigitPart).length + 3
      else if sign.isDigit then ((d :: rest).takeWhile isDigitPart).length + 2
      else 0
    else 0
  | [e, d] => if (e == 'e' || e == 'E') && d.isDigit then 2 else 0
  | _ => 0

/-- The length of the number at the front, or zero. -/
def number (cs : List Char) : Nat :=
  match cs with
  | '0' :: base :: _ =>
    -- A letter that is no digit of the base is part of the token all the same.
    if "xXoObB".toList.contains base then (cs.takeWhile fun c => c.isAlphanum || c == '_').length
    else decimal cs
  | '.' :: d :: _ => if d.isDigit then decimal cs else 0
  | d :: _ => if d.isDigit then decimal cs else 0
  | [] => 0
where
  /-- The length of a decimal number: digits, fraction, exponent and the mark of a big integer. -/
  decimal (cs : List Char) : Nat :=
    let whole := (cs.takeWhile isDigitPart).length
    let afterWhole := cs.drop whole
    let fraction :=
      match afterWhole with
      | '.' :: rest => (rest.takeWhile isDigitPart).length + 1
      | _ => 0
    let afterFraction := afterWhole.drop fraction
    let power := exponent afterFraction
    let big := if afterFraction.drop power |>.head? |> (· == some 'n') then 1 else 0
    whole + fraction + power + big

/-- The length of a string after its opening quote, closing quote included. -/
def stringRest (quote : Char) : List Char → Option Nat
  | [] => none
  | '\\' :: _ :: rest => (stringRest quote rest).map (· + 2)
  | c :: rest => if c == quote then some 1 else (stringRest quote rest).map (· + 1)

/-- The length of the string at the front. -/
def string : List Char → Option Nat
  | c :: rest => if c == '"' || c == '\'' then (stringRest c rest).map (· + 1) else none
  | [] => none

/-- The length of a regular expression's pattern, which ends before a `/` outside brackets. -/
def regexPattern (inClass : Bool) : List Char → Option Nat
  | [] => none
  | '\\' :: _ :: rest => (regexPattern inClass rest).map (· + 2)
  | c :: rest =>
    if c == '\n' then none
    -- Between brackets a slash is a character like any other.
    else if c == '/' && !inClass then some 0
    else (regexPattern (if c == '[' then true else if c == ']' then false else inClass) rest).map
      (· + 1)

/-- The length of the literal part of a template: it ends before a closing back quote or before
the opening of a substitution. -/
def templateChars : List Char → Nat
  | [] => 0
  | '\\' :: _ :: rest => templateChars rest + 2
  | '$' :: '\x7b' :: _ => 0
  | c :: rest => if c.val == 0x60 then 0 else templateChars rest + 1

/-- The length of the plain text between markup elements. -/
def markupText (cs : List Char) : Nat :=
  (cs.takeWhile fun c => c != '<' && c != '>' && c != '\x7b' && c != '\x7d' && c != '&').length

/-- The length of a character reference such as `&amp;`, or zero. -/
def characterReference : List Char → Nat
  | '&' :: rest =>
    let name := rest.takeWhile fun c => c.isAlphanum || c == '#'
    if !name.isEmpty && (rest.drop name.length).head? == some ';' then name.length + 2 else 0
  | _ => 0

/-- The length of a markup name, in which hyphens may follow the first character. -/
def markupName : List Char → Nat
  | [] => 0
  | c :: rest => if isWordStart c then (rest.takeWhile fun d => isWordPart d || d == '-').length + 1
    else 0

end Scan

namespace Cursor

/-- The length of the white space at the front. -/
def spaces (c : Cursor) : Nat :=
  (c.rest.takeWhile Scan.isSpace).length

/-- Moves past white space. -/
def skipSpaces (c : Cursor) : Cursor :=
  c.advance c.spaces

/-- The comments before a token, whether a line break stands before it, and the cursor at it. -/
structure Trivia where
  comments : List Tree
  lineBreak : Bool
  here : Cursor

/-- Passes white space and comments; `fuel` bounds the number of comments. -/
def skipTriviaFrom (seen : List Tree) (lineBreak : Bool) : Nat → Cursor → Trivia
  | 0, c => ⟨seen.reverse, lineBreak, c⟩
  | fuel + 1, c =>
    let lineBreak := lineBreak || (c.rest.takeWhile Scan.isSpace).any Scan.isLineEnd
    let c := c.skipSpaces
    match Scan.comment c.rest with
    | none => ⟨seen.reverse, lineBreak, c⟩
    | some n =>
      let after := c.advance n
      -- A block comment over several lines is a line break as well.
      let lineBreak := lineBreak || (c.rest.take n).any Scan.isLineEnd
      skipTriviaFrom (Tree.leaf (.construct .comment) c.offset after.offset :: seen) lineBreak fuel
        after

/-- Passes all white space and comments before the next token. -/
def skipTrivia (c : Cursor) : Trivia :=
  skipTriviaFrom [] false (c.rest.length + 1) c

end Cursor

end ScriptGraph.Syntax
