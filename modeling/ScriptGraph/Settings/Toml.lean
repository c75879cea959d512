import ScriptGraph.Settings.Basic

/-!
# Configuration files

`Toml.parse?` reads a configuration text into the object it describes: tables, arrays of tables,
dotted keys, strings, numbers, truth values, arrays and inline tables. Keys may not be given
twice, and all items of an array must be of one type. An array that the text breaks off in loses
its last character and ends there.
-/

namespace ScriptGraph.Toml

/-- Names and values of a table, in the order in which they are given. -/
abbrev Members := List (String × Json)

/-- Blanks within a line. -/
def isBlank (c : Char) : Bool :=
  c == ' ' || c == '\t' || c == '\r'

/-- Drops blanks. -/
def skipBlanks (cs : List Char) : List Char :=
  cs.dropWhile isBlank

/-- Drops blanks, line ends and comments, at most `fuel` of them. -/
def skipLinesFrom : Nat → List Char → List Char
  | 0, cs => cs
  | fuel + 1, cs =>
    match skipBlanks cs with
    | '\n' :: rest => skipLinesFrom fuel rest
    | '#' :: rest => skipLinesFrom fuel (rest.dropWhile (· != '\n'))
    | rest => rest

/-- Drops blanks, line ends and comments. -/
def skipLines (cs : List Char) : List Char :=
  skipLinesFrom (cs.length + 1) cs

/-- A character of a name without quotes. -/
def isBareKey (c : Char) : Bool :=
  c.isAlphanum || c == '_' || c == '-' || 0x80 ≤ c.val.toNat

/-- The value of hexadecimal digits. -/
def hexDigits? (digits : List Char) : Option Nat :=
  digits.foldl (fun acc c => do
    let n ← acc
    if c.isDigit then some (n * 16 + (c.toNat - 0x30))
    else if 'a' ≤ c && c ≤ 'f' then some (n * 16 + (c.toNat - 0x57))
    else if 'A' ≤ c && c ≤ 'F' then some (n * 16 + (c.toNat - 0x37))
    else none) (some 0)

/-- The character that follows a backslash, and what comes after it. -/
def escape? (cs : List Char) : Option (Char × List Char) :=
  match cs with
  | '"' :: rest => some ('"', rest)
  | '\\' :: rest => some ('\\', rest)
  | '\'' :: rest => some ('\'', rest)
  | 'b' :: rest => some ('\x08', rest)
  | 'f' :: rest => some ('\x0c', rest)
  | 'n' :: rest => some ('\n', rest)
  | 'r' :: rest => some ('\r', rest)
  | 't' :: rest => some ('\t', rest)
  | 'u' :: rest => (hexDigits? (rest.take 4)).map fun n => (Char.ofNat n, rest.drop 4)
  | 'U' :: rest => (hexDigits? (rest.take 8)).map fun n => (Char.ofNat n, rest.drop 8)
  | _ => none

/-- Reads a string with escapes after its opening quotes. -/
def basicString (closing : List Char) (multiline : Bool) (read : List Char) :
    Nat → List Char → Option (String × List Char)
  | 0, _ => none
  | fuel + 1, cs =>
    if closing.isPrefixOf cs then some (String.ofList read.reverse, cs.drop closing.length)
    else
      match cs with
      | [] => none
      | '\\' :: '\n' :: rest =>
        -- A backslash at the end of a line drops the white space up to the next character.
        if multiline then
          basicString closing multiline read fuel (rest.dropWhile fun c => isBlank c || c == '\n')
        else none
      | '\\' :: rest =>
        match escape? rest with
        | some (c, after) => basicString closing multiline (c :: read) fuel after
        | none => none
      | c :: rest =>
        if c == '\n' && !multiline then none
        else basicString closing multiline (c :: read) fuel rest

/-- Reads a string without escapes after its opening quotes. -/
def literalString (closing : List Char) (multiline : Bool) (read : List Char) :
    List Char → Option (String × List Char)
  | [] => none
  | c :: rest =>
    if closing.isPrefixOf (c :: rest) then
      some (String.ofList read.reverse, (c :: rest).drop closing.length)
    else if c == '\n' && !multiline then none
    else literalString closing multiline (c :: read) rest

/-- Drops the line end at the start of a text. -/
def dropLineEnd (cs : List Char) : List Char :=
  match cs with
  | '\r' :: '\n' :: rest => rest
  | '\n' :: rest => rest
  | _ => cs

/-- Reads a string of any form. -/
def string? (cs : List Char) : Option (String × List Char) :=
  match cs with
  -- Three quotes come first: they would also read as an empty string and a third quote.
  | '"' :: '"' :: '"' :: rest =>
    basicString ['"', '"', '"'] true [] (rest.length + 1) (dropLineEnd rest)
  | '\'' :: '\'' :: '\'' :: rest => literalString ['\'', '\'', '\''] true [] (dropLineEnd rest)
  | '"' :: rest => basicString ['"'] false [] (rest.length + 1) rest
  | '\'' :: rest => literalString ['\''] false [] rest
  | _ => none

/-- Reads one part of a key. -/
def keyPart? (cs : List Char) : Option (String × List Char) :=
  match cs with
  | '"' :: _ | '\'' :: _ => string? cs
  | _ =>
    let name := cs.takeWhile isBareKey
    if name.isEmpty then none else some (String.ofList name, cs.drop name.length)

/-- Reads a key of parts joined by dots. -/
def key? : Nat → List Char → Option (List String × List Char)
  | 0, _ => none
  | fuel + 1, cs =>
    match keyPart? (skipBlanks cs) with
    | none => none
    | some (part, rest) =>
      match skipBlanks rest with
      | '.' :: more => (key? fuel more).map fun (parts, r) => (part :: parts, r)
      | after => some ([part], after)

/-- Sets the value at a path of names that has none yet. Tables on the way are created. -/
def insert? : List String → Json → Members → Option Members
  | [], _, _ => none
  | [name], value, members =>
    if members.any (·.1 == name) then none else some (members ++ [(name, value)])
  | name :: path, value, members =>
    match members.find? (·.1 == name) with
    | none => (insert? path value []).map fun inner => members ++ [(name, .object inner)]
    | some (_, .object inner) =>
      (insert? path value inner).map fun inner =>
        members.map fun m => if m.1 == name then (name, .object inner) else m
    | some _ => none

/-- Whether a text is digits, with single underscores between them. -/
def isNumeral (cs : List Char) : Bool :=
  match cs with
  | [] => false
  | [c] => c.isDigit
  | c :: '_' :: rest => c.isDigit && (rest.head?.map Char.isDigit).getD false && isNumeral rest
  | c :: rest => c.isDigit && isNumeral rest

/-- The value of a numeral. -/
def numeralValue (cs : List Char) : Nat :=
  cs.foldl (fun n c => if c == '_' then n else n * 10 + (c.toNat - 0x30)) 0

/-- Whether a numeral may be written so: no leading zero. -/
def isWhole (cs : List Char) : Bool :=
  isNumeral cs && (cs.length == 1 || cs.head? != some '0')

/-- The value of digits in a base below 17. -/
def based? (base : Nat) (digits : List Char) : Option Nat :=
  if digits.isEmpty then none
  else digits.foldl (fun acc c => do
    let n ← acc
    let d ← hexDigits? [c]
    if d < base then some (n * base + d) else none) (some 0)

/-- A whole number without sign. -/
def whole? (cs : List Char) : Option Nat :=
  match cs with
  | '0' :: 'x' :: digits => based? 16 (digits.filter (· != '_'))
  | '0' :: 'o' :: digits => based? 8 (digits.filter (· != '_'))
  | '0' :: 'b' :: digits => based? 2 (digits.filter (· != '_'))
  | _ => if isWhole cs then some (numeralValue cs) else none

/-- A number with a fraction or an exponent, without sign. -/
def decimal? (cs : List Char) : Option Decimal :=
  let mantissa := cs.takeWhile fun c => c != 'e' && c != 'E'
  let power := (cs.drop mantissa.length).drop 1
  let whole := mantissa.takeWhile (· != '.')
  let fraction := (mantissa.drop whole.length).drop 1
  let hasPoint := whole.length < mantissa.length
  let hasPower := mantissa.length < cs.length
  let exponent : Option Int :=
    match power with
    | '-' :: digits => if isNumeral digits then some (-(numeralValue digits : Int)) else none
    | '+' :: digits => if isNumeral digits then some (numeralValue digits) else none
    | digits => if isNumeral digits then some (numeralValue digits) else none
  if !isWhole whole || !(hasPoint || hasPower) || (hasPoint && !isNumeral fraction) then none
  else
    -- Digits behind the point are part of the mantissa and lower the exponent.
    let digits := fraction.filter (· != '_')
    let value : Int := numeralValue (whole ++ digits)
    if hasPower then exponent.map fun e => ⟨value, e - digits.length⟩
    else some ⟨value, -(digits.length : Int)⟩

/-- The value of a word that is not quoted. -/
def bareValue? (word : List Char) : Option Json :=
  let (negative, digits) := match word with
    | '-' :: rest => (true, rest)
    | '+' :: rest => (false, rest)
    | rest => (false, rest)
  -- Truth values take no sign, so the whole word is compared.
  if word == "true".toList then some (.bool true)
  else if word == "false".toList then some (.bool false)
  else match whole? digits with
    | some n => some (.integer (if negative then -(n : Int) else n))
    | none => (decimal? digits).map fun d =>
      .decimal (if negative then ⟨-d.mantissa, d.exponent⟩ else d)

/-- Whether two values are of one type. -/
def sameType : Json → Json → Bool
  | .bool _, .bool _ | .integer _, .integer _ | .decimal _, .decimal _ | .string _, .string _
  | .array _, .array _ | .object _, .object _ => true
  | _, _ => false

/-- Whether all items of an array are of one type. -/
def isUniform (items : List Json) : Bool :=
  match items with
  | [] => true
  | first :: rest => rest.all (sameType first)

/-- The characters that end a word in a value. -/
def endsWord (c : Char) : Bool :=
  isBlank c || c == '\n' || c == ',' || c == ']' || c == '\x7d' || c == '#'

mutual

/-- Reads a value. -/
def value? (fuel : Nat) (cs : List Char) : Option (Json × List Char) :=
  match fuel with
  | 0 => none
  | fuel + 1 =>
    match cs with
    | '"' :: _ | '\'' :: _ => (string? cs).map fun (s, r) => (.string s, r)
    | '[' :: rest =>
      match items? fuel (skipLines rest) with
      | some (items, r) => if isUniform items then some (.array items, r) else none
      | none => none
    | '\x7b' :: rest =>
      match skipBlanks rest with
      | '\x7d' :: last => some (.object [], last)
      | first => (inlineMembers? fuel [] first).map fun (members, r) => (.object members, r)
    | _ =>
      let word := cs.takeWhile fun c => !endsWord c
      (bareValue? word).map fun v => (v, cs.drop word.length)

/-- Reads the items of an array up to its closing bracket. Items may be left out. -/
def items? (fuel : Nat) (cs : List Char) : Option (List Json × List Char) :=
  match fuel with
  | 0 => none
  | fuel + 1 =>
    match cs with
    | ']' :: last => some ([], last)
    -- Nothing stands before this comma: the item is left out.
    | ',' :: more => items? fuel (skipLines more)
    | _ =>
      match value? fuel cs with
      | none => none
      | some (item, rest) =>
        match skipLines rest with
        | ',' :: more => (items? fuel (skipLines more)).map fun (items, r) => (item :: items, r)
        | ']' :: last => some ([item], last)
        | _ => none

/-- Reads the members of an inline table up to its closing brace. -/
def inlineMembers? (fuel : Nat) (seen : Members) (cs : List Char) : Option (Members × List Char) :=
  match fuel with
  | 0 => none
  | fuel + 1 =>
    match key? fuel cs with
    | some (path, '=' :: rest) =>
      match value? fuel (skipBlanks rest) with
      | none => none
      | some (v, afterValue) =>
        match insert? path v seen with
        | none => none
        | some members =>
          match skipBlanks afterValue with
          | ',' :: more => inlineMembers? fuel members more
          | '\x7d' :: last => some (members, last)
          | _ => none
    | _ => none

end

/-- Reads the items of an array that the text breaks off in, without the last character. A string
that breaks off loses both its ends. -/
def brokenItems? (fuel : Nat) (cs : List Char) : Option (List Json) :=
  match fuel with
  | 0 => none
  | fuel + 1 =>
    match skipLines cs with
    | [] => some []
    | ',' :: more => brokenItems? fuel more
    | text =>
      match value? fuel text with
      | some (item, rest) =>
        match skipLines rest with
        | [] => some [item]
        | ',' :: more => (brokenItems? fuel more).map (item :: ·)
        | _ => none
      | none =>
        match text with
        -- The quote has no partner, so the rest of the text is the last string.
        | '"' :: rest | '\'' :: rest => some [.string (String.ofList rest.dropLast)]
        | _ => none

/-- Reads the value of a key, which may be an array that the text breaks off in. -/
def keyValue? (cs : List Char) : Option (Json × List Char) :=
  let fuel := cs.length + 2
  match value? fuel cs with
  | some found => some found
  | none =>
    match cs with
    | '[' :: rest =>
      let text := (rest.reverse.dropWhile fun c => isBlank c || c == '\n').reverse
      -- With a closing bracket further on, it is not the end of the text that is wrong.
      if text.contains ']' then none
      else match brokenItems? fuel text.dropLast with
        | some items => if isUniform items then some (.array items, []) else none
        | none => none
    | _ => none

/-- Changes the table at a path of names; tables on the way are created, and in an array of
tables the last one counts. -/
def alter? (f : Members → Option Members) : List String → Members → Option Members
  | [], members => f members
  | name :: path, members =>
    match members.find? (·.1 == name) with
    | none => (alter? f path []).map fun inner => members ++ [(name, .object inner)]
    | some (_, .object inner) =>
      (alter? f path inner).map fun inner =>
        members.map fun m => if m.1 == name then (name, .object inner) else m
    | some (_, .array items) =>
      match items.reverse with
      -- The path goes on in the table that was added last.
      | .object inner :: before =>
        (alter? f path inner).map fun inner =>
          members.map fun m =>
            if m.1 == name then (name, .array (before.reverse ++ [.object inner])) else m
      | _ => none
    | some _ => none

/-- Opens a table that is not defined yet; `implied` says that its name has only been part of
another one's. -/
def openTable? (implied : Bool) (name : String) (members : Members) : Option Members :=
  match members.find? (·.1 == name) with
  | none => some (members ++ [(name, .object [])])
  | some (_, .object _) => if implied then some members else none
  | some _ => none

/-- Adds a table to an array of tables. -/
def openItem? (name : String) (members : Members) : Option Members :=
  match members.find? (·.1 == name) with
  | none => some (members ++ [(name, .array [.object []])])
  | some (_, .array items) =>
    some (members.map fun m => if m.1 == name then (name, .array (items ++ [.object []])) else m)
  | some _ => none

/-- A text as far as it has been read: all tables, the path of the one that is open, and the
tables that exist only because others lie in them. -/
structure Progress where
  root : Members := []
  current : List String := []
  implied : List (List String) := []

/-- The proper beginnings of a path. -/
def beginnings : List String → List (List String)
  | [] => []
  | [_] => []
  | name :: rest => [name] :: (beginnings rest).map (name :: ·)

/-- Whether a table is there. -/
def exists? (root : Members) : List String → Bool
  | [] => true
  | name :: path =>
    match root.find? (·.1 == name) with
    | some (_, .object inner) => exists? inner path
    | some _ => true
    | none => false

/-- Opens the table that a header names. -/
def Progress.openHeader (p : Progress) (isItem : Bool) (path : List String) : Option Progress :=
  match path.reverse with
  | [] => none
  | last :: before =>
    -- A name that is only implied may still get a header of its own, once.
    let change := if isItem then openItem? last else openTable? (p.implied.contains path) last
    let newlyImplied := (beginnings path).filter fun b => !exists? p.root b
    (alter? change before.reverse p.root).map fun root =>
      { root, current := path, implied := (p.implied ++ newlyImplied).filter (· != path) }

/-- Reads a header after its opening bracket. -/
def header? (isItem : Bool) (cs : List Char) : Option (List String × List Char) :=
  match key? (cs.length + 1) cs with
  | some (path, ']' :: ']' :: rest) => if isItem then some (path, rest) else none
  | some (path, ']' :: rest) => if isItem then none else some (path, rest)
  | _ => none

/-- Reads lines up to the end of the text. -/
def lines? (p : Progress) : Nat → List Char → Option Members
  | 0, _ => none
  | fuel + 1, cs =>
    -- Only a comment may follow on the line of a header or a value.
    let endLine (p : Progress) (rest : List Char) : Option Members :=
      match skipBlanks rest with
      | [] => some p.root
      | '\n' :: more => lines? p fuel more
      | '#' :: more => lines? p fuel (more.dropWhile (· != '\n'))
      | _ => none
    match skipLines cs with
    | [] => some p.root
    -- Two brackets come first: the first of them alone would open the other kind of header.
    | '[' :: '[' :: rest =>
      match header? true rest with
      | some (path, after) =>
        match p.openHeader true path with
        | some p => endLine p after
        | none => none
      | none => none
    | '[' :: rest =>
      match header? false rest with
      | some (path, after) =>
        match p.openHeader false path with
        | some p => endLine p after
        | none => none
      | none => none
    | text =>
      -- Keys stand in the table whose header came last.
      match key? (text.length + 1) text with
      | some (path, '=' :: rest) =>
        match keyValue? (skipBlanks rest) with
        | none => none
        | some (v, after) =>
          match alter? (insert? path v) p.current p.root with
          | none => none
          | some root => endLine { p with root } after
      | _ => none

/-- The members of the table that a text describes. -/
def parse? (text : String) : Option Members :=
  lines? {} (text.toList.length + 2) text.toList

/-- The table of a configuration that holds the settings. -/
def analysisTable (root : Members) : Members :=
  match root.find? (·.1 == "analysis") with
  | some (_, .object members) => members
  | _ => []

end ScriptGraph.Toml
