import ScriptGraph.Json.Basic

/-!
# Reading JSON

`Json.parse?` reads a text that holds one value and nothing else. Control characters must be
escaped in strings, numbers have no leading zeros, and a name that occurs twice in an object keeps
its first place and its last value. The words `NaN` and `Infinity`, which some writers use for
numbers without digits, read as `null`.
-/

namespace ScriptGraph.Json

/-- Drops the white space between tokens. -/
def skipBlanks (cs : List Char) : List Char :=
  cs.dropWhile fun c => c == ' ' || c == '\t' || c == '\n' || c == '\r'

/-- The value of a hexadecimal digit. -/
def hexValue? (c : Char) : Option Nat :=
  if '0' ≤ c && c ≤ '9' then some (c.toNat - '0'.toNat)
  else if 'a' ≤ c && c ≤ 'f' then some (c.toNat - 'a'.toNat + 10)
  else if 'A' ≤ c && c ≤ 'F' then some (c.toNat - 'A'.toNat + 10)
  else none

/-- The value of four hexadecimal digits. -/
def hexUnit? (a b c d : Char) : Option Nat := do
  return (((← hexValue? a) * 16 + (← hexValue? b)) * 16 + (← hexValue? c)) * 16 + (← hexValue? d)

/-- The character that stands for half of a surrogate pair without its other half. -/
def replacement : Char := '\ufffd'

/-- The character of a code unit that is no half of a pair. -/
def unitChar (unit : Nat) : Char :=
  if 0xD800 ≤ unit && unit < 0xE000 then replacement else Char.ofNat unit

/-- The character that follows a backslash. -/
def simpleEscape? (c : Char) : Option Char :=
  match c with
  | '"' => some '"'
  | '\\' => some '\\'
  | '/' => some '/'
  | 'b' => some '\x08'
  | 'f' => some '\x0c'
  | 'n' => some '\n'
  | 'r' => some '\r'
  | 't' => some '\t'
  | _ => none

/-- Reads a string after its opening quote. `read` holds the characters so far, last one first. -/
def readString (read : List Char) : List Char → Option (String × List Char)
  | [] => none
  | '"' :: rest => some (String.ofList read.reverse, rest)
  -- Two escapes in a row may be the halves of one character.
  | '\\' :: 'u' :: a :: b :: c :: d :: '\\' :: 'u' :: e :: f :: g :: h :: rest =>
    match hexUnit? a b c d, hexUnit? e f g h with
    | some high, some low =>
      if 0xD800 ≤ high && high < 0xDC00 && 0xDC00 ≤ low && low < 0xE000 then
        readString (Char.ofNat (0x10000 + (high - 0xD800) * 1024 + (low - 0xDC00)) :: read) rest
      else readString (unitChar high :: read) ('\\' :: 'u' :: e :: f :: g :: h :: rest)
    | _, _ => none
  | '\\' :: 'u' :: a :: b :: c :: d :: rest =>
    match hexUnit? a b c d with
    | some unit => readString (unitChar unit :: read) rest
    | none => none
  | '\\' :: c :: rest =>
    match simpleEscape? c with
    | some e => readString (e :: read) rest
    | none => none
  | c :: rest => if c.val < 0x20 then none else readString (c :: read) rest
termination_by cs => cs.length

/-- The value of decimal digits. -/
def digitsValue (digits : List Char) : Nat :=
  digits.foldl (fun n c => n * 10 + (c.toNat - '0'.toNat)) 0

/-- Reads an exponent, if there is one. -/
def readExponent (cs : List Char) : Option (Int × List Char) :=
  match cs with
  | e :: rest =>
    if e == 'e' || e == 'E' then
      let (negative, body) := match rest with
        | '-' :: body => (true, body)
        | '+' :: body => (false, body)
        | body => (false, body)
      let digits := body.takeWhile Char.isDigit
      if digits.isEmpty then none
      else
        let value : Int := digitsValue digits
        some (if negative then -value else value, body.dropWhile Char.isDigit)
    else none
  | [] => none

/-- Reads the fraction of a number, if there is one. -/
def readFraction (cs : List Char) : Option (List Char × List Char) :=
  match cs with
  | '.' :: rest =>
    let digits := rest.takeWhile Char.isDigit
    if digits.isEmpty then none else some (digits, rest.dropWhile Char.isDigit)
  | _ => none

/-- Reads a number without its sign. -/
def readMagnitude (negative : Bool) (cs : List Char) : Option (Json × List Char) :=
  let whole := match cs with
    -- No digit may follow a leading zero, so the number ends there.
    | '0' :: _ => ['0']
    | _ => cs.takeWhile Char.isDigit
  if whole.isEmpty then none
  else
    let rest := cs.drop whole.length
    let signed (n : Nat) : Int := if negative then -(n : Int) else n
    let fraction := readFraction rest
    let afterFraction := match fraction with
      | some (_, r) => r
      | none => rest
    let exponent := readExponent afterFraction
    match fraction, exponent with
    | none, none => some (.integer (signed (digitsValue whole)), rest)
    | _, _ =>
      let digits := match fraction with
        | some (d, _) => d
        | none => []
      let (power, last) := exponent.getD (0, afterFraction)
      some (.decimal ⟨signed (digitsValue (whole ++ digits)), power - digits.length⟩, last)

/-- Reads a number. -/
def readNumber (cs : List Char) : Option (Json × List Char) :=
  match cs with
  | '-' :: rest => readMagnitude true rest
  | _ => readMagnitude false cs

/-- The values that are written as words. -/
def words : List (String × Json) :=
  [("true", .bool true), ("false", .bool false), ("null", .null), ("NaN", .null),
    ("Infinity", .null), ("-Infinity", .null)]

/-- Reads a value that is written as a word. -/
def readWord (cs : List Char) : Option (Json × List Char) :=
  (words.find? fun w => w.1.toList.isPrefixOf cs).map fun w => (w.2, cs.drop w.1.length)

/-- Sets a member of an object that is being read. -/
def putMember (name : String) (value : Json) : List (String × Json) → List (String × Json)
  | [] => [(name, value)]
  | m :: rest => if m.1 == name then (name, value) :: rest else m :: putMember name value rest

mutual

/-- Reads a value; `fuel` bounds the number of values and members still to come. -/
def readValue (fuel : Nat) (cs : List Char) : Option (Json × List Char) :=
  match fuel with
  | 0 => none
  | fuel + 1 =>
    match skipBlanks cs with
    | '"' :: rest => (readString [] rest).map fun (s, r) => (.string s, r)
    | '[' :: rest =>
      match skipBlanks rest with
      | ']' :: last => some (.array [], last)
      | first => (readItems fuel first).map fun (items, r) => (.array items, r)
    | '\x7b' :: rest =>
      match skipBlanks rest with
      | '\x7d' :: last => some (.object [], last)
      | first => (readMembers fuel [] first).map fun (members, r) => (.object members, r)
    | text =>
      -- `-Infinity` would read as a number that lacks its digits.
      match readWord text with
      | some found => some found
      | none => readNumber text

/-- Reads the items of an array up to its closing bracket. -/
def readItems (fuel : Nat) (cs : List Char) : Option (List Json × List Char) :=
  match fuel with
  | 0 => none
  | fuel + 1 =>
    match readValue fuel cs with
    | none => none
    | some (item, rest) =>
      match skipBlanks rest with
      | ',' :: more => (readItems fuel more).map fun (items, r) => (item :: items, r)
      | ']' :: last => some ([item], last)
      | _ => none

/-- Reads the members of an object up to its closing brace. -/
def readMembers (fuel : Nat) (seen : List (String × Json)) (cs : List Char) :
    Option (List (String × Json) × List Char) :=
  match fuel with
  | 0 => none
  | fuel + 1 =>
    match skipBlanks cs with
    | '"' :: rest =>
      match readString [] rest with
      | none => none
      | some (name, afterName) =>
        match skipBlanks afterName with
        | ':' :: value =>
          match readValue fuel value with
          | none => none
          | some (item, afterValue) =>
            let members := putMember name item seen
            match skipBlanks afterValue with
            | ',' :: more => readMembers fuel members more
            | '\x7d' :: last => some (members, last)
            | _ => none
        | _ => none
    | _ => none

end

/-- The value that a text holds. -/
def parse? (text : String) : Option Json :=
  let cs := text.toList
  match readValue (2 * cs.length + 2) cs with
  | some (value, rest) => if (skipBlanks rest).isEmpty then some value else none
  | none => none

end ScriptGraph.Json
