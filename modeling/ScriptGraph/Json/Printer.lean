import ScriptGraph.Json.Basic

/-!
# JSON text

Two written forms of a JSON value: on one line with every character outside ASCII escaped, and
on indented lines with such characters kept.
-/

namespace ScriptGraph.Json

/-- The lower-case hexadecimal digit of a number below sixteen. -/
def hexDigit (n : Nat) : Char :=
  if n < 10 then Char.ofNat (0x30 + n) else Char.ofNat (0x57 + n)

/-- The escape of one UTF-16 code unit. -/
def unitEscape (unit : Nat) : List Char :=
  ['\\', 'u', hexDigit (unit / 4096 % 16), hexDigit (unit / 256 % 16), hexDigit (unit / 16 % 16),
    hexDigit (unit % 16)]

/-- The escapes of a character's UTF-16 code units. -/
def charEscape (c : Char) : List Char :=
  let v := c.val.toNat
  if v < 0x10000 then unitEscape v
  else unitEscape (0xD800 + (v - 0x10000) / 1024) ++ unitEscape (0xDC00 + (v - 0x10000) % 1024)

/-- How a character is written inside a string. `ascii` escapes all characters beyond it. -/
def writtenChar (ascii : Bool) (c : Char) : List Char :=
  if c == '"' then ['\\', '"']
  else if c == '\\' then ['\\', '\\']
  else if c == '\n' then ['\\', 'n']
  else if c == '\r' then ['\\', 'r']
  else if c == '\t' then ['\\', 't']
  else if c.val == 0x08 then ['\\', 'b']
  else if c.val == 0x0C then ['\\', 'f']
  else if c.val < 0x20 then charEscape c
  else if ascii && 0x7F ≤ c.val then charEscape c
  else [c]

/-- A string between quotation marks. -/
def quote (ascii : Bool) (text : String) : String :=
  String.ofList ('"' :: text.toList.flatMap (writtenChar ascii) ++ ['"'])

/-- The plain decimal notation of `mantissa * 10 ^ exponent`, always with a fraction. -/
def decimalText (d : Decimal) : String :=
  let sign := if d.mantissa < 0 then "-" else ""
  let m := d.mantissa.natAbs
  match d.exponent with
  | .ofNat e => sign ++ toString (m * powerOfTen e) ++ ".0"
  | .negSucc e =>
    -- The fraction keeps the zeros at its front.
    let digits := (toString (m % powerOfTen (e + 1))).toList
    let zeros := List.replicate (e + 1 - digits.length) '0'
    sign ++ toString (m / powerOfTen (e + 1)) ++ "." ++ String.ofList (zeros ++ digits)

/-- The text of a value that is neither an array nor an object. -/
def scalarText (ascii : Bool) : Json → String
  | .null => "null"
  | .bool true => "true"
  | .bool false => "false"
  | .integer n => toString n
  | .decimal d => decimalText d
  | .string s => quote ascii s
  | .array _ => "[]"
  | .object _ => "\x7b\x7d"

mutual

/-- The pieces of the one-line form. -/
def compactPieces : Json → List String
  | .array items => "[" :: compactItems true items
  | .object members => "\x7b" :: compactMembers true members
  | scalar => [scalarText true scalar]

/-- The items of an array and its closing bracket. -/
def compactItems (first : Bool) : List Json → List String
  | [] => ["]"]
  | j :: rest => (if first then "" else ",") :: compactPieces j ++ compactItems false rest

/-- The members of an object and its closing brace. -/
def compactMembers (first : Bool) : List (String × Json) → List String
  | [] => ["\x7d"]
  | (k, j) :: rest =>
    (if first then "" else ",") :: quote true k :: ":" :: compactPieces j ++
    compactMembers false rest

end

/-- One line, ASCII only. -/
def compact (j : Json) : String :=
  String.join (compactPieces j)

/-- A line break and the indentation of a nesting depth. -/
def lineBreak (depth : Nat) : String :=
  String.ofList ('\n' :: List.replicate (2 * depth) ' ')

mutual

/-- The pieces of the indented form at a nesting depth. -/
def indentedPieces (depth : Nat) : Json → List String
  | .array (i :: items) => "[" :: indentedItems depth true (i :: items)
  | .object (m :: members) => "\x7b" :: indentedMembers depth true (m :: members)
  | scalar => [scalarText false scalar]

/-- The items of an array, each on a line of its own, and its closing bracket. -/
def indentedItems (depth : Nat) (first : Bool) : List Json → List String
  | [] => [lineBreak depth, "]"]
  | j :: rest =>
    (if first then "" else ",") :: lineBreak (depth + 1) :: indentedPieces (depth + 1) j ++
      indentedItems depth false rest

/-- The members of an object, each on a line of its own, and its closing brace. -/
def indentedMembers (depth : Nat) (first : Bool) : List (String × Json) → List String
  | [] => [lineBreak depth, "\x7d"]
  | (k, j) :: rest =>
    (if first then "" else ",") :: lineBreak (depth + 1) :: quote false k :: ": " ::
      indentedPieces (depth + 1) j ++ indentedMembers depth false rest

end

/-- Lines indented by two spaces for every level of nesting. -/
def indented (j : Json) : String :=
  String.join (indentedPieces 0 j)

end ScriptGraph.Json
