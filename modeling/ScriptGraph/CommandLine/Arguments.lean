/-!
# Command-line arguments

Options may be written long (`--format dot`, `--format=dot`) or short (`-f dot`, `-fdot`, and
several flags in one word). Two dashes end the options. `readArguments` sorts words into options
and operands; it refuses unknown options, missing values and values of flags.
-/

namespace ScriptGraph.CommandLine

/-- An option of a command. -/
structure OptionRule where
  long : String
  short : Option Char := none
  takesValue : Bool := true
deriving DecidableEq, Repr

/-- Options with their values by long name, in the order in which they were given, and the other
words. -/
structure Arguments where
  options : List (String × String) := []
  operands : List String := []
deriving DecidableEq, Repr, Inhabited

namespace Arguments

/-- Adds an option. -/
def withOption (a : Arguments) (name value : String) : Arguments :=
  { a with options := a.options ++ [(name, value)] }

/-- The values of an option, in order. -/
def values (a : Arguments) (name : String) : List String :=
  (a.options.filter (·.1 == name)).map (·.2)

/-- The last value of an option. -/
def value? (a : Arguments) (name : String) : Option String :=
  (a.values name).getLast?

/-- Whether an option was given. -/
def has (a : Arguments) (name : String) : Bool :=
  !(a.values name).isEmpty

end Arguments

/-- Reads a cluster of short options. The value of one that takes a value is the rest of the
cluster, or the next word. Gives back the words that are left. -/
def readShort (rules : List OptionRule) (a : Arguments) (words : List String) :
    List Char → Option (Arguments × List String)
  | [] => some (a, words)
  | c :: rest =>
    match rules.find? (·.short == some c) with
    | none => none
    | some r =>
      if !r.takesValue then readShort rules (a.withOption r.long "") words rest
      else if !rest.isEmpty then some (a.withOption r.long (String.ofList rest), words)
      else match words with
        | value :: words => some (a.withOption r.long value, words)
        | [] => none

/-- Splits a word at its first equals sign. -/
def splitValue (word : String) : String × Option String :=
  let name := word.toList.takeWhile (· != '=')
  match word.toList.drop name.length with
  | [] => (word, none)
  | _ :: value => (String.ofList name, some (String.ofList value))

/-- Reads a long option. Gives back the words that are left. -/
def readLong (rules : List OptionRule) (a : Arguments) (words : List String) (word : String) :
    Option (Arguments × List String) :=
  let (name, given) := splitValue word
  match rules.find? (·.long == name) with
  | none => none
  | some r =>
    match r.takesValue, given, words with
    | true, some value, _ => some (a.withOption r.long value, words)
    | true, none, value :: words => some (a.withOption r.long value, words)
    | true, none, [] => none
    | false, none, _ => some (a.withOption r.long "", words)
    -- A flag takes no value, not even an empty one.
    | false, some _, _ => none

/-- Reads words into options and operands, at most `count` of them. With `stop`, the first operand
ends the options and all words from it on are operands. -/
def readWords (rules : List OptionRule) (stop : Bool) :
    Nat → Arguments → List String → Option Arguments
  | 0, a, words => some { a with operands := a.operands ++ words }
  | _ + 1, a, [] => some a
  | count + 1, a, word :: words =>
    if word == "--" then some { a with operands := a.operands ++ words }
    else if word.startsWith "--" then do
      let (a, words) ← readLong rules a words word
      readWords rules stop count a words
    -- A single dash is an operand by custom.
    else if word.startsWith "-" && word != "-" then do
      let (a, words) ← readShort rules a words (word.toList.drop 1)
      readWords rules stop count a words
    else if stop then some { a with operands := a.operands ++ word :: words }
    else readWords rules stop count { a with operands := a.operands ++ [word] } words

/-- Reads words into options and operands. -/
def readArguments (rules : List OptionRule) (stop : Bool) (words : List String) :
    Option Arguments :=
  readWords rules stop (words.length + 1) {} words

/-- The whole number that a word spells: digits, perhaps with a sign in front, single underscores
between them and blanks around. -/
def wholeNumber? (word : String) : Option Int :=
  let cs := (word.toList.dropWhile Char.isWhitespace).reverse.dropWhile Char.isWhitespace
  match cs.reverse with
  | '-' :: digits => (digitsValue? false digits).map fun n => -(n : Int)
  | '+' :: digits => (digitsValue? false digits).map Int.ofNat
  | digits => (digitsValue? false digits).map Int.ofNat
where
  /-- The number that digits spell; `afterDigit` tells whether an underscore may follow. -/
  digitsValue? (afterDigit : Bool) (digits : List Char) : Option Nat :=
    go 0 afterDigit digits
  /-- The number that digits spell after others. -/
  go (value : Nat) (afterDigit : Bool) : List Char → Option Nat
    -- A number neither is empty nor ends in an underscore.
    | [] => if afterDigit then some value else none
    | '_' :: rest => if afterDigit then go value false rest else none
    | c :: rest =>
      if c.isDigit then go (10 * value + (c.toNat - '0'.toNat)) true rest else none

end ScriptGraph.CommandLine
