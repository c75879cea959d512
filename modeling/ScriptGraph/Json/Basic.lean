/-!
# JSON values

Values of the data format that package manifests, settings and results are written in. Objects
keep the order of their members, and whole numbers are kept apart from decimal ones.
-/

namespace ScriptGraph

/-- The number `mantissa * 10 ^ exponent`, written with a fraction or an exponent. -/
structure Decimal where
  mantissa : Int
  exponent : Int
deriving DecidableEq, Repr, Inhabited

/-- The power of ten with a natural exponent. -/
def powerOfTen (exponent : Nat) : Nat :=
  Nat.pow 10 exponent

/-- Whether a decimal number is at least a natural number. -/
def Decimal.isAtLeast (d : Decimal) (n : Nat) : Bool :=
  match d.exponent with
  | .ofNat k => (n : Int) ≤ d.mantissa * (powerOfTen k : Int)
  | .negSucc k => (n : Int) * (powerOfTen (k + 1) : Int) ≤ d.mantissa

/-- A JSON value. -/
inductive Json
  | null
  | bool (value : Bool)
  | integer (value : Int)
  | decimal (value : Decimal)
  | string (value : String)
  | array (items : List Json)
  | object (members : List (String × Json))
deriving Repr, Inhabited

namespace Json

/-- The value of a member of an object. -/
def find? (j : Json) (name : String) : Option Json :=
  match j with
  | .object members => (members.find? (·.1 == name)).map (·.2)
  | _ => none

/-- The text that a value is. -/
def text? : Json → Option String
  | .string s => some s
  | _ => none

/-- A text or `null`. -/
def ofOption (text : Option String) : Json :=
  match text with
  | some s => .string s
  | none => .null

/-- An array of texts. -/
def strings (texts : List String) : Json :=
  .array (texts.map .string)

/-- A natural number. -/
def nat (n : Nat) : Json :=
  .integer (n : Int)

end Json

end ScriptGraph
