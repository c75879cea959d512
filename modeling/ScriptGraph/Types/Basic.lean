import ScriptGraph.Binding.Declaration

/-!
# Types

The shallow types that inference works with. Literal types do not exist: a number literal is a
`number`. A named type refers to its symbol through an `Entity`, which carries what is shown of
it. The result of a signature is found only when it is asked for; `ResultSource` says from where.
-/

namespace ScriptGraph

open Binding Syntax

/-- The built-in types. -/
inductive Intrinsic
  | any | unknown | number | string | boolean | void | undefined | null | never | object | symbol
  | bigint
deriving DecidableEq, Repr, Inhabited

namespace Intrinsic

/-- All built-in types. -/
def all : List Intrinsic :=
  [any, unknown, number, string, boolean, void, undefined, null, never, object, symbol, bigint]

/-- The name of a built-in type. -/
def name : Intrinsic → String
  | any => "any"
  | unknown => "unknown"
  | number => "number"
  | string => "string"
  | boolean => "boolean"
  | void => "void"
  | undefined => "undefined"
  | null => "null"
  | never => "never"
  | object => "object"
  | symbol => "symbol"
  | bigint => "bigint"

/-- The built-in type of a name. -/
def ofName? (text : String) : Option Intrinsic :=
  all.find? fun i => i.name == text

/-- An intrinsic type is found by its name. -/
theorem ofName?_name (i : Intrinsic) : ofName? i.name = some i := by
  cases i <;> decide

end Intrinsic

/-- A symbol as types refer to it: its number, its name and its type parameters. -/
structure Entity where
  id : SymbolId
  name : String
  parameters : List String
deriving DecidableEq, Repr, Inhabited

/-- A parameter of a signature. -/
structure ParameterOf (τ : Type) where
  name : String
  type : τ
  optional : Bool := false
  rest : Bool := false
deriving Inhabited

/-- Where the result type of a signature comes from: it is given, it follows from a declaration,
or it is written in the source (nothing written means no result). -/
inductive ResultSource (τ : Type)
  | given (type : τ)
  | declared (declaration : DeclarationId)
  | written (node : Option Node)
deriving Inhabited

/-- A call or construct signature. `mapping` is what has been put for type parameters, and applies
to the result once it is found; `cell` is the number under which the result is remembered. -/
structure SignatureOf (τ : Type) where
  declaration : Option DeclarationId
  parameters : List (ParameterOf τ)
  result : ResultSource τ
  mapping : List (String × τ) := []
  cell : Nat := 0
deriving Inhabited

/-- A type. -/
inductive Ty
  | intrinsic (which : Intrinsic)
  | object (of : Entity) (arguments : List Ty)
  | static (of : Entity)
  | array (element : Ty) (entity : Option Entity)
  | tuple (elements : List Ty) (entity : Option Entity)
  | union (members : List Ty)
  | parameter (name : String)
  | text (spelling : String)
  | literal (members : List (String × SymbolId)) (types : List (String × Ty))
  | function (signatures : List (SignatureOf Ty)) (entity : Option Entity)
  | unspecified
deriving Inhabited

/-- A parameter of a signature. -/
abbrev Parameter := ParameterOf Ty

/-- A call or construct signature. -/
abbrev Signature := SignatureOf Ty

namespace Signature

/-- The number of parameters that must be given. -/
def minArguments (s : Signature) : Nat :=
  (s.parameters.filter fun p => !p.optional && !p.rest).length

/-- Whether a number of arguments fits. -/
def accepts (s : Signature) (count : Int) : Bool :=
  (s.minArguments : Int) ≤ count &&
    -- A rest parameter takes any number of arguments.
    (count ≤ (s.parameters.length : Int) || s.parameters.any (·.rest))

/-- The first signature that accepts a number of arguments, or else the first of all. -/
def choose (signatures : List Signature) (count : Int) : Option Signature :=
  (signatures.find? fun s => accepts s count).or signatures.head?

end Signature

namespace Ty

/-- Anything at all. -/
def any : Ty := .intrinsic .any

/-- Whether a type is a given built-in one. -/
def isIntrinsic (which : Intrinsic) : Ty → Bool
  | intrinsic i => i == which
  | _ => false

/-- The symbol that a type refers to. -/
def entity? : Ty → Option Entity
  | object e _ => some e
  | static e => some e
  | array _ e => e
  | tuple _ e => e
  | function _ e => e
  | _ => none

/-- What has been put for the type parameters of a named type. -/
def mappingOf (e : Entity) (arguments : List Ty) : List (String × Ty) :=
  e.parameters.zip arguments

end Ty

end ScriptGraph
