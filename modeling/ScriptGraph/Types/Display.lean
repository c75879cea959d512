import ScriptGraph.Types.Basic

/-!
# Types as text

Types are shown the way developers write them: `number[]`, `typeof Counter`,
`(a: number) => number`. Parts nested more than four levels deep are shown as dots. Showing a
function type needs its result, so these functions are actions of a monad in which results can be
found.
-/

namespace ScriptGraph

/-- How the parts of types that are found on demand are found in a monad: the result of a
signature, and a number for a new signature. -/
structure Demand (m : Type → Type) where
  result : Signature → m Ty
  newCell : m Nat

/-- The number of levels of a type that are shown. -/
def shownLevels : Nat := 5

namespace Ty

variable {m : Type → Type} [Monad m]

/-- A parameter, given how types are shown. -/
def parameterText (typeText : Ty → m String) (p : Parameter) : m String := do
  let lead := if p.rest then "..." else ""
  let mark := if p.optional && !p.rest then "?" else ""
  return lead ++ p.name ++ mark ++ ": " ++ (← typeText p.type)

/-- The parameters of a signature, given how types are shown. -/
def parametersText (typeText : Ty → m String) (s : Signature) : m String := do
  return ", ".intercalate (← s.parameters.mapM (parameterText typeText))

/-- The text of a type, of which a number of levels are shown. -/
def textFrom (demand : Demand m) : Nat → Ty → m String
  | 0, _ => return "..."
  | levels + 1, t => do
    let inner := textFrom demand levels
    match t with
    | intrinsic i => return i.name
    | object e [] => return e.name
    | object e arguments =>
      return e.name ++ "<" ++ ", ".intercalate (← arguments.mapM inner) ++ ">"
    | static e =>
      -- A quoted name is that of a module.
      if e.name.startsWith "\"" then return "typeof import(" ++ e.name ++ ")"
      else return "typeof " ++ e.name
    | array element _ => do
      let shown ← inner element
      match element with
      -- Without parentheses the brackets would belong to the last part.
      | union _ | function _ _ => return "(" ++ shown ++ ")[]"
      | _ => return shown ++ "[]"
    | tuple elements _ => return "[" ++ ", ".intercalate (← elements.mapM inner) ++ "]"
    | union members => return " | ".intercalate (← members.mapM inner)
    | function [s] _ => do
      let parameters ← parametersText inner s
      let result ← inner (← demand.result s)
      return "(" ++ parameters ++ ") => " ++ result
    | function signatures _ => do
      let parts ← signatures.mapM fun s => do
        let parameters ← parametersText inner s
        let result ← inner (← demand.result s)
        return "(" ++ parameters ++ "): " ++ result ++ ";"
      return "\x7b " ++ " ".intercalate parts ++ " \x7d"
    | literal _ [] => return "\x7b\x7d"
    | literal _ types => do
      let parts ← types.mapM fun p => do
        let shown ← inner p.2
        return p.1 ++ ": " ++ shown ++ ";"
      return "\x7b " ++ " ".intercalate parts ++ " \x7d"
    | parameter name => return name
    | text spelling => return spelling
    | unspecified => return "any"

/-- The text of a type. -/
def display (demand : Demand m) (t : Ty) : m String :=
  textFrom demand shownLevels t

/-- The text of a type that is itself nested to a depth. -/
def displayAt (demand : Demand m) (depth : Int) (t : Ty) : m String :=
  textFrom demand (shownLevels - depth).toNat t

/-- The beginnings of names that are made up and say nothing to a reader. -/
def hasReadableName (e : Entity) : Bool :=
  !e.name.isEmpty && !(["__", "\"", "("].any fun lead => e.name.startsWith lead)

/-- The name by which members of a type are qualified; empty when there is none. -/
def friendlyName (t : Ty) : String :=
  match t with
  -- These say nothing about the value whose member is named.
  | intrinsic .any | intrinsic .unknown => ""
  | _ =>
    match t.entity?.filter hasReadableName, t with
    | some e, _ => e.name
    | none, intrinsic i => i.name
    | none, text spelling => spelling
    | none, _ => ""

end Ty

/-- The text of a signature. -/
def Signature.display {m : Type → Type} [Monad m] (demand : Demand m) (s : Signature) :
    m String := do
  let parameters ← Ty.parametersText (Ty.textFrom demand (shownLevels - 1)) s
  let result ← Ty.textFrom demand (shownLevels - 1) (← demand.result s)
  return "(" ++ parameters ++ "): " ++ result

end ScriptGraph
