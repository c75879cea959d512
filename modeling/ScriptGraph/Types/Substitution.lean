import ScriptGraph.Types.Display
import ScriptGraph.Table

/-!
# Unions and substitution

A union is built from a list of types: the members of unions in the list count themselves, `any`
takes over everything, and of types that are shown alike the first is kept. Substitution puts
types for type parameters and builds the unions on the way anew.
-/

namespace ScriptGraph.Ty

variable {m : Type → Type} [Monad m]

/-- The members of a union, or the type itself. -/
def unionParts : Ty → List Ty
  | union members => members
  | t => [t]

/-- The type that stands for a list of different alternatives. -/
def ofAlternatives : List Ty → Ty
  | [] => .intrinsic .never
  | [t] => t
  | ts => .union ts

/-- Gathers the alternatives that are shown differently. `seen` holds their texts and `kept` the
alternatives, last one first. -/
def gatherAlternatives (demand : Demand m) (seen : List String) (kept : List Ty) :
    List Ty → m Ty
  | [] => return ofAlternatives kept.reverse
  | t :: rest =>
    -- Nothing is left to tell apart once anything at all is allowed.
    if t.isIntrinsic .any then return .any
    else do
      let shown ← t.display demand
      if seen.contains shown then gatherAlternatives demand seen kept rest
      else gatherAlternatives demand (shown :: seen) (t :: kept) rest

/-- The union of a list of types. -/
def unionOf (demand : Demand m) (types : List Ty) : m Ty :=
  gatherAlternatives demand [] [] (types.flatMap unionParts)

/-- What is put for a type parameter. -/
def lookup (mapping : List (String × Ty)) (name : String) : Ty :=
  match mapping.find? (·.1 == name) with
  | some (_, t) => t
  | none => .parameter name

/-- A mapping overridden by another one. -/
def mergeMappings (old new : List (String × Ty)) : List (String × Ty) :=
  (Table.merge ⟨old⟩ ⟨new⟩).entries

mutual

/-- Puts types for type parameters. -/
def substitute (demand : Demand m) (mapping : List (String × Ty)) : Ty → m Ty
  | object e arguments => return .object e (← substituteAll demand mapping arguments)
  | array element e => return .array (← substitute demand mapping element) e
  | tuple elements e => return .tuple (← substituteAll demand mapping elements) e
  -- Alternatives may become alike, or one of them anything at all.
  | union members => do unionOf demand (← substituteAll demand mapping members)
  | parameter name => return lookup mapping name
  | literal members types => return .literal members (← substituteNamed demand mapping types)
  | function signatures e =>
    if mapping.isEmpty then return .function signatures e
    else return .function (← substituteSignatures demand mapping signatures) e
  | intrinsic i => return .intrinsic i
  | static e => return .static e
  | text spelling => return .text spelling
  | unspecified => return .unspecified

/-- Puts types for type parameters in a list of types. -/
def substituteAll (demand : Demand m) (mapping : List (String × Ty)) : List Ty → m (List Ty)
  | [] => return []
  | t :: ts => do
    let first ← substitute demand mapping t
    let rest ← substituteAll demand mapping ts
    return first :: rest

/-- Puts types for type parameters in the types of properties. -/
def substituteNamed (demand : Demand m) (mapping : List (String × Ty)) :
    List (String × Ty) → m (List (String × Ty))
  | [] => return []
  | (name, t) :: ts => do
    let first ← substitute demand mapping t
    let rest ← substituteNamed demand mapping ts
    return (name, first) :: rest

/-- Puts types for type parameters in parameters. -/
def substituteParameters (demand : Demand m) (mapping : List (String × Ty)) :
    List (ParameterOf Ty) → m (List (ParameterOf Ty))
  | [] => return []
  | ⟨name, t, optional, rest⟩ :: ps => do
    let type ← substitute demand mapping t
    let others ← substituteParameters demand mapping ps
    return ⟨name, type, optional, rest⟩ :: others

/-- Puts types for type parameters in signatures, which become new ones. -/
def substituteSignatures (demand : Demand m) (mapping : List (String × Ty)) :
    List (SignatureOf Ty) → m (List (SignatureOf Ty))
  | [] => return []
  | ⟨declaration, parameters, result, old, _⟩ :: ss => do
    let parameters ← substituteParameters demand mapping parameters
    -- The result changes with the mapping, so it is remembered on its own.
    let cell ← demand.newCell
    let others ← substituteSignatures demand mapping ss
    return ⟨declaration, parameters, result, mergeMappings old mapping, cell⟩ :: others

end

/-- Puts types for type parameters, if there are any to put. -/
def instantiate (demand : Demand m) (mapping : List (String × Ty)) (t : Ty) : m Ty :=
  if mapping.isEmpty then return t else t.substitute demand mapping

end ScriptGraph.Ty

namespace ScriptGraph

/-- Puts types for the type parameters of a signature, if there are any to put. -/
def Signature.instantiate {m : Type → Type} [Monad m] (demand : Demand m)
    (mapping : List (String × Ty)) (s : Signature) : m Signature :=
  if mapping.isEmpty then return s
  else do
    let parameters ← Ty.substituteParameters demand mapping s.parameters
    let cell ← demand.newCell
    return { s with parameters, mapping := Ty.mergeMappings s.mapping mapping, cell }

/-- Finds results that are given along with their signatures, each of them nested at most `depth`
deep in another one; all other results are unknown. -/
def Demand.ofGiven : Nat → Demand Id
  | 0 => ⟨fun _ => pure Ty.any, pure 0⟩
  | depth + 1 =>
    { result := fun s =>
        match s.result with
        | .given t => t.instantiate (ofGiven depth) s.mapping
        | _ => pure Ty.any
      newCell := pure 0 }

end ScriptGraph
