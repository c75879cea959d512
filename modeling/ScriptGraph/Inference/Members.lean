import ScriptGraph.Binding.Pattern
import ScriptGraph.Inference.Basic

/-!
# Members of values

A member of a value is looked up in its type: among the members of the symbol, then among those of
what the symbol extends. Values of built-in kinds have the members of an interface of the ambient
library. Every step away from the first type counts towards a limit.
-/

namespace ScriptGraph.Inference

open Binding Syntax

/-- The number of steps from type to type within one look-up, the first one included. -/
def memberSteps : Nat := 9

/-- The first symbol that a list of look-ups finds. -/
def firstSymbol (find : α → Inquiry (Option SymbolId)) : List α → Inquiry (Option SymbolId)
  | [] => return none
  | a :: rest => do
    match ← find a with
    | some symbol => return some symbol
    | none => firstSymbol find rest

/-- A member of an instance of a symbol. `inherited` looks it up in what the symbol extends, and
`asNumber` among the members of numbers, which the values of an enumeration are. -/
def instanceMember (inherited : Ty → Inquiry (Option SymbolId))
    (asNumber : Inquiry (Option SymbolId))
    (symbol : SymbolId) (name : String) : Inquiry (Option SymbolId) := do
  match ((← store).symbol symbol).members.find? name with
  | some member => return some member
  | none =>
    match ← firstSymbol inherited (← basesOf symbol) with
    | some member => return some member
    -- What is not found in an enumeration may be a member of its values.
    | none => if (← store).hasKind (· == .enum) symbol then asNumber else return none

/-- A member of the static side of a symbol, or of the classes it extends. -/
def staticMember : Nat → SymbolId → String → Inquiry (Option SymbolId)
  | steps, symbol, name => do
    match ((← store).symbol symbol).statics.find? name with
    | some member => return some member
    | none =>
      match steps with
      | 0 => return none
      | steps + 1 =>
        firstSymbol (fun base => do
          match base with
          -- Interfaces have no static side.
          | .object e _ => if ← isClass e.id then staticMember steps e.id name else return none
          | _ => return none) (← basesOf symbol)

mutual

/-- A member of a value of a type, within a number of steps. -/
def memberFrom : Nat → Ty → String → Inquiry (Option SymbolId)
  | 0, _, _ => return none
  | steps + 1, t, name =>
    match t with
    -- A member of one of the alternatives will do.
    | .union members => firstSymbol (memberFrom steps · name) members
    | .object e _ =>
      instanceMember (memberFrom steps · name) (globalMemberFrom steps "Number" name) e.id name
    | .static e => do
      match ← staticMember (steps + 1) e.id name with
      | some member => return some member
      | none => globalMemberFrom steps "Function" name
    | .array _ _ | .tuple _ _ => globalMemberFrom steps "Array" name
    | .function _ e => do
      -- A function may be merged with a namespace, whose names are its statics.
      let own ← match e with
        | some e => do pure (((← store).symbol e.id).statics.find? name)
        | none => pure none
      match own with
      | some member => return some member
      | none => globalMemberFrom steps "Function" name
    | .literal members _ =>
      match members.find? (·.1 == name) with
      | some (_, member) => return some member
      | none => globalMemberFrom steps "Object" name
    | .intrinsic .string => globalMemberFrom steps "String" name
    | .intrinsic .number => globalMemberFrom steps "Number" name
    | .intrinsic .boolean => globalMemberFrom steps "Boolean" name
    | _ => return none

/-- A member that an interface of the ambient library gives to values, within a number of steps
beyond the interface. -/
def globalMemberFrom : Nat → String → String → Inquiry (Option SymbolId)
  | 0, interface, name => do
    match ← globalType? interface with
    | none => return none
    | some symbol => instanceMember (fun _ => return none) (return none) symbol name
  | steps + 1, interface, name => do
    match ← globalType? interface with
    | none => return none
    | some symbol =>
      instanceMember (memberFrom steps · name) (globalMemberFrom steps "Number" name) symbol name

end

/-- A member of a value of a type. -/
def memberOf (t : Ty) (name : String) : Inquiry (Option SymbolId) :=
  memberFrom memberSteps t name

/-- The symbol of the member that a member expression names. -/
def memberSymbol (expression : Node) : Inquiry (Option SymbolId) := do
  match expression.child? .object, expression.child? .property with
  | some object, some property => memberOf (← typeOf object) property.text
  | _, _ => return none

/-- The constructs that are names. -/
def nameKinds : List Kind :=
  [.identifier, .shorthandPropertyIdentifier, .typeIdentifier, .propertyIdentifier,
    .privatePropertyIdentifier]

/-- The member expression that a name is the property of. -/
def memberExpressionOf (n : Node) : Option Node :=
  n.parent.filter fun p =>
    p.is .memberExpression && ((p.child? .property).map n.same).getD false

/-- The symbol that the declaration at a name has been attached to. -/
def declaredSymbol (n : Node) : Inquiry (Option SymbolId) := do
  match (← bindingOf n).declarationNamed? n with
  | some d => return (← declarationOf d).symbol
  | none => return none

/-- The symbol that a name or member expression refers to or declares. -/
def symbolAt (n : Node) : Inquiry (Option SymbolId) := do
  if n.is .memberExpression then memberSymbol n
  else if !n.isOneOf nameKinds then return none
  else match memberExpressionOf n with
    | some expression => memberSymbol expression
    | none =>
      -- A name that declares something refers to what it declares.
      match ← declaredSymbol n with
      | some symbol => return some symbol
      | none => resolveName (if n.is .typeIdentifier then DeclarationKind.isType
          else DeclarationKind.isValue) n

/-- What a member's type has to be instantiated with, seen from a value of the owner's type. -/
def ownerMapping (owner : Ty) : Inquiry (List (String × Ty)) := do
  match owner with
  | .object e arguments => return Ty.mappingOf e arguments
  | .array element _ => elementMapping (return element)
  | .tuple elements _ =>
    elementMapping (unionOf (if elements.isEmpty then [.any] else elements))
  | _ => return []
where
  /-- Maps the type parameter of arrays. -/
  elementMapping (element : Inquiry Ty) : Inquiry (List (String × Ty)) := do
    match (← entityOf? (← globalType? "Array")).bind fun e => e.parameters.head? with
    | some parameter => return [(parameter, ← element)]
    | none => return []

/-- The type of a member, seen from a value of the owner's type. -/
def memberType (owner : Ty) (member : SymbolId) : Inquiry Ty := do
  let t ← typeOfSymbol member
  t.instantiate demand (← ownerMapping owner)

/-- The type arguments that are written in a construct. -/
def typeArguments (n : Option Node) : Inquiry (List Ty) :=
  match n with
  | some n => n.constructs.mapM typeOfSyntax
  | none => return []

/-- The base that one part of a class's heritage names. -/
def heritageBase (part : Node) : Inquiry (List Ty) := do
  -- What a class implements it has to declare itself.
  if part.is .implementsClause then return []
  let (value, arguments) :=
    if part.is .extendsClause then (part.child? .value, part.child? .typeArguments)
    else (some part, none)
  match value with
  | none => return []
  | some value =>
    -- The value after `extends` is a class; what is inherited is the type of its instances.
    match ← typeOf value with
    | .static e => return [.object e (← typeArguments arguments)]
    | _ => return []

/-- What a class extends. -/
def classBases (n : Node) : Inquiry (List Ty) :=
  match n.constructs.find? (·.is .classHeritage) with
  | none => return []
  | some heritage => return (← heritage.constructs.mapM heritageBase).flatten

/-- What an interface extends. -/
def interfaceBases (n : Node) : Inquiry (List Ty) := do
  let clauses := n.constructs.filter (·.is .extendsTypeClause)
  return (← clauses.mapM fun c => c.constructs.mapM typeOfSyntax).flatten

/-- What a declaration contributes to the bases of its symbol. -/
def declaredBases (d : DeclarationId) : Inquiry (List Ty) := do
  let d ← declarationOf d
  match d.kind with
  | .class => classBases d.node
  | .interface => interfaceBases d.node
  | _ => return []

/-- What a class or interface extends. While this is being worked out it extends nothing. -/
def symbolBases (symbol : SymbolId) : Inquiry (List Ty) := do
  match ← .ofStep (.knownBases symbol) with
  | some known => return known
  | none =>
    -- The empty list stands in while the heritage is read, which may ask for it again.
    Inquiry.ofStep (.recordBases symbol [])
    let bases := (← ((← store).symbol symbol).declarations.mapM declaredBases).flatten
    Inquiry.ofStep (.recordBases symbol bases)
    return bases

end ScriptGraph.Inference
