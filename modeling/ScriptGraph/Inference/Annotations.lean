import ScriptGraph.Inference.Signatures
import ScriptGraph.Text.Blank

/-!
# Types from type syntax

What annotations, type arguments and type aliases denote. Syntax that stands for no type of its
own is kept as a text, with its white space collapsed.
-/

namespace ScriptGraph.Inference

open Binding Syntax

/-- The type shown with the spelling of its syntax. -/
def spelledType (n : Node) : Ty :=
  .text (Text.joinWords n.text)

/-- The type of the values of a literal. -/
def literalType (n : Node) : Ty :=
  match n.kind? with
  | some .number | some .unaryExpression => .intrinsic .number
  | some .string | some .templateString => .intrinsic .string
  | some .trueLiteral | some .falseLiteral => .intrinsic .boolean
  | some .nullLiteral => .intrinsic .null
  | some .undefinedLiteral => .intrinsic .undefined
  | _ => .any

/-- The type that a symbol names in type syntax, given type arguments and the text to show when
there is no such type. -/
def typeOfTypeSymbol (symbol : SymbolId) (arguments : List Ty) (shown : String) : Inquiry Ty := do
  let named (id : SymbolId) : Inquiry Ty := do
    let name := ((← store).symbol id).name
    return .text (if shown.isEmpty then name else shown)
  match ← resolveAlias symbol with
  -- An alias that leads nowhere is shown by its name.
  | none => named symbol
  | some target =>
    let st ← store
    match st.firstOf (fun k => k.isType && k != .importAlias) target with
    | none => named target
    | some id =>
      let d := st.declaration id
      match d.kind with
      | .class | .interface | .enum => instanceOf target arguments
      | .typeParameter => return .parameter (st.symbol target).name
      | .typeAlias =>
        match d.node.child? .value with
        | none => return .any
        | some value =>
          -- The members of an object type belong to the alias, so the alias is the type.
          if value.is .objectType then instanceOf target arguments
          else
            let aliased ← typeOfSyntax value
            aliased.instantiate demand (Ty.mappingOf (← entityOf target) arguments)
      | _ => named target

/-- The type that a name denotes with type arguments. -/
def namedType (nameNode : Node) (arguments : List Ty) : Inquiry Ty := do
  let name := nameNode.text
  -- Both are written as brackets, whatever declares them.
  match name == "Array" || name == "ReadonlyArray", arguments with
  | true, [element] => arrayOf element
  | _, _ =>
    let symbol ← symbolAt nameNode
    let shown ← if arguments.isEmpty then pure name else do
      let texts ← arguments.mapM (Ty.display demand)
      pure (name ++ "<" ++ ", ".intercalate texts ++ ">")
    match symbol with
    | none => return .text shown
    | some symbol => typeOfTypeSymbol symbol arguments shown

/-- Adds a declaration to the member of its name, which is created as a part of an owner if it is
not there yet. The declaration is attached to it unless it belongs to another symbol. -/
def addMember (owner : SymbolId) (members : List (String × SymbolId)) (id : DeclarationId) :
    Inquiry (List (String × SymbolId)) := do
  let d ← declarationOf id
  -- Declarations under one name are overloads of one member.
  let (symbol, members) ← match members.find? (·.1 == d.name) with
    | some (_, symbol) => pure (symbol, members)
    | none => do
      let symbol ← newSymbol { name := d.name, parent := some owner }
      pure (symbol, members ++ [(d.name, symbol)])
  Inquiry.ofStep (.addToMember symbol id)
  return members

/-- The type of an object with the members that some declarations declare, each of which is found
and typed in turn. -/
def objectTypeOf (owner : String) (declared : Node → Inquiry (Option DeclarationId))
    (parts : List Node) : Inquiry Ty := do
  let owner ← newSymbol { name := owner }
  let mut members : List (String × SymbolId) := []
  let mut types : Table String Ty := .empty
  for part in parts do
    match ← declared part with
    | none => pure ()
    | some id =>
      members ← addMember owner members id
      -- The type is found after the member is known, which it may refer to.
      types := types.put (← declarationOf id).name (← typeOfDeclaration id)
  return .literal members types.entries

/-- Adds a declaration that no binding records. -/
def addDeclaration (d : Declaration) : Inquiry (Option DeclarationId) := do
  return some (← .ofStep (.addDeclaration d))

/-- The declaration of a member of an object type. Members that are neither properties nor methods
are left out, and so are members without a name. -/
def typeMember (n : Node) : Inquiry (Option DeclarationId) := do
  let nameNode := n.child? .name
  let name := memberName nameNode
  if name.isEmpty then return none
  match n.kind? with
  | some .propertySignature =>
    addDeclaration { kind := .propertySignature, name, node := n, nameNode }
  | some .methodSignature =>
    addDeclaration { kind := .methodSignature, name, node := n, nameNode }
  | _ => return none

/-- The type that type syntax denotes. -/
def syntaxType (n : Node) : Inquiry Ty := do
  match n.kind? with
  | some .predefinedType =>
    match Intrinsic.ofName? n.text with
    | some i => return .intrinsic i
    | none => return .text n.text
  | some .typeIdentifier => namedType n []
  | some .genericType =>
    let arguments ← typeArguments (n.child? .typeArguments)
    match (n.child? .name).filter (·.is .typeIdentifier) with
    | some name => namedType name arguments
    | none => return spelledType n
  | some .arrayType => arrayOf (← typeOfSyntax? (firstConstruct n))
  | some .tupleType =>
    let elements ← n.constructs.mapM typeOfSyntax
    return .tuple elements (← entityOf? (← globalType? "Array"))
  | some .unionType => unionOf (← n.constructs.mapM typeOfSyntax)
  | some .parenthesizedType | some .readonlyType | some .optionalType | some .typeAscription =>
    typeOfSyntax? (firstConstruct n)
  | some .restType =>
    match firstConstruct n with
    | some inner => typeOfSyntax inner
    | none => arrayOf .any
  | some .functionType =>
    let parameters ← parametersOf n
    let cell ← newCell
    return .function
      [{ declaration := none, parameters, result := .written (n.child? .returnType), cell }] none
  | some .objectType => objectTypeOf "__type" typeMember n.constructs
  | some .literalType => return ((firstConstruct n).map literalType).getD .any
  | some .typeQuery => typeOf? (firstConstruct n)
  | some .thisType => thisType n
  | some .typePredicate | some .typePredicateAscription => return .intrinsic .boolean
  | _ => return spelledType n

end ScriptGraph.Inference
