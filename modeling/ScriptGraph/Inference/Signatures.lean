import ScriptGraph.Inference.Members

/-!
# Signatures

The parameters of callables, the signatures of symbols and types, and the signature that a call or
construction binds to: the first one that accepts the number of arguments, or else the first.
-/

namespace ScriptGraph.Inference

open Binding Syntax

/-- The type that an annotation denotes. Type predicates are truth values. -/
def typeOfAscription (n : Node) : Inquiry Ty :=
  match n.kind? with
  | some .typePredicateAscription => return .intrinsic .boolean
  | some .assertsAscription => return .intrinsic .void
  | some .typeAscription | some .optingTypeAscription | some .omittingTypeAscription =>
    typeOfSyntax? (firstConstruct n)
  | _ => typeOfSyntax n

/-- The type of a whole parameter: the annotation, the type of the preset value or `any`; an array
for a rest parameter. -/
def parameterType (n : Node) : Inquiry Ty :=
  if isParameter n then
    match n.child? .type, n.child? .value with
    | some ascription, _ => typeOfAscription ascription
    | none, some value => typeOf value
    | none, none =>
      if ((n.child? .pattern).map (·.is .restPattern)).getD false then arrayOf .any
      else return .any
  else if n.is .assignmentPattern then typeOf? (n.child? .right)
  else if n.is .restPattern then arrayOf .any
  else return .any

/-- The first construct inside a rest pattern, or the pattern itself. -/
def restName (n : Node) : Node :=
  (firstConstruct n).getD n

/-- The parameter that a construct in a typed parameter list stands for. -/
def typedParameter (n : Node) : Inquiry (List Parameter) :=
  match n.child? .pattern with
  | none => return []
  | some pattern =>
    -- A parameter named `this` gives the type of `this` and takes no argument.
    if pattern.is .thisExpression then return []
    else do
      let rest := pattern.is .restPattern
      let nameNode := if rest then restName pattern else pattern
      -- A preset value makes a parameter optional as the mark does.
      let optional := n.is .optionalParameter || (n.child? .value).isSome
      return [⟨nameNode.text, ← parameterType n, optional, rest⟩]

/-- The parameter that a construct in a parameter list stands for. -/
def parameterOf (n : Node) : Inquiry (List Parameter) :=
  if isParameter n then typedParameter n
  else match n.kind? with
    | some .identifier | some .objectPattern | some .arrayPattern =>
      return [⟨n.text, .any, false, false⟩]
    | some .assignmentPattern => do
      let name := ((n.child? .left).map Node.text).getD ""
      return [⟨name, ← parameterType n, true, false⟩]
    | some .restPattern => do return [⟨(restName n).text, ← arrayOf .any, false, true⟩]
    | _ => return []

/-- The parameters of a callable construct. -/
def parametersOf (n : Node) : Inquiry (List Parameter) := do
  match n.child? .parameter, n.child? .parameters with
  | some single, _ => return [⟨single.text, .any, false, false⟩]
  | none, some list => return (← list.constructs.mapM parameterOf).flatten
  | none, none => return []

/-- The signature of a callable declaration. -/
def signatureOf (id : DeclarationId) : Inquiry Signature := do
  let d ← declarationOf id
  -- A declaration has one signature, so that its result is found once.
  match ← .ofStep (.knownSignature d.key) with
  | some known => return known
  | none =>
    let parameters ← parametersOf d.node
    let cell ← newCell
    let s : Signature := { declaration := some id, parameters, result := .declared id, cell }
    Inquiry.ofStep (.recordSignature d.key s)
    return s

/-- The declarations that calls can bind to: without the implementations when there are both
declarations with a body and declarations without. -/
def overloads (st : Store) (ids : List DeclarationId) : List DeclarationId :=
  let (bodied, bodiless) := ids.partition fun d => (st.declaration d).hasBody
  -- Only where both stand side by side is the body an implementation of overloads.
  if bodied.isEmpty || bodiless.isEmpty then ids else bodiless

/-- The signatures that declarations give, of which calls can bind to some. -/
def signaturesOf (ids : List DeclarationId) : Inquiry (List Signature) := do
  (overloads (← store) ids).mapM signatureOf

/-- The signatures of the callable declarations of a symbol. -/
def symbolSignatures (symbol : SymbolId) : Inquiry (List Signature) := do
  let st ← store
  signaturesOf ((st.symbol symbol).declarations.filter fun d => (st.declaration d).kind.isCallable)

/-- The signatures that declarations give, seen from an instance of a symbol. -/
def instanceSignatures (e : Entity) (arguments : List Ty) (ids : List DeclarationId) :
    Inquiry (List Signature) := do
  let mapping := Ty.mappingOf e arguments
  (overloads (← store) ids).mapM fun d => do
    (← signatureOf d).instantiate demand mapping

mutual

/-- The signatures by which values of a type are called. -/
def callSignatures : Ty → Inquiry (List Signature)
  | .function signatures _ => return signatures
  | .object e arguments => do
    instanceSignatures e arguments ((← store).symbol e.id).callSignatures
  | .union members => firstCallSignatures members
  | _ => return []

/-- The signatures by which values of the first callable type are called. -/
def firstCallSignatures : List Ty → Inquiry (List Signature)
  | [] => return []
  | t :: rest => do
    let signatures ← callSignatures t
    if signatures.isEmpty then firstCallSignatures rest else return signatures

end

/-- The number of classes in a row that are searched for a constructor. -/
def constructorSteps : Nat := 8

/-- The signatures of the first constructor on the way up from a class. An inherited constructor
makes instances of the class where the search started. -/
def constructorsFrom (constructed : Entity) : Nat → SymbolId → Inquiry (List Signature)
  | 0, _ => return []
  | steps + 1, current => do
    let declared := ((← store).symbol current).constructSignatures
    if !declared.isEmpty then
      let signatures ← signaturesOf declared
      if current == constructed.id then return signatures
      -- The result is replaced, so it gets a memory of its own.
      else signatures.mapM fun s => do
        let cell ← newCell
        return { s with result := .given (.object constructed []), mapping := [], cell }
    else
      let bases ← basesOf current
      match bases.findSome? fun
        | .object e _ => some e
        | _ => none with
      | some base => constructorsFrom constructed steps base.id
      | none => return []

/-- The signatures by which values of a type are constructed. -/
def constructSignatures : Ty → Inquiry (List Signature)
  | .static e => do
    if ← isClass e.id then constructorsFrom e constructorSteps e.id else return []
  | .object e arguments => do
    instanceSignatures e arguments ((← store).symbol e.id).constructSignatures
  | _ => return []

/-- The arguments of a call; a template has none. -/
def callArguments (call : Node) : List Node :=
  match call.child? .arguments with
  | some list => if list.is .templateString then [] else list.constructs
  | none => []

/-- What `this` stands for, given the way up from it; `isStatic` tells about the innermost class
member on the way so far. -/
def thisTypeFrom (b : FileBinding) (source : Source) (isStatic : Bool) : List Crumb → Inquiry Ty
  | [] => return .any
  | c :: up =>
    let current : Node := ⟨source, c.parent, up⟩
    -- Inside the members of a class `this` is an instance, or the class itself in a static one.
    if isClassDeclaration current || current.is .classExpression then do
      match b.declarationAt? current with
      | none => return .any
      | some d =>
        match (← declarationOf d).symbol with
        | none => return .any
        | some symbol => if isStatic then staticOf symbol else instanceOf symbol []
    else if current.isOneOf [.functionDeclaration, .generatorFunctionDeclaration,
        .functionExpression, .generatorFunction] then return .any
    -- In a method of an object literal `this` is not looked for further out.
    else if current.is .methodDefinition then
      if (current.parent.map (·.is .object)).getD false then return .any
      else thisTypeFrom b source (current.hasToken "static") up
    else if isField current then thisTypeFrom b source (current.hasToken "static") up
    else thisTypeFrom b source isStatic up

/-- What `this` stands for at a place. -/
def thisType (n : Node) : Inquiry Ty := do
  thisTypeFrom (← bindingOf n) n.source false n.trail

/-- What `super` stands for at a place. -/
def superType (n : Node) : Inquiry Ty := do
  match ← thisType n with
  | .object e _ => do
    match firstInstance (← basesOf e.id) with
    | some base => return base
    | none => return .any
  | .static e => do
    match firstInstance (← basesOf e.id) with
    | some (.object base _) => return .static base
    | _ => return .any
  | _ => return .any
where
  /-- The first instance type of a list. -/
  firstInstance (types : List Ty) : Option Ty :=
    types.find? fun
      | .object _ _ => true
      | _ => false

/-- The signature that a call binds to. -/
def resolvedSignature (call : Node) : Inquiry (Option Signature) := do
  match call.child? .callee with
  | none => return none
  | some callee =>
    let count : Int := (callArguments call).length
    -- Calling `super` runs the constructor of what the class extends.
    if callee.is .superExpression then
      match ← superType callee with
      | .object base _ => return Signature.choose (← constructSignatures (.static base)) count
      | _ => return none
    else return Signature.choose (← callSignatures (← typeOf callee)) count

/-- The signature that a construction binds to. -/
def resolvedConstructSignature (construction : Node) : Inquiry (Option Signature) := do
  match construction.child? .constructed with
  | none => return none
  | some constructed =>
    match ← constructSignatures (← typeOf constructed) with
    -- A construction takes the first signature, whatever the number of its arguments.
    | [] => return none
    | first :: _ =>
      let arguments ← typeArguments (construction.child? .typeArguments)
      match first.declaration with
      | none => return some first
      | some id =>
        let d ← declarationOf id
        match d.kind, d.symbol with
        | .constructor, some symbol =>
          let mapping := Ty.mappingOf (← entityOf symbol) arguments
          return some (← first.instantiate demand mapping)
        | _, _ => return some first

end ScriptGraph.Inference
