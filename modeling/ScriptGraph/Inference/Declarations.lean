import ScriptGraph.Inference.Annotations

/-!
# Types of declarations

What a declaration declares has the type that is annotated, or that of its initial value. A name
in a pattern has the type of the part of the whole that it takes.
-/

namespace ScriptGraph.Inference

open Binding Syntax

/-- The type of the part of a value that a name in a pattern takes. -/
def patternPartType (whole : Ty) (d : Declaration) : Inquiry Ty := do
  -- Array patterns take elements, object patterns take members by name.
  if ((d.nameNode.bind Node.parent).map (·.is .arrayPattern)).getD false then
    match whole with
    | .array element _ => return element
    | _ => return .any
  else
    match ← memberOf whole d.name with
    | some member => memberType whole member
    | none => return .any

/-- The union of the elements of a tuple. -/
def tupleElementType (elements : List Ty) : Inquiry Ty :=
  if elements.isEmpty then return .any else unionOf elements

/-- The type of the variable of a loop over a value. -/
def loopVariableType (n : Node) : Inquiry Ty := do
  let iterated ← typeOf? (n.child? .right)
  -- A loop over keys has texts for its variable, whatever it goes through.
  if n.hasToken "in" then return .intrinsic .string
  else match iterated with
    | .array element _ => return element
    | .tuple elements _ => tupleElementType elements
    | .intrinsic .string => return .intrinsic .string
    | _ => return .any

/-- The type of a variable. -/
def variableType (d : Declaration) : Inquiry Ty := do
  let n := d.node
  if n.is .variableDeclarator then
    let whole ← match n.child? .type with
      | some ascription => typeOfAscription ascription
      | none => typeOf? (n.child? .value)
    -- A pattern takes a part of the value.
    if ((n.child? .name).map (·.is .identifier)).getD false then return whole
    else patternPartType whole d
  else if n.is .forInStatement then loopVariableType n
  else return .any

/-- The type of a name that a parameter binds. -/
def parameterBindingType (d : Declaration) : Inquiry Ty := do
  let whole ← parameterType d.node
  match d.nameNode with
  | none => return whole
  | some nameNode =>
    if !isParameter d.node then return whole
    else
      -- A rest parameter has the type of the array it gathers.
      let isWhole := match d.node.child? .pattern with
        | some pattern => pattern.same nameNode || pattern.is .restPattern
        | none => false
      if isWhole then return whole else patternPartType whole d

/-- The type of a property. -/
def propertyType (n : Node) : Inquiry Ty := do
  if isField n || n.is .propertySignature then
    match n.child? .type with
    | some ascription => typeOfAscription ascription
    | none => typeOf? (n.child? .value)
  else if isParameter n then parameterType n
  else if n.is .pair then typeOf? (n.child? .value)
  else if n.is .shorthandPropertyIdentifier then
    match ← resolveName DeclarationKind.isValue n with
    | some symbol => typeOfSymbol symbol
    | none => return .any
  else return .any

/-- The type of a method or of the property that an accessor stands for. -/
def methodType (id : DeclarationId) (d : Declaration) : Inquiry Ty := do
  match d.accessor with
  | some .getter => resultOf (← signatureOf id)
  | some .setter => return (((← signatureOf id).parameters.head?).map (·.type)).getD .any
  | none =>
    let entity ← entityOf? d.symbol
    match d.symbol with
    | some symbol =>
      -- A member may have overloads, which are the signatures of its symbol.
      if ((← store).symbol symbol).parent.isSome then
        return .function (← symbolSignatures symbol) entity
      else return .function [← signatureOf id] entity
    | none => return .function [← signatureOf id] entity

/-- The type of what a declaration declares. -/
def declarationType (id : DeclarationId) : Inquiry Ty := do
  let d ← declarationOf id
  match d.kind with
  | .function | .functionSignature =>
    let signatures ← match d.symbol with
      | some symbol => symbolSignatures symbol
      | none => do pure [← signatureOf id]
    return .function signatures (← entityOf? d.symbol)
  | .functionExpression => return .function [← signatureOf id] (← entityOf? d.symbol)
  | .method | .methodSignature => methodType id d
  | .class | .enum | .namespace =>
    match d.symbol with
    | some symbol => staticOf symbol
    | none => return .any
  | .enumMember =>
    let st ← store
    match d.symbol.bind fun s => (st.symbol s).parent with
    | some owner => instanceOf owner []
    | none => return .intrinsic .number
  | .variable => variableType d
  | .parameter => parameterBindingType d
  | .property | .propertySignature => propertyType d.node
  | .exportValue => typeOf d.node
  | _ => return .any

/-- The constructs whose return statements are their own. -/
def hasOwnReturns : Kind → Bool
  | .functionExpression | .generatorFunction | .arrowFunction | .functionDeclaration
  | .generatorFunctionDeclaration | .methodDefinition | .classExpression | .classDeclaration
  | .abstractClassDeclaration => true
  | _ => false

mutual

/-- The first return statement in a tree that belongs to the function around it. -/
def firstReturnIn (source : Source) (trail : List Crumb) : Tree → Option Node
  | .node (.token _) _ _ _ _ => none
  | .node (.construct k) r s e cs =>
    -- The returns inside belong to the function or class that starts here.
    if hasOwnReturns k then none
    else if k == .returnStatement then some ⟨source, .node (.construct k) r s e cs, trail⟩
    else firstReturnAmong source (.node (.construct k) r s e cs) trail 0 cs

/-- The first return statement among siblings that belongs to the function around them. -/
def firstReturnAmong (source : Source) (parent : Tree) (trail : List Crumb) (index : Nat) :
    List Tree → Option Node
  | [] => none
  | t :: ts =>
    (firstReturnIn source (⟨parent, index⟩ :: trail) t).or
      (firstReturnAmong source parent trail (index + 1) ts)

end

/-- The first return statement of a function's body. -/
def firstReturn (body : Node) : Option Node :=
  firstReturnAmong body.source body.tree body.trail 0 body.tree.children

/-- The type of what a function's body returns first. -/
def bodyType (body : Node) : Inquiry Ty :=
  if body.is .statementBlock then
    match (firstReturn body).bind firstConstruct with
    | some value => typeOf value
    | none => return .intrinsic .void
  else typeOf body

/-- The annotation of a result. -/
def resultAscription (d : Declaration) : Option Node :=
  (d.node.child? .returnType).or
    (if d.kind == .constructSignature then d.node.child? .type else none)

/-- The result type of a callable declaration. -/
def resultType (id : DeclarationId) : Inquiry Ty := do
  let d ← declarationOf id
  if d.kind == .constructor then
    match d.symbol with
    | some symbol => instanceOf symbol []
    | none => return .any
  else match resultAscription d, d.node.child? .body with
    | some ascription, _ => typeOfAscription ascription
    | none, none => return .any
    | none, some body =>
      -- What a generator returns says nothing about what it yields.
      if d.node.hasToken "*" then return .any
      else
        let inferred ← bodyType body
        if d.node.hasToken "async" then globalObject "Promise" [inferred] else return inferred

end ScriptGraph.Inference
