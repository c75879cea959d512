import ScriptGraph.Inference.Declarations

/-!
# Types of expressions

What expressions evaluate to, as far as it follows from their parts. Any other construct has the
type of what it declares.
-/

namespace ScriptGraph.Inference

open Binding Syntax

/-- The operators whose values are truth values. -/
def comparisons : List String :=
  ["==", "!=", "===", "!==", "<", ">", "<=", ">=", "instanceof", "in"]

/-- The operators whose values are numbers. -/
def arithmetic : List String :=
  ["-", "*", "/", "%", "**", "&", "|", "^", "<<", ">>", ">>>"]

/-- The operators whose value is that of one of their sides. -/
def logical : List String :=
  ["&&", "||", "??"]

/-- The text of the operator of an expression. -/
def operatorText (n : Node) : String :=
  ((n.child? .operator).map Node.text).getD ""

/-- The type of a sum: a text if a side is one, a number if both sides are. -/
def sumType (left right : Ty) : Ty :=
  if left.isIntrinsic .string || right.isIntrinsic .string then .intrinsic .string
  else if left.isIntrinsic .number && right.isIntrinsic .number then .intrinsic .number
  else .any

/-- The type of an expression with two operands. -/
def binaryType (n : Node) : Inquiry Ty := do
  let operator := operatorText n
  if comparisons.contains operator then return .intrinsic .boolean
  else if arithmetic.contains operator then return .intrinsic .number
  else
    let left ← typeOf? (n.child? .left)
    let right ← typeOf? (n.child? .right)
    -- Either side may be the value.
    if logical.contains operator then unionOf [left, right]
    else if operator == "+" then return sumType left right
    else return .any

/-- The type of an expression with one operand. -/
def unaryType (operator : String) : Ty :=
  match operator with
  | "!" | "delete" => .intrinsic .boolean
  | "typeof" => .intrinsic .string
  | "void" => .intrinsic .undefined
  | _ => .intrinsic .number

/-- The whole number that a number literal spells in decimal digits. -/
def indexOf? (text : String) : Option Nat :=
  let digits := text.toList.filter (· != '_')
  if !digits.isEmpty && digits.all Char.isDigit then
    some (digits.foldl (fun n c => 10 * n + (c.toNat - '0'.toNat)) 0)
  else none

/-- The type of an element that an index picks. -/
def elementType (n : Node) : Inquiry Ty := do
  match ← typeOf? (n.child? .object) with
  | .array element _ => return element
  | .tuple elements _ =>
    -- Only a number that is written out tells which element is meant.
    let picked := ((n.child? .index).filter (·.is .number)).bind fun i =>
      (indexOf? i.text).bind fun k => elements[k]?
    match picked with
    | some element => return element
    | none => tupleElementType elements
  | .intrinsic .string => return .intrinsic .string
  | _ => return .any

/-- The type that an expression is asserted to have; `const` asserts nothing. -/
def assertedType (n : Node) : Inquiry Ty :=
  match n.constructs with
  | [] => return .any
  | [inner] => typeOf inner
  | inner :: rest =>
    let target := rest.getLastD inner
    -- The word asserts that the value does not change, which shallow types do not show.
    if target.text == "const" then typeOf inner else typeOfSyntax target

/-- The type that an expression is asserted to have by angle brackets in front of it. -/
def prefixedType (n : Node) : Inquiry Ty :=
  match (firstConstruct n).filter (·.is .typeArguments) with
  | some arguments => typeOfSyntax? (firstConstruct arguments)
  | none => return .any

/-- The declaration of a member of an object literal. Computed names and spread values are left
out. -/
def objectMember (b : FileBinding) (n : Node) : Inquiry (Option DeclarationId) := do
  match n.kind? with
  | some .pair =>
    match (n.child? .key).filter fun k => !k.is .computedPropertyName with
    | none => return none
    | some key =>
      addDeclaration
        { kind := .property, name := memberName (some key), node := n, nameNode := some key }
  | some .shorthandPropertyIdentifier =>
    addDeclaration { kind := .property, name := n.text, node := n, nameNode := some n }
  | some .methodDefinition =>
    match b.declarationAt? n with
    | none => return none
    | some id => return if (← declarationOf id).name.isEmpty then none else some id
  | _ => return none

/-- The type of what a construction makes. -/
def constructionType (n : Node) : Inquiry Ty := do
  match n.child? .constructed with
  | none => return .any
  | some constructed =>
    match ← typeOf constructed with
    | .static e =>
      if ← isClass e.id then instanceOf e.id (← typeArguments (n.child? .typeArguments))
      else signatureResult
    | _ => signatureResult
where
  /-- The result of the signature that the construction binds to. -/
  signatureResult : Inquiry Ty := do
    match ← resolvedConstructSignature n with
    | some s => resultOf s
    | none => return .any

/-- The type of a member expression. -/
def memberExpressionType (n : Node) : Inquiry Ty := do
  match n.child? .object, n.child? .property with
  | some object, some property =>
    let owner ← typeOf object
    match ← memberOf owner property.text with
    | some member => memberType owner member
    | none => return .any
  | _, _ => return .any

/-- The type of what a promise holds, and of any other value itself. -/
def awaitedType : Ty → Ty
  | .object e (held :: rest) => if e.name == "Promise" then held else .object e (held :: rest)
  | t => t

/-- The type of a name. -/
def nameType (n : Node) : Inquiry Ty := do
  match ← symbolAt n with
  | some symbol => typeOfSymbol symbol
  -- The name is no keyword, so it is looked up first.
  | none => return if n.text == "undefined" then .intrinsic .undefined else .any

/-- The type of a construct that declares something. -/
def declaredType (n : Node) : Inquiry Ty := do
  match (← bindingOf n).declarationAt? n with
  | some id => typeOfDeclaration id
  | none => return .any

/-- The type of a function expression. -/
def functionType (n : Node) : Inquiry Ty := do
  match (← bindingOf n).declarationAt? n with
  | none => return .any
  | some id => return .function [← signatureOf id] (← entityOf? (← declarationOf id).symbol)

/-- The type of a class expression. -/
def classType (n : Node) : Inquiry Ty := do
  match (← bindingOf n).declarationAt? n with
  | none => return .any
  | some id =>
    match (← declarationOf id).symbol with
    | some symbol => staticOf symbol
    | none => return .any

/-- The type of an array literal. Spread values do not count. -/
def arrayType (n : Node) : Inquiry Ty := do
  let elements ← (n.constructs.filter fun e => !e.is .spreadElement).mapM typeOf
  if elements.isEmpty then arrayOf .any else arrayOf (← unionOf elements)

/-- The type of an expression or of what a construct declares. -/
def expressionType (n : Node) : Inquiry Ty := do
  match n.kind? with
  | some .identifier | some .shorthandPropertyIdentifier => nameType n
  | some .number => return .intrinsic .number
  | some .string | some .templateString => return .intrinsic .string
  | some .trueLiteral | some .falseLiteral => return .intrinsic .boolean
  | some .nullLiteral => return .intrinsic .null
  | some .undefinedLiteral => return .intrinsic .undefined
  | some .regex => globalObject "RegExp" []
  | some .thisExpression => thisType n
  | some .superExpression => superType n
  | some .array => arrayType n
  | some .object => objectTypeOf "__object" (objectMember (← bindingOf n)) n.constructs
  | some .functionExpression | some .generatorFunction | some .arrowFunction => functionType n
  | some .classExpression => classType n
  | some .newExpression => constructionType n
  | some .callExpression =>
    match ← resolvedSignature n with
    | some s => resultOf s
    | none => return .any
  | some .memberExpression => memberExpressionType n
  | some .subscriptExpression => elementType n
  | some .parenthesizedExpression | some .nonNullExpression | some .spreadElement =>
    typeOf? (firstConstruct n)
  | some .asExpression | some .satisfiesExpression => assertedType n
  | some .typeAssertion => prefixedType n
  | some .awaitExpression => return awaitedType (← typeOf? (firstConstruct n))
  | some .binaryExpression => binaryType n
  | some .unaryExpression => return unaryType (operatorText n)
  | some .updateExpression => return .intrinsic .number
  | some .ternaryExpression =>
    -- The condition has no share in the type.
    let branches := (n.child? .consequence).toList ++ (n.child? .alternative).toList
    unionOf (← branches.mapM typeOf)
  | some .assignmentExpression | some .augmentedAssignmentExpression =>
    typeOf? (n.child? .right)
  | some .sequenceExpression => typeOf? n.constructs.getLast?
  | some .jsxElement | some .jsxSelfClosingElement => return .text "JSX.Element"
  | _ => declaredType n

end ScriptGraph.Inference
