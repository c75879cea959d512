import ScriptGraph.Syntax.Grammar.Expressions

/-!
# Classes, object types, interfaces and enumerations

The bodies that list members, and the declarations around them. Members end at a semicolon, a
comma, a line break or the closing brace. In typed dialects a decorator of a method stands beside
it in the class body, and one of a field inside it; plain dialects keep all of them inside.
-/

namespace ScriptGraph.Syntax.Grammar

/-- Reads a name in the namespace of types, which plain dialects do not tell apart. -/
def className : Grammar Forest := do
  if ← typed then typeName else identifier

/-- The words that may stand before the name of a class member. -/
def memberModifiers : List String :=
  ["public", "private", "protected", "declare", "static", "override", "readonly", "abstract",
    "accessor", "async", "get", "set"]

/-- The modifiers that cannot name a member themselves. -/
def pureModifiers : List String :=
  ["abstract", "accessor"]

/-- Reads a modifier of a member. A word that could be a name of its own is no modifier when the
line ends after it. -/
def lineModifier (allowed : List String) : Grammar Forest := do
  let t ← look
  let next := lookPast t
  match modifierWord t with
  | some w =>
    -- A field named `get` may stand alone on its line.
    if !pureModifiers.contains w && next.lineBreak &&
        LineEnd.startsAfresh (← typed) false false next.here.rest then failure
    else methodModifier allowed
  | none => methodModifier allowed

/-- Reads separators between members. -/
def memberEnd : Grammar Forest :=
  many (punct ";" <|> punct ",")

/-- The annotation of an indexed member, which may add or drop the mark of an optional one. -/
def indexedAscription : Grammar Forest := do
  let sign ← optional (punct "-" <|> punct "+")
  let mark ← optional (punct "?")
  let colon ← punct ":"
  let type ← call .type
  let kind : Kind :=
    if mark.isEmpty then .typeAscription
    else if sign.any (·.label == .token "-") then .omittingTypeAscription
    -- A mark without a sign makes the member optional, as a plus does.
    else if sign.isEmpty then .optingTypeAscription
    else .addingTypeAscription
  return construct kind (sign ++ mark ++ colon ++ type)

/-- `[key: type]: type`, and `[key in type]: type` in a mapped type. -/
def indexSignature : Grammar Forest := do
  let before ← optional do
    let sign ← optional (punct "-" <|> punct "+")
    let word ← keyword "readonly"
    return inRole .sign sign ++ word
  let opening ← punct "["
  let keyed : Grammar Forest := do
    let name ← identifier
    let colon ← punct ":"
    let type ← field .indexType .type
    return inRole .name name ++ colon ++ type
  let mapped : Grammar Forest := do
    let name ← typeName
    let word ← keyword "in"
    let type ← field .type .type
    let renamed ← optional do
      let word ← keyword "as"
      let taken ← field .alias .type
      return word ++ taken
    return construct .mappedTypeClause (inRole .name name ++ word ++ type ++ renamed)
  -- Only the colon or the `in` after the name tells the two apart.
  let inner ← enclosed (keyed <|> mapped)
  let closing ← punct "]"
  let type ← optional indexedAscription
  return construct .indexSignature (before ++ opening ++ inner ++ closing ++ inRole .type type)

/-- Whether the next token opens the parameters of a callable. -/
def atSignature : Grammar Bool := do
  let t ← look
  return t.lexeme == .punct "(" || t.lexeme == .punct "<"

/-- `new (x): T` among the members of a type. -/
def constructSignature : Grammar Forest := do
  let isAbstract ← optional (keyword "abstract")
  let new ← keyword "new"
  let generics ← optional (field .typeParameters .typeParameters)
  let params ← field .parameters .parameters
  let type ← optional do return inRole .type (← typeAscription)
  return construct .constructSignature (isAbstract ++ new ++ generics ++ params ++ type)

/-- A property or a method among the members of a type. -/
def namedTypeMember : Grammar Forest := do
  let modifiers ← many (lineModifier memberModifiers)
  let name ← field .name .propertyName
  let mark ← optional (punct "?")
  if ← atSignature then
    let sig ← signature
    return construct .methodSignature (modifiers ++ name ++ mark ++ sig)
  else
    let type ← optional do return inRole .type (← typeAscription)
    return construct .propertySignature (modifiers ++ name ++ mark ++ type)

/-- One member of an object type. -/
def typeMember : Grammar Forest := do
  -- A member without a name is called on the value itself.
  if ← atSignature then return construct .callSignature (← signature)
  else constructSignature <|> indexSignature <|> namedTypeMember

/-- The members of an object type or an interface between braces. -/
def objectType : Grammar Forest := do
  let opening ← punct "\x7b"
  let first ← memberEnd
  -- A line break may end a member, even inside parentheses.
  let members ← atStatements (many do
    let m ← typeMember
    let ends ← memberEnd
    return m ++ ends)
  let closing ← punct "\x7d"
  return construct .objectType (opening ++ first ++ members ++ closing)

/-- `static` and a block. -/
def staticBlock : Grammar Forest := do
  let word ← keyword "static"
  let b ← body false
  return construct .classStaticBlock (word ++ b)

/-- `= value` after a field, where a line break may end the member. -/
def fieldValue : Grammar Forest := do
  let eq ← punct "="
  let value ← field .value .expression
  return eq ++ value

/-- A method or a field of a class in a typed dialect, after its decorators. -/
def typedMember (decorators : Forest) : Grammar Forest := do
  let modifiers ← many (lineModifier memberModifiers)
  let name ← field .name .propertyName
  let mark ← optional (punct "?" <|> punct "!")
  if ← atSignature then
    let sig ← signature
    if ← atPunct "\x7b" then
      let b ← body false
      return decorators ++ construct .methodDefinition (modifiers ++ name ++ mark ++ sig ++ b)
    else
      -- Without a body it is an overload, or abstract.
      let isAbstract := modifiers.any (·.label == .token "abstract")
      return decorators ++ construct
        (if isAbstract then .abstractMethodSignature else .methodSignature)
        (modifiers ++ name ++ mark ++ sig)
  else
    let type ← optional do return inRole .type (← typeAscription)
    let value ← optional fieldValue
    return construct .publicFieldDefinition
      (decorators ++ modifiers ++ name ++ mark ++ type ++ value)

/-- A method or a field of a class in a plain dialect, after its decorators. -/
def plainMember (decorators : Forest) : Grammar Forest := do
  let modifiers ← many (lineModifier ["static", "async", "get", "set", "accessor"])
  let name ← call .propertyName
  if ← atPunct "(" then
    let params ← field .parameters .parameters
    let b ← body false
    return construct .methodDefinition (decorators ++ modifiers ++ inRole .name name ++ params ++ b)
  else
    let value ← optional fieldValue
    return construct .fieldDefinition (decorators ++ modifiers ++ inRole .property name ++ value)

/-- One member of a class. -/
def classMember : Grammar Forest := do
  let decorators ← many do return inRole .decorator (← decorator)
  if ← typed then staticBlock <|> indexSignature <|> typedMember decorators
  -- Plain dialects give the members of a class a role.
  else return inRole .member (← staticBlock <|> plainMember decorators)

/-- The members of a class between braces. -/
def classBody : Grammar Forest := do
  let opening ← punct "\x7b"
  let first ← memberEnd
  let members ← atStatements (many do
    let m ← classMember
    let ends ← memberEnd
    return m ++ ends)
  let closing ← punct "\x7d"
  return inRole .body (construct .classBody (opening ++ first ++ members ++ closing))

/-- What a class extends. Type arguments belong to the expression only if a call follows. -/
def superclass : Grammar Forest := do
  let head ← if ← atWord "new" then call .unary else atom
  extend head fun base => do
    -- Without a call after them, the type arguments are those of the class extended.
    if ← atPunct "<" then
      let generics ← field .typeArguments .typeArguments
      let args ← field .arguments .arguments
      return construct .callExpression (inRole .callee base ++ generics ++ args)
    else trailerOf true base

/-- `extends` and `implements` of a class. -/
def heritage : Grammar Forest := do
  if ← typed then
    let extended ← optional do
      let word ← keyword "extends"
      let classes ← separated (punct ",") do
        let value ← superclass
        let generics ← optional (field .typeArguments .typeArguments)
        return inRole .value value ++ generics
      return construct .extendsClause (word ++ classes)
    let implemented ← optional do
      let word ← keyword "implements"
      let types ← separated (punct ",") (call .type)
      return construct .implementsClause (word ++ types)
    let clauses := extended ++ implemented
    return if clauses.isEmpty then [] else construct .classHeritage clauses
  else
    optional do
      let word ← keyword "extends"
      let value ← call .expression
      return construct .classHeritage (word ++ value)

/-- What follows the name of a class. -/
def classTail : Grammar Forest := enclosed do
  let generics ← if ← typed then optional (field .typeParameters .typeParameters) else pure []
  let clauses ← heritage
  let b ← classBody
  return generics ++ clauses ++ b

/-- Decorators of a class. -/
def classDecorators : Grammar Forest :=
  many do return inRole .decorator (← decorator)

/-- A class as an expression. -/
def classExpression : Grammar Forest := do
  let decorators ← classDecorators
  let word ← keyword "class"
  let t ← look
  -- These words start the heritage of a class without a name.
  let name ← if t.lexeme == .word "extends" || t.lexeme == .word "implements" then pure []
    else optional do return inRole .name (← className)
  let tail ← classTail
  return construct .classExpression (decorators ++ word ++ name ++ tail)

/-- A class as a declaration. -/
def classDeclaration : Grammar Forest := do
  let decorators ← classDecorators
  let isAbstract ← if ← typed then optional (keyword "abstract") else pure []
  let word ← keyword "class"
  let name ← className
  let tail ← classTail
  let parts := decorators ++ isAbstract ++ word ++ inRole .name name ++ tail
  -- The line end belongs to a class, but not to an abstract one.
  if isAbstract.isEmpty then
    let ending ← optional (lineEnd false false)
    return construct .classDeclaration (parts ++ ending)
  else return construct .abstractClassDeclaration parts

/-- An interface. -/
def interfaceDeclaration : Grammar Forest := do
  let word ← keyword "interface"
  let name ← typeName
  let generics ← optional (field .typeParameters .typeParameters)
  let bases ← optional do
    let word ← keyword "extends"
    let types ← enclosed (separated (punct ",") do return inRole .type (← namedType))
    return construct .extendsTypeClause (word ++ types)
  let members ← objectType
  return construct .interfaceDeclaration
    (word ++ inRole .name name ++ generics ++ bases ++ inRole .body (asKind .interfaceBody members))

/-- One member of an enumeration. -/
def enumMember : Grammar Forest := do
  let name ← field .name .propertyName
  if ← atPunct "=" then
    let value ← defaultValue .value
    return construct .enumAssignment (name ++ value)
  else return name

/-- An enumeration. -/
def enumDeclaration : Grammar Forest := do
  let isConst ← optional (keyword "const")
  let word ← keyword "enum"
  let name ← identifier
  let opening ← punct "\x7b"
  let members ← enclosed (commaItems enumMember)
  let closing ← punct "\x7d"
  let b := construct .enumBody (opening ++ members ++ closing)
  return construct .enumDeclaration (isConst ++ word ++ inRole .name name ++ inRole .body b)

end ScriptGraph.Syntax.Grammar
