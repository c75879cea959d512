import ScriptGraph.Syntax.Grammar.Patterns
import ScriptGraph.Syntax.Grammar.Types

/-!
# Parameters and functions

Parameter lists in both families of dialects, signatures, function expressions and arrow
functions, and the members that object literals and classes share.
-/

namespace ScriptGraph.Syntax.Grammar

/-- `@` and the name, path or call of a decorator. -/
def decorator : Grammar Forest := do
  let at_ ← punct "@"
  let target : Grammar Forest := do
    if ← atPunct "(" then
      let opening ← punct "("
      let inner ← enclosed (call .expression)
      let closing ← punct ")"
      return construct .parenthesizedExpression (opening ++ inner ++ closing)
    else
      let head ← identifier
      extend head fun object => do
        let t ← look
        if t.lexeme == .punct "." then
          let dot ← punct "."
          let name ← wordAs .propertyIdentifier
          return construct .memberExpression
            (inRole .object object ++ dot ++ inRole .property name)
        else
          let generics ← optional (field .typeArguments .typeArguments)
          if ← atPunct "(" then
            let args ← field .arguments .arguments
            return construct .callExpression (inRole .callee object ++ generics ++ args)
          else failure
  let what ← target
  return construct .decorator (at_ ++ what)

/-- A word as a modifier when another part of the same declaration follows it. -/
def modifierWord (t : Token) : Option String :=
  match t.lexeme with
  | .word w =>
    match (lookPast t).lexeme with
    -- Before anything else, such as a parenthesis, the word is the name itself.
    | .word _ | .privateName | .string | .number => some w
    | .punct p => if ["[", "\x7b", "*", "..."].contains p then some w else none
    | _ => none
  | _ => none

/-- A modifier in front of a parameter that declares a property. -/
def parameterModifier : Grammar Forest := do
  let t ← look
  match modifierWord t with
  | some w =>
    if ["public", "private", "protected"].contains w then
      return construct .accessibilityModifier (← accept t (.token w))
    else if w == "override" then return construct .overrideModifier (← accept t (.token w))
    else if w == "readonly" then accept t (.token w)
    else failure
  | none => failure

/-- One parameter of a typed dialect. -/
def typedParameter : Grammar Forest := do
  let decorators ← many do return inRole .decorator (← decorator)
  let modifiers ← many parameterModifier
  let t ← look
  -- A parameter `this` only states a type.
  let p ← if t.lexeme == .word "this" then acceptAs t .thisExpression else call .pattern
  let mark ← optional (punct "?")
  let type ← optional do return inRole .type (← typeAscription)
  let preset ← optional (defaultValue .value)
  return construct (if mark.isEmpty then .requiredParameter else .optionalParameter)
    (decorators ++ modifiers ++ inRole .pattern p ++ mark ++ type ++ preset)

/-- A parameter list in parentheses. -/
def parameters : Grammar Forest := do
  let opening ← punct "("
  -- A plain parameter is the pattern itself; a typed one gets a construct around it.
  let item := if ← typed then typedParameter else restPattern <|> patternWithDefault
  let items ← enclosed (commaItems item)
  let closing ← punct ")"
  return construct .formalParameters (opening ++ items ++ closing)

/-- Type parameters, parameters and the result type of a callable. -/
def signature : Grammar Forest := do
  let generics ← if ← typed then optional (field .typeParameters .typeParameters) else pure []
  let params ← field .parameters .parameters
  let result ← if ← typed then optional do return inRole .returnType (← resultAscription)
    else pure []
  return generics ++ params ++ result

/-- The body of a function. -/
def body (inExpression : Bool) : Grammar Forest :=
  field .body (.block inExpression)

/-- `function`, also `async` and with a star, as an expression. -/
def functionExpression : Grammar Forest := do
  let isAsync ← optional (keyword "async")
  let word ← keyword "function"
  let star ← optional (punct "*")
  let name ← optional do return inRole .name (← identifier)
  let sig ← enclosed signature
  let b ← body true
  return construct (if star.isEmpty then .functionExpression else .generatorFunction)
    (isAsync ++ word ++ star ++ name ++ sig ++ b)

/-- The arrow of an arrow function and its body, which is a block or else an expression. -/
def arrowBody (isBlock : Bool) : Grammar Forest := do
  let arrow ← punct "=>"
  -- A brace after the arrow always opens a block, never an object.
  if (← atPunct "\x7b") != isBlock then failure
  if isBlock then return arrow ++ (← body true)
  else return arrow ++ (← field .body .expression)

/-- `x => …`, also `async`. -/
def simpleArrow (isBlock : Bool) : Grammar Forest := do
  let isAsync ← optional do
    let t ← look
    match (lookPast t).lexeme with
    -- Without another word behind it, `async` is the parameter itself.
    | .word _ => if (lookPast t).lineBreak then failure else keyword "async"
    | _ => failure
  let name ← identifier
  let rest ← arrowBody isBlock
  return construct .arrowFunction (isAsync ++ inRole .parameter name ++ rest)

/-- `(x, y) => …`, also `async`, generic and with a result type. -/
def fullArrow (isBlock : Bool) : Grammar Forest := do
  let isAsync ← optional (keyword "async")
  let generics ← if ← typed then optional (field .typeParameters .typeParameters) else pure []
  let params ← field .parameters .parameters
  -- In a branch of a conditional the colon may belong to the conditional.
  let result ← if (← typed) && (← surroundings).typedArrows then
      optional do return inRole .returnType (← resultAscription)
    else pure []
  let rest ← arrowBody isBlock
  return construct .arrowFunction (isAsync ++ generics ++ params ++ result ++ rest)

/-- The words and the star that may stand before the name of a method. -/
def methodModifier (allowed : List String) : Grammar Forest := do
  let t ← look
  if t.lexeme == .punct "*" then accept t (.token "*")
  else match modifierWord t with
    | some w =>
      -- A brace or dots after the word make it a name of its own.
      if !allowed.contains w || (lookPast t).lexeme == .punct "\x7b" ||
          (lookPast t).lexeme == .punct "..." then failure
      else if ["public", "private", "protected"].contains w then
        return construct .accessibilityModifier (← accept t (.token w))
      else if w == "override" then return construct .overrideModifier (← accept t (.token w))
      else accept t (.token w)
    | none => failure

/-- A method of an object literal. -/
def objectMethod : Grammar Forest := do
  let modifiers ← many (methodModifier ["async", "get", "set", "static", "readonly"])
  let name ← field .name .propertyName
  let sig ← enclosed signature
  let b ← body false
  return construct .methodDefinition (modifiers ++ name ++ sig ++ b)

/-- One member of an object literal. -/
def objectMember : Grammar Forest := do
  let spread : Grammar Forest := do
    let dots ← punct "..."
    let value ← call .expression
    return construct .spreadElement (dots ++ value)
  let pair : Grammar Forest := do
    let key ← field .key .propertyName
    let colon ← punct ":"
    let value ← field .value .expression
    return construct .pair (key ++ colon ++ value)
  let short : Grammar Forest := do
    let t ← look
    let name ← nameAs .shorthandPropertyIdentifier
    -- A default makes sense only if the object turns out to be a pattern.
    if ← atPunct "=" then
      let preset ← defaultValue .right
      return t.comments ++ construct .objectAssignmentPattern
        (inRole .left (asKind .shorthandPropertyIdentifierPattern
          (name.filter fun p => !p.isComment)) ++ preset)
    else return name
  -- All but the first start with a name, and what follows it decides.
  spread <|> pair <|> objectMethod <|> short

/-- An object literal. -/
def objectLiteral : Grammar Forest := do
  let opening ← punct "\x7b"
  let members ← enclosed (sparseItems objectMember)
  let closing ← punct "\x7d"
  return construct .object (opening ++ members ++ closing)

end ScriptGraph.Syntax.Grammar
