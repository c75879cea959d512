import ScriptGraph.Syntax.Grammar.Basic

/-!
# Type syntax

Annotations, type arguments and parameters, and the types themselves, from conditional types down
to names. A line break before `[` or `extends` ends a type where it may end a statement.
-/

namespace ScriptGraph.Syntax.Grammar

/-- A word as the name of a type. -/
def typeName : Grammar Forest :=
  nameAs .typeIdentifier

/-- `: type`, as an annotation. -/
def typeAscription : Grammar Forest := do
  let colon ← punct ":"
  let t ← call .type
  return construct .typeAscription (colon ++ t)

/-- `asserts x` or `asserts x is T`, and `x is T`. -/
def predicate : Grammar Forest := do
  let subject : Grammar Forest := do
    if ← atWord "this" then
      acceptAs (← look) .thisExpression
    else identifier
  let isTest : Grammar Forest := do
    let name ← subject
    let t ← look
    -- On the next line `is` would be a name.
    if t.lineBreak then failure
    let is ← keyword "is"
    let type ← field .type .type
    return construct .typePredicate (inRole .name name ++ is ++ type)
  let asserted : Grammar Forest := do
    let word ← keyword "asserts"
    let what ← isTest <|> subject
    return construct .asserts (word ++ what)
  asserted <|> isTest

/-- The annotation of a result: a type, or a predicate on the arguments. -/
def resultAscription : Grammar Forest := do
  let ofPredicate : Grammar Forest := do
    let colon ← punct ":"
    let p ← predicate
    let isAssertion := p.any (·.isKind .asserts)
    return construct (if isAssertion then .assertsAscription else .typePredicateAscription)
      (colon ++ p)
  -- A type may start with the same name, so the predicate is tried first.
  ofPredicate <|> typeAscription

/-- Type arguments between angle brackets. -/
def typeArguments : Grammar Forest := do
  -- The brackets are read by character, since `>>` may close two lists.
  let opening ← symbol "<"
  let types ← enclosed (separated (punct ",") (call .type))
  let closing ← symbol ">"
  return construct .typeArguments (opening ++ types ++ closing)

/-- One type parameter with its bound and its default. -/
def typeParameter : Grammar Forest := do
  let modifiers ← many (do
    let t ← look
    -- These words are modifiers only with another word behind them.
    match t.lexeme, (lookPast t).lexeme with
    | .word "const", .word _ | .word "in", .word _ | .word "out", .word _ =>
      match t.lexeme with
      | .word w => accept t (.token w)
      | _ => failure
    | _, _ => failure)
  let name ← typeName
  let bound ← optional do
    let word ← keyword "extends"
    let t ← call .type
    return inRole .constraint (construct .constraint (word ++ t))
  let preset ← optional do
    let eq ← punct "="
    let t ← call .type
    return inRole .value (construct .defaultType (eq ++ t))
  return construct .typeParameter (modifiers ++ inRole .name name ++ bound ++ preset)

/-- Type parameters between angle brackets. -/
def typeParameters : Grammar Forest := do
  let opening ← symbol "<"
  let params ← enclosed (separated (punct ",") typeParameter)
  let closing ← symbol ">"
  return construct .typeParameters (opening ++ params ++ closing)

/-- Type parameters, parameters and the type after an arrow. -/
def arrowType (result : Field) (k : Kind) (before : Forest) : Grammar Forest := do
  let generics ← optional (field .typeParameters .typeParameters)
  let params ← field .parameters .parameters
  let arrow ← punct "=>"
  let t ← predicate <|> call .type
  return construct k (before ++ generics ++ params ++ arrow ++ inRole result t)

/-- `new () => T`, also `abstract`. -/
def constructorType : Grammar Forest := do
  let isAbstract ← optional (keyword "abstract")
  let new ← keyword "new"
  arrowType .type .constructorType (isAbstract ++ new)

/-- A property or a path of them after a name, as in `typeof a.b`. -/
def queryPath : Grammar Forest := do
  let head : Grammar Forest := do
    let t ← look
    match t.lexeme with
    | .word "this" => acceptAs t .thisExpression
    | .word "import" => do
      let callee ← acceptAs t .importCallee
      let args ← field .arguments .arguments
      return construct .callExpression (inRole .callee callee ++ args)
    | _ => identifier
  let start ← head
  extend start fun object => do
    let dot ← punct "." <|> punct "?."
    let t ← look
    let property ← if t.lexeme == .privateName then acceptAs t .privatePropertyIdentifier
      else wordAs .propertyIdentifier
    return construct .memberExpression
      (inRole .object object ++ dot ++ inRole .property property)

/-- `typeof x.y`, possibly with type arguments. -/
def typeQuery : Grammar Forest := do
  let word ← keyword "typeof"
  let path ← queryPath
  let t ← look
  -- An angle bracket on the next line does not belong to the path.
  let full ← if t.lexeme == .punct "<" && !t.lineBreak then
      (do
        let args ← field .typeArguments .typeArguments
        return construct .instantiationExpression (path ++ args)) <|> pure path
    else pure path
  return construct .typeQuery (word ++ full)

/-- A name, a qualified name, and either with type arguments. -/
def namedType : Grammar Forest := do
  let t ← look
  let qualified : Grammar Forest := do
    let first ← identifier
    let dots ← many do
      let dot ← punct "."
      let name ← wordAs .identifier
      return dot ++ name
    let parts := first ++ dots
    if dots.isEmpty then return asKind .typeIdentifier first
    -- Qualifiers nest to the left, and only the last name is that of a type.
    let rec assemble (qualifier : Forest) : Forest → Forest
      | [dot, last] =>
        construct .nestedTypeIdentifier (inRole .qualifier qualifier ++ [dot] ++
          inRole .name (asKind .typeIdentifier [last]))
      | dot :: name :: rest =>
        assemble (construct .nestedIdentifier (inRole .object qualifier ++ [dot] ++
          inRole .property (asKind .propertyIdentifier [name]))) rest
      | _ => qualifier
    let plain := parts.filter fun p => !p.isComment
    match plain with
    | head :: rest => return t.comments ++ assemble [head] rest
    | [] => failure
  let name ← qualified
  let next ← look
  -- If no type arguments follow the bracket, the name stands alone.
  if next.lexeme == .punct "<" then
    (do
      let args ← field .typeArguments .typeArguments
      return construct .genericType (inRole .name name ++ args)) <|> pure name
  else return name

/-- One member of a tuple type. -/
def tupleMember : Grammar Forest := do
  let named : Grammar Forest := do
    let name ← identifier
    let mark ← optional (punct "?")
    let type ← typeAscription
    return construct (if mark.isEmpty then .requiredParameter else .optionalParameter)
      (inRole .name name ++ mark ++ inRole .type type)
  let namedRest : Grammar Forest := do
    let dots ← punct "..."
    let name ← identifier
    let type ← typeAscription
    return construct .requiredParameter
      (inRole .name (construct .restPattern (dots ++ name)) ++ inRole .type type)
  let rest : Grammar Forest := do
    let dots ← punct "..."
    let t ← call .type
    return construct .restType (dots ++ t)
  let plain : Grammar Forest := do
    let t ← call .type
    let mark ← optional (punct "?")
    return if mark.isEmpty then t else construct .optionalType (t ++ mark)
  -- A name with a colon comes first, since a type may start with a name too.
  named <|> namedRest <|> rest <|> plain

/-- A template literal in a type. -/
def templateType : Grammar Forest := do
  let opening ← symbol "\x60"
  let parts ← many do
    let c ← get
    let n := Scan.templateChars c.rest
    if n != 0 then
      let after := c.advance n
      set after
      return [Tree.leaf (.construct .stringFragment) c.offset after.offset]
    else if "$\x7b".toList.isPrefixOf c.rest then
      let after := c.advance 2
      set after
      let t ← enclosed (call .type)
      let closing ← punct "\x7d"
      return construct .templateType
        (Tree.leaf (.token "$\x7b") c.offset after.offset :: t ++ closing)
    else failure
  let c ← get
  match c.rest with
  | _ :: _ =>
    let after := c.advance 1
    set after
    return construct .templateLiteralType
      (opening ++ parts ++ [Tree.leaf (.token "\x60") c.offset after.offset])
  | [] => failure

/-- The types that a single word names. -/
def predefined : List String :=
  ["any", "number", "boolean", "string", "symbol", "void", "unknown", "never", "object"]

/-- A type that starts with a word. -/
def wordType (t : Token) (w : String) : Grammar Forest := do
  match w with
  | "typeof" => typeQuery
  | "keyof" => (do
      let word ← keyword "keyof"
      let operand ← call .primaryType
      return construct .indexTypeQuery (word ++ operand)) <|> namedType
  | "unique" => (do
      let word ← keyword "unique"
      let symbol ← keyword "symbol"
      return construct .predefinedType (word ++ symbol)) <|> namedType
  | "this" => acceptAs t .thisType
  | "true" => return construct .literalType (← acceptAs t .trueLiteral)
  | "false" => return construct .literalType (← acceptAs t .falseLiteral)
  | "null" => return construct .literalType (← acceptAs t .nullLiteral)
  | "undefined" => return construct .literalType (← acceptAs t .undefinedLiteral)
  | "import" => queryPath
  | "const" => accept t (.token "const")
  | "void" => acceptAs t .predefinedType
  | _ =>
    -- Before a dot the word names a namespace.
    if predefined.contains w && (lookPast t).lexeme != .punct "." then acceptAs t .predefinedType
    else namedType

/-- A type that is not built with an infix operator. -/
def atomicType : Grammar Forest := do
  let t ← look
  match t.lexeme with
  | .word w => wordType t w
  | .string => return construct .literalType (← acceptAs t .string)
  | .number => return construct .literalType (← acceptAs t .number)
  | .punct "\x7b" => call .objectType
  | .punct "[" => do
    let opening ← punct "["
    let members ← enclosed (commaItems tupleMember)
    let closing ← punct "]"
    return construct .tupleType (opening ++ members ++ closing)
  | .punct "(" => do
    let opening ← punct "("
    let inner ← enclosed (call .type)
    let closing ← punct ")"
    return construct .parenthesizedType (opening ++ inner ++ closing)
  | .punct "\x60" => templateType
  | .punct "-" => do
    let sign ← punct "-"
    let n ← number
    return construct .literalType
      (construct .unaryExpression (inRole .operator sign ++ inRole .argument n))
  | .punct "*" => acceptAs t .existentialType
  | _ => failure

/-- An atomic type with array and look-up brackets after it. -/
def primaryType : Grammar Forest := do
  let first ← atomicType
  extend first fun base => do
    let t ← look
    -- A bracket on the next line may start a statement.
    if t.lineBreak && (← surroundings).lineEnds then failure
    let opening ← punct "["
    let inner ← optional (enclosed (call .type))
    let closing ← punct "]"
    return construct (if inner.isEmpty then .arrayType else .lookupType)
      (base ++ opening ++ inner ++ closing)

/-- A type with a word in front, or a primary type. -/
def operandType : Grammar Forest := do
  let t ← look
  let next := (lookPast t).lexeme
  -- With no type behind them, `readonly` and `infer` are names of types.
  let startsType : Bool :=
    match next with
    | .word _ | .string | .number => true
    | .punct p => ["\x7b", "(", "[", "\x60"].contains p
    | _ => false
  match t.lexeme with
  | .word "readonly" =>
    if startsType then
      let word ← keyword "readonly"
      let operand ← primaryType
      return construct .readonlyType (word ++ operand)
    else primaryType
  | .word "infer" =>
    if startsType then
      let word ← keyword "infer"
      let name ← typeName
      let bound ← optional do
        let extends_ ← keyword "extends"
        let bound ← call .type
        return extends_ ++ bound
      return construct .inferType (word ++ name ++ bound)
    else primaryType
  | .word "new" => constructorType
  | .word "abstract" => if next == .word "new" then constructorType else primaryType
  -- Only the arrow tells parameters from a type in parentheses.
  | .punct "(" => arrowType .returnType .functionType [] <|> primaryType
  | .punct "<" => arrowType .returnType .functionType []
  | _ => primaryType

/-- Types joined by an infix operator, which may also stand in front of the first. -/
def joinedType (operator : String) (k : Kind) (operand : Grammar Forest) : Grammar Forest := do
  let leading ← optional (punct operator)
  let first ← operand
  -- An operator in front makes a construct even of a single type.
  let start := if leading.isEmpty then first else construct k (leading ++ first)
  extend start fun left => do
    let op ← punct operator
    let right ← operand
    return construct k (left ++ op ++ right)

/-- Any type. -/
def anyType : Grammar Forest := do
  let left ← joinedType "|" .unionType (joinedType "&" .intersectionType operandType)
  let t ← look
  if t.lexeme == .word "extends" && !(t.lineBreak && (← surroundings).lineEnds) then
    (do
      let word ← keyword "extends"
      -- A conditional type after `extends` would take over the question mark.
      let right ← joinedType "|" .unionType (joinedType "&" .intersectionType operandType)
      let mark ← punct "?"
      let consequence ← field .consequence .type
      let colon ← punct ":"
      let alternative ← field .alternative .type
      return construct .conditionalType (inRole .left left ++ word ++ inRole .right right ++ mark ++
        consequence ++ colon ++ alternative)) <|> pure left
  else return left

end ScriptGraph.Syntax.Grammar
