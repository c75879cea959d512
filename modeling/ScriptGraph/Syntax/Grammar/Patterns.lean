import ScriptGraph.Syntax.Grammar.Basic

/-!
# Names and patterns

Property names, the patterns that bind names, and the reading of an object or array literal as a
pattern once an assignment sign follows it.
-/

namespace ScriptGraph.Syntax

/-- An expression as the pattern it spells: literals become patterns, elements with a default
become bindings with a default, and spreads become rests. -/
def Tree.asPattern : Tree → Tree
  | .node l r s e cs =>
    if l == .construct .array then .node (.construct .arrayPattern) r s e (allAsPatterns cs)
    else if l == .construct .object then
      .node (.construct .objectPattern) r s e (allAsPatterns cs)
    else if l == .construct .pair then .node (.construct .pairPattern) r s e (valuesAsPatterns cs)
    else if l == .construct .spreadElement then
      .node (.construct .restPattern) r s e (allAsPatterns cs)
    else if l == .construct .assignmentExpression then
      .node (.construct .assignmentPattern) r s e cs
    else if l == .construct .shorthandPropertyIdentifier then
      .node (.construct .shorthandPropertyIdentifierPattern) r s e cs
    else .node l r s e cs
where
  /-- All trees as patterns. -/
  allAsPatterns : List Tree → List Tree
    | [] => []
    | t :: ts => t.asPattern :: allAsPatterns ts
  /-- The values among the parts of a pair as patterns. -/
  valuesAsPatterns : List Tree → List Tree
    | [] => []
    | t :: ts => (if t.role == some .value then t.asPattern else t) :: valuesAsPatterns ts

namespace Grammar

/-- Reads a name between brackets that is computed. -/
def computedName : Grammar Forest := do
  let opening ← punct "["
  let inner ← enclosed (call .expressions)
  let closing ← punct "]"
  return construct .computedPropertyName (opening ++ inner ++ closing)

/-- The name of a property or member. -/
def propertyName : Grammar Forest := do
  let t ← look
  match t.lexeme with
  | .word _ => acceptAs t .propertyIdentifier
  | .privateName => acceptAs t .privatePropertyIdentifier
  | .string => acceptAs t .string
  | .number => acceptAs t .number
  | .punct "[" => computedName
  | _ => failure

/-- `= value` after a pattern. -/
def defaultValue (role : Field) : Grammar Forest := do
  let eq ← punct "="
  let value ← enclosed (field role .expression)
  return eq ++ value

/-- A pattern, with the value it takes by default. -/
def patternWithDefault : Grammar Forest := do
  let p ← call .pattern
  if ← atPunct "=" then
    let preset ← defaultValue .right
    return construct .assignmentPattern (inRole .left p ++ preset)
  else return p

/-- `...pattern`. -/
def restPattern : Grammar Forest := do
  let dots ← punct "..."
  let p ← call .pattern
  return construct .restPattern (dots ++ p)

/-- One member of an object pattern. -/
def objectPatternMember : Grammar Forest := do
  let renamed : Grammar Forest := do
    let key ← call .propertyName
    let colon ← punct ":"
    let value ← patternWithDefault
    return construct .pairPattern (inRole .key key ++ colon ++ inRole .value value)
  let short : Grammar Forest := do
    let name ← nameAs .shorthandPropertyIdentifierPattern
    if ← atPunct "=" then
      let preset ← defaultValue .right
      return construct .objectAssignmentPattern (inRole .left name ++ preset)
    else return name
  -- The colon after a name tells a renamed member from a short one.
  restPattern <|> renamed <|> short

/-- A pattern that takes a value apart. -/
def destructuring : Grammar Forest := do
  let t ← look
  match t.lexeme with
  | .punct "\x7b" => do
    let opening ← punct "\x7b"
    let members ← enclosed (commaItems objectPatternMember)
    let closing ← punct "\x7d"
    return construct .objectPattern (opening ++ members ++ closing)
  | .punct "[" => do
    let opening ← punct "["
    let items ← enclosed (sparseItems (restPattern <|> patternWithDefault))
    let closing ← punct "]"
    return construct .arrayPattern (opening ++ items ++ closing)
  | _ => failure

/-- Any pattern. -/
def pattern : Grammar Forest := do
  let t ← look
  -- The word stands for its value even where a name is bound.
  if t.lexeme == .word "undefined" then acceptAs t .undefinedLiteral
  else destructuring <|> restPattern <|> identifier

end Grammar

end ScriptGraph.Syntax
