import ScriptGraph.Syntax.Grammar.Markup

/-!
# Expressions

From sequences and assignments down to literals. Infix operators are read by precedence, and
calls, members and the like extend the expression before them.
-/

namespace ScriptGraph.Syntax.Grammar

/-- `(a, b)` after a callee. -/
def argumentList : Grammar Forest := do
  let opening ← punct "("
  let spread : Grammar Forest := do
    let dots ← punct "..."
    let value ← call .expression
    return construct .spreadElement (dots ++ value)
  let items ← enclosed (sparseItems (spread <|> call .expression))
  let closing ← punct ")"
  return construct .arguments (opening ++ items ++ closing)

/-- A template literal with its substitutions. -/
def templateLiteral : Grammar Forest := do
  let opening ← symbol "\x60"
  let parts ← many do
    let c ← get
    let n := Scan.templateChars c.rest
    -- The text of a template is read as it stands, without passing white space.
    if n != 0 then
      let after := c.advance n
      set after
      return [Tree.leaf (.construct .stringFragment) c.offset after.offset]
    else if "$\x7b".toList.isPrefixOf c.rest then
      let after := c.advance 2
      set after
      let e ← enclosed (call .expressions)
      let closing ← punct "\x7d"
      return construct .templateSubstitution
        (Tree.leaf (.token "$\x7b") c.offset after.offset :: e ++ closing)
    else failure
  let c ← get
  match c.rest with
  | _ :: _ =>
    let after := c.advance 1
    set after
    return construct .templateString
      (opening ++ parts ++ [Tree.leaf (.token "\x60") c.offset after.offset])
  | [] => failure

/-- A regular expression with its flags. -/
def regex : Grammar Forest := do
  let opening ← symbol "/"
  let c ← get
  match Scan.regexPattern false c.rest with
  | none => failure
  | some n =>
    let atSlash := c.advance n
    let after := atSlash.advance 1
    let flagged := after.advance (after.rest.takeWhile Char.isAlpha).length
    set flagged
    let flags :=
      if flagged.offset == after.offset then []
      else inRole .flags [Tree.leaf (.construct .regexFlags) after.offset flagged.offset]
    return construct .regex (opening ++
      inRole .pattern [Tree.leaf (.construct .regexPattern) c.offset atSlash.offset] ++
      [Tree.leaf (.token "/") atSlash.offset after.offset] ++ flags)

/-- An expression in parentheses. -/
def parenthesized : Grammar Forest := do
  let opening ← punct "("
  let inner ← enclosed (call .expressions)
  let type ← if ← typed then optional do return inRole .type (← typeAscription) else pure []
  let closing ← punct ")"
  return construct .parenthesizedExpression (opening ++ inner ++ type ++ closing)

/-- An array literal. -/
def arrayLiteral : Grammar Forest := do
  let opening ← punct "["
  let spread : Grammar Forest := do
    let dots ← punct "..."
    let value ← call .expression
    return construct .spreadElement (dots ++ value)
  let items ← enclosed (sparseItems (spread <|> call .expression))
  let closing ← punct "]"
  return construct .array (opening ++ items ++ closing)

/-- `import` as a callee, or `import.meta`. -/
def importExpression (t : Token) : Grammar Forest := do
  if (lookPast t).lexeme == .punct "." then
    let word ← keyword "import"
    let dot ← punct "."
    let meta_ ← keyword "meta"
    return construct .metaProperty (word ++ dot ++ meta_)
  else acceptAs t .importCallee

/-- An expression that needs no operator. -/
def atom : Grammar Forest := do
  let t ← look
  match t.lexeme with
  | .word w =>
    match w with
    | "this" => acceptAs t .thisExpression
    | "super" => acceptAs t .superExpression
    | "null" => acceptAs t .nullLiteral
    | "true" => acceptAs t .trueLiteral
    | "false" => acceptAs t .falseLiteral
    | "undefined" => acceptAs t .undefinedLiteral
    | "function" => functionExpression
    | "class" => call .className
    | "import" => importExpression t
    | "async" =>
      let next := lookPast t
      -- At the end of a line `async` is a name.
      if next.lexeme == .word "function" && !next.lineBreak then functionExpression
      else acceptAs t .identifier
    | _ => identifier
  | .number => acceptAs t .number
  | .string => acceptAs t .string
  | .punct "(" => parenthesized
  | .punct "[" => arrayLiteral
  | .punct "\x7b" => objectLiteral
  | .punct "\x60" => templateLiteral
  -- Where an operand is expected, a slash cannot divide.
  | .punct "/" | .punct "/=" => regex
  | .punct "@" => call .className
  | .punct p =>
    -- The scanner takes `<` together with what follows it where that is punctuation too.
    if p.startsWith "<" && (← surroundings).dialect.hasMarkup then call .markup else failure
  | _ => failure

/-- `.name`, also with a question mark in front of the dot. -/
def memberOf (object : Forest) : Grammar Forest := do
  let t ← look
  let dot ← match t.lexeme with
    | .punct "." => punct "."
    | .punct "?." => do pure (inRole .optionalChain (← acceptAs t .optionalChain))
    | _ => failure
  let name ← look
  let property ← if name.lexeme == .privateName then acceptAs name .privatePropertyIdentifier
    else wordAs .propertyIdentifier
  return construct .memberExpression (inRole .object object ++ dot ++ inRole .property property)

/-- `[index]`, also with a question mark and a dot in front. -/
def elementOf (object : Forest) : Grammar Forest := do
  let t ← look
  let chain ← if t.lexeme == .punct "?." then
      do pure (inRole .optionalChain (← acceptAs t .optionalChain))
    else pure []
  let opening ← punct "["
  let index ← enclosed (field .index .expressions)
  let closing ← punct "]"
  return construct .subscriptExpression
    (inRole .object object ++ chain ++ opening ++ index ++ closing)

/-- The tokens after which a list of type arguments cannot be the middle of a comparison. -/
def endsInstantiation (t : Token) : Bool :=
  match t.lexeme with
  | .punct p => [")", "]", "\x7d", ",", ";", ":", "?", ".", "==", "===", "!=", "!==",
    "&&", "||", "??",
      "|", "&", "^", "=", "?."].contains p
  | .ending => true
  | _ => t.lineBreak

/-- Type arguments after an expression, and the call they belong to, if there is one. -/
def genericCallOf (callee : Forest) : Grammar Forest := do
  let generics ← field .typeArguments .typeArguments
  let t ← look
  if t.lexeme == .punct "(" then
    let args ← field .arguments .arguments
    return construct .callExpression (inRole .callee callee ++ generics ++ args)
  -- Any other token would make the brackets comparisons.
  else if endsInstantiation t then
    return construct .instantiationExpression (callee ++ generics)
  else failure

/-- What may follow an expression directly. `calls` tells whether arguments may. -/
def trailerOf (calls : Bool) (base : Forest) : Grammar Forest := do
  let t ← look
  match t.lexeme with
  | .punct "." => memberOf base
  | .punct "?." =>
    if !calls then failure
    let next := (lookPast t).lexeme
    if next == .punct "[" then elementOf base
    else if next == .punct "(" || next == .punct "<" then
      -- Only plain dialects give the question mark of a call a construct of its own.
      let chain ← if ← typed then punct "?."
        else do pure (inRole .optionalChain (← acceptAs t .optionalChain))
      let generics ← optional (field .typeArguments .typeArguments)
      let args ← field .arguments .arguments
      return construct .callExpression (inRole .callee base ++ chain ++ generics ++ args)
    else memberOf base
  | .punct "[" => elementOf base
  | .punct "(" =>
    if !calls then failure
    let args ← field .arguments .arguments
    return construct .callExpression (inRole .callee base ++ args)
  | .punct "\x60" =>
    if !calls then failure
    let args ← templateLiteral
    return construct .callExpression (inRole .callee base ++ inRole .arguments args)
  | .punct "!" =>
    -- On the next line the mark negates the expression there.
    if !(← typed) || (t.lineBreak && (← surroundings).lineEnds) then failure
    let mark ← punct "!"
    return construct .nonNullExpression (base ++ mark)
  | .punct "<" | .punct "<<" =>
    if !calls || !(← typed) then failure
    genericCallOf base
  | _ => failure

/-- Arguments after a complete construction, which call what it makes. -/
def calledOf (made : Forest) : Grammar Forest := do
  let args ← optional (field .arguments .arguments)
  return if args.isEmpty then made else construct .callExpression (inRole .callee made ++ args)

/-- `new C(…)`, without arguments too, and `new.target`. Arguments after a construction that is
itself constructed belong to a call of it. -/
def newExpression (fuel : Nat) : Grammar Forest := do
  match fuel with
  | 0 => failure
  | fuel + 1 =>
    let word ← keyword "new"
    if ← atPunct "." then
      let dot ← punct "."
      let target ← keyword "target"
      return construct .metaProperty (word ++ dot ++ target)
    let head ← if ← atWord "new" then do calledOf (← newExpression fuel) else atom
    -- Arguments after the callee are those of the construction, so members only extend it.
    let ctor ← extend head (trailerOf false)
    -- An angle bracket after the class may be a comparison of what is made.
    let generics ← if ← typed then optional do
        let args ← field .typeArguments .typeArguments
        let t ← look
        if t.lexeme == .punct "(" || endsInstantiation t then return args else failure
      else pure []
    let args ← optional (field .arguments .arguments)
    return construct .newExpression (word ++ inRole .constructed ctor ++ generics ++ args)

/-- Whether an arrow function may start with this token. -/
def mayStartArrow (dialect : Dialect) (t : Token) : Bool :=
  let next := lookPast t
  match t.lexeme with
  | .punct "(" => true
  | .punct "<" => dialect.isTyped
  | .word "async" =>
    match next.lexeme with
    | .punct "(" | .punct "<" => true
    -- At the end of a line `async` is a name, and the arrow function starts on the next.
    | .word _ => !next.lineBreak
    | .punct "=>" => true
    | _ => false
  | .word _ => next.lexeme == .punct "=>"
  | _ => false

/-- An arrow function with a block or else an expression as its body, if one may start here. -/
def arrow (isBlock : Bool) : Grammar Forest := do
  let t ← look
  if !mayStartArrow (← surroundings).dialect t then failure
  if t.lexeme == .punct "(" || t.lexeme == .punct "<" then fullArrow isBlock
  -- A word may be the only parameter, or `async` in front of a parameter list.
  else simpleArrow isBlock <|> fullArrow isBlock

/-- An expression with its members, calls and so on. -/
def postfixChain : Grammar Forest := do
  let head ← if ← atWord "new" then do newExpression ((← get).rest.length + 1)
    -- An arrow function whose body is a block may be called or indexed; one without may not.
    else arrow true <|> atom
  extend head (trailerOf true)

/-- `++` or `--` after an expression on the same line. -/
def updated : Grammar Forest := do
  let base ← postfixChain
  let t ← look
  match t.lexeme with
  | .punct "++" | .punct "--" =>
    -- An operator on the next line belongs to the expression there.
    if t.lineBreak && (← surroundings).lineEnds then return base
    match t.lexeme with
    | .punct p =>
      let op ← punct p
      return construct .updateExpression (inRole .argument base ++ inRole .operator op)
    | _ => return base
  | _ => return base

/-- `as T` and `satisfies T` after an expression on the same line. -/
def ascribedOf (base : Forest) : Grammar Forest := do
  let t ← look
  if !(← typed) || (t.lineBreak && (← surroundings).lineEnds) then failure
  match t.lexeme with
  | .word "as" => do
    let word ← keyword "as"
    let type ← call .type
    return construct .asExpression (base ++ word ++ type)
  | .word "satisfies" => do
    let word ← keyword "satisfies"
    let type ← call .type
    return construct .satisfiesExpression (base ++ word ++ type)
  | _ => failure

/-- The operand after an operator. An arrow function with an expression as its body may stand there
too; the body then takes over the operators that follow. -/
def operandAt (role : Field) (n : Nonterminal) : Grammar Forest := do
  return inRole role (← arrow false <|> call n)

/-- An expression with an operator in front. -/
def unaryExpression : Grammar Forest := do
  let t ← look
  match t.lexeme with
  | .punct "!" | .punct "~" | .punct "+" | .punct "-" | .word "typeof" | .word "void"
  | .word "delete" => do
    let op ← match t.lexeme with
      | .punct p => punct p
      | .word w => keyword w
      | _ => failure
    let operand ← operandAt .argument .unary
    return construct .unaryExpression (inRole .operator op ++ operand)
  | .punct "++" | .punct "--" => do
    let op ← match t.lexeme with
      | .punct p => punct p
      | _ => failure
    let operand ← operandAt .argument .unary
    return construct .updateExpression (inRole .operator op ++ operand)
  | .word "await" =>
    (do
      let word ← keyword "await"
      let operand ← arrow false <|> call .unary
      -- An ascription belongs to what is awaited.
      let full ← extend operand ascribedOf
      return construct .awaitExpression (word ++ full)) <|> updated
  | .punct "<" =>
    -- With markup in the dialect, an angle bracket here opens an element.
    if (← surroundings).dialect == .ts then
      let generics ← call .typeArguments
      let operand ← call .unary
      return construct .typeAssertion (generics ++ operand)
    else updated
  | _ => updated

/-- The precedence of an infix operator, and whether it groups to the right. -/
def precedence (allowIn : Bool) : Lexeme → Option (Nat × Bool)
  | .punct "??" => some (1, false)
  | .punct "||" => some (2, false)
  | .punct "&&" => some (3, false)
  | .punct "|" => some (4, false)
  | .punct "^" => some (5, false)
  | .punct "&" => some (6, false)
  | .punct "==" | .punct "!=" | .punct "===" | .punct "!==" => some (7, false)
  | .punct "<" | .punct ">" | .punct "<=" | .punct ">=" | .word "instanceof" => some (8, false)
  | .word "in" => if allowIn then some (8, false) else none
  | .punct "<<" | .punct ">>" | .punct ">>>" => some (9, false)
  | .punct "+" | .punct "-" => some (10, false)
  | .punct "*" | .punct "/" | .punct "%" => some (11, false)
  | .punct "**" => some (12, true)
  | _ => none

/-- `#name in object`. A private name on its own is no expression. -/
def privateTest : Grammar Forest := do
  let t ← look
  if t.lexeme != .privateName then failure
  let name ← acceptAs t .privatePropertyIdentifier
  let op ← keyword "in"
  let right ← operandAt .right (.binary 9)
  return construct .binaryExpression (inRole .left name ++ inRole .operator op ++ right)

/-- Infix operators of at least a precedence. An ascription binds more loosely than any of them
on its left. -/
def binaryExpression (level : Nat) : Grammar Forest := do
  let first ← privateTest <|> call .unary
  extend first fun left => do
    let t ← look
    match precedence (← surroundings).allowIn t.lexeme with
    | some (p, toRight) =>
      -- A looser operator is left to the expression around.
      if p < level then failure
      let op ← match t.lexeme with
        | .punct s => punct s
        | .word w => keyword w
        | _ => failure
      let right ← operandAt .right (.binary (if toRight then p else p + 1))
      return construct .binaryExpression (inRole .left left ++ inRole .operator op ++ right)
    -- At level zero every operator to the left has its operands already.
    | none => if level == 0 then ascribedOf left else failure

/-- The operators that assign after computing. -/
def augmentedOperators : List String :=
  ["+=", "-=", "*=", "/=", "%=", "^=", "&=", "|=", ">>=", ">>>=", "<<=", "**=", "&&=", "||=", "??="]

/-- `a ? b : c` after the condition. -/
def conditional (condition : Forest) : Grammar Forest := do
  let mark ← punct "?"
  let withTypes : Grammar (Forest × Forest) := do
    let yes ← enclosed (field .consequence .expression)
    let colon ← punct ":"
    return (yes, colon)
  let withoutTypes : Grammar (Forest × Forest) := do
    let yes ← enclosed (within (fun s => { s with typedArrows := false })
      (field .consequence .expression))
    let colon ← punct ":"
    return (yes, colon)
  -- A colon after `(a)` may start the result type of an arrow function or end this branch.
  -- The first reading wins if it leaves a colon for the conditional.
  let (yes, colon) ← withTypes <|> withoutTypes
  let no ← field .alternative .expression
  return construct .ternaryExpression (inRole .condition condition ++ mark ++ yes ++ colon ++ no)

/-- `yield`, with a star and with nothing after it too. -/
def yieldExpression : Grammar Forest := do
  let word ← keyword "yield"
  let t ← look
  -- A value on the next line is a statement of its own.
  if t.lineBreak && (← surroundings).lineEnds then return construct .yieldExpression word
  let star ← optional (punct "*")
  let value ← optional (call .expression)
  return construct .yieldExpression (word ++ star ++ value)

/-- An assignment, a conditional or anything that binds more tightly. -/
def operation : Grammar Forest := do
  let left ← call (.binary 0)
  let t ← look
  match t.lexeme with
  | .punct "=" => do
    let eq ← punct "="
    let right ← field .right .expression
    return construct .assignmentExpression
      -- Only the sign tells that what stands before it is a target.
      (inRole .left (left.map fun p => if p.isComment then p else p.asPattern) ++ eq ++ right)
  | .punct "?" => conditional left
  | .punct p =>
    if augmentedOperators.contains p then
      let op ← punct p
      let right ← field .right .expression
      return construct .augmentedAssignmentExpression
        (inRole .left left ++ inRole .operator op ++ right)
    else return left
  | _ => return left

/-- One expression. -/
def expression : Grammar Forest := do
  let t ← look
  let rest : Grammar Forest :=
    -- Outside generators `yield` is a name.
    if t.lexeme == .word "yield" then yieldExpression <|> operation else operation
  -- The body of an arrow function takes over all that follows, so it is tried first.
  arrow false <|> rest

/-- Expressions separated by commas. -/
def expressions : Grammar Forest := do
  let first ← call .expression
  let more ← many do
    let comma ← punct ","
    let next ← call .expression
    return comma ++ next
  return if more.isEmpty then first else construct .sequenceExpression (first ++ more)

end ScriptGraph.Syntax.Grammar
