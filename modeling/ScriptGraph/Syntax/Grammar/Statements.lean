import ScriptGraph.Syntax.Grammar.Modules

/-!
# Statements and declarations

Everything that stands in a block or at the top of a file. A statement's semicolon, written or
implied by a line end, is part of it.
-/

namespace ScriptGraph.Syntax.Grammar

/-- Statements between braces, and the comments up to the line end after them. -/
def block (inExpression : Bool) : Grammar Forest := do
  let opening ← punct "\x7b"
  let statements ← atStatements (many (call .statement))
  let closing ← punct "\x7d"
  -- An operator may follow a function expression, and none follows any other block.
  let ending ← optional (lineEnd inExpression false)
  return construct .statementBlock (opening ++ statements ++ closing ++ ending)

/-- `= value` after a declared name. -/
def initialValue : Grammar Forest := do
  let eq ← punct "="
  let value ← field .value .expression
  return eq ++ value

/-- One declared variable, and whether its value is an expression. -/
def variableDeclarator : Grammar Forest := do
  let name ← destructuring <|> identifier
  let mark ← if ← typed then optional (punct "!") else pure []
  let type ← if ← typed then optional do return inRole .type (← typeAscription) else pure []
  let value ← optional initialValue
  return construct .variableDeclarator (inRole .name name ++ mark ++ type ++ value)

/-- The declared variables after their keyword, and whether the last one has a value. -/
def variableDeclarators : Grammar (Forest × Bool) := do
  let first ← variableDeclarator
  let more ← many do
    let comma ← punct ","
    let next ← variableDeclarator
    return comma ++ next
  let all := first ++ more
  -- An operator can follow only if the statement ends in an expression.
  let valued := match all.getLast? with
    | some t => t.children.any (·.role == some .value)
    | none => false
  return (all, valued)

/-- The keyword of a variable declaration and the kind of construct it opens. -/
def variableKeyword : Grammar (Forest × Kind) := do
  let t ← look
  match t.lexeme with
  | .word "var" => return (← keyword "var", .variableDeclaration)
  | .word "let" => return (inRole .kind (← keyword "let"), .lexicalDeclaration)
  | .word "const" => return (inRole .kind (← keyword "const"), .lexicalDeclaration)
  | _ => failure

/-- Variables with their semicolon. -/
def variableDeclaration (ending : Bool → Grammar Forest) : Grammar Forest := do
  let (word, kind) ← variableKeyword
  let (names, valued) ← variableDeclarators
  let last ← ending valued
  return construct kind (word ++ names ++ last)

/-- A function, a generator, or the signature of one. -/
def functionDeclaration : Grammar Forest := do
  let isAsync ← optional do
    let t ← look
    let next := lookPast t
    if next.lexeme == .word "function" && !next.lineBreak then keyword "async" else failure
  let word ← keyword "function"
  let star ← optional (punct "*")
  let name ← identifier
  let sig ← signature
  let head := isAsync ++ word ++ star ++ inRole .name name ++ sig
  if ← atPunct "\x7b" then
    let b ← body false
    return construct
      (if star.isEmpty then .functionDeclaration else .generatorFunctionDeclaration) (head ++ b)
  -- Without a body it declares an overload or an ambient function.
  else if ← typed then
    let ending ← lineEnd false true <|> punct ";"
    return construct .functionSignature (head ++ ending)
  else failure

/-- A name for a type. -/
def typeAliasDeclaration : Grammar Forest := do
  let word ← keyword "type"
  let name ← typeName
  let generics ← optional (field .typeParameters .typeParameters)
  let eq ← punct "="
  let type ← field .value .type
  let ending ← semicolon false
  return construct .typeAliasDeclaration
    (word ++ inRole .name name ++ generics ++ eq ++ type ++ ending)

/-- A declaration that only typed dialects have; `nested` reads the one after `declare`. -/
def typedDeclaration (nested : Grammar Forest) : Grammar Forest := do
  if !(← typed) then failure
  let t ← look
  match t.lexeme with
  | .word "type" => typeAliasDeclaration
  | .word "interface" => interfaceDeclaration
  | .word "namespace" | .word "module" => moduleDeclaration
  | .word "declare" => ambientDeclaration nested
  | .word "enum" => enumDeclaration
  -- A `const` without `enum` is left to the declarations that all dialects have.
  | .word "const" => enumDeclaration
  | .word "abstract" => classDeclaration
  | .word "import" => importAlias
  | _ => failure

/-- A declaration, in which ambient ones may nest to a depth. -/
def declarationFrom : Nat → Grammar Forest
  | 0 => failure
  | depth + 1 => do
    let t ← look
    let plain : Grammar Forest :=
      match t.lexeme with
      | .word "var" | .word "let" | .word "const" => variableDeclaration semicolon
      | .word "function" | .word "async" => functionDeclaration
      | .word "class" => classDeclaration
      | .punct "@" => classDeclaration
      | _ => failure
    typedDeclaration (declarationFrom depth) <|> plain

/-- A declaration. -/
def declaration : Grammar Forest :=
  declarationFrom 4

/-- An expression in parentheses after a keyword. -/
def condition (role : Field) : Grammar Forest := do
  let opening ← punct "("
  let inner ← enclosed (call .expressions)
  let closing ← punct ")"
  return inRole role (construct .parenthesizedExpression (opening ++ inner ++ closing))

/-- `if`, with its other branch. -/
def ifStatement : Grammar Forest := do
  let word ← keyword "if"
  let test ← condition .condition
  let yes ← field .consequence .statement
  let no ← optional do
    let word ← keyword "else"
    let s ← call .statement
    return inRole .alternative (construct .elseClause (word ++ s))
  return construct .ifStatement (word ++ test ++ yes ++ no)

/-- The label of one group of statements of a `switch`, with the colon. -/
def switchLabel : Grammar (Forest × Kind) := do
  if ← atWord "default" then
    let word ← keyword "default"
    let colon ← punct ":"
    return (word ++ colon, .switchDefault)
  else
    let word ← keyword "case"
    let value ← field .value .expressions
    let colon ← punct ":"
    return (word ++ value ++ colon, .switchCase)

/-- `switch` with its cases. -/
def switchStatement : Grammar Forest := do
  let word ← keyword "switch"
  let value ← condition .value
  let opening ← punct "\x7b"
  let cases ← atStatements (many do
    let (label, kind) ← switchLabel
    let statements ← many (field .body .statement)
    return construct kind (label ++ statements))
  let closing ← punct "\x7d"
  let b := construct .switchBody (opening ++ cases ++ closing)
  return construct .switchStatement (word ++ value ++ inRole .body b)

/-- The header of a loop over the elements or keys of a value. -/
def iterationHeader : Grammar Forest := do
  let declared : Grammar Forest := do
    let (word, _) ← variableKeyword
    let name ← destructuring <|> identifier
    let value ← optional do
      let eq ← punct "="
      -- Here `in` is the word of the header and no operator.
      let v ← within (fun s => { s with allowIn := false }) (field .value .expression)
      return eq ++ v
    return inRole .kind word ++ inRole .left name ++ value
  let assigned : Grammar Forest := do
    -- What turns out to be a target has been read as an expression.
    let target ← postfixChain
    return inRole .left (target.map fun t => if t.isComment then t else t.asPattern)
  let head (left : Grammar Forest) : Grammar Forest := do
    let target ← left
    let op ← keyword "of" <|> keyword "in"
    return target ++ inRole .operator op
  let start ← head declared <|> head assigned
  let right ← field .right .expressions
  return start ++ right

/-- An empty statement in a role. -/
def emptyIn (role : Field) : Grammar Forest := do
  return inRole role (construct .emptyStatement (← punct ";"))

/-- The header of a loop with a start, a test and a step. -/
def countingHeader : Grammar Forest := do
  let declared : Grammar Forest := do
    return inRole .initializer (← variableDeclaration fun _ => punct ";")
  let computed : Grammar Forest := do
    let first ← field .initializer .expressions
    let ending ← punct ";"
    return first ++ ending
  -- Up to the first semicolon `in` is no operator in this header either.
  let first ← within (fun s => { s with allowIn := false })
    (declared <|> emptyIn .initializer <|> computed)
  let test : Grammar Forest := do
    let e ← call .expressions
    let ending ← punct ";"
    return inRole .condition (e ++ ending)
  let tested ← emptyIn .condition <|> test
  let step ← optional (field .increment .expressions)
  return first ++ tested ++ step

/-- Any `for` loop. -/
def forStatement : Grammar Forest := do
  let word ← keyword "for"
  let isAwait ← optional (keyword "await")
  let opening ← punct "("
  let iteration : Grammar (Forest × Kind) := do
    let h ← enclosed iterationHeader
    let closing ← punct ")"
    return (h ++ closing, .forInStatement)
  let counting : Grammar (Forest × Kind) := do
    let h ← enclosed countingHeader
    let closing ← punct ")"
    return (h ++ closing, .forStatement)
  -- Only what comes after the first part tells the two kinds of loop apart.
  let (header, kind) ← iteration <|> counting
  let b ← field .body .statement
  return construct kind (word ++ isAwait ++ opening ++ header ++ b)

/-- `while`. -/
def whileStatement : Grammar Forest := do
  let word ← keyword "while"
  let test ← condition .condition
  let b ← field .body .statement
  return construct .whileStatement (word ++ test ++ b)

/-- `do` and the test after it. -/
def doStatement : Grammar Forest := do
  let word ← keyword "do"
  let b ← field .body .statement
  let while_ ← keyword "while"
  let test ← condition .condition
  let ending ← optional (semicolon false)
  return construct .doStatement (word ++ b ++ while_ ++ test ++ ending)

/-- `with`. -/
def withStatement : Grammar Forest := do
  let word ← keyword "with"
  let object ← condition .object
  let b ← field .body .statement
  return construct .withStatement (word ++ object ++ b)

/-- The parameter of a handler in parentheses. -/
def handlerParameter : Grammar Forest := do
  let opening ← punct "("
  let name ← enclosed (destructuring <|> identifier)
  let type ← if ← typed then optional do return inRole .type (← typeAscription) else pure []
  let closing ← punct ")"
  return opening ++ inRole .parameter name ++ type ++ closing

/-- `try` with its handlers. -/
def tryStatement : Grammar Forest := do
  let word ← keyword "try"
  let tried ← body false
  let handler ← optional do
    let word ← keyword "catch"
    let parameter ← optional handlerParameter
    let b ← body false
    return inRole .handler (construct .catchClause (word ++ parameter ++ b))
  let finalizer ← optional do
    let word ← keyword "finally"
    let b ← body false
    return inRole .finalizer (construct .finallyClause (word ++ b))
  return construct .tryStatement (word ++ tried ++ handler ++ finalizer)

/-- `break` and `continue`, possibly with a label. -/
def jumpStatement (spelling : String) (k : Kind) : Grammar Forest := do
  let word ← keyword spelling
  let bare : Grammar Forest := semicolon false
  let labelled : Grammar Forest := do
    let label ← nameAs .statementIdentifier
    let ending ← semicolon false
    return inRole .label label ++ ending
  -- A line break ends the statement, whatever the next line starts with.
  let rest ← bare <|> labelled
  return construct k (word ++ rest)

/-- `return` and `throw`, with their value. -/
def leavingStatement (spelling : String) (k : Kind) : Grammar Forest := do
  let word ← keyword spelling
  let bare : Grammar Forest := semicolon false
  let valued : Grammar Forest := do
    let value ← call .expressions
    let ending ← semicolon true
    return value ++ ending
  -- A line break ends the statement, whatever the next line starts with.
  let rest ← bare <|> valued
  return construct k (word ++ rest)

/-- A statement with a label. -/
def labeledStatement : Grammar Forest := do
  let label ← nameAs .statementIdentifier
  let colon ← punct ":"
  let s ← field .body .statement
  return construct .labeledStatement (inRole .label label ++ colon ++ s)

/-- An expression as a statement. -/
def expressionStatement : Grammar Forest := do
  let e ← call .expressions
  let ending ← semicolon true
  return construct .expressionStatement (e ++ ending)

/-- A statement that its first word announces. -/
def wordStatement (w : String) : Grammar Forest :=
  match w with
  | "if" => ifStatement
  | "switch" => switchStatement
  | "for" => forStatement
  | "while" => whileStatement
  | "do" => doStatement
  | "with" => withStatement
  | "try" => tryStatement
  | "break" => jumpStatement "break" .breakStatement
  | "continue" => jumpStatement "continue" .continueStatement
  | "return" => leavingStatement "return" .returnStatement
  | "throw" => leavingStatement "throw" .throwStatement
  | "debugger" => do
    let word ← keyword "debugger"
    let ending ← semicolon false
    return construct .debuggerStatement (word ++ ending)
  -- The word also starts an alias, a call and `import.meta`.
  | "import" => importStatement <|> declaration <|> expressionStatement
  | "export" => exportStatement declaration
  -- Any other word announces a declaration or is a name.
  | _ => declaration <|> labeledStatement <|> expressionStatement

/-- Any statement. -/
def statement : Grammar Forest := do
  let t ← look
  match t.lexeme with
  | .word w => wordStatement w
  | .punct "\x7b" => block false
  | .punct ";" => return construct .emptyStatement (← punct ";")
  | .punct "@" => exportStatement declaration <|> declaration
  -- The block or the file ends here.
  | .punct "\x7d" | .ending => failure
  | _ => expressionStatement

end ScriptGraph.Syntax.Grammar
