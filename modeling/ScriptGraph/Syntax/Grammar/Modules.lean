import ScriptGraph.Syntax.Grammar.Classes

/-!
# Imports, exports and namespaces

The statements that connect modules, and the declarations that nest them. An export statement
takes the reader of the declaration that it exports as a parameter.
-/

namespace ScriptGraph.Syntax.Grammar

/-- The name of something a module exports: a word or a string. In plain dialects `default` is no
identifier. -/
def exportedName : Grammar Forest := do
  -- Typed dialects take `default` for an identifier here.
  if !(← typed) && (← atWord "default") then keyword "default"
  else string <|> wordAs .identifier

/-- `from "module"`. -/
def fromClause : Grammar Forest := do
  let word ← keyword "from"
  let source ← string
  return word ++ inRole .source source

/-- `with { … }` after the name of a module. -/
def importAttribute : Grammar Forest := do
  let word ← keyword "with" <|> keyword "assert"
  let what ← objectLiteral
  return construct .importAttribute (word ++ what)

/-- The mark of an import or export of types alone. -/
def typeMark : Grammar Forest := do
  let t ← look
  match t.lexeme, (lookPast t).lexeme with
  -- Before one of these `type` is the name that is brought in.
  | .word "type", .punct "," | .word "type", .punct "\x7d" | .word "type", .word "as" => failure
  | .word "type", _ => keyword "type"
  | .word "typeof", _ => keyword "typeof"
  | _, _ => failure

/-- One name in braces, and the name it gets. -/
def specifier (k : Kind) : Grammar Forest := do
  let marked : Grammar Forest := do
    let mark ← typeMark
    let name ← exportedName
    return mark ++ inRole .name name
  let head ← marked <|> (do return inRole .name (← exportedName))
  let renamed ← optional do
    let word ← keyword "as"
    let taken ← exportedName
    return word ++ inRole .alias taken
  return construct k (head ++ renamed)

/-- `{ a, b as c }`. -/
def specifiers (k item : Kind) : Grammar Forest := do
  let opening ← punct "\x7b"
  let items ← enclosed (commaItems (specifier item))
  let closing ← punct "\x7d"
  return construct k (opening ++ items ++ closing)

/-- `* as name` of an import. -/
def namespaceImport : Grammar Forest := do
  let star ← punct "*"
  let word ← keyword "as"
  let name ← identifier
  return construct .namespaceImport (star ++ word ++ name)

/-- What an import binds. -/
def importClause : Grammar Forest := do
  let collected : Grammar Forest := namespaceImport <|> specifiers .namedImports .importSpecifier
  let named : Grammar Forest := do
    let name ← identifier
    let more ← optional do
      let comma ← punct ","
      let rest ← collected
      return comma ++ rest
    return name ++ more
  -- A name may be followed by a collection, but not the other way round.
  return construct .importClause (← collected <|> named)

/-- `name = require("module")`. -/
def requireClause : Grammar Forest := do
  let name ← identifier
  let eq ← punct "="
  let word ← keyword "require"
  let opening ← punct "("
  let source ← string
  let closing ← punct ")"
  return construct .importRequireClause
    (name ++ eq ++ word ++ opening ++ inRole .source source ++ closing)

/-- Names joined by dots. -/
def nestedName : Grammar Forest := do
  let head ← identifier
  extend head fun object => do
    let dot ← punct "."
    let name ← wordAs .propertyIdentifier
    return construct .nestedIdentifier (inRole .object object ++ dot ++ inRole .property name)

/-- `import name = A.B`. -/
def importAlias : Grammar Forest := do
  let word ← keyword "import"
  let name ← identifier
  let eq ← punct "="
  let target ← nestedName
  let ending ← semicolon false
  return construct .importAlias (word ++ name ++ eq ++ target ++ ending)

/-- An import of a module. -/
def importStatement : Grammar Forest := do
  let word ← keyword "import"
  let bare : Grammar Forest := do return inRole .source (← string)
  let clause : Grammar Forest := do
    let what ← importClause
    let source ← fromClause
    return what ++ source
  let unmarked := bare <|> clause <|> (if ← typed then requireClause else failure)
  let marked : Grammar Forest := do
    if !(← typed) then failure
    let mark ← keyword "type" <|> keyword "typeof"
    let rest ← clause <|> requireClause
    return mark ++ rest
  -- A name `type` may be imported too, so the mark is tried last.
  let what ← unmarked <|> marked
  let attributes ← optional importAttribute
  let ending ← semicolon false
  return construct .importStatement (word ++ what ++ attributes ++ ending)

/-- `export` of names, of a whole module, or of a module under a name. -/
def exportedNames : Grammar Forest := do
  let mark ← if ← typed then optional (keyword "type") else pure []
  let everything : Grammar Forest := do
    let star ← punct "*"
    let source ← fromClause
    return star ++ source
  let named : Grammar Forest := do
    let star ← punct "*"
    let word ← keyword "as"
    let name ← exportedName
    let source ← fromClause
    return construct .namespaceExport (star ++ word ++ name) ++ source
  let listed : Grammar Forest := do
    let names ← specifiers .exportClause .exportSpecifier
    let source ← optional fromClause
    return names ++ source
  -- Both of the first two start with a star, and the second goes on with `as`.
  let what ← everything <|> named <|> listed
  let attributes ← optional importAttribute
  let ending ← semicolon false
  return mark ++ what ++ attributes ++ ending

/-- `export default` and an expression or a declaration. -/
def defaultExport (declaration : Grammar Forest) : Grammar Forest := do
  let word ← keyword "default"
  let declared : Grammar Forest := do return inRole .declaration (← declaration)
  let value : Grammar Forest := do
    let v ← field .value .expression
    let ending ← semicolon true
    return v ++ ending
  -- A function or class after `default` is a declaration, also without the semicolon.
  let what ← declared <|> value
  return word ++ what

/-- `export = value` and `export as namespace name`. -/
def wholeExport : Grammar Forest := do
  if !(← typed) then failure
  let value : Grammar Forest := do
    let eq ← punct "="
    let v ← call .expression
    let ending ← semicolon true
    return eq ++ v ++ ending
  let global : Grammar Forest := do
    let as_ ← keyword "as"
    let word ← keyword "namespace"
    let name ← identifier
    let ending ← semicolon false
    return as_ ++ word ++ name ++ ending
  value <|> global

/-- An export. -/
def exportStatement (declaration : Grammar Forest) : Grammar Forest := do
  let decorators ← classDecorators
  let word ← keyword "export"
  let declared : Grammar Forest := do return inRole .declaration (← declaration)
  -- Declarations come last: they may start with any word, `type` among them.
  let what ← exportedNames <|> defaultExport declaration <|> wholeExport <|> declared
  return construct .exportStatement (decorators ++ word ++ what)

/-- A named or quoted module with its body, which may be missing. -/
def moduleDeclaration : Grammar Forest := do
  let t ← look
  let (word, kind) ← match t.lexeme with
    | .word "namespace" => do pure (← keyword "namespace", Kind.namespaceDeclaration)
    | .word "module" => do pure (← keyword "module", Kind.moduleDeclaration)
    | _ => failure
  let next ← look
  -- At the end of a line the word is a name.
  if next.lineBreak then failure
  let name ← string <|> nestedName
  let b ← if ← atPunct "\x7b" then body false else pure []
  return construct kind (word ++ inRole .name name ++ b)

/-- `declare` and what it declares. -/
def ambientDeclaration (declaration : Grammar Forest) : Grammar Forest := do
  let word ← keyword "declare"
  let next ← look
  if next.lineBreak then failure
  let global : Grammar Forest := do
    let g ← keyword "global"
    let b ← call (.block false)
    return g ++ b
  -- The word `global` stands for the scope of all modules and declares no name.
  let what ← global <|> declaration
  return construct .ambientDeclaration (word ++ what)

end ScriptGraph.Syntax.Grammar
