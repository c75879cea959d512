import ScriptGraph.Syntax.Grammar.Functions

/-!
# Markup elements

Elements written in angle brackets inside expressions: their tags, attributes and contents. Text
between elements is read as it stands, comments and blanks included.
-/

namespace ScriptGraph.Syntax.Grammar

/-- A name in a tag, in which hyphens may occur. -/
def markupWord (k : Kind) : Grammar Forest := do
  let trivia := (← get).skipTrivia
  let n := Scan.markupName trivia.here.rest
  if n == 0 then failure
  let after := trivia.here.advance n
  set after
  return trivia.comments ++ [Tree.leaf (.construct k) trivia.here.offset after.offset]

/-- The name of an element: a word, a path, or a word with a namespace. -/
def elementName : Grammar Forest := do
  let head ← markupWord .identifier
  -- A colon in a tag separates a namespace, and paths have dots instead.
  if ← atPunct ":" then
    let colon ← punct ":"
    let name ← markupWord .identifier
    return construct .jsxNamespaceName (head ++ colon ++ name)
  else
    extend head fun object => do
      let dot ← punct "."
      let name ← wordAs .propertyIdentifier
      return construct .memberExpression (inRole .object object ++ dot ++ inRole .property name)

/-- An expression, a spread or nothing between braces. -/
def markupExpression : Grammar Forest := do
  let opening ← punct "\x7b"
  let spread : Grammar Forest := do
    let dots ← punct "..."
    let value ← call .expression
    return construct .spreadElement (dots ++ value)
  let inner ← enclosed (optional (spread <|> call .expressions))
  let closing ← punct "\x7d"
  return construct .jsxExpression (opening ++ inner ++ closing)

/-- One attribute of a tag. -/
def attribute_ : Grammar Forest := do
  let plain : Grammar Forest := do
    let name ← markupWord .propertyIdentifier
    let full ← if ← atPunct ":" then
        do
          let colon ← punct ":"
          let local_ ← markupWord .identifier
          pure (construct .jsxNamespaceName (asKind .identifier name ++ colon ++ local_))
      else pure name
    let value ← optional do
      let eq ← punct "="
      let v ← string <|> markupExpression <|> call .markup
      return eq ++ v
    return construct .jsxAttribute (full ++ value)
  return inRole .jsxAttribute (← plain <|> markupExpression)

/-- Text between elements. -/
def markupText : Grammar Forest := do
  let c ← get
  let n := Scan.markupText c.rest
  let r := Scan.characterReference c.rest
  if n != 0 then
    let after := c.advance n
    set after
    return [Tree.leaf (.construct .jsxText) c.offset after.offset]
  else if r != 0 then
    let after := c.advance r
    set after
    return [Tree.leaf (.construct .htmlCharacterReference) c.offset after.offset]
  -- A sign that starts no character reference stands for itself.
  else if c.rest.head? == some '&' then
    let after := c.advance 1
    set after
    return [Tree.leaf (.construct .jsxText) c.offset after.offset]
  else failure

/-- `</name>`. -/
def closingTag : Grammar Forest := do
  let opening ← symbol "<"
  let slash ← symbol "/"
  let name ← optional do return inRole .name (← elementName)
  let closing ← symbol ">"
  return construct .jsxClosingElement (opening ++ slash ++ name ++ closing)

/-- An element with its contents. -/
def element : Grammar Forest := do
  let opening ← symbol "<"
  let name ← optional do return inRole .name (← elementName)
  let generics ← if (← typed) && !name.isEmpty then optional (field .typeArguments .typeArguments)
    else pure []
  -- A fragment has neither a name nor attributes.
  let attributes ← if name.isEmpty then pure [] else enclosed (many attribute_)
  let slash ← optional (symbol "/")
  let closing ← symbol ">"
  if !slash.isEmpty then
    return construct .jsxSelfClosingElement
      (opening ++ name ++ generics ++ attributes ++ slash ++ closing)
  let opened := construct .jsxOpeningElement (opening ++ name ++ generics ++ attributes ++ closing)
  let inner ← many do
    let c ← get
    -- The closing tag would read as an element without a name.
    if "</".toList.isPrefixOf c.rest then failure
    markupText <|> markupExpression <|> call .markup
  let closed ← closingTag
  return construct .jsxElement (inRole .openTag opened ++ inner ++ inRole .closeTag closed)

end ScriptGraph.Syntax.Grammar
