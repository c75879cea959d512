import ScriptGraph.Syntax.LineEnd

/-!
# Grammar rules

A rule reads a forest, the trees of the symbols it accepts in source order. Rules never return
white space, and a comment stands in the forest before the token it precedes; `construct` gathers
a forest under a new node and hands the comments in front of it on to the node around it. So a
comment ends up in the smallest construct that has tokens on both sides of it.

Rules call each other by name, through the `Nonterminal` they want read. What answers such a call
is part of a rule's environment, so that every rule is a definition of its own.
-/

namespace ScriptGraph.Syntax

/-- Trees in source order. -/
abbrev Forest := List Tree

/-- The rules that call each other. -/
inductive Nonterminal
  | statement | block (inExpression : Bool)
  | expression | expressions | binary (level : Nat) | unary | arguments
  | pattern | parameters | type | primaryType | typeArguments | typeParameters | objectType
  | propertyName | className | markup
deriving DecidableEq, Repr

/-- What a rule has to know of its surroundings. -/
structure Surroundings where
  dialect : Dialect
  /-- A line break may end the statement being read. -/
  lineEnds : Bool
  /-- `in` is an operator here. -/
  allowIn : Bool
  /-- An arrow function may state its result type here. -/
  typedArrows : Bool

/-- The surroundings and the reader of nonterminals. -/
structure Rules where
  surroundings : Surroundings
  read : Nonterminal → Surroundings → Cursor → Option (Forest × Cursor)

/-- A rule that reads a value. -/
abbrev Grammar := ReaderT Rules (StateT Cursor Option)

namespace Grammar

/-- Reads a nonterminal here. -/
def call (n : Nonterminal) : Grammar Forest :=
  fun rules cursor => rules.read n rules.surroundings cursor

/-- The surroundings of the rule. -/
def surroundings : Grammar Surroundings := do
  return (← read).surroundings

/-- Whether the dialect has type annotations. -/
def typed : Grammar Bool := do
  return (← surroundings).dialect.isTyped

/-- Runs a rule in other surroundings. -/
def within (change : Surroundings → Surroundings) (rule : Grammar α) : Grammar α :=
  fun rules => rule { rules with surroundings := change rules.surroundings }

/-- Runs a rule between brackets, where line breaks mean nothing. -/
def enclosed (rule : Grammar α) : Grammar α :=
  within (fun s => { s with lineEnds := false, allowIn := true, typedArrows := true }) rule

/-- Runs a rule where statements stand. -/
def atStatements (rule : Grammar α) : Grammar α :=
  within (fun s => { s with lineEnds := true, allowIn := true, typedArrows := true }) rule

/-- The class of a token. -/
inductive Lexeme
  | word (spelling : String)
  | privateName
  | number
  | string
  | punct (spelling : String)
  | ending
  | unknown
deriving DecidableEq, Repr

/-- A token ahead, with the comments before it. -/
structure Token where
  comments : Forest
  lineBreak : Bool
  lexeme : Lexeme
  here : Cursor
  after : Cursor

/-- The class and the length of the token at the front. -/
def classify (cs : List Char) : Lexeme × Nat :=
  match cs with
  | [] => (.ending, 0)
  | c :: rest =>
    -- A word may start with an escape, and no other token does.
    let word := Scan.word cs
    if word != 0 then (.word (String.ofList (cs.take word)), word)
    -- A `#` is punctuation unless a word follows it at once.
    else if c == '#' && Scan.word rest != 0 then (.privateName, Scan.word rest + 1)
    else if Scan.number cs != 0 then (.number, Scan.number cs)
    else match Scan.string cs with
      | some n => (.string, n)
      | none => match Scan.punct cs with
        | some p => (.punct (String.ofList p), p.length)
        | none => (.unknown, 0)

/-- The next token. -/
def look : Grammar Token := do
  let trivia := (← get).skipTrivia
  let (lexeme, length) := classify trivia.here.rest
  return ⟨trivia.comments, trivia.lineBreak, lexeme, trivia.here, trivia.here.advance length⟩

/-- The token after the next one. -/
def lookPast (t : Token) : Token :=
  let trivia := t.after.skipTrivia
  let (lexeme, length) := classify trivia.here.rest
  ⟨trivia.comments, trivia.lineBreak, lexeme, trivia.here, trivia.here.advance length⟩

/-- Accepts a token under a label. -/
def accept (t : Token) (label : Label) : Grammar Forest := do
  set t.after
  return t.comments ++ [Tree.leaf label t.here.offset t.after.offset]

/-- Accepts a token as a construct of its own. -/
def acceptAs (t : Token) (k : Kind) : Grammar Forest :=
  accept t (.construct k)

/-- Reads a token of exactly the given punctuation. -/
def punct (spelling : String) : Grammar Forest := do
  let t ← look
  if t.lexeme == .punct spelling then accept t (.token spelling) else failure

/-- Reads the given characters whatever may follow them. -/
def symbol (spelling : String) : Grammar Forest := do
  let trivia := (← get).skipTrivia
  if spelling.toList.isPrefixOf trivia.here.rest then
    let after := trivia.here.advance spelling.length
    set after
    return trivia.comments ++ [Tree.leaf (.token spelling) trivia.here.offset after.offset]
  else failure

/-- Reads a given word as a plain token. -/
def keyword (spelling : String) : Grammar Forest := do
  let t ← look
  if t.lexeme == .word spelling then accept t (.token spelling) else failure

/-- Whether the next token is the given punctuation. -/
def atPunct (spelling : String) : Grammar Bool := do
  return (← look).lexeme == .punct spelling

/-- Whether the next token is the given word. -/
def atWord (spelling : String) : Grammar Bool := do
  return (← look).lexeme == .word spelling

/-- Reads a rule if it applies, and nothing otherwise. -/
def optional (rule : Grammar Forest) : Grammar Forest :=
  rule <|> pure []

/-- Reads a rule as often as it applies, at most `fuel` times. -/
def manyFrom (rule : Grammar Forest) : Nat → Grammar Forest
  | 0 => pure []
  | fuel + 1 => fun rules cursor =>
    match rule rules cursor with
    | none => some ([], cursor)
    | some (forest, next) =>
      -- A rule that reads nothing would apply for ever.
      if next.offset ≤ cursor.offset then some ([], cursor)
      else match manyFrom rule fuel rules next with
        | none => some (forest, next)
        | some (more, last) => some (forest ++ more, last)

/-- Reads a rule as often as it applies. -/
def many (rule : Grammar Forest) : Grammar Forest := do
  manyFrom rule ((← get).rest.length + 1)

/-- Extends what is read by a rule that takes it over, as often as that applies. -/
def extendFrom (rule : Forest → Grammar Forest) (forest : Forest) : Nat → Grammar Forest
  | 0 => pure forest
  | fuel + 1 => fun rules cursor =>
    match rule forest rules cursor with
    | none => some (forest, cursor)
    | some (more, next) =>
      if next.offset ≤ cursor.offset then some (forest, cursor)
      else extendFrom rule more fuel rules next

/-- Extends what is read by a rule that takes it over, as often as that applies. -/
def extend (forest : Forest) (rule : Forest → Grammar Forest) : Grammar Forest := do
  extendFrom rule forest ((← get).rest.length + 1)

/-- Reads items with separators between them; a separator at the end is read too. -/
def separated (separator item : Grammar Forest) : Grammar Forest := do
  let first ← item
  let more ← many do
    let s ← separator
    let i ← item
    return s ++ i
  -- A separator without an item after it has been given back.
  let last ← optional separator
  return first ++ more ++ last

/-- Reads comma-separated items, possibly none. -/
def commaItems (item : Grammar Forest) : Grammar Forest :=
  optional (separated (punct ",") item)

/-- Reads comma-separated items in which items may be left out. -/
def sparseItems (item : Grammar Forest) : Grammar Forest := do
  let first ← optional item
  let more ← many do
    let s ← punct ","
    let i ← optional item
    return s ++ i
  return first ++ more

/-- Gathers a forest under a new construct; comments at its front stay outside. -/
def construct (k : Kind) (forest : Forest) : Forest :=
  match forest.dropWhile Tree.isComment with
  -- Comments alone make no construct.
  | [] => forest
  | body => forest.takeWhile Tree.isComment ++ [Tree.branch k body]

/-- Gives the trees of a forest a role. -/
def inRole (f : Field) (forest : Forest) : Forest :=
  forest.map fun t => if t.isComment then t else t.withRole f

/-- Makes every tree of a forest a construct of the given kind. -/
def asKind (k : Kind) (forest : Forest) : Forest :=
  forest.map fun t => if t.isComment then t else t.withKind k

/-- Reads a nonterminal in a role. -/
def field (f : Field) (n : Nonterminal) : Grammar Forest := do
  return inRole f (← call n)

/-- Reads the comments before the place where the statement ends without a semicolon. -/
def lineEndFrom (operand signature : Bool) : Nat → Grammar Forest
  | 0 => failure
  | fuel + 1 => do
    let c ← get
    if LineEnd.endsStatement (← surroundings).dialect operand signature c.rest then return []
    -- The statement may still end behind a comment.
    let here := c.skipSpaces
    match Scan.comment here.rest with
    | none => failure
    | some n =>
      let after := here.advance n
      set after
      let more ← lineEndFrom operand signature fuel
      return Tree.leaf (.construct .comment) here.offset after.offset :: more

/-- Ends a statement at a line end; the comments before it are part of the statement. -/
def lineEnd (operand signature : Bool) : Grammar Forest := do
  lineEndFrom operand signature ((← get).rest.length + 1)

/-- Ends a statement by a semicolon or at a line end. -/
def semicolon (operand : Bool) : Grammar Forest :=
  lineEnd operand false <|> punct ";"

/-- The words that are never names. -/
def reserved : List String :=
  ["break", "case", "catch", "class", "const", "continue", "debugger", "default", "delete", "do",
    "else", "export", "extends", "false", "finally", "for", "function", "if", "import", "in",
    "instanceof", "new", "null", "return", "super", "switch", "this", "throw", "true", "try",
    "typeof", "var", "void", "while", "with", "enum"]

/-- Reads a word that is a name, as a construct. -/
def nameAs (k : Kind) : Grammar Forest := do
  let t ← look
  match t.lexeme with
  | .word w => if reserved.contains w then failure else acceptAs t k
  | _ => failure

/-- Reads any word, as a construct. -/
def wordAs (k : Kind) : Grammar Forest := do
  let t ← look
  match t.lexeme with
  | .word _ => acceptAs t k
  | _ => failure

/-- Reads an identifier. -/
def identifier : Grammar Forest :=
  nameAs .identifier

/-- Reads a string. -/
def string : Grammar Forest := do
  let t ← look
  if t.lexeme == .string then acceptAs t .string else failure

/-- Reads a number. -/
def number : Grammar Forest := do
  let t ← look
  if t.lexeme == .number then acceptAs t .number else failure

end Grammar

end ScriptGraph.Syntax
