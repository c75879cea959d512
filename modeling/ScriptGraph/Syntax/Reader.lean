import ScriptGraph.Source
import ScriptGraph.Syntax.Grammar.Statements

/-!
# Reading source texts

`Source.ofText` reads a text into a syntax tree. The rules of the grammar call each other through
`readFrom`, which counts the nesting of calls down from a bound that grows with the text. A text
that stops making sense keeps the statements read so far; the rest becomes one error node.
-/

namespace ScriptGraph.Syntax

namespace Grammar

/-- The rule behind a nonterminal. -/
def rule : Nonterminal → Grammar Forest
  | .statement => statement
  | .block inExpression => block inExpression
  | .expression => expression
  | .expressions => expressions
  | .binary level => binaryExpression level
  | .unary => unaryExpression
  | .arguments => argumentList
  | .pattern => pattern
  | .parameters => parameters
  | .type => anyType
  | .primaryType => primaryType
  | .typeArguments => typeArguments
  | .typeParameters => typeParameters
  | .objectType => objectType
  | .propertyName => propertyName
  | .className => classExpression
  | .markup => element

/-- Reads a nonterminal, with calls nested at most `depth` deep. -/
def readFrom : Nat → Nonterminal → Surroundings → Cursor → Option (Forest × Cursor)
  | 0 => fun _ _ _ => none
  | depth + 1 => fun n s c => rule n ⟨s, readFrom depth⟩ c

end Grammar

/-- Where statements of a dialect start. -/
def Surroundings.atTop (dialect : Dialect) : Surroundings :=
  ⟨dialect, true, true, true⟩

/-- A bound on the nesting of rules within a text of the given length. -/
def nestingBound (length : Nat) : Nat :=
  16 * (length + 1)

/-- Reads as many statements as there are, at most `count`. -/
def statementsFrom (read : Cursor → Option (Forest × Cursor)) : Nat → Cursor → Forest × Cursor
  | 0, c => ([], c)
  | count + 1, c =>
    match read c with
    | none => ([], c)
    | some (forest, next) =>
      -- A statement that reads nothing would be read for ever.
      if next.offset ≤ c.offset then ([], c)
      else
        let (more, last) := statementsFrom read count next
        (forest ++ more, last)

/-- The line that names an interpreter, at the start of a text. -/
def hashBang (c : Cursor) : Forest × Cursor :=
  match c.rest with
  | '#' :: '!' :: _ =>
    let after := c.advance (c.rest.takeWhile fun ch => !Scan.isLineEnd ch).length
    ([Tree.leaf (.construct .hashBangLine) c.offset after.offset], after)
  | _ => ([], c)

/-- The tree of a text. -/
def readProgram (dialect : Dialect) (text : String) : Tree :=
  let start : Cursor := ⟨text.toList, 0⟩
  let stop := text.utf8ByteSize
  let length := start.rest.length
  let (head, first) := hashBang start
  let read := Grammar.readFrom (nestingBound length) .statement (.atTop dialect)
  let (statements, last) := statementsFrom read (length + 1) first
  let trivia := last.skipTrivia
  let rest :=
    -- What no rule accepts becomes one node at the end.
    if trivia.here.rest.isEmpty then trivia.comments
    else trivia.comments ++ [Tree.leaf (.construct .error) trivia.here.offset stop]
  let children := head ++ statements ++ rest
  -- The root starts where its first child does, and an empty file after its white space.
  let firstByte := match children with
    | [] => start.skipSpaces.offset
    | t :: _ => t.start
  .node (.construct .program) none firstByte stop children

end ScriptGraph.Syntax

namespace ScriptGraph

/-- A text read in a given dialect. -/
def Source.ofText (fileName text : String) (dialect : Dialect) : Source :=
  { fileName, text, dialect, tree := Syntax.readProgram dialect text }

end ScriptGraph
