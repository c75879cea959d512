import ScriptGraph.Syntax.Node
import ScriptGraph.Text.Quoted

/-!
# Names in patterns

The identifiers that a pattern binds, in source order, and the spelling of member names.
-/

namespace ScriptGraph.Binding

open Syntax

/-- The parts of a pattern in which bound names stand. -/
inductive PatternParts
  | none | role (field : Field) | constructs
deriving DecidableEq, Repr

/-- The parts of each kind of pattern in which bound names stand. -/
def patternParts : Kind → PatternParts
  | .requiredParameter | .optionalParameter => .role .pattern
  | .assignmentPattern | .objectAssignmentPattern => .role .left
  | .pairPattern => .role .value
  | .objectPattern | .arrayPattern | .restPattern => .constructs
  | _ => .none

/-- Whether bound names may stand in a child. -/
def PatternParts.includes (parts : PatternParts) (child : Tree) : Bool :=
  match parts with
  | .none => false
  | .role f => child.role == some f
  | .constructs => child.isNamed && !child.isComment

mutual

/-- The identifiers that a pattern binds. -/
def boundNamesFrom (source : Source) (trail : List Crumb) : Tree → List Node
  | .node (.token _) _ _ _ _ => []
  | .node (.construct k) r s e cs =>
    if k == .identifier || k == .shorthandPropertyIdentifierPattern then
      [⟨source, .node (.construct k) r s e cs, trail⟩]
    else boundNamesAll source (.node (.construct k) r s e cs) trail (patternParts k) 0 cs

/-- The identifiers that the parts of a pattern bind. -/
def boundNamesAll (source : Source) (parent : Tree) (trail : List Crumb) (parts : PatternParts)
    (index : Nat) : List Tree → List Node
  | [] => []
  | t :: ts =>
    (if parts.includes t then boundNamesFrom source (⟨parent, index⟩ :: trail) t else []) ++
      boundNamesAll source parent trail parts (index + 1) ts

end

/-- The identifiers that a pattern binds, in source order. -/
def boundNames (n : Node) : List Node :=
  boundNamesFrom n.source n.trail n.tree

/-- The identifiers that a pattern binds, if there is a pattern. -/
def boundNamesOf (n : Option Node) : List Node :=
  match n with
  | some n => boundNames n
  | none => []

/-- The name that a property or member name spells, without quotes. -/
def memberName (n : Option Node) : String :=
  match n with
  | some n => Text.unquote n.text
  | none => ""

/-- Whether a construct is a parameter of a typed dialect. -/
def isParameter (n : Node) : Bool :=
  n.isOneOf [.requiredParameter, .optionalParameter]

/-- Whether a construct is an expression that evaluates to a function. -/
def isFunctionExpression (n : Node) : Bool :=
  n.isOneOf [.functionExpression, .generatorFunction, .arrowFunction]

/-- Whether a construct declares a class. -/
def isClassDeclaration (n : Node) : Bool :=
  n.isOneOf [.classDeclaration, .abstractClassDeclaration]

/-- Whether a construct is a field of a class. -/
def isField (n : Node) : Bool :=
  n.isOneOf [.publicFieldDefinition, .fieldDefinition]

end ScriptGraph.Binding
