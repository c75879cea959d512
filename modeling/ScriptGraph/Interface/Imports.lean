import ScriptGraph.Json.Basic
import ScriptGraph.Syntax.Node
import ScriptGraph.Text.Quoted

/-!
# Imports of a file

One record per import statement at the top of a file, in source order. An import that assigns the
result of `require` has no record.
-/

namespace ScriptGraph

open Syntax

/-- How an import statement brings names in. -/
inductive ImportKind
  | named | default | namespace | sideEffect | unknown
deriving DecidableEq, Repr

/-- The name under which results show a kind of import. -/
def ImportKind.name : ImportKind → String
  | named => "named"
  | default => "default"
  | «namespace» => "namespace"
  | sideEffect => "side-effect"
  | unknown => "unknown"

/-- An import statement: the module, the names it brings in and how. -/
structure ImportRecord where
  module : String
  specifiers : List String
  kind : ImportKind
deriving DecidableEq, Repr

namespace ImportRecord

/-- The record as an object. -/
def toJson (r : ImportRecord) : Json :=
  .object [("source", .string r.module), ("specifiers", .strings r.specifiers),
    ("kind", .string r.kind.name)]

/-- A name and what it is called instead. -/
def renamed (imported taken : String) : String :=
  if imported == taken then imported else imported ++ " as " ++ taken

/-- The specifier that an element of a braced list stands for. -/
def elementSpecifier (element : Node) : String :=
  let imported := ((element.child? .name).map fun n => Text.unquote n.text).getD ""
  let taken := ((element.child? .alias).map fun n => Text.unquote n.text).getD imported
  renamed imported taken

/-- Whether a part of an import clause collects names. -/
def isCollection (part : Node) : Bool :=
  part.isOneOf [.namespaceImport, .namedImports]

/-- The specifiers and the kind of an import clause. -/
def ofClause (clause : Node) : List String × ImportKind :=
  let name := (clause.constructs.find? (·.is .identifier)).toList.map Node.text
  match clause.constructs.find? isCollection with
  | some part =>
    if part.is .namespaceImport then
      (name ++ (part.constructs.find? (·.is .identifier)).toList.map Node.text, .namespace)
    else
      let elements := part.constructs.filter (·.is .importSpecifier)
      (name ++ elements.map elementSpecifier, .named)
  | none => (name, if name.isEmpty then .unknown else .default)

/-- The record of an import statement. -/
def ofStatement? (statement : Node) : Option ImportRecord :=
  let module := ((statement.child? .source).map fun n => Text.unquote n.text).getD ""
  match statement.constructs.find? (·.isOneOf [.importClause, .importRequireClause]) with
  | none => some ⟨module, [], .sideEffect⟩
  | some clause =>
    -- This import binds the value of a module and takes part in no list.
    if clause.is .importRequireClause then none
    else
      let (specifiers, kind) := ofClause clause
      some ⟨module, specifiers, kind⟩

end ImportRecord

/-- The records of a file's import statements. -/
def Source.imports (s : Source) : List ImportRecord :=
  (s.root.constructs.filter (·.is .importStatement)).filterMap ImportRecord.ofStatement?

end ScriptGraph
