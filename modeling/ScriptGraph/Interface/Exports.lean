import ScriptGraph.Interface.Imports

/-!
# Exports of a file

The names that the export statements at the top of a file expose, in source order, with what is
known of each from its syntax alone.
-/

namespace ScriptGraph

open Syntax

/-- What kind of thing is exported. -/
inductive ExportKind
  | function | «class» | type | interface | const | unknown
deriving DecidableEq, Repr

/-- The name under which results show a kind of export. -/
def ExportKind.name : ExportKind → String
  | function => "function"
  | «class» => "class"
  | type => "type"
  | interface => "interface"
  | const => "const"
  | unknown => "unknown"

/-- An exported name. -/
structure ExportRecord where
  name : String
  kind : ExportKind
deriving DecidableEq, Repr

namespace ExportRecord

/-- The record as an object. -/
def toJson (r : ExportRecord) : Json :=
  .object [("name", .string r.name), ("kind", .string r.kind.name)]

/-- What a declaration that can be exported declares. -/
def declaredKind? (n : Node) : Option ExportKind :=
  match n.kind? with
  | some .functionDeclaration | some .generatorFunctionDeclaration | some .functionSignature =>
    some .function
  | some .classDeclaration | some .abstractClassDeclaration => some .class
  | some .typeAliasDeclaration => some .type
  | some .interfaceDeclaration => some .interface
  | some .lexicalDeclaration | some .variableDeclaration => some .const
  | _ => none

/-- What an expression that may be exported without a name evaluates to. -/
def anonymousKind? (n : Node) : Option ExportKind :=
  match n.kind? with
  | some .functionExpression | some .generatorFunction => some .function
  | some .classExpression => some .class
  | _ => none

/-- The names that a declaration spells, patterns as they are written. -/
def spelledNames (declaration : Node) : List String :=
  if declaration.isOneOf [.lexicalDeclaration, .variableDeclaration] then
    (declaration.constructs.filter (·.is .variableDeclarator)).filterMap fun d =>
      (d.child? .name).map Node.text
  else ((declaration.child? .name).map Node.text).toList

/-- The declaration inside an ambient one, or the declaration itself. -/
def innerDeclaration? (declaration : Node) : Option Node :=
  if declaration.is .ambientDeclaration then
    declaration.constructs.find? fun c => (declaredKind? c).isSome
  else some declaration

/-- The records of an exported declaration. -/
def ofDeclaration (isDefault : Bool) (declaration : Node) : List ExportRecord :=
  match innerDeclaration? declaration with
  | none => []
  | some inner =>
    match declaredKind? inner with
    | none => []
    | some kind =>
      let names := spelledNames inner
      let names :=
        -- Only a function or a class may be exported without a name.
        if names.isEmpty && (kind == .function || kind == .class) && isDefault then ["default"]
        else names
      (names.filter fun n => !n.isEmpty).map fun n => ⟨n, kind⟩

/-- The record of an export of a value. -/
def ofValue (isDefault : Bool) (value : Option Node) : ExportRecord :=
  match value.bind fun v => (anonymousKind? v).map fun k => (v, k) with
  | some (v, kind) =>
    if isDefault then ⟨((v.child? .name).map Node.text).getD "default", kind⟩
    else ⟨"default", .unknown⟩
  | none => ⟨"default", .unknown⟩

/-- The records of a braced list of names. -/
def ofClause (clause : Node) : List ExportRecord :=
  let labels := (clause.constructs.filter (·.is .exportSpecifier)).map
    ImportRecord.elementSpecifier
  (labels.filter fun l => !l.isEmpty).map fun l => ⟨l, .unknown⟩

/-- The records of an export statement. -/
def ofStatement (statement : Node) : List ExportRecord :=
  let isDefault := statement.hasToken "default"
  match statement.child? .declaration with
  | some declaration => ofDeclaration isDefault declaration
  | none =>
    if isDefault || statement.hasToken "=" then [ofValue isDefault (statement.child? .value)]
    else
      match statement.constructs.find? (·.is .exportClause) with
      | some clause => ofClause clause
      | none =>
        -- A module under a name is no export of its names.
        if statement.constructs.any (·.is .namespaceExport) then []
        else if statement.hasToken "*" then [⟨"*", .unknown⟩]
        else []

end ExportRecord

/-- The records of a file's exports. -/
def Source.exports (s : Source) : List ExportRecord :=
  (s.root.constructs.filter (·.is .exportStatement)).flatMap ExportRecord.ofStatement

end ScriptGraph
