import ScriptGraph.Binding.Members

/-!
# Imports and exports

Imports declare aliases in their scope. Exports fill the export table of the module around them;
of two exports under one name the later one counts.
-/

namespace ScriptGraph.Binding

open Syntax

/-- The name under which the value of `export =` is kept. -/
def wholeExportName : String := "export="

/-- The variables that a declaration declares. -/
def declaredVariables (declaration : Node) : List String :=
  declaration.constructs.flatMap fun d =>
    if d.is .variableDeclarator then (boundNamesOf (d.child? .name)).map Node.text else []

/-- The names that a declaration declares; `depth` bounds the nesting of ambient ones. -/
def declaredNamesFrom : Nat → Node → List String
  | 0, _ => []
  | depth + 1, n =>
    if n.isOneOf [.lexicalDeclaration, .variableDeclaration] then declaredVariables n
    else if n.is .ambientDeclaration then n.constructs.flatMap (declaredNamesFrom depth)
    else match n.child? .name with
      -- A quoted module is named by specifiers, and no name stands for it.
      | some name => if name.is .string then [] else [name.text]
      | none => []

/-- The names that a declaration declares. -/
def declaredNames (n : Node) : List String :=
  declaredNamesFrom n.tree.size n

/-- The module specifier that a statement names. -/
def specifierOf (n : Node) : Option String :=
  (n.child? .source).map fun s => Text.unquote s.text

/-- The value of an export without a declaration: the one in its role, or the last construct. -/
def exportedValue (n : Node) : Option Node :=
  (n.child? .value).or n.constructs.getLast?

namespace Bind

/-- Declares an alias for something imported. -/
def declareAlias (scope : ScopeId) (specifier imported : String) (name : String) (node : Node)
    (nameNode : Node) : Bind Unit := do
  let _ ← declare scope
    { kind := .importAlias, name, node, nameNode := some nameNode
      importSource := some ⟨specifier, imported⟩ }

/-- Declares what one part of an import clause brings in. -/
def bindImportPart (scope : ScopeId) (specifier : String) (part : Node) : Bind Unit :=
  match part.kind? with
  | some .identifier => declareAlias scope specifier "default" part.text part part
  | some .namespaceImport =>
    match part.constructs.find? (·.is .identifier) with
    | some name => declareAlias scope specifier "*" name.text part name
    | none => pure ()
  | some .namedImports =>
    part.constructs.forM fun item =>
      match item.child? .name with
      | some name =>
        let taken := (item.child? .alias).getD name
        if item.is .importSpecifier then
          declareAlias scope specifier (Text.unquote name.text) (Text.unquote taken.text) item taken
        else pure ()
      | none => pure ()
  | _ => pure ()

/-- Declares what an import statement brings in. -/
def bindImport (scope : ScopeId) (node : Node) : Bind Unit :=
  node.constructs.forM fun child =>
    match child.kind? with
    | some .importClause =>
      child.constructs.forM (bindImportPart scope ((specifierOf node).getD ""))
    | some .importRequireClause =>
      match child.constructs.find? (·.is .identifier), specifierOf child with
      | some name, some specifier =>
        declareAlias scope specifier wholeExportName name.text child name
      | _, _ => pure ()
    | _ => pure ()

/-- Makes a module expose a name. -/
def expose (module : ScopeId) (name : String) (entry : ExportEntry) : Bind Unit :=
  modifyStore (·.modifyScope module fun sc => { sc with exports := sc.exports.put name entry })

/-- Exposes what a declaration declares. -/
def exposeDeclared (module : ScopeId) (isDefault : Bool) (declaration : Node) : Bind Unit :=
  if isDefault then
    match declaredNames declaration with
    | name :: _ => expose module "default" (.named name)
    | [] => pure ()
  else (declaredNames declaration).forM fun name => expose module name (.named name)

/-- Exposes a value under one of the two names that need no declaration. -/
def exposeValue (module : ScopeId) (name : String) (value : Node) : Bind Unit := do
  -- A name is looked up when the export is, which may be declared further down.
  if value.is .identifier then expose module name (.named value.text)
  else
    let symbol ← onStore (·.addSymbol { name })
    let d ← record { kind := .exportValue, name, node := value }
    modifyStore (·.attach symbol d)
    expose module name (.value symbol)

/-- Exposes one name of an export clause. -/
def exposeSpecifier (module : ScopeId) (specifier : Option String) (item : Node) : Bind Unit :=
  match item.child? .name with
  | some name =>
    let inner := Text.unquote name.text
    let outer := match item.child? .alias with
      | some taken => Text.unquote taken.text
      | none => inner
    if item.is .exportSpecifier then
      match specifier with
      -- With a specifier the name is one of the other module's.
      | some specifier => expose module outer (.forwarded specifier inner)
      | none => expose module outer (.named inner)
    else pure ()
  | none => pure ()

/-- Exposes names, all names of a module, or a module under a name. -/
def exposeNames (module : ScopeId) (node : Node) : Bind Unit :=
  let specifier := specifierOf node
  match node.constructs.find? (·.is .exportClause) with
  | some clause => clause.constructs.forM (exposeSpecifier module specifier)
  | none =>
    match node.constructs.find? (·.is .namespaceExport), specifier with
    | some ns, some specifier =>
      match ns.constructs.head? with
      | some name => expose module (Text.unquote name.text) (.forwarded specifier "*")
      | none => pure ()
    | some _, none => pure ()
    | none, some specifier =>
      if node.hasToken "*" then
        modifyStore (·.modifyScope module fun sc =>
          { sc with starExports := sc.starExports ++ [specifier] })
      else pure ()
    | none, none => pure ()

/-- Records an export statement, and returns the part of it that is still to be bound. -/
def bindExport (scope : ScopeId) (node : Node) : Bind (List Node) := do
  -- An export belongs to the module, however deep its statement stands.
  let module := (← get).store.moduleScope scope
  let isDefault := node.hasToken "default"
  match node.child? .declaration with
  | some declaration => do
    exposeDeclared module isDefault declaration
    return [declaration]
  | none =>
    if isDefault || node.hasToken "=" then
      match exportedValue node with
      | some value => do
        exposeValue module (if isDefault then "default" else wholeExportName) value
        return [value]
      | none => return []
    else
      exposeNames module node
      return []

end Bind

end ScriptGraph.Binding
