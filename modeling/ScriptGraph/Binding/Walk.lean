import ScriptGraph.Binding.Modules

/-!
# Binding a file

`Source.bind` walks a file's tree from the top. Each construct that declares something or opens a
scope has an action, which returns the constructs inside it that are still to be bound and the
scopes they stand in; any other construct passes its scopes on to its children.
-/

namespace ScriptGraph.Binding

open Syntax

/-- A construct to be bound, the scope it stands in, and the scope that its variables belong to
when they are not bound to a block. -/
structure Task where
  node : Node
  scope : ScopeId
  enclosing : ScopeId

/-- The constructs in one pair of scopes. -/
def tasks (scope enclosing : ScopeId) (nodes : List Node) : List Task :=
  nodes.map fun n => ⟨n, scope, enclosing⟩

/-- The name of a function without one of its own: that of the variable, property or target it is
assigned to. -/
def functionName (node : Node) : String :=
  match node.child? .name with
  | some name => name.text
  | none =>
    match node.parent with
    | none => ""
    | some parent =>
      match parent.kind? with
      | some .variableDeclarator => ((parent.child? .name).map Node.text).getD ""
      | some .pair => memberName (parent.child? .key)
      | some .assignmentExpression => ((parent.child? .left).map Node.text).getD ""
      | _ => ""

/-- The name of a class and the place of it: its own, that of the variable it is the value of, or
that of the default export. -/
def classNameOf (node : Node) : String × Option Node :=
  match node.child? .name with
  | some name => (name.text, some name)
  | none =>
    match node.parent with
    | none => ("(Anonymous class)", none)
    | some parent =>
      if parent.is .variableDeclarator then (((parent.child? .name).map Node.text).getD "", none)
      else if parent.is .exportStatement then ("default", none)
      else ("(Anonymous class)", none)

namespace Bind

/-- Declares the names that the parameters of a function bind. -/
def declareParameters (inner : ScopeId) (node : Node) : Bind Unit := do
  match node.child? .parameter with
  | some single =>
    let _ ← declare inner
      { kind := .parameter, name := single.text, node := single, nameNode := some single }
  | none => pure ()
  (node.constructsIn .parameters).forM fun param =>
    -- A pattern binds several names, all of them for one parameter.
    (boundNames param).forM fun name => do
      let _ ← declare inner
        { kind := .parameter, name := name.text, node := param, nameNode := some name }

/-- Records the declaration of a function, a function expression or a method of an object. That of
a function expression is returned. -/
def recordFunction (t : Task) : Bind (Option DeclarationId) := do
  let node := t.node
  let nameNode := node.child? .name
  if node.isOneOf [.functionDeclaration, .generatorFunctionDeclaration, .functionSignature] then
    match nameNode with
    | some name => do
      let _ ← declare t.scope
        { kind := if node.is .functionSignature then .functionSignature else .function
          name := name.text, node, nameNode }
      return none
    | none => return none
  else if isFunctionExpression node then
    some <$> record { kind := .functionExpression, name := functionName node, node, nameNode }
  -- Methods of classes are declared with the class.
  else if (node.parent.map (·.is .object)).getD false then do
    let _ ← record { kind := .method, name := memberName nameNode, node, nameNode }
    return none
  else return none

/-- Binds a function, a function expression or a method. The name of a function expression is
known inside it only. -/
def bindFunction (t : Task) : Bind (List Task) := do
  let node := t.node
  let expression ← recordFunction t
  let inner ← openScope .function node t.scope
  match expression, node.child? .name with
  | some d, some _ => do
    let _ ← attachIn inner (functionName node) d
  | _, _ => pure ()
  declareTypeParameters node inner none
  declareParameters inner node
  return tasks inner inner (node.constructsIn .parameters ++ (node.child? .body).toList)

/-- Declares a class. One that is not declared under a name of its own gets a symbol that no scope
knows. -/
def declareClass (t : Task) : Bind SymbolId := do
  let (name, nameNode) := classNameOf t.node
  let d : Declaration := { kind := .class, name, node := t.node, nameNode }
  -- A class under `default` without a name is found through the export only.
  if isClassDeclaration t.node && nameNode.isSome then declare t.scope d
  else
    let symbol ← onStore (·.addSymbol { name })
    let id ← record d
    modifyStore (·.attach symbol id)
    return symbol

/-- Binds a class. -/
def bindClass (t : Task) : Bind (List Task) := do
  let node := t.node
  let symbol ← declareClass t
  let inner ← openScope .class node t.scope
  let (name, nameNode) := classNameOf node
  -- The name of a class expression is known inside it only.
  if node.is .classExpression && nameNode.isSome then enter inner name symbol
  declareTypeParameters node inner symbol
  (node.constructsIn .body).forM (declareClassMember symbol)
  return tasks inner t.enclosing node.namedChildren

/-- Binds an interface. -/
def bindInterface (t : Task) : Bind Unit :=
  match t.node.child? .name with
  | none => pure ()
  | some name => do
    let symbol ← declare t.scope
      { kind := .interface, name := name.text, node := t.node, nameNode := some name }
    let inner ← openScope .class t.node t.scope
    declareTypeParameters t.node inner symbol
    (t.node.constructsIn .body).forM (declareTypeMember symbol inner)

/-- Binds a type alias; an alias of an object type has members of its own. -/
def bindTypeAlias (t : Task) : Bind Unit :=
  match t.node.child? .name with
  | none => pure ()
  | some name => do
    let symbol ← declare t.scope
      { kind := .typeAlias, name := name.text, node := t.node, nameNode := some name }
    let inner ← openScope .class t.node t.scope
    declareTypeParameters t.node inner symbol
    match t.node.child? .value with
    | some value =>
      -- Any other type is worked out when the alias is used.
      if value.is .objectType then value.constructs.forM (declareTypeMember symbol inner)
    | none => pure ()

/-- Binds an enumeration. -/
def bindEnum (t : Task) : Bind Unit :=
  match t.node.child? .name with
  | none => pure ()
  | some name => do
    let symbol ← declare t.scope
      { kind := .enum, name := name.text, node := t.node, nameNode := some name }
    (t.node.constructsIn .body).forM (declareEnumMember symbol)

/-- Declares variables in a scope. -/
def declareVariables (scope : ScopeId) (node : Node) (names : List Node) : Bind Unit :=
  names.forM fun name => do
    let _ ← declare scope { kind := .variable, name := name.text, node, nameNode := some name }

/-- Binds a declaration of variables; only their values are bound further. -/
def bindVariables (t : Task) : Bind (List Task) := do
  -- A variable declared by `var` is not bound to the block it stands in.
  let target := if t.node.is .variableDeclaration || t.node.hasToken "var" then t.enclosing
    else t.scope
  let declarators := t.node.constructs.filter (·.is .variableDeclarator)
  declarators.forM fun d => declareVariables target d (boundNamesOf (d.child? .name))
  return tasks t.scope t.enclosing (declarators.filterMap (·.child? .value))

/-- Binds a loop over the elements or keys of a value. -/
def bindIteration (t : Task) : Bind (List Task) := do
  let inner ← openScope .block t.node t.scope
  if (t.node.child? .kind).isSome then
    -- Without a keyword the loop assigns to a variable that is declared elsewhere.
    declareVariables (if t.node.hasToken "var" then t.enclosing else inner) t.node
      (boundNamesOf (t.node.child? .left))
  return tasks inner t.enclosing ((t.node.child? .right).toList ++ (t.node.child? .body).toList)

/-- Binds a handler of exceptions. -/
def bindHandler (t : Task) : Bind (List Task) := do
  let inner ← openScope .block t.node t.scope
  declareVariables inner t.node (boundNamesOf (t.node.child? .parameter))
  return tasks inner t.enclosing (t.node.child? .body).toList

/-- Binds an ambient declaration. A global one declares in the module. -/
def bindAmbient (t : Task) : Bind (List Task) := do
  if t.node.hasToken "global" then
    -- Its names are those of the file, since no scope stands for all files.
    let module := (← get).store.moduleScope t.scope
    match t.node.constructs.find? (·.is .statementBlock) with
    | some block => return tasks module module block.children
    | none => return []
  else return tasks t.scope t.enclosing t.node.children

/-- Binds a quoted module or a namespace. All blocks of one namespace share the statics of its
symbol as their table. -/
def bindModule (t : Task) : Bind (List Task) := do
  match t.node.child? .name with
  | none => return []
  | some name =>
    let inner ← openScope .module t.node t.scope
    -- A quoted name is a specifier for imports; a plain one declares a namespace here.
    if name.is .string then
      modifyStore (·.modifyScope inner fun sc => { sc with exportsAll := true })
      modifyBinding fun b =>
        { b with ambientModules := b.ambientModules.putNew (Text.unquote name.text) inner }
    else
      let symbol ← declare t.scope
        { kind := .namespace, name := name.text, node := t.node, nameNode := some name }
      modifyStore (·.modifyScope inner fun sc =>
        { sc with table := .staticsOf symbol, exportsAll := true })
    return tasks inner inner ((t.node.child? .body).toList.flatMap Node.children)

/-- Binds one construct and returns what is still to be bound inside it. -/
def bindTask (t : Task) : Bind (List Task) := do
  match t.node.kind? with
  | some .functionDeclaration | some .generatorFunctionDeclaration | some .functionSignature
  | some .functionExpression | some .generatorFunction | some .arrowFunction
  | some .methodDefinition => bindFunction t
  | some .classDeclaration | some .abstractClassDeclaration | some .classExpression => bindClass t
  | some .interfaceDeclaration => do
    bindInterface t
    return []
  | some .typeAliasDeclaration => do
    bindTypeAlias t
    return []
  | some .enumDeclaration => do
    bindEnum t
    return []
  | some .lexicalDeclaration | some .variableDeclaration => bindVariables t
  | some .importStatement => do
    bindImport t.scope t.node
    return []
  | some .exportStatement => return tasks t.scope t.enclosing (← bindExport t.scope t.node)
  | some .ambientDeclaration => bindAmbient t
  | some .moduleDeclaration | some .namespaceDeclaration => bindModule t
  | some .statementBlock | some .forStatement => do
    let inner ← openScope .block t.node t.scope
    return tasks inner t.enclosing t.node.children
  | some .forInStatement => bindIteration t
  | some .catchClause => bindHandler t
  | _ => return tasks t.scope t.enclosing t.node.children

/-- Binds a construct and everything inside it, down to a depth. -/
def bindFrom : Nat → Task → Bind Unit
  | 0, _ => pure ()
  | depth + 1, t => do
    let inside ← bindTask t
    inside.forM (bindFrom depth)

end Bind

/-- Binds a file, adding to a store. -/
def bind (source : Source) (store : Store) : FileBinding × Store :=
  let root := source.root
  let (module, store) := store.addScope { kind := .module, node := root, parent := none }
  let start : FileBinding :=
    { source, moduleScope := module, scopes := Table.empty.put root.key module }
  let walk := (tasks module module root.children).forM (Bind.bindFrom source.tree.size)
  let ((), done) := walk.run ⟨store, start⟩
  (done.binding, done.store)

end ScriptGraph.Binding
