import ScriptGraph.Binding.Pattern
import ScriptGraph.Binding.Store

/-!
# The binding of a file

A file's binding records which scope each construct opens, which declaration stands at each
construct and at each name, and which quoted modules the file declares. It is built by actions in
the `Bind` monad, which also extend the store that the numbers refer to.
-/

namespace ScriptGraph.Binding

open Syntax

/-- What is declared where in one file. -/
structure FileBinding where
  source : Source
  moduleScope : ScopeId
  scopes : Table NodeKey ScopeId := .empty
  declarations : Table NodeKey DeclarationId := .empty
  names : Table NodeKey DeclarationId := .empty
  ambientModules : Table String ScopeId := .empty
deriving Inhabited

namespace FileBinding

/-- The innermost scope that one of some places opens. -/
def scopeAmong (b : FileBinding) : List NodeKey → ScopeId
  | [] => b.moduleScope
  | k :: outer =>
    match b.scopes.find? k with
    | some id => id
    | none => scopeAmong b outer

/-- The innermost scope around a node, its own included. -/
def scopeFor (b : FileBinding) (n : Node) : ScopeId :=
  b.scopeAmong (n.key :: n.trail.map fun c =>
    ⟨n.source.fileName, c.parent.start, c.parent.stop, c.parent.label⟩)

/-- The declaration at a construct. -/
def declarationAt? (b : FileBinding) (n : Node) : Option DeclarationId :=
  b.declarations.find? n.key

/-- The declaration that a name belongs to. -/
def declarationNamed? (b : FileBinding) (n : Node) : Option DeclarationId :=
  b.names.find? n.key

end FileBinding

/-- A store and the binding under construction. -/
structure Progress where
  store : Store
  binding : FileBinding

/-- An action that binds. -/
abbrev Bind := StateM Progress

namespace Bind

/-- Runs an action on the store. -/
def onStore (f : Store → α × Store) : Bind α :=
  modifyGet fun p =>
    let (a, store) := f p.store
    (a, { p with store })

/-- Changes the store. -/
def modifyStore (f : Store → Store) : Bind Unit :=
  modify fun p => { p with store := f p.store }

/-- Changes the binding. -/
def modifyBinding (f : FileBinding → FileBinding) : Bind Unit :=
  modify fun p => { p with binding := f p.binding }

/-- Opens a scope at a construct. -/
def openScope (kind : ScopeKind) (node : Node) (parent : ScopeId) : Bind ScopeId := do
  let id ← onStore (·.addScope { kind, node, parent := some parent })
  modifyBinding fun b => { b with scopes := b.scopes.put node.key id }
  return id

/-- Records a declaration. The first declaration at a construct, and the first at a name, is the
one found there. -/
def record (d : Declaration) : Bind DeclarationId := do
  let id ← onStore (·.addDeclaration d)
  modifyBinding fun b =>
    { b with
      declarations := b.declarations.putNew d.node.key id
      names := d.nameNode.elim b.names fun n => b.names.putNew n.key id }
  return id

/-- Puts a symbol into the table of a scope. -/
def enter (scope : ScopeId) (name : String) (symbol : SymbolId) : Bind Unit :=
  modifyStore (·.putSymbol scope name symbol)

/-- Attaches a recorded declaration to the symbol of its name in a scope, which is created if it
does not exist. -/
def attachIn (scope : ScopeId) (name : String) (d : DeclarationId) : Bind SymbolId := do
  let symbol ← match ((← get).store.symbolsOf scope).find? name with
    | some symbol => pure symbol
    | none => do
      let symbol ← onStore (·.addSymbol { name })
      enter scope name symbol
      pure symbol
  modifyStore (·.attach symbol d)
  return symbol

/-- Declares a name in a scope. -/
def declare (scope : ScopeId) (d : Declaration) : Bind SymbolId := do
  let id ← record d
  attachIn scope d.name id

/-- Declares a member of a symbol, on its static side if the declaration is static. -/
def declareMember (owner : SymbolId) (d : Declaration) : Bind Unit := do
  let id ← record d
  let sym := (← get).store.symbol owner
  -- Overloads, and a getter with its setter, share one member.
  let existing := (if d.isStatic then sym.statics else sym.members).find? d.name
  let symbol ← match existing with
    | some symbol => pure symbol
    | none => do
      let symbol ← onStore (·.addSymbol { name := d.name, parent := some owner })
      modifyStore (·.modifySymbol owner fun o =>
        if d.isStatic then { o with statics := o.statics.put d.name symbol }
        else { o with members := o.members.put d.name symbol })
      pure symbol
  modifyStore (·.attach symbol id)

/-- Records a signature that a symbol is constructed by. -/
def addConstructSignature (owner : SymbolId) (d : Declaration) : Bind Unit := do
  let id ← record { d with symbol := some owner }
  modifyStore (·.modifySymbol owner fun o =>
    { o with constructSignatures := o.constructSignatures ++ [id] })

/-- Records a signature that a symbol is called by. -/
def addCallSignature (owner : SymbolId) (d : Declaration) : Bind Unit := do
  let id ← record { d with symbol := some owner }
  modifyStore (·.modifySymbol owner fun o =>
    { o with callSignatures := o.callSignatures ++ [id] })

/-- Declares the type parameters of a construct in a scope, and lists them with a symbol. -/
def declareTypeParameters (node : Node) (scope : ScopeId) (owner : Option SymbolId) : Bind Unit :=
  (node.constructsIn .typeParameters).forM fun param =>
    match param.child? .name with
    | none => pure ()
    | some nameNode => do
      let name := nameNode.text
      let _ ← declare scope
        { kind := .typeParameter, name, node := param, nameNode := some nameNode }
      match owner with
      | none => pure ()
      | some owner => modifyStore (·.modifySymbol owner fun o =>
          -- An interface that is declared in parts may name its parameters in each of them.
          if o.typeParameters.contains name then o
          else { o with typeParameters := o.typeParameters ++ [name] })

end Bind

end ScriptGraph.Binding
