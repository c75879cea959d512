import ScriptGraph.Ambient.Library
import ScriptGraph.Settings.Basic
import ScriptGraph.Workspace.Resolution

/-!
# Workspaces

A workspace is what one analysis sees: the file under analysis, the files that it may import, the
ambient library, and everything bound so far. The file under analysis is bound at once, another
file when it is first needed. Which module a specifier names in a file is decided once and
remembered.
-/

namespace ScriptGraph

open Binding Syntax

/-- The world of one analysis. `files` are the files of the disk by normal absolute path. -/
structure Workspace where
  settings : Settings
  disk : Disk
  root : Source
  files : Table String Source
  library : FileBinding
  store : Store
  bindings : Table String FileBinding := .empty
  modules : Table (String × String) (Option ScopeId) := .empty
  namespaces : Table ScopeId SymbolId := .empty
deriving Inhabited

namespace Workspace

/-- The workspace of a file next to the files of a disk. -/
def ofSource (settings : Settings) (disk : Disk) (library : Library) (root : Source) : Workspace :=
  let (binding, store) := Binding.bind root library.store
  { settings, disk, root, store
    files := ⟨disk.files.entries.map fun f =>
      (f.1, Source.ofText f.1 f.2 (Dialect.pick f.1 ""))⟩
    library := library.binding
    bindings := Table.empty.put root.fileName binding }

/-- Whether a path names the file under analysis. -/
def isRoot (w : Workspace) (path : String) : Bool :=
  Path.same path w.root.fileName

/-- The file of a path. The file under analysis hides one at its place on the disk. -/
def source? (w : Workspace) (path : String) : Option Source :=
  if w.isRoot path then some w.root else w.files.find? (Path.absolute path)

/-- The files of the disk that may be bound: none of them when imports are not resolved. -/
def importable (w : Workspace) : List Source :=
  if w.settings.resolveImports.isTruthy then w.files.values else []

/-- The number of nodes in the trees of some files. -/
def nodeCount : List Source → Nat
  | [] => 0
  | s :: rest => s.tree.size + nodeCount rest

/-- The number of nodes in all trees that may be bound. -/
def size (w : Workspace) : Nat :=
  w.root.tree.size + w.library.source.tree.size + nodeCount w.importable

/-- The symbol that the ambient library declares under a name, in a way that some kinds cover. -/
def globalSymbol? (w : Workspace) (kinds : DeclarationKind → Bool) (name : String) :
    Option SymbolId :=
  ((w.store.symbolsOf w.library.moduleScope).find? name).filter (w.store.hasKind kinds)

/-- The binding of a file, which is bound if it has not been yet. -/
def bindingFor (s : Source) : StateM Workspace FileBinding := do
  let w ← get
  -- The library is bound before any file, and never again.
  if s.isBundled then return w.library
  match w.bindings.find? s.fileName with
  | some b => return b
  | none =>
    let (b, store) := Binding.bind s w.store
    set { w with store, bindings := w.bindings.put s.fileName b }
    return b

/-- The module that a quoted module declaration opens for a specifier, in the file under analysis,
the ambient library or any file bound so far. -/
def ambientModule? (specifier : String) : StateM Workspace (Option ScopeId) := do
  -- The file under analysis comes first, then the library.
  let root ← bindingFor (← get).root
  let w ← get
  return (root :: w.library :: w.bindings.values).findSome? fun b =>
    b.ambientModules.find? specifier

/-- The module of the file that a specifier stands for. -/
def fileModule? (specifier : String) (importer : Source) : StateM Workspace (Option ScopeId) := do
  let w ← get
  if !w.settings.resolveImports.isTruthy || importer.isBundled then return none
  match (Resolution.resolve? w.disk specifier importer.fileName).bind w.source? with
  | some target => return some (← bindingFor target).moduleScope
  | none => return none

/-- The module that a specifier names in a file. -/
def resolveModule (specifier : String) (importer : Source) : StateM Workspace (Option ScopeId) := do
  if specifier.isEmpty then return none
  let key := (importer.fileName, specifier)
  match (← get).modules.find? key with
  | some known => return known
  | none =>
    -- A module that is declared by its name hides a file.
    let module ← match ← ambientModule? specifier with
      | some module => pure (some module)
      | none => fileModule? specifier importer
    modify fun w => { w with modules := w.modules.put key module }
    return module

end Workspace

end ScriptGraph
