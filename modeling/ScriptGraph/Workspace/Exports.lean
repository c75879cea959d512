import ScriptGraph.Binding.Modules
import ScriptGraph.Workspace.Basic

/-!
# What modules export

An exported name leads to a symbol of the module itself or, through re-exports, to one of another
module. A search visits each pair of module and name once and gives up after too many pairs. The
namespace object of a module gathers all its exports.
-/

namespace ScriptGraph.Workspace

open Binding Syntax

/-- The number of pairs after which a search for an export gives up. -/
def exportHops : Nat := 16

/-- A search for an export, which knows the pairs that it has visited. -/
abbrev ExportSearch := StateT (List (ScopeId × String)) (StateM Workspace)

/-- The file of a module. -/
def moduleFile (module : ScopeId) : StateM Workspace Source := do
  return ((← get).store.scope module).node.source

/-- The module that a specifier names in the file of a module. -/
def moduleNamed (module : ScopeId) (specifier : String) : StateM Workspace (Option ScopeId) := do
  resolveModule specifier (← moduleFile module)

/-- The first symbol that a list of searches finds. -/
def firstFound (search : α → ExportSearch (Option SymbolId)) : List α →
    ExportSearch (Option SymbolId)
  | [] => return none
  | a :: rest => do
    match ← search a with
    | some symbol => return some symbol
    | none => firstFound search rest

/-- The symbol that an export entry leads to. `follow` searches another module, and `whole` is the
namespace object of one. -/
def entrySymbol? (follow : ScopeId → String → ExportSearch (Option SymbolId))
    (whole : ScopeId → String → StateM Workspace SymbolId) (module : ScopeId) (name : String) :
    ExportEntry → ExportSearch (Option SymbolId)
  | .value symbol => return some symbol
  | .named inside => do
    return (← getThe Workspace).store.lookup? (fun _ => true) inside module
  | .forwarded specifier imported => do
    match ← moduleNamed module specifier with
    | none => return none
    | some target =>
      if imported == "*" then return some (← whole target specifier)
      -- A re-export without a name of its own passes the same one on.
      else follow target (if imported.isEmpty then name else imported)

/-- The symbol that a module exports because it takes over the exports of another one. -/
def starSymbol? (follow : ScopeId → String → ExportSearch (Option SymbolId)) (module : ScopeId)
    (name specifier : String) : ExportSearch (Option SymbolId) := do
  match ← moduleNamed module specifier with
  | none => return none
  | some target => follow target name

/-- The symbol that a pair leads to: by its export entry, or without one through the modules whose
exports are taken over, or from the default to the whole export. -/
def pairSymbol? (follow : ScopeId → String → ExportSearch (Option SymbolId))
    (whole : ScopeId → String → StateM Workspace SymbolId) (module : ScopeId) (name : String) :
    ExportSearch (Option SymbolId) := do
  let store := (← getThe Workspace).store
  match store.exportEntry? module name with
  | some entry => entrySymbol? follow whole module name entry
  | none =>
    -- Taking over the exports of a module leaves its default out.
    if name != "default" then
      firstFound (starSymbol? follow module name) (store.scope module).starExports
    else if (store.scope module).exports.contains wholeExportName then
      follow module wholeExportName
    else return none

/-- Searches a module for an export, with at most `hops` more pairs on the way. -/
def searchExport (whole : ScopeId → String → StateM Workspace SymbolId) :
    Nat → ScopeId → String → ExportSearch (Option SymbolId)
  | 0, _, _ => return none
  | hops + 1, module, name => do
    let seen ← get
    if seen.contains (module, name) || exportHops < seen.length then return none
    -- Visited pairs stay visited, so a cycle is gone through once.
    set ((module, name) :: seen)
    pairSymbol? (searchExport whole hops) whole module name

/-- The symbol that a module exports under a name. -/
def exportIn (whole : ScopeId → String → StateM Workspace SymbolId) (module : ScopeId)
    (name : String) : StateM Workspace (Option SymbolId) := do
  let (found, _) ← (searchExport whole (exportHops + 2) module name).run []
  return found

/-- The names that a module exports itself: the listed ones, and the symbols of a module that
exports everything. -/
def ownExports (store : Store) (module : ScopeId) : List String :=
  let scope := store.scope module
  let listed := scope.exports.keys
  if scope.exportsAll then
    listed ++ (store.symbolsOf module).keys.filter fun n => !scope.exports.contains n
  else listed

/-- Adds the names that a re-exported module contributes. -/
def addNames (names : List String) : List String → List String
  | [] => names
  | n :: rest => addNames (if n == "default" || names.contains n then names else names ++ [n]) rest

/-- The names that a module exports, with re-exports nested at most `depth` deep. -/
def exportedNamesFrom : Nat → ScopeId → StateT (List ScopeId) (StateM Workspace) (List String)
  | 0, _ => return []
  | depth + 1, module => do
    let seen ← get
    -- Modules that take over each other's exports come round to one another.
    if seen.contains module then return []
    set (module :: seen)
    let store := (← getThe Workspace).store
    (store.scope module).starExports.foldlM (fun names specifier => do
      match ← moduleNamed module specifier with
      | none => return names
      | some target => return addNames names (← exportedNamesFrom depth target))
      (ownExports store module)

/-- The names that a module exports, its own ones first. -/
def exportedNames (module : ScopeId) : StateM Workspace (List String) := do
  let (names, _) ← (exportedNamesFrom ((← get).size + 1) module).run []
  return names

/-- Adds a symbol of a name that no scope knows. -/
def addSymbol (name : String) : StateM Workspace SymbolId :=
  modifyGet fun w =>
    let (id, store) := w.store.addSymbol { name }
    (id, { w with store })

/-- Sets a static of a symbol. -/
def putStatic (owner : SymbolId) (name : String) (symbol : SymbolId) : StateM Workspace Unit :=
  modify fun w => { w with store := w.store.modifySymbol owner fun o =>
    { o with statics := o.statics.put name symbol } }

/-- Whether the statics of a declaration of a kind show in the namespace object of a module that
it is the whole export of. -/
def sharesStatics : DeclarationKind → Bool
  | .namespace | .class | .function => true
  | _ => false

/-- Adds the statics of the value that is a module's whole export to its namespace object. -/
def addWholeExport (whole : ScopeId → String → StateM Workspace SymbolId) (module : ScopeId)
    (symbol : SymbolId) : StateM Workspace Unit := do
  match ← exportIn whole module wholeExportName with
  | none => return ()
  | some target =>
    let store := (← get).store
    if store.hasKind sharesStatics target then
      let added := (store.symbol target).statics
      modify fun w => { w with store := w.store.modifySymbol symbol fun o =>
        { o with statics := added.entries.foldl (fun t e => t.putNew e.1 e.2) o.statics } }

/-- Adds one export of a module to its namespace object. -/
def addExport (whole : ScopeId → String → StateM Workspace SymbolId) (module : ScopeId)
    (symbol : SymbolId) (exported : String) : StateM Workspace Unit := do
  -- The whole export is no name that importers write.
  if exported != wholeExportName then
    match ← exportIn whole module exported with
    | some target => putStatic symbol exported target
    | none => return ()

/-- Adds the exports of a module to its namespace object. -/
def addExports (whole : ScopeId → String → StateM Workspace SymbolId) (module : ScopeId)
    (symbol : SymbolId) : StateM Workspace Unit := do
  (← exportedNames module).forM (addExport whole module symbol)
  if ((← get).store.scope module).exports.contains wholeExportName then
    addWholeExport whole module symbol

/-- The namespace object of a module, with namespace objects nested at most `depth` deep. It is
known before its exports are gathered, so that modules may refer to each other. -/
def namespaceFrom : Nat → ScopeId → String → StateM Workspace SymbolId
  | 0, _, _ => addSymbol ""
  | depth + 1, module, specifier => do
    match (← get).namespaces.find? module with
    | some symbol => return symbol
    | none =>
      let file ← moduleFile module
      let name := "\"" ++ (if specifier.isEmpty then file.fileName else specifier) ++ "\""
      let symbol ← addSymbol name
      -- From here on the module refers to this object, which is still without its statics.
      modify fun w => { w with namespaces := w.namespaces.put module symbol }
      addExports (namespaceFrom depth) module symbol
      return symbol

/-- The namespace object of a module, named for a specifier of it. -/
def moduleSymbol (module : ScopeId) (specifier : String) : StateM Workspace SymbolId := do
  namespaceFrom ((← get).size + 1) module specifier

/-- The symbol that a module exports under a name. -/
def exportSymbol (module : ScopeId) (name : String) : StateM Workspace (Option SymbolId) :=
  exportIn moduleSymbol module name

end ScriptGraph.Workspace
