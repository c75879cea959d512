import ScriptGraph.Workspace.Exports

/-!
# What imported names stand for

An alias is followed from module to module until it leads to something declared. Of the
declarations of a symbol the best one is the first that carries an implementation, or else the
first.
-/

namespace ScriptGraph.Workspace

open Binding Syntax

/-- The number of aliases in a row that are followed. -/
def aliasHops : Nat := 16

/-- The symbol that an import brings in. -/
def importedSymbol (d : Declaration) : StateM Workspace (Option SymbolId) := do
  match d.importSource with
  | none => return none
  | some ⟨specifier, imported⟩ =>
    match ← resolveModule specifier d.source with
    | none => return none
    | some module =>
      -- The star stands for the namespace object of the module.
      if imported == "*" then return some (← moduleSymbol module specifier)
      else exportSymbol module (if imported.isEmpty then "default" else imported)

/-- Follows aliases, at most `hops` of them. -/
def resolveAliasFrom : Nat → SymbolId → StateM Workspace (Option SymbolId)
  | 0, symbol => do
    -- Aliases in a cycle lead nowhere.
    if (← get).store.isAlias symbol then return none else return some symbol
  | hops + 1, symbol => do
    let store := (← get).store
    if !store.isAlias symbol then return some symbol
    match (store.declarationsOf symbol).head? with
    | none => return none
    | some d =>
      match ← importedSymbol d with
      | some next => resolveAliasFrom hops next
      | none => return none

/-- The symbol that a symbol ultimately stands for. -/
def resolveAlias (symbol : SymbolId) : StateM Workspace (Option SymbolId) :=
  resolveAliasFrom aliasHops symbol

/-- The best declaration of a symbol that is no alias. -/
def bestDeclaration? (store : Store) (symbol : SymbolId) : Option DeclarationId :=
  (store.firstOf DeclarationKind.isImplementation symbol).or
    (store.symbol symbol).declarations.head?

/-- The best declaration of what a symbol stands for. -/
def pickDeclaration (symbol : Option SymbolId) : StateM Workspace (Option DeclarationId) := do
  match symbol with
  | none => return none
  | some symbol =>
    match ← resolveAlias symbol with
    | none => return none
    | some target => return bestDeclaration? (← get).store target

end ScriptGraph.Workspace
