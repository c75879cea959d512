import ScriptGraph.Binding.Declaration

/-!
# The store of symbols, declarations and scopes

A store grows by adding symbols, declarations and scopes and by attaching declarations to
symbols; nothing is ever removed. `Store.lookup?` finds a name from a scope outwards.
-/

namespace ScriptGraph.Binding

open Syntax

/-- All symbols, declarations and scopes by number. -/
structure Store where
  symbols : Array Symbol := #[]
  declarations : Array Declaration := #[]
  scopes : Array Scope := #[]
deriving Inhabited

namespace Store

/-- The symbol of a number. -/
def symbol (s : Store) (id : SymbolId) : Symbol :=
  s.symbols.getD id.index default

/-- The declaration of a number. -/
def declaration (s : Store) (id : DeclarationId) : Declaration :=
  s.declarations.getD id.index default

/-- The scope of a number. -/
def scope (s : Store) (id : ScopeId) : Scope :=
  s.scopes.getD id.index default

/-- Adds a symbol. -/
def addSymbol (s : Store) (symbol : Symbol) : SymbolId × Store :=
  (⟨s.symbols.size⟩, { s with symbols := s.symbols.push symbol })

/-- Adds a declaration. -/
def addDeclaration (s : Store) (d : Declaration) : DeclarationId × Store :=
  (⟨s.declarations.size⟩, { s with declarations := s.declarations.push d })

/-- Adds a scope. -/
def addScope (s : Store) (scope : Scope) : ScopeId × Store :=
  (⟨s.scopes.size⟩, { s with scopes := s.scopes.push scope })

/-- Changes a symbol. -/
def modifySymbol (s : Store) (id : SymbolId) (f : Symbol → Symbol) : Store :=
  { s with symbols := s.symbols.modify id.index f }

/-- Changes a declaration. -/
def modifyDeclaration (s : Store) (id : DeclarationId) (f : Declaration → Declaration) : Store :=
  { s with declarations := s.declarations.modify id.index f }

/-- Changes a scope. -/
def modifyScope (s : Store) (id : ScopeId) (f : Scope → Scope) : Store :=
  { s with scopes := s.scopes.modify id.index f }

/-- Puts a symbol into the table of a scope. -/
def putSymbol (s : Store) (scope : ScopeId) (name : String) (symbol : SymbolId) : Store :=
  match (s.scope scope).table with
  | .own _ => s.modifyScope scope fun sc =>
      match sc.table with
      | .own t => { sc with table := .own (t.put name symbol) }
      | .staticsOf _ => sc
  -- The names of a namespace are the statics of its symbol, from all its blocks.
  | .staticsOf owner => s.modifySymbol owner fun sym =>
      { sym with statics := sym.statics.put name symbol }

/-- Makes a declaration one of a symbol's. -/
def attach (s : Store) (symbol : SymbolId) (d : DeclarationId) : Store :=
  (s.modifyDeclaration d fun decl => { decl with symbol := some symbol }).modifySymbol symbol
    fun sym => { sym with declarations := sym.declarations ++ [d] }

/-- A symbol that is added is found at its number, and the others as before. -/
theorem symbol_addSymbol (s : Store) (symbol : Symbol) (id : SymbolId) :
    (s.addSymbol symbol).2.symbol id =
      if id.index = s.symbols.size then symbol else s.symbol id := by
  simp only [addSymbol, Store.symbol, Array.getD_eq_getD_getElem?, Array.getElem?_push]
  split <;> rfl

/-- A declaration that is added is found at its number, and the others as before. -/
theorem declaration_addDeclaration (s : Store) (d : Declaration) (id : DeclarationId) :
    (s.addDeclaration d).2.declaration id =
      if id.index = s.declarations.size then d else s.declaration id := by
  simp only [addDeclaration, declaration, Array.getD_eq_getD_getElem?, Array.getElem?_push]
  split <;> rfl

/-- A scope that is added is found at its number, and the others as before. -/
theorem scope_addScope (s : Store) (scope : Scope) (id : ScopeId) :
    (s.addScope scope).2.scope id =
      if id.index = s.scopes.size then scope else s.scope id := by
  simp only [addScope, Store.scope, Array.getD_eq_getD_getElem?, Array.getElem?_push]
  split <;> rfl

/-- A change of a symbol shows at that symbol only, and only if there is such a symbol. -/
theorem symbol_modifySymbol (s : Store) (id other : SymbolId) (f : Symbol → Symbol) :
    (s.modifySymbol id f).symbol other =
      if id = other ∧ id.index < s.symbols.size then f (s.symbol other) else s.symbol other := by
  obtain ⟨i⟩ := id
  obtain ⟨j⟩ := other
  simp only [modifySymbol, Store.symbol, Array.getD_eq_getD_getElem?, Array.getElem?_modify,
    SymbolId.mk.injEq]
  by_cases h : i = j
  · subst h
    by_cases hi : i < s.symbols.size <;> simp [hi]
  · simp [h]

/-- A change of a declaration shows at that declaration only, and only if there is one. -/
theorem declaration_modifyDeclaration (s : Store) (id other : DeclarationId)
    (f : Declaration → Declaration) :
    (s.modifyDeclaration id f).declaration other =
      if id = other ∧ id.index < s.declarations.size then f (s.declaration other)
      else s.declaration other := by
  obtain ⟨i⟩ := id
  obtain ⟨j⟩ := other
  simp only [modifyDeclaration, declaration, Array.getD_eq_getD_getElem?, Array.getElem?_modify,
    DeclarationId.mk.injEq]
  by_cases h : i = j
  · subst h
    by_cases hi : i < s.declarations.size <;> simp [hi]
  · simp [h]

/-- A symbol that a declaration is attached to lists it last. -/
theorem symbol_attach (s : Store) (symbol other : SymbolId) (d : DeclarationId) :
    (s.attach symbol d).symbol other =
      if symbol = other ∧ symbol.index < s.symbols.size then
        { s.symbol other with declarations := (s.symbol other).declarations ++ [d] }
      else s.symbol other :=
  symbol_modifySymbol _ symbol other _

/-- A declaration that is attached has that symbol. -/
theorem declaration_attach (s : Store) (symbol : SymbolId) (d other : DeclarationId) :
    (s.attach symbol d).declaration other =
      if d = other ∧ d.index < s.declarations.size then
        { s.declaration other with symbol := some symbol }
      else s.declaration other :=
  declaration_modifyDeclaration s d other _

/-- A change of a scope shows at that scope only, and only if there is such a scope. -/
theorem scope_modifyScope (s : Store) (id other : ScopeId) (f : Scope → Scope) :
    (s.modifyScope id f).scope other =
      if id = other ∧ id.index < s.scopes.size then f (s.scope other) else s.scope other := by
  obtain ⟨i⟩ := id
  obtain ⟨j⟩ := other
  simp only [modifyScope, Store.scope, Array.getD_eq_getD_getElem?, Array.getElem?_modify,
    ScopeId.mk.injEq]
  by_cases h : i = j
  · subst h
    by_cases hi : i < s.scopes.size <;> simp [hi]
  · simp [h]

/-- The declarations of a symbol. -/
def declarationsOf (s : Store) (id : SymbolId) : List Declaration :=
  (s.symbol id).declarations.map s.declaration

/-- The first declaration of a symbol of one of some kinds. -/
def firstOf (s : Store) (kinds : DeclarationKind → Bool) (id : SymbolId) : Option DeclarationId :=
  (s.symbol id).declarations.find? fun d => kinds (s.declaration d).kind

/-- Whether a symbol has a declaration of one of some kinds. -/
def hasKind (s : Store) (kinds : DeclarationKind → Bool) (id : SymbolId) : Bool :=
  (s.firstOf kinds id).isSome

/-- Whether a symbol stands for something imported. -/
def isAlias (s : Store) (id : SymbolId) : Bool :=
  match (s.symbol id).declarations with
  | [] => false
  | d :: _ => (s.declaration d).kind == .importAlias

/-- The symbols declared in a scope. -/
def symbolsOf (s : Store) (id : ScopeId) : Table String SymbolId :=
  match (s.scope id).table with
  | .own symbols => symbols
  | .staticsOf symbol => (s.symbol symbol).statics

/-- The symbol of a name in a scope or in one around it, the innermost one first. Symbols without
a declaration of the wanted kinds are passed over. Scopes have smaller numbers than the scopes
inside them. -/
def lookup? (s : Store) (kinds : DeclarationKind → Bool) (name : String) (id : ScopeId) :
    Option SymbolId :=
  match ((s.symbolsOf id).find? name).filter (s.hasKind kinds) with
  | some symbol => some symbol
  | none =>
    match (s.scope id).parent with
    | none => none
    | some up => if up.index < id.index then lookup? s kinds name up else none
termination_by id.index

/-- The module around a scope. -/
def moduleScope (s : Store) (id : ScopeId) : ScopeId :=
  let scope := s.scope id
  match scope.parent with
  | none => id
  | some up =>
    if scope.kind == .module then id
    else if up.index < id.index then moduleScope s up
    else id
termination_by id.index

/-- How a module exposes a name. -/
def exportEntry? (s : Store) (id : ScopeId) (name : String) : Option ExportEntry :=
  let scope := s.scope id
  match scope.exports.find? name with
  | some entry => some entry
  | none => if scope.exportsAll then ((s.symbolsOf id).find? name).map .value else none

end Store

end ScriptGraph.Binding
