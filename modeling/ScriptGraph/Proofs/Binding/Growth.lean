import ScriptGraph.Binding.Basic
import ScriptGraph.Proofs.Ensures

/-!
# Stores grow

Binding a file adds to a store and changes nothing that was there before. What it adds belongs to
the file and refers to what it adds only. `Grown` states this of a binding in the making, and the
lemmas below say that the elementary actions of binding keep it.

- `Store.Extends`: everything that was there is still there, unchanged
- `Store.GrownFor`: what has been added belongs to one file and is closed
- `Bind.Grown`: the same of a store together with a binding
-/

namespace ScriptGraph.Binding

open Syntax

namespace Store

/-- A store has no fewer symbols, declarations and scopes than another one. -/
structure NoSmaller (old new : Store) : Prop where
  symbols_le : old.symbols.size ≤ new.symbols.size
  declarations_le : old.declarations.size ≤ new.declarations.size
  scopes_le : old.scopes.size ≤ new.scopes.size

/-- A store holds everything that another one holds, unchanged. -/
structure Extends (old new : Store) : Prop extends NoSmaller old new where
  symbol_eq : ∀ id : SymbolId, id.index < old.symbols.size → new.symbol id = old.symbol id
  declaration_eq : ∀ id : DeclarationId, id.index < old.declarations.size →
    new.declaration id = old.declaration id
  scope_eq : ∀ id : ScopeId, id.index < old.scopes.size → new.scope id = old.scope id

/-- No store is smaller than itself. -/
theorem NoSmaller.refl (s : Store) : s.NoSmaller s :=
  ⟨Nat.le_refl _, Nat.le_refl _, Nat.le_refl _⟩

/-- A store that does not get smaller twice is not smaller. -/
theorem NoSmaller.trans {a b c : Store} (hab : a.NoSmaller b) (hbc : b.NoSmaller c) :
    a.NoSmaller c :=
  ⟨Nat.le_trans hab.symbols_le hbc.symbols_le,
    Nat.le_trans hab.declarations_le hbc.declarations_le,
    Nat.le_trans hab.scopes_le hbc.scopes_le⟩

/-- A symbol of a store is one of a store that is no smaller. -/
theorem NoSmaller.symbol_lt {old new : Store} (h : old.NoSmaller new) {id : SymbolId}
    (hid : id.index < old.symbols.size) : id.index < new.symbols.size :=
  Nat.lt_of_lt_of_le hid h.symbols_le

/-- A declaration of a store is one of a store that is no smaller. -/
theorem NoSmaller.declaration_lt {old new : Store} (h : old.NoSmaller new) {id : DeclarationId}
    (hid : id.index < old.declarations.size) : id.index < new.declarations.size :=
  Nat.lt_of_lt_of_le hid h.declarations_le

/-- A scope of a store is one of a store that is no smaller. -/
theorem NoSmaller.scope_lt {old new : Store} (h : old.NoSmaller new) {id : ScopeId}
    (hid : id.index < old.scopes.size) : id.index < new.scopes.size :=
  Nat.lt_of_lt_of_le hid h.scopes_le

/-- Every store extends itself. -/
theorem Extends.refl (s : Store) : s.Extends s :=
  ⟨.refl s, fun _ _ => rfl, fun _ _ => rfl, fun _ _ => rfl⟩

/-- Extensions of extensions are extensions. -/
theorem Extends.trans {a b c : Store} (hab : a.Extends b) (hbc : b.Extends c) : a.Extends c where
  toNoSmaller := hab.toNoSmaller.trans hbc.toNoSmaller
  symbol_eq id h := (hbc.symbol_eq id (hab.symbol_lt h)).trans (hab.symbol_eq id h)
  declaration_eq id h := (hbc.declaration_eq id (hab.declaration_lt h)).trans
    (hab.declaration_eq id h)
  scope_eq id h := (hbc.scope_eq id (hab.scope_lt h)).trans (hab.scope_eq id h)

/-! ## What has been added -/

/-- A symbol of `now` that `base` does not have. -/
def AddsSymbol (base now : Store) (id : SymbolId) : Prop :=
  base.symbols.size ≤ id.index ∧ id.index < now.symbols.size

/-- A declaration of `now` that `base` does not have. -/
def AddsDeclaration (base now : Store) (id : DeclarationId) : Prop :=
  base.declarations.size ≤ id.index ∧ id.index < now.declarations.size

/-- A scope of `now` that `base` does not have. -/
def AddsScope (base now : Store) (id : ScopeId) : Prop :=
  base.scopes.size ≤ id.index ∧ id.index < now.scopes.size

/-- The members and statics of a symbol are symbols that have been added. -/
def ClosedSymbol (base now : Store) (symbol : Symbol) : Prop :=
  (∀ e ∈ symbol.members.entries, base.AddsSymbol now e.2) ∧
    ∀ e ∈ symbol.statics.entries, base.AddsSymbol now e.2

/-- What a scope declares are symbols that have been added. -/
def ClosedTable (base now : Store) : ScopeTable → Prop
  | .own symbols => ∀ e ∈ symbols.entries, base.AddsSymbol now e.2
  | .staticsOf symbol => base.AddsSymbol now symbol

/-- What a scope declares, and the scope around it, have been added. -/
def ClosedScope (base now : Store) (scope : Scope) : Prop :=
  (∀ up, scope.parent = some up → base.scopes.size ≤ up.index) ∧ base.ClosedTable now scope.table

/-- A store has grown out of another one by what belongs to a file. -/
structure GrownFor (base : Store) (file : Source) (now : Store) : Prop where
  extends_base : base.Extends now
  symbol_closed : ∀ id : SymbolId, base.symbols.size ≤ id.index →
    base.ClosedSymbol now (now.symbol id)
  scope_closed : ∀ id : ScopeId, base.scopes.size ≤ id.index →
    base.ClosedScope now (now.scope id)
  declaration_source : ∀ id, base.AddsDeclaration now id → (now.declaration id).source = file

variable {base now next : Store} {file : Source}

/-- A symbol that was added stays in larger stores. -/
theorem AddsSymbol.mono {id : SymbolId} (h : base.AddsSymbol now id) (hle : now.NoSmaller next) :
    base.AddsSymbol next id :=
  ⟨h.1, hle.symbol_lt h.2⟩

/-- A declaration that was added stays in larger stores. -/
theorem AddsDeclaration.mono {id : DeclarationId} (h : base.AddsDeclaration now id)
    (hle : now.NoSmaller next) : base.AddsDeclaration next id :=
  ⟨h.1, hle.declaration_lt h.2⟩

/-- A scope that was added stays in larger stores. -/
theorem AddsScope.mono {id : ScopeId} (h : base.AddsScope now id) (hle : now.NoSmaller next) :
    base.AddsScope next id :=
  ⟨h.1, hle.scope_lt h.2⟩

/-- A symbol that refers only to what was added keeps doing so. -/
theorem ClosedSymbol.mono {symbol : Symbol} (h : base.ClosedSymbol now symbol)
    (hle : now.NoSmaller next) : base.ClosedSymbol next symbol :=
  ⟨fun e he => (h.1 e he).mono hle, fun e he => (h.2 e he).mono hle⟩

/-- A table that refers only to what was added keeps doing so. -/
theorem ClosedTable.mono {table : ScopeTable} (h : base.ClosedTable now table)
    (hle : now.NoSmaller next) : base.ClosedTable next table := by
  cases table with
  | own symbols => exact fun e he => (h e he).mono hle
  | staticsOf symbol => exact AddsSymbol.mono h hle

/-- A scope that refers only to what was added keeps doing so. -/
theorem ClosedScope.mono {scope : Scope} (h : base.ClosedScope now scope)
    (hle : now.NoSmaller next) : base.ClosedScope next scope :=
  ⟨h.1, h.2.mono hle⟩

/-- A symbol that has only a name refers to nothing. -/
theorem closedSymbol_named (name : String) (parent : Option SymbolId) :
    base.ClosedSymbol now { name, parent } :=
  ⟨nofun, nofun⟩

/-- The default scope refers to nothing. -/
theorem closedScope_default : base.ClosedScope now default :=
  ⟨nofun, nofun⟩

/-- Nothing has been added yet. -/
theorem GrownFor.refl (base : Store) (file : Source) : base.GrownFor file base where
  extends_base := .refl base
  -- Beyond the last symbol and the last scope there are defaults only.
  symbol_closed id h := by
    rw [symbol, Array.getD_eq_getD_getElem?, Array.getElem?_eq_none h]
    exact closedSymbol_named _ none
  scope_closed id h := by
    rw [scope, Array.getD_eq_getD_getElem?, Array.getElem?_eq_none h]
    exact closedScope_default
  declaration_source id h := absurd h.2 (Nat.not_lt.mpr h.1)

/-- The rule behind every change of a store: `next` may differ from `now` in what has been added,
as long as that stays closed and stays in the file. -/
theorem GrownFor.change (h : base.GrownFor file now) (hle : now.NoSmaller next)
    (hsymbol : ∀ id : SymbolId, next.symbol id = now.symbol id ∨
      (base.symbols.size ≤ id.index ∧ base.ClosedSymbol next (next.symbol id)))
    (hdeclaration : ∀ id : DeclarationId, next.declaration id = now.declaration id ∨
      (base.declarations.size ≤ id.index ∧ (next.declaration id).source = file))
    (hscope : ∀ id : ScopeId, next.scope id = now.scope id ∨
      (base.scopes.size ≤ id.index ∧ base.ClosedScope next (next.scope id)))
    (hadded : ∀ id : DeclarationId, now.declarations.size ≤ id.index →
      id.index < next.declarations.size → (next.declaration id).source = file) :
    base.GrownFor file next where
  -- A change may only be to what `base` does not have.
  extends_base :=
    { toNoSmaller := h.extends_base.toNoSmaller.trans hle
      symbol_eq := fun id hid => by
        rcases hsymbol id with he | he
        · exact he.trans (h.extends_base.symbol_eq id hid)
        · exact absurd hid (Nat.not_lt.mpr he.1)
      declaration_eq := fun id hid => by
        rcases hdeclaration id with he | he
        · exact he.trans (h.extends_base.declaration_eq id hid)
        · exact absurd hid (Nat.not_lt.mpr he.1)
      scope_eq := fun id hid => by
        rcases hscope id with he | he
        · exact he.trans (h.extends_base.scope_eq id hid)
        · exact absurd hid (Nat.not_lt.mpr he.1) }
  -- What was closed before stays closed, as nothing gets smaller.
  symbol_closed id hid := by
    rcases hsymbol id with he | he
    · exact he ▸ (h.symbol_closed id hid).mono hle
    · exact he.2
  scope_closed id hid := by
    rcases hscope id with he | he
    · exact he ▸ (h.scope_closed id hid).mono hle
    · exact he.2
  declaration_source id hid := by
    rcases hdeclaration id with he | he
    · -- The same declaration may be one that `now` has, or the one that it would get.
      by_cases hnow : id.index < now.declarations.size
      · exact he ▸ h.declaration_source id ⟨hid.1, hnow⟩
      · exact hadded id (Nat.not_lt.mp hnow) hid.2
    · exact he.2

/-- Adding a symbol makes no store smaller. -/
theorem noSmaller_addSymbol (s : Store) (symbol : Symbol) : s.NoSmaller (s.addSymbol symbol).2 :=
  ⟨by simp [addSymbol], Nat.le_refl _, Nat.le_refl _⟩

/-- Adding a declaration makes no store smaller. -/
theorem noSmaller_addDeclaration (s : Store) (d : Declaration) :
    s.NoSmaller (s.addDeclaration d).2 :=
  ⟨Nat.le_refl _, by simp [addDeclaration], Nat.le_refl _⟩

/-- Adding a scope makes no store smaller. -/
theorem noSmaller_addScope (s : Store) (scope : Scope) : s.NoSmaller (s.addScope scope).2 :=
  ⟨Nat.le_refl _, Nat.le_refl _, by simp [addScope]⟩

/-- Changing a symbol makes no store smaller. -/
theorem noSmaller_modifySymbol (s : Store) (id : SymbolId) (f : Symbol → Symbol) :
    s.NoSmaller (s.modifySymbol id f) :=
  ⟨by simp [modifySymbol], Nat.le_refl _, Nat.le_refl _⟩

/-- Changing a declaration makes no store smaller. -/
theorem noSmaller_modifyDeclaration (s : Store) (id : DeclarationId)
    (f : Declaration → Declaration) : s.NoSmaller (s.modifyDeclaration id f) :=
  ⟨Nat.le_refl _, by simp [modifyDeclaration], Nat.le_refl _⟩

/-- Changing a scope makes no store smaller. -/
theorem noSmaller_modifyScope (s : Store) (id : ScopeId) (f : Scope → Scope) :
    s.NoSmaller (s.modifyScope id f) :=
  ⟨Nat.le_refl _, Nat.le_refl _, by simp [modifyScope]⟩

/-- Putting a symbol into a scope makes no store smaller. -/
theorem noSmaller_putSymbol (s : Store) (scope : ScopeId) (name : String) (symbol : SymbolId) :
    s.NoSmaller (s.putSymbol scope name symbol) := by
  unfold putSymbol
  split
  · exact s.noSmaller_modifyScope _ _
  · exact s.noSmaller_modifySymbol _ _

/-- Attaching a declaration makes no store smaller. -/
theorem noSmaller_attach (s : Store) (symbol : SymbolId) (d : DeclarationId) :
    s.NoSmaller (s.attach symbol d) :=
  (s.noSmaller_modifyDeclaration d _).trans (noSmaller_modifySymbol _ symbol _)

/-- The new symbol is one that has been added. -/
theorem GrownFor.addsSymbol (h : base.GrownFor file now) (symbol : Symbol) :
    base.AddsSymbol (now.addSymbol symbol).2 (now.addSymbol symbol).1 :=
  ⟨h.extends_base.symbols_le, by simp [addSymbol]⟩

/-- A declaration that is added last is one that was added. -/
theorem GrownFor.addsDeclaration (h : base.GrownFor file now) (d : Declaration) :
    base.AddsDeclaration (now.addDeclaration d).2 (now.addDeclaration d).1 :=
  ⟨h.extends_base.declarations_le, by simp [addDeclaration]⟩

/-- A scope that is added last is one that was added. -/
theorem GrownFor.addsScope (h : base.GrownFor file now) (scope : Scope) :
    base.AddsScope (now.addScope scope).2 (now.addScope scope).1 :=
  ⟨h.extends_base.scopes_le, by simp [addScope]⟩

/-- A new symbol may refer to what was added. -/
theorem GrownFor.addSymbol (h : base.GrownFor file now) {symbol : Symbol}
    (hs : base.ClosedSymbol now symbol) : base.GrownFor file (now.addSymbol symbol).2 := by
  have hle := now.noSmaller_addSymbol symbol
  refine h.change hle (fun id => ?_) (fun _ => .inl rfl) (fun _ => .inl rfl)
    fun _ h₁ h₂ => absurd h₂ (Nat.not_lt.mpr h₁)
  rw [symbol_addSymbol]
  split
  next hid => exact .inr ⟨hid ▸ h.extends_base.symbols_le, hs.mono hle⟩
  next => exact .inl rfl

/-- A new declaration has to be of the file. -/
theorem GrownFor.addDeclaration (h : base.GrownFor file now) {d : Declaration}
    (hd : d.source = file) : base.GrownFor file (now.addDeclaration d).2 := by
  refine h.change (now.noSmaller_addDeclaration d) (fun _ => .inl rfl) (fun id => ?_)
    (fun _ => .inl rfl) fun id h₁ h₂ => ?_
  · rw [declaration_addDeclaration]
    split
    next hid => exact .inr ⟨hid ▸ h.extends_base.declarations_le, hd⟩
    next => exact .inl rfl
  -- A number that was free and is not any more is that of the new declaration.
  · have hid : id.index = now.declarations.size := by
      simp only [Store.addDeclaration, Array.size_push] at h₂
      omega
    rw [declaration_addDeclaration, if_pos hid, hd]

/-- A new scope may refer to what was added. -/
theorem GrownFor.addScope (h : base.GrownFor file now) {scope : Scope}
    (hs : base.ClosedScope now scope) : base.GrownFor file (now.addScope scope).2 := by
  have hle := now.noSmaller_addScope scope
  refine h.change hle (fun _ => .inl rfl) (fun _ => .inl rfl) (fun id => ?_)
    fun _ h₁ h₂ => absurd h₂ (Nat.not_lt.mpr h₁)
  rw [scope_addScope]
  split
  next hid => exact .inr ⟨hid ▸ h.extends_base.scopes_le, hs.mono hle⟩
  next => exact .inl rfl

/-- A symbol that was added may change if it stays closed. -/
theorem GrownFor.modifySymbol (h : base.GrownFor file now) {id : SymbolId}
    {f : Symbol → Symbol} (hid : base.symbols.size ≤ id.index)
    (hf : ∀ symbol, base.ClosedSymbol now symbol → base.ClosedSymbol now (f symbol)) :
    base.GrownFor file (now.modifySymbol id f) := by
  have hle := now.noSmaller_modifySymbol id f
  refine h.change hle (fun other => ?_) (fun _ => .inl rfl) (fun _ => .inl rfl)
    fun _ h₁ h₂ => absurd h₂ (Nat.not_lt.mpr h₁)
  rw [symbol_modifySymbol]
  split
  next ho =>
    obtain ⟨rfl, -⟩ := ho
    exact .inr ⟨hid, (hf _ (h.symbol_closed _ hid)).mono hle⟩
  next => exact .inl rfl

/-- A scope that was added may change if it stays closed. -/
theorem GrownFor.modifyScope (h : base.GrownFor file now) {id : ScopeId}
    {f : Scope → Scope} (hid : base.scopes.size ≤ id.index)
    (hf : ∀ scope, base.ClosedScope now scope → base.ClosedScope now (f scope)) :
    base.GrownFor file (now.modifyScope id f) := by
  have hle := now.noSmaller_modifyScope id f
  refine h.change hle (fun _ => .inl rfl) (fun _ => .inl rfl) (fun other => ?_)
    fun _ h₁ h₂ => absurd h₂ (Nat.not_lt.mpr h₁)
  rw [scope_modifyScope]
  split
  next ho =>
    obtain ⟨rfl, -⟩ := ho
    exact .inr ⟨hid, (hf _ (h.scope_closed _ hid)).mono hle⟩
  next => exact .inl rfl

/-- A declaration that was added may change if its construct stays. -/
theorem GrownFor.modifyDeclaration (h : base.GrownFor file now) {id : DeclarationId}
    {f : Declaration → Declaration} (hid : base.declarations.size ≤ id.index)
    (hf : ∀ d, (f d).node = d.node) : base.GrownFor file (now.modifyDeclaration id f) := by
  refine h.change (now.noSmaller_modifyDeclaration id f) (fun _ => .inl rfl) (fun other => ?_)
    (fun _ => .inl rfl) fun other h₁ h₂ => ?_
  · rw [declaration_modifyDeclaration]
    split
    next ho =>
      obtain ⟨rfl, hlt⟩ := ho
      exact .inr ⟨hid, (congrArg Node.source (hf _)).trans (h.declaration_source _ ⟨hid, hlt⟩)⟩
    next => exact .inl rfl
  · simp only [Store.modifyDeclaration, Array.size_modify] at h₂
    exact absurd h₂ (Nat.not_lt.mpr h₁)

/-- Putting a symbol into a scope changes no declaration. -/
theorem declaration_putSymbol (s : Store) (scope : ScopeId) (name : String) (symbol : SymbolId)
    (id : DeclarationId) : (s.putSymbol scope name symbol).declaration id = s.declaration id := by
  unfold putSymbol
  split <;> rfl

/-- Putting an added symbol into the table of an added scope, which may be the statics of a
namespace. -/
theorem GrownFor.putSymbol (h : base.GrownFor file now) {scope : ScopeId} {name : String}
    {symbol : SymbolId} (hscope : base.scopes.size ≤ scope.index)
    (hsymbol : base.AddsSymbol now symbol) :
    base.GrownFor file (now.putSymbol scope name symbol) := by
  have hclosed := (h.scope_closed scope hscope).2
  unfold Store.putSymbol
  -- The table is the scope's own, or the statics of a namespace.
  cases ht : (now.scope scope).table with
  | own t =>
    refine h.modifyScope hscope fun sc hsc => ?_
    split
    · rename_i t htab
      refine ⟨hsc.1, fun e he => ?_⟩
      rcases Table.mem_entries_put he with rfl | he
      · exact hsymbol
      · have hsc := hsc.2
        rw [htab] at hsc
        exact hsc e he
    · exact hsc
  | staticsOf owner =>
    rw [ht] at hclosed
    refine h.modifySymbol hclosed.1 fun sym hsym => ⟨hsym.1, fun e he => ?_⟩
    rcases Table.mem_entries_put he with rfl | he
    · exact hsymbol
    · exact hsym.2 e he

/-- Attaching an added declaration to an added symbol. -/
theorem GrownFor.attach (h : base.GrownFor file now) {symbol : SymbolId} {d : DeclarationId}
    (hs : base.symbols.size ≤ symbol.index) (hd : base.declarations.size ≤ d.index) :
    base.GrownFor file (now.attach symbol d) :=
  (h.modifyDeclaration (f := fun decl => { decl with symbol := some symbol }) hd
    fun _ => rfl).modifySymbol hs fun _ hc => hc

/-- The symbols declared in an added scope have been added. -/
theorem GrownFor.closed_symbolsOf (h : base.GrownFor file now) {scope : ScopeId}
    (hs : base.scopes.size ≤ scope.index) :
    ∀ e ∈ (now.symbolsOf scope).entries, base.AddsSymbol now e.2 := by
  have hc := (h.scope_closed scope hs).2
  unfold symbolsOf
  cases ht : (now.scope scope).table with
  | own symbols =>
    rw [ht] at hc
    exact hc
  | staticsOf symbol =>
    rw [ht] at hc
    exact (h.symbol_closed symbol hc.1).2

/-- The module around an added scope has been added. -/
theorem GrownFor.moduleScope (h : base.GrownFor file now) {scope : ScopeId}
    (hs : base.scopes.size ≤ scope.index) :
    base.scopes.size ≤ (now.moduleScope scope).index := by
  -- A scope that has been added stands in one that has been added.
  fun_induction now.moduleScope scope with
  | case1 id sc hp => exact hs
  | case2 id sc up hp hk => exact hs
  | case3 id sc up hp hk hlt ih => exact ih ((h.scope_closed id hs).1 up hp)
  | case4 id sc up hp hk hlt => exact hs

end Store

/-! ## Bindings in the making -/

namespace Bind

/-- The store and the binding of a file have grown out of a store: the file is the one that is
bound, and what it refers to has been added. -/
structure Grown (base : Store) (file : Source) (p : Progress) : Prop where
  store : base.GrownFor file p.store
  source : p.binding.source = file
  moduleScope : base.AddsScope p.store p.binding.moduleScope
  scopes : ∀ e ∈ p.binding.scopes.entries, base.AddsScope p.store e.2
  ambientModules : ∀ e ∈ p.binding.ambientModules.entries, base.AddsScope p.store e.2
  declarations : ∀ e ∈ p.binding.declarations.entries,
    base.AddsDeclaration p.store e.2 ∧ (p.store.declaration e.2).key = e.1
  names : ∀ e ∈ p.binding.names.entries, base.AddsDeclaration p.store e.2

variable {base : Store} {file : Source}

/-- A change of the store alone. -/
theorem Grown.changeStore {p : Progress} (h : Grown base file p) {next : Store}
    (hnext : base.GrownFor file next) (hle : p.store.NoSmaller next)
    (hkey : ∀ id, id.index < p.store.declarations.size →
      (next.declaration id).key = (p.store.declaration id).key) :
    Grown base file { p with store := next } where
  store := hnext
  source := h.source
  moduleScope := h.moduleScope.mono hle
  scopes e he := (h.scopes e he).mono hle
  ambientModules e he := (h.ambientModules e he).mono hle
  declarations e he := by
    obtain ⟨hadds, hk⟩ := h.declarations e he
    -- The keys in the tables are those of declarations that were there.
    exact ⟨hadds.mono hle, (hkey _ hadds.2).trans hk⟩
  names e he := (h.names e he).mono hle

/-- Adding a closed symbol adds to the file alone. -/
theorem onStore_addSymbol_grown {symbol : Symbol}
    (hs : ∀ s, base.ClosedSymbol s symbol) :
    Ensures (Grown base file) (onStore (·.addSymbol symbol))
      fun id p => Grown base file p ∧ base.AddsSymbol p.store id :=
  fun p hp => ⟨hp.changeStore (hp.store.addSymbol (hs _)) (p.store.noSmaller_addSymbol symbol)
    fun _ _ => rfl, hp.store.addsSymbol symbol⟩

/-- A change of an added symbol adds to the file alone if the symbol stays closed. -/
theorem modifySymbol_grown {id : SymbolId} {f : Symbol → Symbol}
    (hid : base.symbols.size ≤ id.index)
    (hf : ∀ s symbol, base.ClosedSymbol s symbol → base.ClosedSymbol s (f symbol)) :
    Ensures (Grown base file) (modifyStore (·.modifySymbol id f)) fun _ => Grown base file :=
  fun p hp => hp.changeStore (hp.store.modifySymbol hid (hf _))
    (p.store.noSmaller_modifySymbol id f) fun _ _ => rfl

/-- A change of an added scope adds to the file alone if the scope stays closed. -/
theorem modifyScope_grown {id : ScopeId} {f : Scope → Scope}
    (hid : base.scopes.size ≤ id.index)
    (hf : ∀ s scope, base.ClosedScope s scope → base.ClosedScope s (f scope)) :
    Ensures (Grown base file) (modifyStore (·.modifyScope id f)) fun _ => Grown base file :=
  fun p hp => hp.changeStore (hp.store.modifyScope hid (hf _))
    (p.store.noSmaller_modifyScope id f) fun _ _ => rfl

end Bind

end ScriptGraph.Binding
