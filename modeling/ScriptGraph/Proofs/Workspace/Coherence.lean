import ScriptGraph.Proofs.Binding.Frame
import ScriptGraph.Workspace.Basic

/-!
# Coherent workspaces

In a coherent workspace the bindings, the resolved modules and the namespace objects refer to what
the store holds. A workspace grows when files are bound, modules resolved and namespace objects
made: what it knew before it still knows.

- `Workspace.ofSource_coherent`: a workspace starts coherent
- `Workspace.Coherent.bindFile`: and stays so when a file is bound
- `Workspace.Extends`: everything that was known still is
-/

namespace ScriptGraph

open Binding Syntax

namespace Binding

/-- What the scopes of a store declare are symbols of the store. -/
structure Store.Closed (s : Store) : Prop where
  owner_lt : ∀ id owner, (s.scope id).table = .staticsOf owner → owner.index < s.symbols.size
  symbol_lt : ∀ id, ∀ e ∈ (s.symbolsOf id).entries, e.2.index < s.symbols.size

/-- A binding refers to what a store holds, and each declaration in it is the one of its file at
the construct that it is found at. -/
structure FileBinding.Within (b : FileBinding) (s : Store) : Prop where
  moduleScope : b.moduleScope.index < s.scopes.size
  scopes : ∀ e ∈ b.scopes.entries, e.2.index < s.scopes.size
  ambientModules : ∀ e ∈ b.ambientModules.entries, e.2.index < s.scopes.size
  declarations : ∀ e ∈ b.declarations.entries, e.2.index < s.declarations.size ∧
    (s.declaration e.2).key = e.1 ∧ (s.declaration e.2).source = b.source
  names : ∀ e ∈ b.names.entries, e.2.index < s.declarations.size

/-- The empty store is closed. -/
theorem Store.closed_empty : ({} : Store).Closed where
  owner_lt _ _ h := nomatch h
  symbol_lt _ _ h := nomatch h

/-- A change of one symbol leaves the others. -/
theorem Store.symbol_modifySymbol_of_ne (s : Store) {id other : SymbolId} (h : id ≠ other)
    (f : Symbol → Symbol) : (s.modifySymbol id f).symbol other = s.symbol other := by
  rw [Store.symbol_modifySymbol, if_neg (mt And.left h)]

variable {old new : Store}

/-- The symbols of a scope do not change as long as its table and the statics in it do not. -/
theorem Store.Closed.symbolsOf_eq (h : old.Closed) {id : ScopeId}
    (hscope : new.scope id = old.scope id)
    (hstatics : ∀ owner : SymbolId, (old.scope id).table = .staticsOf owner →
      owner.index < old.symbols.size → (new.symbol owner).statics = (old.symbol owner).statics) :
    new.symbolsOf id = old.symbolsOf id := by
  unfold Store.symbolsOf
  rw [hscope]
  -- The symbols are kept with the scope, or among the statics of its namespace.
  cases ht : (old.scope id).table with
  | own symbols => rfl
  | staticsOf owner => exact hstatics owner ht (h.owner_lt id owner ht)

/-- The symbols of a scope stay what they are when the store grows. -/
theorem Store.Closed.symbolsOf_extends (h : old.Closed) (hext : old.Extends new) {id : ScopeId}
    (hid : id.index < old.scopes.size) : new.symbolsOf id = old.symbolsOf id :=
  h.symbolsOf_eq (hext.scope_eq id hid) fun owner _ ho =>
    congrArg Symbol.statics (hext.symbol_eq owner ho)

/-- A store stays closed when only symbols that own no scope change. -/
theorem Store.Closed.change (h : old.Closed) (hle : old.NoSmaller new)
    (hscopes : new.scopes = old.scopes)
    (hstatics : ∀ id owner : _, (old.scope id).table = .staticsOf owner →
      owner.index < old.symbols.size → (new.symbol owner).statics = (old.symbol owner).statics) :
    new.Closed where
  owner_lt id owner ht := by
    rw [Store.scope, hscopes] at ht
    exact hle.symbol_lt (h.owner_lt id owner ht)
  symbol_lt id e he := by
    have hscope : new.scope id = old.scope id := by rw [Store.scope, hscopes]; rfl
    rw [h.symbolsOf_eq hscope (hstatics id)] at he
    exact hle.symbol_lt (h.symbol_lt id e he)

/-- A store stays closed when a file is bound. -/
theorem Store.GrownFor.closed {file : Source} (hg : old.GrownFor file new) (h : old.Closed) :
    new.Closed where
  owner_lt id owner ht := by
    -- A scope was there before, or it belongs to the file.
    by_cases hid : id.index < old.scopes.size
    · rw [hg.extends_base.scope_eq id hid] at ht
      exact hg.extends_base.symbol_lt (h.owner_lt id owner ht)
    · have hclosed := (hg.scope_closed id (Nat.not_lt.mp hid)).2
      rw [ht] at hclosed
      exact hclosed.2
  symbol_lt id e he := by
    by_cases hid : id.index < old.scopes.size
    · rw [h.symbolsOf_extends hg.extends_base hid] at he
      exact hg.extends_base.symbol_lt (h.symbol_lt id e he)
    · exact (hg.closed_symbolsOf (Nat.not_lt.mp hid) e he).2

/-- A binding stays within a store that grows, as long as no declaration moves. -/
theorem FileBinding.Within.mono {b : FileBinding} (h : b.Within old) (hle : old.NoSmaller new)
    (hnode : ∀ id, id.index < old.declarations.size →
      (new.declaration id).node = (old.declaration id).node) : b.Within new where
  moduleScope := hle.scope_lt h.moduleScope
  scopes e he := hle.scope_lt (h.scopes e he)
  ambientModules e he := hle.scope_lt (h.ambientModules e he)
  declarations e he := by
    obtain ⟨hlt, hkey, hsource⟩ := h.declarations e he
    have hn := hnode e.2 hlt
    exact ⟨hle.declaration_lt hlt, (congrArg Node.key hn).trans hkey,
      (congrArg Node.source hn).trans hsource⟩
  names e he := hle.declaration_lt (h.names e he)

/-- The binding of a file is within the store that it has been bound into. -/
theorem bind_within (file : Source) (store : Store) :
    (bind file store).1.Within (bind file store).2 where
  moduleScope := (bind_grown file store).moduleScope.2
  scopes e he := ((bind_grown file store).scopes e he).2
  ambientModules e he := ((bind_grown file store).ambientModules e he).2
  declarations e he := by
    have h := bind_grown file store
    obtain ⟨hadds, hkey⟩ := h.declarations e he
    exact ⟨hadds.2, hkey, (h.store.declaration_source _ hadds).trans h.source.symm⟩
  names e he := ((bind_grown file store).names e he).2

end Binding

/-- The ambient library has been bound into the store that comes with it. -/
structure Library.Bound (l : Library) : Prop where
  closed : l.store.Closed
  within : l.binding.Within l.store

/-- A library that is bound from a source is bound. -/
theorem Library.ofSource_bound (s : Source) : (Library.ofSource s).Bound where
  closed := (bind_grown s {}).store.closed Store.closed_empty
  within := bind_within s {}

namespace Workspace

/-- Whatever a workspace refers to is in its store. A namespace object is no namespace that has
been declared. -/
structure Coherent (w : Workspace) : Prop where
  closed : w.store.Closed
  library : w.library.Within w.store
  bindings : ∀ e ∈ w.bindings.entries, e.2.Within w.store
  modules : ∀ e ∈ w.modules.entries, ∀ module, e.2 = some module →
    module.index < w.store.scopes.size
  namespaces : ∀ e ∈ w.namespaces.entries, e.2.index < w.store.symbols.size ∧
    ∀ id, (w.store.scope id).table ≠ .staticsOf e.2

/-- A workspace knows everything that another one knows. -/
structure Extends (old new : Workspace) : Prop where
  settings_eq : new.settings = old.settings
  disk_eq : new.disk = old.disk
  root_eq : new.root = old.root
  files_eq : new.files = old.files
  library_eq : new.library = old.library
  store : old.store.Extends new.store
  bindings : ∀ name b, old.bindings.find? name = some b → new.bindings.find? name = some b
  modules : ∀ key module, old.modules.find? key = some module →
    new.modules.find? key = some module
  namespaces : ∀ module symbol, old.namespaces.find? module = some symbol →
    new.namespaces.find? module = some symbol

/-- Every workspace extends itself. -/
theorem Extends.refl (w : Workspace) : w.Extends w :=
  ⟨rfl, rfl, rfl, rfl, rfl, .refl _, fun _ _ h => h, fun _ _ h => h, fun _ _ h => h⟩

/-- Extensions of extensions extend. -/
theorem Extends.trans {a b c : Workspace} (hab : a.Extends b) (hbc : b.Extends c) :
    a.Extends c where
  settings_eq := hbc.settings_eq.trans hab.settings_eq
  disk_eq := hbc.disk_eq.trans hab.disk_eq
  root_eq := hbc.root_eq.trans hab.root_eq
  files_eq := hbc.files_eq.trans hab.files_eq
  library_eq := hbc.library_eq.trans hab.library_eq
  store := hab.store.trans hbc.store
  bindings name b h := hbc.bindings name b (hab.bindings name b h)
  modules key module h := hbc.modules key module (hab.modules key module h)
  namespaces module symbol h := hbc.namespaces module symbol (hab.namespaces module symbol h)

/-! ## Binding a file -/

/-- The workspace after a file has been bound. -/
def bindFile (w : Workspace) (s : Source) : Workspace :=
  { w with
    store := (Binding.bind s w.store).2
    bindings := w.bindings.put s.fileName (Binding.bind s w.store).1 }

/-- Binding a file that has not been bound extends the workspace. -/
theorem extends_bindFile {w : Workspace} {s : Source} (hs : w.bindings.find? s.fileName = none) :
    w.Extends (w.bindFile s) where
  settings_eq := rfl
  disk_eq := rfl
  root_eq := rfl
  files_eq := rfl
  library_eq := rfl
  store := (bind_grown s w.store).store.extends_base
  bindings name b h := by
    show (w.bindings.put s.fileName _).find? name = some b
    -- No file of this name was bound, so no other binding is forgotten.
    rw [Table.find?_put, if_neg fun he => ?_, h]
    rw [he, h] at hs
    exact nomatch hs
  modules _ _ h := h
  namespaces _ _ h := h

/-- A workspace stays coherent when its store is exchanged for one that a file has been bound
into. -/
theorem Coherent.bindFile {w : Workspace} (h : w.Coherent) (s : Source) :
    (w.bindFile s).Coherent := by
  have hg := (bind_grown s w.store).store
  -- Binding the file only adds to the store.
  have hwithin : ∀ b : FileBinding, b.Within w.store → b.Within (w.bindFile s).store := fun b hb =>
    hb.mono hg.extends_base.toNoSmaller fun id hid =>
      congrArg Declaration.node (hg.extends_base.declaration_eq id hid)
  refine
    { closed := hg.closed h.closed
      library := hwithin _ h.library
      bindings := fun e he => ?_
      modules := fun e he module hm =>
        hg.extends_base.scope_lt (h.modules e he module hm)
      namespaces := fun e he => ?_ }
  · rcases Table.mem_entries_put he with rfl | he
    · exact bind_within s w.store
    · exact hwithin _ (h.bindings e he)
  · obtain ⟨hlt, howner⟩ := h.namespaces e he
    refine ⟨hg.extends_base.symbol_lt hlt, fun id ht => ?_⟩
    by_cases hid : id.index < w.store.scopes.size
    · exact howner id ((congrArg Scope.table (hg.extends_base.scope_eq id hid)).symm.trans ht)
    · -- The namespaces of the file are new symbols.
      have hclosed := (hg.scope_closed id (Nat.not_lt.mp hid)).2
      rw [show ((Binding.bind s w.store).2.scope id).table = .staticsOf e.2 from ht] at hclosed
      exact absurd hlt (Nat.not_lt.mpr hclosed.1)

/-- The workspace of a file is coherent. -/
theorem ofSource_coherent (settings : Settings) (disk : Disk) {library : Library}
    (hl : library.Bound) (root : Source) : (ofSource settings disk library root).Coherent :=
  Coherent.bindFile (w :=
    { settings, disk, root, store := library.store
      files := ⟨disk.files.entries.map fun f =>
        (f.1, Source.ofText f.1 f.2 (Dialect.pick f.1 ""))⟩
      library := library.binding })
    { closed := hl.closed
      library := hl.within
      bindings := nofun
      modules := nofun
      namespaces := nofun } root

/-- The file under analysis is bound from the start. -/
theorem bindings_ofSource (settings : Settings) (disk : Disk) (library : Library) (root : Source) :
    (ofSource settings disk library root).bindings.find? root.fileName =
      some (Binding.bind root library.store).1 := by
  show (Table.empty.put root.fileName _).find? root.fileName = _
  rw [Table.find?_put, if_pos rfl]
  rfl

end Workspace

end ScriptGraph
