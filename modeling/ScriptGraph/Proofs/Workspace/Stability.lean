import ScriptGraph.Proofs.Binding.Walk
import ScriptGraph.Proofs.Lasts
import ScriptGraph.Proofs.Workspace.Growth

/-!
# Answers of a workspace last

A workspace changes while files are bound on demand, namespace objects are made and inference adds
symbols of its own. None of this changes what was there, apart from the methods of object
literals, which get a symbol when the type of their object is found. So whatever has been resolved
once is found again by the same steps, and finding it again changes nothing.

- `Store.Later`, `Workspace.Later`: what a later store or workspace keeps of an earlier one
- `Workspace.pickDeclaration_lasts`: the declaration that a symbol stands for
-/

namespace ScriptGraph

open Binding Syntax

/-- Entries that fill the gaps of a table are among its entries afterwards, and no others are. -/
theorem Table.mem_entries_foldl_putNew {κ β : Type} [DecidableEq κ] {added : List (κ × β)}
    {t : Table κ β} {e : κ × β}
    (h : e ∈ (added.foldl (fun t e => t.putNew e.1 e.2) t).entries) :
    e ∈ t.entries ∨ e ∈ added := by
  induction added generalizing t with
  | nil => exact .inl h
  | cons a rest ih =>
    rcases ih h with he | he
    · rcases Table.mem_entries_putNew he with rfl | he
      · exact .inr List.mem_cons_self
      · exact .inl he
    · exact .inr (List.mem_cons_of_mem _ he)

namespace Binding

/-- A declaration as it may be found later: unchanged, or a method that has been attached. -/
def Declaration.Became (old new : Declaration) : Prop :=
  new = old ∨ old.symbol = none ∧ old.node.is .methodDefinition = true ∧
    ∃ symbol, new = { old with symbol := some symbol }

namespace Declaration.Became

variable {a b c : Declaration}

/-- A declaration that is left alone became itself. -/
theorem refl (d : Declaration) : d.Became d :=
  .inl rfl

/-- Changes of declarations add up. -/
theorem trans (hab : a.Became b) (hbc : b.Became c) : a.Became c := by
  rcases hab with rfl | ⟨hnone, his, s, rfl⟩
  · exact hbc
  · rcases hbc with rfl | ⟨hsome, -⟩
    · exact .inr ⟨hnone, his, s, rfl⟩
    · exact nomatch hsome

/-- A declaration keeps its kind. -/
theorem kind_eq (h : a.Became b) : b.kind = a.kind := by
  rcases h with rfl | ⟨-, -, s, rfl⟩ <;> rfl

/-- A declaration keeps its name. -/
theorem name_eq (h : a.Became b) : b.name = a.name := by
  rcases h with rfl | ⟨-, -, s, rfl⟩ <;> rfl

/-- A declaration keeps its construct. -/
theorem node_eq (h : a.Became b) : b.node = a.node := by
  rcases h with rfl | ⟨-, -, s, rfl⟩ <;> rfl

/-- A declaration keeps the source that it is imported from. -/
theorem importSource_eq (h : a.Became b) : b.importSource = a.importSource := by
  rcases h with rfl | ⟨-, -, s, rfl⟩ <;> rfl

/-- What is attached stays attached to the same symbol. -/
theorem eq_of_isSome (h : a.Became b) (hs : a.symbol.isSome) : b = a := by
  rcases h with rfl | ⟨hnone, -⟩
  · rfl
  · rw [hnone] at hs
    exact nomatch hs

/-- Only methods change. -/
theorem eq_of_not_method (h : a.Became b) (hm : a.node.is .methodDefinition = false) : b = a := by
  rcases h with rfl | ⟨-, his, -⟩
  · rfl
  · rw [hm] at his
    exact nomatch his

end Declaration.Became

namespace Store

/-- What a later store keeps of an earlier one. -/
structure Later (old new : Store) : Prop extends NoSmaller old new where
  symbol_eq : ∀ id : SymbolId, id.index < old.symbols.size → new.symbol id = old.symbol id
  declaration_became : ∀ id : DeclarationId, id.index < old.declarations.size →
    (old.declaration id).Became (new.declaration id)
  scope_eq : ∀ id : ScopeId, id.index < old.scopes.size → new.scope id = old.scope id

variable {old new : Store}

/-- A store that extends another one is a later state of it. -/
theorem Extends.later (h : old.Extends new) : old.Later new where
  toNoSmaller := h.toNoSmaller
  symbol_eq := h.symbol_eq
  declaration_became id hid := .inl (h.declaration_eq id hid)
  scope_eq := h.scope_eq

/-- Every store is a later state of itself. -/
theorem Later.refl (s : Store) : s.Later s :=
  (Extends.refl s).later

/-- Later states of later states are later. -/
theorem Later.trans {a b c : Store} (hab : a.Later b) (hbc : b.Later c) : a.Later c where
  toNoSmaller := hab.toNoSmaller.trans hbc.toNoSmaller
  symbol_eq id h := (hbc.symbol_eq id (hab.symbol_lt h)).trans
    (hab.symbol_eq id h)
  declaration_became id h := (hab.declaration_became id h).trans
    (hbc.declaration_became id (hab.declaration_lt h))
  scope_eq id h := (hbc.scope_eq id (hab.scope_lt h)).trans
    (hab.scope_eq id h)

/-- Adding a symbol leaves what is there. -/
theorem later_addSymbol (s : Store) (symbol : Symbol) : s.Later (s.addSymbol symbol).2 where
  toNoSmaller := s.noSmaller_addSymbol symbol
  symbol_eq id hid := by rw [Store.symbol_addSymbol, if_neg (Nat.ne_of_lt hid)]
  declaration_became _ _ := .refl _
  scope_eq _ _ := rfl

/-- Adding a declaration leaves what is there. -/
theorem later_addDeclaration (s : Store) (d : Declaration) : s.Later (s.addDeclaration d).2 where
  toNoSmaller := s.noSmaller_addDeclaration d
  symbol_eq _ _ := rfl
  declaration_became id hid :=
    .inl (by rw [Store.declaration_addDeclaration, if_neg (Nat.ne_of_lt hid)])
  scope_eq _ _ := rfl

namespace Later

/-- The kinds of the declarations of a symbol stay what they are. -/
theorem find?_eq (h : old.Later new) {ids : List DeclarationId}
    (hids : ∀ d ∈ ids, d.index < old.declarations.size) (test : Declaration → Bool)
    (htest : ∀ a b : Declaration, a.Became b → test b = test a) :
    (ids.find? fun d => test (new.declaration d)) =
      ids.find? fun d => test (old.declaration d) := by
  induction ids with
  | nil => rfl
  | cons d rest ih =>
    rw [List.find?_cons, List.find?_cons,
      htest _ _ (h.declaration_became d (hids d List.mem_cons_self)),
      ih fun e he => hids e (List.mem_cons_of_mem _ he)]

variable (h : old.Later new) (hold : old.SelfContained)
include h hold

/-- The first declaration of some kinds stays the same. -/
theorem firstOf_eq {id : SymbolId} (hid : id.index < old.symbols.size)
    (kinds : DeclarationKind → Bool) : new.firstOf kinds id = old.firstOf kinds id := by
  unfold Store.firstOf
  rw [h.symbol_eq id hid]
  exact h.find?_eq (hold.symbol id).declarations (fun d => kinds d.kind)
    fun _ _ hb => congrArg kinds hb.kind_eq

/-- A symbol stays of the kinds it is of. -/
theorem hasKind_eq {id : SymbolId} (hid : id.index < old.symbols.size)
    (kinds : DeclarationKind → Bool) : new.hasKind kinds id = old.hasKind kinds id :=
  congrArg Option.isSome (h.firstOf_eq hold hid kinds)

/-- A symbol that stands for an import keeps doing so, and no other one starts to. -/
theorem isAlias_eq {id : SymbolId} (hid : id.index < old.symbols.size) :
    new.isAlias id = old.isAlias id := by
  unfold Store.isAlias
  rw [h.symbol_eq id hid]
  split
  · rfl
  · rename_i d _ hd
    have hlt := (hold.symbol id).declarations d (hd ▸ List.mem_cons_self)
    rw [(h.declaration_became d hlt).kind_eq]

/-- A scope that is there keeps its names, whether they are its own or those of a namespace. -/
theorem symbolsOf_eq {id : ScopeId} (hid : id.index < old.scopes.size) :
    new.symbolsOf id = old.symbolsOf id := by
  unfold Store.symbolsOf
  rw [h.scope_eq id hid]
  have ht := (hold.scope id).table
  cases htable : (old.scope id).table with
  -- A scope that shares the statics of a symbol has the symbol's, and these stay.
  | own symbols => rfl
  | staticsOf owner =>
    rw [htable] at ht
    exact congrArg Symbol.statics (h.symbol_eq owner ht)

/-- A scope that is there exposes what it has exposed. -/
theorem exportEntry?_eq {id : ScopeId} (hid : id.index < old.scopes.size) (name : String) :
    new.exportEntry? id name = old.exportEntry? id name := by
  unfold Store.exportEntry?
  rw [h.scope_eq id hid, h.symbolsOf_eq hold hid]

/-- The same symbols of a scope can be named in a way that some kinds cover. -/
theorem filter_hasKind_eq (id : ScopeId) (kinds : DeclarationKind → Bool) (name : String) :
    ((old.symbolsOf id).find? name).filter (new.hasKind kinds) =
      ((old.symbolsOf id).find? name).filter (old.hasKind kinds) := by
  cases hfind : (old.symbolsOf id).find? name with
  | none => rfl
  | some symbol =>
    have hlt := hold.symbolsOf id _ (Table.mem_entries_of_find? hfind)
    rw [Option.filter_some, Option.filter_some, h.hasKind_eq hold hlt]

/-- A name is found again where it was found, or again not at all. -/
theorem lookup?_eq {id : ScopeId} (hid : id.index < old.scopes.size)
    (kinds : DeclarationKind → Bool) (name : String) :
    new.lookup? kinds name id = old.lookup? kinds name id := by
  have hhere := h.filter_hasKind_eq hold id kinds name
  -- The look-up goes on outwards as long as the scopes have smaller numbers.
  fun_induction old.lookup? kinds name id with
  | case1 id symbol hfound =>
    rw [Store.lookup?, h.symbolsOf_eq hold hid, hhere, hfound]
  | case2 id hnone hup =>
    rw [Store.lookup?, h.symbolsOf_eq hold hid, hhere, hnone, h.scope_eq id hid, hup]
  | case3 id hnone up hup hlt ih =>
    rw [Store.lookup?, h.symbolsOf_eq hold hid, hhere, hnone, h.scope_eq id hid, hup]
    exact (if_pos hlt).trans
      (ih (Nat.lt_trans hlt hid) (h.filter_hasKind_eq hold up kinds name))
  | case4 id hnone up hup hlt =>
    rw [Store.lookup?, h.symbolsOf_eq hold hid, hhere, hnone, h.scope_eq id hid, hup]
    exact if_neg hlt

end Later

/-- A name leads to a symbol of the store. -/
theorem SelfContained.lookup?_lt {s : Store} (h : s.SelfContained)
    {kinds : DeclarationKind → Bool} {name : String} {id : ScopeId} {symbol : SymbolId}
    (hfound : s.lookup? kinds name id = some symbol) : symbol.index < s.symbols.size := by
  fun_induction s.lookup? kinds name id with
  -- The scope itself has the name, or a scope further out has it.
  | case1 id found hf =>
    obtain ⟨hfind, -⟩ := Option.filter_eq_some_iff.mp hf
    exact Option.some.inj hfound ▸ h.symbolsOf id _ (Table.mem_entries_of_find? hfind)
  | case2 => exact nomatch hfound
  | case3 id hnone up hup hlt ih => exact ih hfound
  | case4 => exact nomatch hfound

/-- A value that a module exposes is a symbol of the store. -/
theorem SelfContained.value_lt {s : Store} (h : s.SelfContained) {id : ScopeId} {name : String}
    {symbol : SymbolId} (hentry : s.exportEntry? id name = some (.value symbol)) :
    symbol.index < s.symbols.size := by
  unfold Store.exportEntry? at hentry
  dsimp only at hentry
  split at hentry
  next entry he =>
    exact (h.scope id).exports _ (Table.mem_entries_of_find? he) symbol (Option.some.inj hentry)
  next =>
    -- A module that exports everything exposes the symbols that it declares.
    split at hentry
    · obtain ⟨found, hf, he⟩ := Option.map_eq_some_iff.mp hentry
      cases he
      exact h.symbolsOf id _ (Table.mem_entries_of_find? hf)
    · exact nomatch hentry

end Store

end Binding

namespace Workspace

/-- What a later workspace keeps of an earlier one. -/
structure Later (old new : Workspace) : Prop where
  settings_eq : new.settings = old.settings
  disk_eq : new.disk = old.disk
  root_eq : new.root = old.root
  files_eq : new.files = old.files
  library_eq : new.library = old.library
  store : old.store.Later new.store
  bindings : ∀ name b, old.bindings.find? name = some b → new.bindings.find? name = some b
  modules : ∀ key module, old.modules.find? key = some module →
    new.modules.find? key = some module
  namespaces : ∀ module symbol, old.namespaces.find? module = some symbol →
    new.namespaces.find? module = some symbol

/-- A workspace that extends another one is a later state of it. -/
theorem Extends.later {old new : Workspace} (h : old.Extends new) : old.Later new :=
  ⟨h.settings_eq, h.disk_eq, h.root_eq, h.files_eq, h.library_eq, h.store.later, h.bindings,
    h.modules, h.namespaces⟩

/-- Every workspace is a later state of itself. -/
theorem Later.refl (w : Workspace) : w.Later w :=
  (Extends.refl w).later

/-- Later states of later states of a workspace are later. -/
theorem Later.trans {a b c : Workspace} (hab : a.Later b) (hbc : b.Later c) : a.Later c where
  settings_eq := hbc.settings_eq.trans hab.settings_eq
  disk_eq := hbc.disk_eq.trans hab.disk_eq
  root_eq := hbc.root_eq.trans hab.root_eq
  files_eq := hbc.files_eq.trans hab.files_eq
  library_eq := hbc.library_eq.trans hab.library_eq
  store := hab.store.trans hbc.store
  bindings name b h := hbc.bindings name b (hab.bindings name b h)
  modules key module h := hbc.modules key module (hab.modules key module h)
  namespaces module symbol h := hbc.namespaces module symbol (hab.namespaces module symbol h)

/-- What may be bound stays the same. -/
theorem Later.size_eq {old new : Workspace} (h : old.Later new) : new.size = old.size := by
  unfold size importable
  rw [h.settings_eq, h.root_eq, h.library_eq, h.files_eq]

/-- A workspace that is coherent and whose store is self-contained. -/
structure Sound (w : Workspace) : Prop where
  coherent : w.Coherent
  store : w.store.SelfContained

/-- A symbol is one of the store's. -/
def HasSymbol (w : Workspace) (symbol : SymbolId) : Prop :=
  symbol.index < w.store.symbols.size

/-- What has been found, if anything, is one of the store's symbols. -/
def HasFound (w : Workspace) (found : Option SymbolId) : Prop :=
  ∀ symbol, found = some symbol → w.HasSymbol symbol

variable {old new base : Workspace} {again : Prop} {α β : Type}

/-- Symbols stay. -/
theorem Later.hasSymbol (h : old.Later new) {symbol : SymbolId} (hs : old.HasSymbol symbol) :
    new.HasSymbol symbol :=
  h.store.symbol_lt hs

/-- What has been found stays. -/
theorem Later.hasFound (h : old.Later new) {found : Option SymbolId} (hf : old.HasFound found) :
    new.HasFound found :=
  fun symbol hs => h.hasSymbol (hf symbol hs)

/-- Modules stay. -/
theorem Later.hasModule (h : old.Later new) {module : ScopeId} (hm : old.HasModule module) :
    new.HasModule module :=
  h.store.scope_lt hm

/-- When nothing has been found, there is nothing that could be missing. -/
theorem hasFound_none (w : Workspace) : w.HasFound none :=
  nofun

/-- A symbol that is there may have been found. -/
theorem hasFound_some {w : Workspace} {symbol : SymbolId} (h : w.HasSymbol symbol) :
    w.HasFound (some symbol) :=
  fun _ hs => Option.some.inj hs ▸ h

instance : Evolving Workspace :=
  ⟨Later, .refl, .trans⟩

/-! ## Modules -/

/-- Whether a file has been bound decides what asking for its binding does. -/
theorem run_bindingFor (s : Source) (w : Workspace) :
    (bindingFor s).run w =
      if s.isBundled then (w.library, w)
      else match w.bindings.find? s.fileName with
        | some b => (b, w)
        | none => ((Binding.bind s w.store).1, w.bindFile s) := by
  unfold bindingFor
  rw [StateT.run_bind, StateT.run_get, pure_bind]
  dsimp only
  -- A bundled file has been bound with the library; another one is bound when it is asked for
  -- first.
  split
  · rfl
  · cases w.bindings.find? s.fileName <;> rfl

/-- The binding of a file is the same whenever it is asked for. -/
theorem bindingFor_lasts {s : Source} :
    Lasts Sound again base (bindingFor s) fun b w => b.Within w.store := by
  intro w _ hsound
  obtain ⟨hgrown, hwithin⟩ := bindingFor_grown (s := s) w (.refl hsound.coherent)
  refine ⟨hgrown.extends_base.later, ⟨hgrown.coherent, ?_⟩, hwithin, fun _ next hnext => ?_⟩
  -- A file that is new is bound, which adds what is self-contained.
  · rw [run_bindingFor]
    split
    · exact hsound.store
    · split
      · exact hsound.store
      · exact bind_selfContained s hsound.store
  · -- A file that has been bound is found among the bindings from then on.
    rw [run_bindingFor] at hnext ⊢
    rw [run_bindingFor]
    split at hnext
    next hs => rw [if_pos hs, if_pos hs, hnext.library_eq]
    next hs =>
      rw [if_neg hs, if_neg hs]
      split at hnext
      next b hb => rw [hnext.bindings _ _ hb]
      next hnone =>
        have hb := hnext.bindings s.fileName (Binding.bind s w.store).1
          (by rw [bindFile, Table.find?_put, if_pos rfl])
        rw [hb]

/-- The search for an ambient module leaves a sound workspace. -/
theorem ambientModule?_lasts {specifier : String} :
    Lasts Sound False base (ambientModule? specifier) fun _ _ => True :=
  .get nofun fun _ _ _ => .bind bindingFor_lasts fun _ _ _ _ => .get nofun fun _ _ _ =>
    .pure fun _ _ => trivial

/-- The search for a module in files leaves a sound workspace. -/
theorem fileModule?_lasts {specifier : String} {importer : Source} :
    Lasts Sound False base (fileModule? specifier importer) fun _ _ => True := by
  refine .get nofun fun now _ _ => ?_
  split
  · exact .pure fun _ _ => trivial
  · split
    · exact .bind bindingFor_lasts fun _ _ _ _ => .pure fun _ _ => trivial
    · exact .pure fun _ _ => trivial

/-- Resolving a specifier leaves a store that refers to nothing outside of it. -/
theorem resolveModule_selfContained {specifier : String} {importer : Source} :
    Ensures Sound (resolveModule specifier importer) fun _ w => w.store.SelfContained := by
  unfold resolveModule
  split
  · exact .pure fun _ hw => hw.store
  refine .get fun now => ?_
  dsimp only
  -- An answer that is known, or the ambient modules before the files.
  split
  · exact .pure fun _ hw => hw.1.store
  · refine .bind (.of_imp (Lasts.ensures fun _ => ambientModule?_lasts) fun _ hw => hw.1)
      fun found => .of_imp (P := Sound) ?_ fun _ hw => hw.1
    split
    · exact fun w hw => hw.store
    · exact .bind (Lasts.ensures fun _ => fileModule?_lasts) fun _ w hw => hw.1.store

/-- A specifier that has been resolved stays resolved. -/
theorem Settled.later {old new : Workspace} {specifier : String} {importer : Source}
    {found : Option ScopeId} (h : old.Settled specifier importer found) (hlater : old.Later new) :
    new.Settled specifier importer found :=
  h.keep hlater.modules

/-- A specifier resolves to the same module from then on. -/
theorem resolveModule_lasts {specifier : String} {importer : Source} :
    Lasts Sound again base (resolveModule specifier importer)
      fun found w => ∀ module, found = some module → w.HasModule module := by
  intro w _ hsound
  obtain ⟨hgrown, hmodule, hsettled⟩ :=
    @resolveModule_grown w specifier importer w (.refl hsound.coherent)
  exact ⟨hgrown.extends_base.later, ⟨hgrown.coherent, resolveModule_selfContained w hsound⟩,
    hmodule, fun _ next hnext => (hsettled.later hnext).resolveModule_eq⟩

/-! ## What searches for exports go by -/

/-- A workspace keeps what searches for exports go by: the scopes, the ways in which they expose
names and what names in them stand for, and the modules and namespace objects that are known. The
statics of a namespace object are not among it. -/
structure Steady (old new : Workspace) : Prop where
  scopes_le : old.store.scopes.size ≤ new.store.scopes.size
  scope_eq : ∀ id, old.HasModule id → new.store.scope id = old.store.scope id
  exportEntry?_eq : ∀ id, old.HasModule id → ∀ name,
    new.store.exportEntry? id name = old.store.exportEntry? id name
  lookup?_eq : ∀ id, old.HasModule id → ∀ name,
    new.store.lookup? (fun _ => true) name id = old.store.lookup? (fun _ => true) name id
  modules : ∀ key module, old.modules.find? key = some module →
    new.modules.find? key = some module
  namespaces : ∀ module symbol, old.namespaces.find? module = some symbol →
    new.namespaces.find? module = some symbol

/-- Modules stay in a steady workspace. -/
theorem Steady.hasModule (h : old.Steady new) {module : ScopeId} (hm : old.HasModule module) :
    new.HasModule module :=
  Nat.lt_of_lt_of_le hm h.scopes_le

/-- Every workspace is steady from itself. -/
theorem Steady.refl (w : Workspace) : w.Steady w :=
  ⟨Nat.le_refl _, fun _ _ => rfl, fun _ _ _ => rfl, fun _ _ _ => rfl, fun _ _ h => h,
    fun _ _ h => h⟩

/-- Steadiness adds up. -/
theorem Steady.trans {a b c : Workspace} (hab : a.Steady b) (hbc : b.Steady c) : a.Steady c where
  scopes_le := Nat.le_trans hab.scopes_le hbc.scopes_le
  scope_eq id hid := (hbc.scope_eq id (hab.hasModule hid)).trans (hab.scope_eq id hid)
  exportEntry?_eq id hid name := (hbc.exportEntry?_eq id (hab.hasModule hid) name).trans
    (hab.exportEntry?_eq id hid name)
  lookup?_eq id hid name := (hbc.lookup?_eq id (hab.hasModule hid) name).trans
    (hab.lookup?_eq id hid name)
  modules key module h := hbc.modules key module (hab.modules key module h)
  namespaces module symbol h := hbc.namespaces module symbol (hab.namespaces module symbol h)

/-- From a sound workspace every later one is steady. -/
theorem Later.steady (h : old.Later new) (hsound : old.Sound) : old.Steady new where
  scopes_le := h.store.scopes_le
  scope_eq := h.store.scope_eq
  exportEntry?_eq _ hid := h.store.exportEntry?_eq hsound.store hid
  lookup?_eq _ hid := h.store.lookup?_eq hsound.store hid _
  modules := h.modules
  namespaces := h.namespaces

/-- From any sound workspace that is later than `base` the first action goes to one that is later
still and finds an answer with `φ`. If `again` holds, the second action finds this answer in every
workspace that keeps what searches go by, and changes nothing there. -/
def Foretells (again : Prop) (base : Workspace) (x y : StateM Workspace α)
    (φ : α → Workspace → Prop) : Prop :=
  ∀ w, base.Later w → w.Sound →
    w.Later (x.run w).2 ∧ (x.run w).2.Sound ∧ φ (x.run w).1 (x.run w).2 ∧
      (again → ∀ next, (x.run w).2.Steady next → y.run next = ((x.run w).1, next))

namespace Foretells

variable {φ ψ : α → Workspace → Prop}

/-- A result foretells itself. -/
theorem pure {a : α} (h : ∀ w, base.Later w → φ a w) :
    Foretells again base (Pure.pure a) (Pure.pure a) φ :=
  fun w hw hsound => ⟨.refl w, hsound, h w hw, fun _ _ _ => rfl⟩

/-- Two parts foretell what they foretell one after the other. -/
theorem bind {x y : StateM Workspace β} {f g : β → StateM Workspace α}
    {χ : β → Workspace → Prop} (hx : Foretells again base x y χ)
    (hf : ∀ b now, base.Later now → χ b now → Foretells again now (f b) (g b) φ) :
    Foretells again base (x >>= f) (y >>= g) φ := by
  intro w hw hsound
  obtain ⟨hlater, hsound', hχ, hagain⟩ := hx w hw hsound
  obtain ⟨hlater', hsound'', hφ, hagain'⟩ := hf _ _ (hw.trans hlater) hχ _ (.refl _) hsound'
  refine ⟨hlater.trans hlater', hsound'', hφ, fun h next hnext => ?_⟩
  -- What the first part goes by is kept until the end of the second one.
  have hfirst := hagain h next ((hlater'.steady hsound').trans hnext)
  have hsecond := hagain' h next hnext
  show (g (y.run next).1).run (y.run next).2 = _
  rw [hfirst]
  exact hsecond

/-- A function of a result is foretold with the result. -/
theorem map {x y : StateM Workspace β} {f : β → α}
    (hx : Foretells again base x y fun b => φ (f b)) :
    Foretells again base (do return f (← x)) (do return f (← y)) φ := by
  intro w hw hsound
  obtain ⟨hlater, hsound', hφ, hagain⟩ := hx w hw hsound
  refine ⟨hlater, hsound', hφ, fun h next hnext => ?_⟩
  show (f (y.run next).1, (y.run next).2) = _
  rw [hagain h next hnext]
  rfl

/-- A look at the workspace is foretold if what follows is the same in steady workspaces. -/
theorem get {f g : Workspace → StateM Workspace α}
    (hsame : again → ∀ old new : Workspace, base.Later old → old.Steady new → g new = g old)
    (hf : ∀ now, base.Later now → now.Sound → Foretells again now (f now) (g now) φ) :
    Foretells again base (MonadState.get >>= f) (MonadState.get >>= g) φ := by
  intro w hw hsound
  -- The second look happens in a workspace that is steady from the first one.
  obtain ⟨hlater, hsound', hφ, hagain⟩ := hf w hw hsound w (.refl w) hsound
  refine ⟨hlater, hsound', hφ, fun h next hnext => ?_⟩
  show (g next).run next = _
  rw [hsame h w next hw ((hlater.steady hsound).trans hnext)]
  exact hagain h next hnext

/-- Foretelling another action does not matter for what the first one does itself. -/
theorem once {x y : StateM Workspace α} (hx : Foretells again base x y φ) :
    Lasts Sound False base x φ := fun w hw hsound =>
  let ⟨hlater, hsound', hφ, _⟩ := hx w hw hsound
  ⟨hlater, hsound', hφ, False.elim⟩

/-- An action that foretells itself lasts. -/
theorem lasts {x : StateM Workspace α} (hx : Foretells again base x x φ) :
    Lasts Sound again base x φ := fun w hw hsound =>
  let ⟨hlater, hsound', hφ, hagain⟩ := hx w hw hsound
  ⟨hlater, hsound', hφ, fun h next hnext => hagain h next (hnext.steady hsound')⟩

end Foretells

/-- The module of a specifier in a module is found again. -/
theorem moduleNamed_foretells {module : ScopeId} (hm : base.HasModule module)
    (specifier : String) :
    Foretells again base (moduleNamed module specifier) (moduleNamed module specifier)
      fun found w => ∀ target, found = some target → w.HasModule target := by
  refine .get (fun _ old new hold hnew => ?_) fun now _ _ w hw hsound => ?_
  -- The module stays where it is, and so does its file.
  · show (pure _ >>= resolveModule specifier : StateM Workspace _) =
      pure _ >>= resolveModule specifier
    rw [hnew.scope_eq module (hold.hasModule hm)]
  · obtain ⟨hgrown, hfound, hsettled⟩ := @resolveModule_grown w _ _ w (.refl hsound.coherent)
    exact ⟨hgrown.extends_base.later, ⟨hgrown.coherent, resolveModule_selfContained w hsound⟩,
      hfound, fun _ next hnext => (hsettled.keep hnext.modules).resolveModule_eq⟩

/-! ## Exports -/

/-- The same of two searches, whatever they have visited. -/
def SearchForetells (again : Prop) (base : Workspace) (x y : ExportSearch α)
    (φ : α → Workspace → Prop) : Prop :=
  ∀ seen, Foretells again base (x.run seen) (y.run seen) fun r w => φ r.1 w

namespace SearchForetells

variable {φ : α → Workspace → Prop}

/-- A result of a search foretells itself. -/
theorem pure {a : α} (h : ∀ w, base.Later w → φ a w) :
    SearchForetells again base (Pure.pure a) (Pure.pure a) φ :=
  fun _ => Foretells.pure h

/-- Two parts of a search foretell what they foretell one after the other. -/
theorem bind {x y : ExportSearch β} {f g : β → ExportSearch α} {χ : β → Workspace → Prop}
    (hx : SearchForetells again base x y χ)
    (hf : ∀ b now, base.Later now → χ b now → SearchForetells again now (f b) (g b) φ) :
    SearchForetells again base (x >>= f) (y >>= g) φ :=
  fun seen => (hx seen).bind fun r now hnow hχ => hf r.1 now hnow hχ r.2

/-- An action on the workspace foretells the same as a part of a search. -/
theorem lift {x y : StateM Workspace α} (hx : Foretells again base x y φ) :
    SearchForetells again base (StateT.lift x) (StateT.lift y) φ :=
  fun seen => Foretells.map (f := fun a => (a, seen)) hx

/-- Searches that go by the workspace go the same way as long as it keeps what they go by. -/
theorem getWorkspace {f g : Workspace → ExportSearch α}
    (hsame : again → ∀ old new : Workspace, base.Later old → old.Steady new → g new = g old)
    (hf : ∀ now, base.Later now → now.Sound → SearchForetells again now (f now) (g now) φ) :
    SearchForetells again base (getThe Workspace >>= f) (getThe Workspace >>= g) φ :=
  fun seen => Foretells.get (f := fun w => (f w).run seen) (g := fun w => (g w).run seen)
    (fun h old new hold hnew => congrArg (·.run seen) (hsame h old new hold hnew))
    fun now hnow hsound => hf now hnow hsound seen

end SearchForetells

/-- Of two ways to make namespace objects the first foretells the second. -/
def WholeForetells (again : Prop) (whole whole' : ScopeId → String → StateM Workspace SymbolId) :
    Prop :=
  ∀ base module specifier, base.HasModule module →
    Foretells again base (whole module specifier) (whole' module specifier)
      fun symbol w => w.HasSymbol symbol

/-- Of two ways to search a module for an export the first foretells the second. -/
def FollowForetells (again : Prop)
    (follow follow' : ScopeId → String → ExportSearch (Option SymbolId)) : Prop :=
  ∀ base module name, base.HasModule module →
    SearchForetells again base (follow module name) (follow' module name)
      fun found w => w.HasFound found

/-- The first hit of a list is found again if each item's hit is. -/
theorem firstFound_foretells {τ : Type} {search search' : τ → ExportSearch (Option SymbolId)}
    (h : ∀ now a, base.Later now →
      SearchForetells again now (search a) (search' a) fun found w => w.HasFound found)
    (l : List τ) :
    SearchForetells again base (firstFound search l) (firstFound search' l)
      fun found w => w.HasFound found := by
  induction l generalizing base with
  | nil => exact .pure fun w _ => w.hasFound_none
  | cons a rest ih =>
    refine .bind (h base a (.refl base)) fun found now hnow hfound => ?_
    split
    · exact .pure fun _ hw => hw.hasFound hfound
    · exact ih fun next b hnext => h next b (hnow.trans hnext)

section Search

variable {follow follow' : ScopeId → String → ExportSearch (Option SymbolId)}
  {whole whole' : ScopeId → String → StateM Workspace SymbolId} {module : ScopeId}

/-- The symbol of one entry is found again. -/
theorem entrySymbol?_foretells (hfollow : FollowForetells again follow follow')
    (hwhole : WholeForetells again whole whole') (hm : base.HasModule module) (name : String)
    {entry : ExportEntry} (hentry : ∀ symbol, entry = .value symbol → base.HasSymbol symbol) :
    SearchForetells again base (entrySymbol? follow whole module name entry)
      (entrySymbol? follow' whole' module name entry) fun found w => w.HasFound found := by
  cases entry with
  | value symbol => exact .pure fun _ hw => hasFound_some (hw.hasSymbol (hentry symbol rfl))
  | named inside =>
    refine .getWorkspace (fun _ old new hold hnew => ?_) fun now _ hsound => .pure
      fun _ hw => hw.hasFound fun symbol hs => hsound.store.lookup?_lt hs
    rw [hnew.lookup?_eq module (hold.hasModule hm)]
  | forwarded specifier imported =>
    unfold entrySymbol?
    -- A module that is forwarded from is resolved first, and then searched or taken as a whole.
    refine .bind (.lift (moduleNamed_foretells hm specifier)) fun found now _ hfound => ?_
    split
    · exact .pure fun w _ => w.hasFound_none
    · rename_i target
      split
      · exact .bind (.lift (hwhole now target specifier (hfound target rfl)))
          fun _ _ _ hs => .pure fun _ hw => hasFound_some (hw.hasSymbol hs)
      · exact hfollow now target _ (hfound target rfl)

/-- The symbol of one name in one module is found again. -/
theorem pairSymbol?_foretells (hfollow : FollowForetells again follow follow')
    (hwhole : WholeForetells again whole whole') (hm : base.HasModule module) (name : String) :
    SearchForetells again base (pairSymbol? follow whole module name)
      (pairSymbol? follow' whole' module name) fun found w => w.HasFound found := by
  refine .getWorkspace (fun _ old new hold hnew => ?_) fun now hnow hsound => ?_
  · dsimp only
    rw [hnew.exportEntry?_eq module (hold.hasModule hm), hnew.scope_eq module (hold.hasModule hm)]
  have hm := hnow.hasModule hm
  dsimp only
  -- An entry of the name, the modules that are exported whole, or the value that is exported.
  split
  · rename_i entry hentry
    exact entrySymbol?_foretells hfollow hwhole hm name fun symbol hs =>
      hsound.store.value_lt (hs ▸ hentry)
  · split
    · refine firstFound_foretells (fun now specifier hnow => ?_) _
      have hm := hnow.hasModule hm
      refine .bind (.lift (moduleNamed_foretells hm specifier)) fun found now _ hfound => ?_
      split
      · exact .pure fun w _ => w.hasFound_none
      · exact hfollow now _ name (hfound _ rfl)
    · split
      · exact hfollow now module _ hm
      · exact .pure fun w _ => w.hasFound_none

end Search

section

variable {whole whole' : ScopeId → String → StateM Workspace SymbolId}

/-- The search through exports finds again what it has found, within the same number of hops. -/
theorem searchExport_foretells (hwhole : WholeForetells again whole whole') (hops : Nat) :
    FollowForetells again (searchExport whole hops) (searchExport whole' hops) := by
  -- A search with fewer hops follows the pairs that this one leads to.
  induction hops with
  | zero => exact fun _ _ _ _ => .pure fun w _ => w.hasFound_none
  | succ hops ih =>
    intro base module name hm seen
    show Foretells again base ((if _ then _ else _ : ExportSearch _).run seen)
      ((if _ then _ else _ : ExportSearch _).run seen) _
    split
    · exact .pure fun w _ => w.hasFound_none
    · exact pairSymbol?_foretells ih hwhole hm name _

/-- What a search finds, it finds again with another way to make namespace objects that finds the
same ones. -/
theorem exportIn_foretells (hwhole : WholeForetells again whole whole') {module : ScopeId}
    (hm : base.HasModule module) (name : String) :
    Foretells again base (exportIn whole module name) (exportIn whole' module name)
      fun found w => w.HasFound found :=
  .bind (searchExport_foretells hwhole _ base module name hm []) fun _ _ _ hfound =>
    .pure fun _ hw => hw.hasFound hfound

end

/-! ## Namespace objects -/

/-- A namespace object that `base` does not have is being filled with the exports of its module. -/
structure Gathering (base : Workspace) (module : ScopeId) (symbol : SymbolId) (w : Workspace) :
    Prop where
  grown : Grown base w
  fresh : Fresh base module symbol w
  store : w.store.SelfContained
  hasModule : w.HasModule module

/-- While exports are gathered, the workspace is sound. -/
theorem Gathering.sound {module : ScopeId} {symbol : SymbolId} {w : Workspace}
    (h : Gathering base module symbol w) : w.Sound :=
  ⟨h.grown.coherent, h.store⟩

/-- An action that lasts and only adds may run while exports are gathered. -/
theorem Lasts.gathering {x : StateM Workspace α} {φ : α → Workspace → Prop} {module : ScopeId}
    {symbol : SymbolId} (hgrows : ∀ base, Ensures (Grown base) x fun _ => Grown base)
    (hlasts : ∀ base : Workspace, base.HasModule module → Lasts Sound False base x φ) :
    Ensures (Gathering base module symbol) x
      fun a w => Gathering base module symbol w ∧ φ a w := fun w hw =>
  let ⟨hlater, hsound, hφ, _⟩ := hlasts w hw.hasModule w (.refl w) hw.sound
  let ⟨hgrown, hfresh⟩ := fresh_of_grown hgrows w ⟨hw.grown, hw.fresh⟩
  ⟨⟨hgrown, hfresh, hsound.store, hlater.hasModule hw.hasModule⟩, hφ⟩

/-- A namespace object gets statics that the store holds. -/
theorem Gathering.modifyFresh {module : ScopeId} {symbol : SymbolId} {w : Workspace}
    (h : Gathering base module symbol w) {f : Symbol → Symbol}
    (hf : (f (w.store.symbol symbol)).Within w.store) :
    Gathering base module symbol { w with store := w.store.modifySymbol symbol f } :=
  ⟨h.grown.modifyFresh h.fresh f, ⟨h.fresh.new, h.fresh.known⟩,
    h.store.modifySymbol fun _ => hf, h.hasModule⟩

section Gathering

variable {whole : ScopeId → String → StateM Workspace SymbolId} (hgrows : Grows whole)
  (hwhole : WholeForetells False whole moduleSymbol) {module : ScopeId} {symbol : SymbolId}
include hgrows hwhole

/-- Finding an export of the module leaves the namespace object alone. -/
theorem exportIn_gathering (name : String) :
    Ensures (Gathering base module symbol) (exportIn whole module name)
      fun found w => Gathering base module symbol w ∧ w.HasFound found :=
  Lasts.gathering (fun _ => exportIn_grown hgrows module name)
    fun _ hm => (exportIn_foretells hwhole hm name).once

/-- A name that is gathered is put among the statics of the namespace object. -/
theorem addExport_gathering (exported : String) :
    Ensures (Gathering base module symbol) (addExport whole module symbol exported)
      fun _ => Gathering base module symbol := by
  unfold addExport
  split
  -- A symbol that is found is put into the statics of the object, which is fresh.
  · refine .bind (exportIn_gathering hgrows hwhole exported) fun found => ?_
    split
    · rename_i target
      refine fun w hw => hw.1.modifyFresh ?_
      have ho := hw.1.store.symbol symbol
      refine { ho with statics := fun e he => ?_ }
      rcases Table.mem_entries_put he with rfl | he
      · exact hw.2 target rfl
      · exact ho.statics e he
    · exact .pure fun _ hw => hw.1
  · exact .pure fun _ hw => hw

/-- What an exported value holds is gathered too. -/
theorem addWholeExport_gathering :
    Ensures (Gathering base module symbol) (addWholeExport whole module symbol)
      fun _ => Gathering base module symbol := by
  refine .bind (exportIn_gathering hgrows hwhole _) fun found => ?_
  split
  · exact .pure fun _ hw => hw.1
  · rename_i target
    refine .get fun now => ?_
    dsimp only
    split
    · rintro w ⟨hw, rfl⟩
      refine hw.1.modifyFresh ?_
      have ho := hw.1.store.symbol symbol
      -- Only names that are new are put, so every static comes from one of the two symbols.
      refine { ho with statics := fun e he => ?_ }
      rcases Table.mem_entries_foldl_putNew he with he | he
      · exact ho.statics e he
      · exact (hw.1.store.symbol target).statics e he
    · exact .pure fun _ hw => hw.1.1

/-- Gathering all exports keeps what holds in between. -/
theorem addExports_gathering :
    Ensures (Gathering base module symbol) (addExports whole module symbol)
      fun _ => Gathering base module symbol := by
  have hnames := exportedNames_ensures (P := Gathering base module symbol)
    (fun specifier importer =>
    .weaken (Lasts.gathering (fun _ => resolveModule_grown.weaken fun _ _ hw => hw.1)
      fun _ _ => resolveModule_lasts) fun _ _ hw => hw.1) module
  refine .bind hnames fun names =>
    .bind (.forM fun exported _ => addExport_gathering hgrows hwhole exported) fun _ =>
      .get fun _ => .of_imp (P := Gathering base module symbol) ?_ fun _ hw => hw.1
  split
  · exact addWholeExport_gathering hgrows hwhole
  · exact .pure fun _ hw => hw

end Gathering

/-- Adding a symbol is not foretold, but leaves a sound workspace. -/
theorem addSymbol_foretells {name : String} {y : StateM Workspace SymbolId} :
    Foretells False base (addSymbol name) y fun symbol w => w.HasSymbol symbol := fun w _ hsound =>
  let hnew := addSymbol_new w ⟨.refl hsound.coherent, rfl⟩
  ⟨hnew.1.1.extends_base.later,
    ⟨hnew.1.1.coherent, hsound.store.addSymbol (symbol_within_named name none nofun)⟩, hnew.2.lt,
    False.elim⟩

/-- A namespace object that is known is found without any change. -/
theorem namespaceFrom_of_known {depth : Nat} {module : ScopeId} {specifier : String}
    {symbol : SymbolId} {w : Workspace} (h : w.namespaces.find? module = some symbol) :
    (namespaceFrom (depth + 1) module specifier).run w = (symbol, w) := by
  rw [namespaceFrom, StateT.run_bind, StateT.run_get, pure_bind, h]
  rfl

/-- A namespace object that is made is known from then on. -/
theorem namespaceFrom_ensures {depth : Nat}
    (hwhole : WholeForetells False (namespaceFrom depth) moduleSymbol)
    (module : ScopeId) (specifier : String) :
    Ensures (fun w => w.Sound ∧ w.HasModule module) (namespaceFrom (depth + 1) module specifier)
      fun symbol w => w.Sound ∧ w.namespaces.find? module = some symbol := by
  refine .get fun now => ?_
  split
  -- A module that has a namespace object already keeps it.
  · rename_i hknown
    exact .pure fun w hw => ⟨hw.1.1, hw.2 ▸ hknown⟩
  · rename_i hnone
    -- Otherwise an object is made and put among the namespaces before its exports are gathered, so
    -- a cycle of modules finds it.
    refine .bind (R := fun _ w => w = now ∧ now.Sound ∧ now.HasModule module)
      (.get fun _ => .pure fun w hw => ⟨hw.1.2, hw.1.2 ▸ hw.1.1.1, hw.1.2 ▸ hw.1.1.2⟩)
        fun file => ?_
    refine .bind (R := fun symbol w => NewSymbol now symbol w ∧
      (Grown now w ∧ w.namespaces = now.namespaces) ∧ w.store.SelfContained ∧ w.HasModule module)
      ?_ fun symbol => ?_
    · rintro w ⟨rfl, hsound, hm⟩
      have hparent : ∀ owner, (none : Option SymbolId) = some owner →
          owner.index < w.store.symbols.size := fun owner h => absurd h.symm (Option.some_ne_none _)
      exact (addSymbol_new w ⟨.refl hsound.coherent, rfl⟩).symm.imp_right fun hnew =>
        ⟨hnew, hsound.store.addSymbol (symbol_within_named _ none hparent), hm⟩
    · refine .bind (R := fun _ => Gathering now module symbol) (.modify ?_) fun _ =>
        .bind (addExports_gathering (namespaceFrom_grows depth) hwhole) fun _ => .pure
          fun _ hw => ⟨hw.sound, hw.fresh.known⟩
      rintro w ⟨hnew, ⟨hgrown, hknown⟩, hstore, hm⟩
      exact ⟨hgrown.putNamespace (hknown ▸ hnone) hnew,
        ⟨hnew.new, by rw [Table.find?_put, if_pos rfl]⟩, hstore, hm⟩

/-- A namespace object that is known is there. -/
theorem Coherent.hasSymbol_of_known {w : Workspace} (h : w.Coherent) {module : ScopeId}
    {symbol : SymbolId} (hknown : w.namespaces.find? module = some symbol) : w.HasSymbol symbol :=
  (h.namespaces _ (Table.mem_entries_of_find? hknown)).1

/-- The depth of the search for namespace objects comes from the workspace. -/
theorem run_moduleSymbol (module : ScopeId) (specifier : String) (w : Workspace) :
    (moduleSymbol module specifier).run w =
      (namespaceFrom (w.size + 1) module specifier).run w := by
  rw [moduleSymbol, StateT.run_bind, StateT.run_get, pure_bind]

/-- A namespace object that has been made is found from then on, with whatever name it is asked
for. -/
theorem namespaceFrom_foretells_of {depth : Nat}
    (hwhole : WholeForetells False (namespaceFrom depth) moduleSymbol) :
    WholeForetells again (namespaceFrom (depth + 1)) moduleSymbol := by
  intro base module specifier hm w hw hsound
  have hgrown := namespaceFrom_grows (depth + 1) w module specifier w (.refl hsound.coherent)
  obtain ⟨hsound', hknown⟩ :=
    namespaceFrom_ensures hwhole module specifier w ⟨hsound, hw.hasModule hm⟩
  refine ⟨hgrown.extends_base.later, hsound', hsound'.coherent.hasSymbol_of_known hknown,
    fun _ next hnext => ?_⟩
  rw [run_moduleSymbol]
  exact namespaceFrom_of_known (hnext.namespaces _ _ hknown)

/-- A namespace object is made in a sound workspace, at any depth. -/
theorem namespaceFrom_once (depth : Nat) :
    WholeForetells False (namespaceFrom depth) moduleSymbol := by
  -- Gathering the exports makes other namespace objects, nested one level deeper.
  induction depth with
  | zero => exact fun _ _ _ _ => addSymbol_foretells
  | succ depth ih => exact namespaceFrom_foretells_of ih

/-- The namespace object of a module is the same from then on. -/
theorem namespaceFrom_foretells (depth : Nat) :
    WholeForetells again (namespaceFrom (depth + 1)) moduleSymbol :=
  namespaceFrom_foretells_of (namespaceFrom_once depth)

/-- So is the symbol that stands for a module. -/
theorem moduleSymbol_foretells : WholeForetells again moduleSymbol moduleSymbol := by
  intro base module specifier hm w hw hsound
  have hfirst : Foretells again base (namespaceFrom (w.size + 1) module specifier) _ _ :=
    namespaceFrom_foretells w.size base module specifier hm
  rw [run_moduleSymbol]
  exact hfirst w hw hsound

/-- An export of a module is found again. -/
theorem exportSymbol_foretells {module : ScopeId} (hm : base.HasModule module) (name : String) :
    Foretells again base (exportSymbol module name) (exportSymbol module name)
      fun found w => w.HasFound found :=
  exportIn_foretells moduleSymbol_foretells hm name

/-- What a module exports under a name lasts. -/
theorem exportSymbol_lasts {module : ScopeId} (hm : base.HasModule module) (name : String) :
    Lasts Sound again base (exportSymbol module name) fun found w => w.HasFound found :=
  (exportSymbol_foretells hm name).lasts

/-! ## Aliases -/

/-- What a declaration imports lasts. -/
theorem importedSymbol_lasts (d : Declaration) :
    Lasts Sound again base (importedSymbol d) fun found w => w.HasFound found := by
  unfold importedSymbol
  split
  · exact .pure fun w _ => w.hasFound_none
  · refine .bind resolveModule_lasts fun found now _ hfound => ?_
    split
    -- The whole module, or one of its exports.
    · exact .pure fun w _ => w.hasFound_none
    · rename_i module
      split
      · exact .bind (moduleSymbol_foretells now module _ (hfound module rfl)).lasts fun _ _ _ hs =>
          .pure fun _ hw => hasFound_some (hw.hasSymbol hs)
      · exact exportSymbol_lasts (hfound module rfl) _

/-- Attaching a declaration does not change what it imports. -/
theorem importedSymbol_eq {old new : Declaration} (h : old.Became new) :
    importedSymbol new = importedSymbol old := by
  unfold importedSymbol Declaration.source
  rw [h.importSource_eq, h.node_eq]

/-- The end of a chain of aliases lasts, within any number of hops. -/
theorem resolveAliasFrom_lasts (hops : Nat) {symbol : SymbolId} (hs : base.HasSymbol symbol) :
    Lasts Sound again base (resolveAliasFrom hops symbol) fun found w => w.HasFound found := by
  induction hops generalizing base symbol with
  | zero =>
    -- Out of hops: only an alias would be followed further.
    refine .get (fun _ old new hold hsound hnew => ?_) fun now hnow _ => ?_
    · rw [hnew.store.isAlias_eq hsound.store (hold.hasSymbol hs)]
    split
    · exact .pure fun w _ => w.hasFound_none
    · exact .pure fun _ hw => hasFound_some (hw.hasSymbol (hnow.hasSymbol hs))
  | succ hops ih =>
    -- The next step goes by the first declaration of the symbol, which is the same later on.
    refine .get (fun _ old new hold hsound hnew => ?_) fun now hnow _ => ?_
    · have hs := hold.hasSymbol hs
      dsimp only
      rw [hnew.store.isAlias_eq hsound.store hs]
      unfold Store.declarationsOf
      rw [hnew.store.symbol_eq symbol hs]
      cases hd : (old.store.symbol symbol).declarations with
      | nil => rfl
      | cons d rest =>
        have hlt := (hsound.store.symbol symbol).declarations d (hd ▸ List.mem_cons_self)
        simp only [List.map_cons, List.head?_cons]
        rw [importedSymbol_eq (hnew.store.declaration_became d hlt)]
    dsimp only
    split
    -- A symbol that is no alias is the end itself.
    · exact .pure fun _ hw => hasFound_some (hw.hasSymbol (hnow.hasSymbol hs))
    · split
      · exact .pure fun w _ => w.hasFound_none
      · refine .bind (importedSymbol_lasts _) fun found next _ hfound => ?_
        split
        · exact ih (hfound _ rfl)
        · exact .pure fun w _ => w.hasFound_none

/-- The end of a chain of aliases lasts. -/
theorem resolveAlias_lasts {symbol : SymbolId} (hs : base.HasSymbol symbol) :
    Lasts Sound again base (resolveAlias symbol) fun found w => w.HasFound found :=
  resolveAliasFrom_lasts aliasHops hs

/-- The declaration that is shown for a symbol stays the same. -/
theorem bestDeclaration?_eq {old new : Store} (h : old.Later new) (hold : old.SelfContained)
    {symbol : SymbolId} (hs : symbol.index < old.symbols.size) :
    bestDeclaration? new symbol = bestDeclaration? old symbol := by
  unfold bestDeclaration?
  rw [h.firstOf_eq hold hs, h.symbol_eq symbol hs]

/-- The declaration picked for a symbol is one of the store's, and stays the one that is picked. -/
theorem pickDeclaration_lasts {symbol : Option SymbolId} (hs : base.HasFound symbol) :
    Lasts Sound again base (pickDeclaration symbol)
      fun found w => ∀ d, found = some d → d.index < w.store.declarations.size := by
  unfold pickDeclaration
  split
  · exact .pure fun _ _ => nofun
  · refine .bind (resolveAlias_lasts (hs _ rfl)) fun found now hnow hfound => ?_
    split
    · exact .pure fun _ _ => nofun
    · rename_i target
      have ht := hfound target rfl
      refine .get (fun _ old new hold hsound hnew => ?_) fun next _ hsound => .pure
        fun w hw d hd => ?_
      -- What is picked is one of the declarations of the symbol.
      · rw [bestDeclaration?_eq hnew.store hsound.store (hold.hasSymbol ht)]
      · refine Nat.lt_of_lt_of_le ?_ hw.store.declarations_le
        refine (hsound.store.symbol target).declarations d ?_
        rcases Option.or_eq_some_iff.mp hd with hd | ⟨-, hd⟩
        · exact List.mem_of_find?_eq_some hd
        · exact List.mem_of_head? hd

/-! ## Names of the ambient library -/

/-- The library declares the same names later. -/
theorem Later.globalSymbol?_eq (h : old.Later new) (hsound : old.Sound)
    (kinds : DeclarationKind → Bool) (name : String) :
    new.globalSymbol? kinds name = old.globalSymbol? kinds name := by
  unfold globalSymbol?
  rw [h.library_eq, h.store.symbolsOf_eq hsound.store hsound.coherent.library.moduleScope,
    h.store.filter_hasKind_eq hsound.store]

/-- A global name leads to a symbol that is there. -/
theorem Sound.globalSymbol? {w : Workspace} (h : w.Sound) (kinds : DeclarationKind → Bool)
    (name : String) : w.HasFound (w.globalSymbol? kinds name) := fun _ hs =>
  let ⟨hfind, _⟩ := Option.filter_eq_some_iff.mp hs
  h.store.symbolsOf _ _ (Table.mem_entries_of_find? hfind)

/-- The workspace of a file is sound. -/
theorem ofSource_sound (settings : Settings) (disk : Disk) (library root : Source) :
    (ofSource settings disk (.ofSource library) root).Sound where
  coherent := ofSource_coherent settings disk (Library.ofSource_bound library) root
  store := bind_selfContained root (bind_selfContained library Store.selfContained_empty)

end Workspace

end ScriptGraph
