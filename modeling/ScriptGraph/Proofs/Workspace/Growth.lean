import ScriptGraph.Proofs.Workspace.Coherence
import ScriptGraph.Workspace.Alias

/-!
# Looking things up in a workspace

Binding a file on demand, resolving a module and following exports and aliases change a workspace,
but only by making it know more. `Workspace.Grown` states this, and every look-up keeps it.

- `resolveModule_grown`: resolving a module, which is settled from then on
- `exportSymbol_grown`, `resolveAlias_grown`, `pickDeclaration_grown`
-/

namespace ScriptGraph.Workspace

open Binding Syntax

/-- A coherent workspace that knows everything that `base` knows. What it has declared since then
belongs to files that `base` has not bound. -/
structure Grown (base w : Workspace) : Prop where
  extends_base : base.Extends w
  coherent : w.Coherent
  added : ∀ id, base.store.AddsDeclaration w.store id →
    base.bindings.find? (w.store.declaration id).source.fileName = none

/-- A module is one of the store's scopes. -/
def HasModule (w : Workspace) (module : ScopeId) : Prop :=
  module.index < w.store.scopes.size

variable {base : Workspace}

/-- A coherent workspace has grown from itself. -/
theorem Grown.refl {w : Workspace} (h : w.Coherent) : Grown w w :=
  ⟨.refl w, h, fun _ hid => absurd hid.2 (Nat.not_lt.mpr hid.1)⟩

/-- A workspace that has grown twice has grown. -/
theorem Grown.trans {now w : Workspace} (h : Grown base now) (h' : Grown now w) :
    Grown base w where
  extends_base := h.extends_base.trans h'.extends_base
  coherent := h'.coherent
  added id hid := by
    by_cases hnow : id.index < now.store.declarations.size
    · rw [h'.extends_base.store.declaration_eq id hnow]
      exact h.added id ⟨hid.1, hnow⟩
    · have hnone := h'.added id ⟨Nat.le_of_not_lt hnow, hid.2⟩
      -- What `base` has bound is bound later on.
      cases hfind : base.bindings.find? (w.store.declaration id).source.fileName with
      | none => rfl
      | some b =>
        rw [h.extends_base.bindings _ b hfind] at hnone
        exact nomatch hnone

/-- Binding a file that has not been bound. -/
theorem Grown.bindFile {w : Workspace} (h : w.Coherent) {s : Source}
    (hs : w.bindings.find? s.fileName = none) : Grown w (w.bindFile s) where
  extends_base := extends_bindFile hs
  coherent := h.bindFile s
  added id hid := by
    have hsource : ((w.bindFile s).store.declaration id).source = s :=
      (bind_grown s w.store).store.declaration_source id hid
    rw [hsource, hs]

/-- Modules stay in a workspace that extends another one. -/
theorem Extends.hasModule {old new : Workspace} (h : old.Extends new) {module : ScopeId}
    (hm : old.HasModule module) : new.HasModule module :=
  h.store.scope_lt hm

/-! ## The files of declarations -/

/-- Declarations come from `files`, and so will those of files that are bound later. -/
structure DeclaresIn (files : Source → Prop) (w : Workspace) : Prop where
  source : ∀ id : DeclarationId, id.index < w.store.declarations.size →
    files (w.store.declaration id).source
  unbound : ∀ s : Source, w.bindings.find? s.fileName = none → files s

/-- What grows goes on declaring in `files`. -/
theorem DeclaresIn.grown {files : Source → Prop} {w next : Workspace}
    (h : w.DeclaresIn files) (hnext : w.Grown next) : next.DeclaresIn files where
  source id hid := by
    -- A declaration is old, or of a file that has been bound in the meantime.
    by_cases hold : id.index < w.store.declarations.size
    · rw [hnext.extends_base.store.declaration_eq id hold]
      exact h.source id hold
    · exact h.unbound _ (hnext.added id ⟨Nat.le_of_not_lt hold, hid⟩)
  unbound s hs := by
    refine h.unbound s ?_
    cases hfind : w.bindings.find? s.fileName with
    | none => rfl
    | some b =>
      rw [hnext.extends_base.bindings _ b hfind] at hs
      exact nomatch hs

/-- Another store declares in `files` too if its declarations come from there. -/
theorem DeclaresIn.changeStore {files : Source → Prop} {w : Workspace} (h : w.DeclaresIn files)
    {next : Store} (hnext : ∀ id : DeclarationId, id.index < next.declarations.size →
      files (next.declaration id).source) : DeclaresIn files { w with store := next } where
  source := hnext
  unbound := h.unbound

/-! ## Modules -/

/-- Binding a file lets the workspace grow. -/
theorem bindingFor_grown {s : Source} :
    Ensures (Grown base) (bindingFor s) fun b w => Grown base w ∧ b.Within w.store := by
  refine .get fun now => ?_
  -- The library, a file that has been bound, or a new one.
  split
  · refine .pure fun w hw => ⟨hw.1, ?_⟩
    obtain ⟨hw, rfl⟩ := hw
    exact hw.coherent.library
  · split
    · rename_i b hb
      refine .pure fun w hw => ⟨hw.1, ?_⟩
      obtain ⟨hw, rfl⟩ := hw
      exact hw.coherent.bindings _ (Table.mem_entries_of_find? hb)
    · rename_i hnone
      rintro w ⟨hw, rfl⟩
      exact ⟨hw.trans (.bindFile hw.coherent hnone), bind_within s w.store⟩

/-- The search for an ambient module lets the workspace grow, and finds a module that is there. -/
theorem ambientModule?_grown {specifier : String} :
    Ensures (Grown base) (ambientModule? specifier)
      fun found w => Grown base w ∧ ∀ module, found = some module → w.HasModule module := by
  refine .get fun now => .bind (.of_imp bindingFor_grown fun _ hw => hw.1) fun root =>
    .get fun _ => .pure ?_
  rintro w ⟨⟨hw, hroot⟩, rfl⟩
  refine ⟨hw, fun module hfound => ?_⟩
  obtain ⟨b, hb, hmodule⟩ := List.exists_of_findSome?_eq_some hfound
  have hwithin : b.Within w.store := by
    -- The binding is that of the file under analysis, of the library or of another file.
    rcases List.mem_cons.mp hb with rfl | hb
    · exact hroot
    rcases List.mem_cons.mp hb with rfl | hb
    · exact hw.coherent.library
    · obtain ⟨e, he, rfl⟩ := List.mem_map.mp hb
      exact hw.coherent.bindings e he
  exact hwithin.ambientModules _ (Table.mem_entries_of_find? hmodule)

/-- The search for a file lets the workspace grow, and finds a module that is there. -/
theorem fileModule?_grown {specifier : String} {importer : Source} :
    Ensures (Grown base) (fileModule? specifier importer)
      fun found w => Grown base w ∧ ∀ module, found = some module → w.HasModule module := by
  refine .get fun now => .of_imp (P := Grown base) ?_ fun _ hw => hw.1
  split
  · exact .pure fun _ hw => ⟨hw, nofun⟩
  · split
    · refine .bind bindingFor_grown fun b => .pure fun w hw => ⟨hw.1, fun module hm => ?_⟩
      exact Option.some.inj hm ▸ hw.2.moduleScope
    · exact .pure fun _ hw => ⟨hw, nofun⟩

/-- The files that are bound when a module is looked for: the file under analysis, and those that it
may import. -/
def MayBind (w : Workspace) (s : Source) : Prop :=
  s = w.root ∨ s ∈ w.importable

/-- A file that an import leads to may be bound. -/
theorem mayBind_of_source? {w : Workspace} {path : String} {s : Source}
    (hresolve : w.settings.resolveImports.isTruthy = true) (h : w.source? path = some s) :
    w.MayBind s := by
  unfold source? at h
  split at h
  · exact .inl (Option.some.inj h).symm
  · refine .inr ?_
    rw [importable, if_pos hresolve]
    exact List.mem_map_of_mem (Table.mem_entries_of_find? h)

/-! Looking for a module does nothing but bind files, so it does not settle by itself which module
is named. -/

section Looking

variable {P : Workspace → Prop}
  (h : ∀ s, Ensures (fun w => P w ∧ w.MayBind s) (bindingFor s) fun _ => P)
include h

/-- The search for an ambient module keeps what binding a file keeps. -/
theorem ambientModule?_keeps (specifier : String) :
    Ensures P (ambientModule? specifier) fun _ => P :=
  .get fun _ => .bind (.of_imp (h _) fun _ hw => ⟨hw.1, .inl (congrArg root hw.2.symm)⟩) fun _ =>
    .get fun _ => .pure fun _ hw => hw.1

/-- The search for a file keeps what binding a file keeps. -/
theorem fileModule?_keeps (specifier : String) (importer : Source) :
    Ensures P (fileModule? specifier importer) fun _ => P := by
  refine .get fun now => ?_
  split
  · exact .pure fun _ hw => hw.1
  · rename_i himports
    -- A file is bound only if its path may be looked up.
    split
    · rename_i target htarget
      obtain ⟨path, -, hpath⟩ := Option.bind_eq_some_iff.mp htarget
      have hresolve : now.settings.resolveImports.isTruthy = true := by
        rw [Bool.or_eq_true, not_or, Bool.not_eq_true', Bool.not_eq_false] at himports
        exact himports.1
      exact .bind (.of_imp (h _) fun _ hw => ⟨hw.1, hw.2 ▸ mayBind_of_source? hresolve hpath⟩)
        fun _ => .pure fun _ hw => hw
    · exact .pure fun _ hw => hw.1

/-- Resolving a module does nothing but bind files and remember the module. -/
theorem resolveModule_keeps
    (hput : ∀ w key found, P w → P { w with modules := w.modules.put key found })
    (specifier : String) (importer : Source) :
    Ensures P (resolveModule specifier importer) fun _ => P := by
  unfold resolveModule
  split
  · exact .pure fun _ hw => hw
  refine .get fun now => .of_imp (P := P) ?_ fun _ hw => hw.1
  -- An answer that is remembered, a module that is declared, or a file.
  dsimp only
  split
  · exact .pure fun _ hw => hw
  · refine .bind (ambientModule?_keeps h specifier) fun found => ?_
    split
    · exact fun w hw => hput w _ _ hw
    · exact .bind (fileModule?_keeps h specifier importer) fun _ w hw => hput w _ _ hw

end Looking

/-- Binding a file leaves the resolved specifiers alone. -/
theorem bindingFor_modules {known : Table (String × String) (Option ScopeId)} (s : Source) :
    Ensures (fun w => w.modules = known) (bindingFor s) fun _ w => w.modules = known := by
  refine .get fun now => ?_
  split
  · exact .pure fun _ hw => hw.1
  · split
    · exact .pure fun _ hw => hw.1
    · rintro w ⟨hw, rfl⟩
      exact hw

/-- Until the answer is remembered, looking for a module leaves open which modules are known. -/
theorem ambientModule?_modules {known : Table (String × String) (Option ScopeId)}
    (specifier : String) :
    Ensures (fun w => w.modules = known) (ambientModule? specifier) fun _ w => w.modules = known :=
  ambientModule?_keeps (fun s => .of_imp (bindingFor_modules s) fun _ hw => hw.1) specifier

/-- The search for a file leaves the resolved specifiers alone. -/
theorem fileModule?_modules {known : Table (String × String) (Option ScopeId)}
    (specifier : String) (importer : Source) :
    Ensures (fun w => w.modules = known) (fileModule? specifier importer)
      fun _ w => w.modules = known :=
  fileModule?_keeps (fun s => .of_imp (bindingFor_modules s) fun _ hw => hw.1) specifier importer

/-- A workspace still grows when it remembers which module a specifier names. -/
theorem Grown.putModule {w : Workspace} (h : Grown base w) {key : String × String}
    {found : Option ScopeId} (hnone : w.modules.find? key = none)
    (hfound : ∀ module, found = some module → w.HasModule module) :
    Grown base { w with modules := w.modules.put key found } where
  extends_base :=
    { h.extends_base with
      modules := fun other module hm => by
        -- The key was free, so no other module is forgotten.
        have hother := h.extends_base.modules other module hm
        rw [Table.find?_put, if_neg fun he => ?_, hother]
        rw [he, hother] at hnone
        exact nomatch hnone }
  coherent :=
    { h.coherent with
      modules := fun e he module hm => by
        rcases Table.mem_entries_put he with rfl | he
        · exact hfound module hm
        · exact h.coherent.modules e he module hm }
  added := h.added

/-- The module that a specifier names is settled once it has been asked for: from then on the
answer is the same, and asking changes nothing. -/
def Settled (w : Workspace) (specifier : String) (importer : Source) (found : Option ScopeId) :
    Prop :=
  if specifier.isEmpty then found = none
  else w.modules.find? (importer.fileName, specifier) = some found

/-- It stays settled as long as no module is forgotten. -/
theorem Settled.keep {old new : Workspace} {specifier : String} {importer : Source}
    {found : Option ScopeId} (h : old.Settled specifier importer found)
    (hmodules : ∀ key module, old.modules.find? key = some module →
      new.modules.find? key = some module) :
    new.Settled specifier importer found := by
  unfold Settled at *
  split
  next he => rwa [if_pos he] at h
  next he =>
    rw [if_neg he] at h
    exact hmodules _ _ h

/-- A specifier that has been resolved stays resolved. -/
theorem Settled.mono {old new : Workspace} {specifier : String} {importer : Source}
    {found : Option ScopeId} (h : old.Settled specifier importer found) (hext : old.Extends new) :
    new.Settled specifier importer found :=
  h.keep hext.modules

/-- A specifier that has been resolved is not looked for again. -/
theorem Settled.resolveModule_eq {w : Workspace} {specifier : String} {importer : Source}
    {found : Option ScopeId} (h : w.Settled specifier importer found) :
    (resolveModule specifier importer).run w = (found, w) := by
  unfold Settled at h
  unfold resolveModule
  split at h
  next he => rw [if_pos he, h]; rfl
  next he =>
    rw [if_neg he, StateT.run_bind, StateT.run_get, pure_bind]
    dsimp only
    rw [h]
    rfl

/-- Resolving a specifier lets the workspace grow, and settles the specifier. -/
theorem resolveModule_grown {specifier : String} {importer : Source} :
    Ensures (Grown base) (resolveModule specifier importer) fun found w => Grown base w ∧
      (∀ module, found = some module → w.HasModule module) ∧
      w.Settled specifier importer found := by
  unfold resolveModule Settled
  split
  · exact .pure fun _ hw => ⟨hw, nofun, rfl⟩
  refine .get fun now => ?_
  dsimp only
  split
  -- The specifier has been resolved before, and what was found is remembered.
  · rename_i known hknown
    refine .pure ?_
    rintro w ⟨hw, rfl⟩
    exact ⟨hw, fun module hm =>
      hw.coherent.modules _ (Table.mem_entries_of_find? hknown) module hm, hknown⟩
  · rename_i hnone
    -- Whichever way the module is found, it is remembered under a key that was free.
    have hkeep : ∀ found : Option ScopeId, Ensures
        (fun w => (Grown base w ∧ ∀ module, found = some module → w.HasModule module) ∧
          w.modules = now.modules)
        (do
          modify fun w =>
            { w with modules := w.modules.put (importer.fileName, specifier) found }
          return found)
        fun found w => Grown base w ∧ (∀ module, found = some module → w.HasModule module) ∧
          w.modules.find? (importer.fileName, specifier) = some found := by
      rintro found w ⟨⟨hw, hfound⟩, hmodules⟩
      refine ⟨hw.putModule (hmodules ▸ hnone) hfound, hfound, ?_⟩
      show (w.modules.put _ found).find? _ = some found
      rw [Table.find?_put, if_pos rfl]
    -- First the ambient modules, then the files.
    refine .bind (.of_imp (.and ambientModule?_grown (ambientModule?_modules specifier))
      fun w hw => ⟨hw.1, congrArg modules hw.2⟩) fun found => ?_
    split
    · exact hkeep _
    · exact .bind (.of_imp (.and fileModule?_grown (fileModule?_modules specifier importer))
        fun w hw => ⟨hw.1.1, hw.2⟩) hkeep

/-! ## Exports -/

/-- A way to make namespace objects under which workspaces grow. -/
def Grows (whole : ScopeId → String → StateM Workspace SymbolId) : Prop :=
  ∀ base module specifier, Ensures (Grown base) (whole module specifier) fun _ => Grown base

section Searching

variable {P : Workspace → Prop}
  (hresolve : ∀ specifier importer, Ensures P (resolveModule specifier importer)
    fun found w => P w ∧ ∀ target, found = some target → w.HasModule target)

include hresolve in
/-- The module of a specifier in a module is looked for in the same way. -/
theorem moduleNamed_keeps (module : ScopeId) (specifier : String) :
    Ensures P (moduleNamed module specifier)
      fun found w => P w ∧ ∀ target, found = some target → w.HasModule target :=
  .get fun _ => .of_imp (hresolve specifier _) fun _ hw => hw.1

/-- A search through a list keeps what each part of it keeps. -/
theorem firstFound_keeps {α : Type} {search : α → ExportSearch (Option SymbolId)}
    (h : ∀ a, Keeps P (search a)) (l : List α) : Keeps P (firstFound search l) := by
  induction l with
  | nil => exact .pure
  | cons a rest ih =>
    refine .bind (h a) fun found => ?_
    split
    · exact .pure
    · exact ih

variable {follow : ScopeId → String → ExportSearch (Option SymbolId)}
  {whole : ScopeId → String → StateM Workspace SymbolId}
  (hwhole : ∀ module specifier,
    Ensures (fun w => P w ∧ w.HasModule module) (whole module specifier) fun _ => P)
include hresolve hwhole

/-- Finding the symbol of one entry keeps what following it keeps. -/
theorem entrySymbol?_keeps (hfollow : ∀ module name, Keeps P (follow module name))
    (module : ScopeId) (name : String) (entry : ExportEntry) :
    Keeps P (entrySymbol? follow whole module name entry) := by
  -- The three kinds of entries; only what is forwarded goes on in another module.
  cases entry with
  | value symbol => exact .pure
  | named inside => exact .bind (.lift fun _ hw => hw) fun _ => .pure
  | forwarded specifier imported =>
    refine .liftBind (moduleNamed_keeps hresolve module specifier) fun found seen => ?_
    split
    · exact .pure fun _ hw => hw.1
    · rename_i target
      split
      · show Ensures _ (whole target specifier >>= fun symbol => pure (some symbol, seen)) _
        exact .bind ((hwhole target specifier).of_imp fun _ hw => ⟨hw.1, hw.2 target rfl⟩)
          fun _ => .pure fun _ hw => hw
      · exact .of_imp (hfollow target _ seen) fun _ hw => hw.1

/-- Finding the symbol of a name in one module keeps what following it keeps. -/
theorem pairSymbol?_keeps (hfollow : ∀ module name, Keeps P (follow module name))
    (module : ScopeId) (name : String) : Keeps P (pairSymbol? follow whole module name) := by
  refine .bind (.lift fun _ hw => hw) fun w => ?_
  dsimp only
  -- An entry of the module, a module whose exports are taken over, or an entry for all.
  split
  · exact entrySymbol?_keeps hresolve hwhole hfollow module name _
  · split
    · refine firstFound_keeps (fun specifier => ?_) _
      refine .liftBind (moduleNamed_keeps hresolve module specifier) fun found seen => ?_
      split
      · exact .pure fun _ hw => hw.1
      · exact .of_imp (hfollow _ _ seen) fun _ hw => hw.1
    · split
      · exact hfollow _ _
      · exact .pure

/-- The search through exports keeps what resolving modules keeps. -/
theorem searchExport_keeps (hops : Nat) (module : ScopeId) (name : String) :
    Keeps P (searchExport whole hops module name) := by
  -- A search with fewer hops follows the pairs that this one leads to.
  induction hops generalizing module name with
  | zero => exact .pure
  | succ hops ih =>
    unfold searchExport
    refine .bind .get fun seen => ?_
    split
    · exact .pure
    · exact .bind .set fun _ => pairSymbol?_keeps hresolve hwhole ih module name

/-- Searching for an export keeps what resolving modules and making namespace objects keep. -/
theorem exportIn_keeps (module : ScopeId) (name : String) :
    Ensures P (exportIn whole module name) fun _ => P :=
  .bind (searchExport_keeps hresolve hwhole _ module name []) fun _ => .pure fun _ hw => hw

end Searching

/-- The module that is found is there. -/
theorem resolveModule_finds (specifier : String) (importer : Source) :
    Ensures (Grown base) (resolveModule specifier importer)
      fun found w => Grown base w ∧ ∀ target, found = some target → w.HasModule target :=
  resolveModule_grown.weaken fun _ _ hw => ⟨hw.1, hw.2.1⟩

/-- Taking a whole module lets the workspace grow. -/
theorem Grows.keeps {whole : ScopeId → String → StateM Workspace SymbolId} (h : Grows whole)
    (module : ScopeId) (specifier : String) :
    Ensures (fun w => Grown base w ∧ w.HasModule module) (whole module specifier)
      fun _ => Grown base :=
  .of_imp (h base module specifier) fun _ hw => hw.1

/-- Finding an export lets the workspace grow. -/
theorem exportIn_grown {whole : ScopeId → String → StateM Workspace SymbolId}
    (hwhole : Grows whole) (module : ScopeId) (name : String) :
    Ensures (Grown base) (exportIn whole module name) fun _ => Grown base :=
  exportIn_keeps resolveModule_finds hwhole.keeps module name

section Names

variable {P : Workspace → Prop}
  (h : ∀ specifier importer, Ensures P (resolveModule specifier importer) fun _ => P)
include h

/-- Gathering the names that a module exports keeps what resolving modules keeps. -/
theorem exportedNamesFrom_keeps (depth : Nat) (module : ScopeId) :
    Keeps P (exportedNamesFrom depth module) := by
  -- By induction on the depth; a module that has been visited is passed over.
  induction depth generalizing module with
  | zero => exact .pure
  | succ depth ih =>
    unfold exportedNamesFrom
    refine .bind .get fun seen => ?_
    dsimp only
    split
    · exact .pure
    refine .bind .set fun _ => .bind (.lift fun _ hw => hw) fun w => .foldlM (fun names s _ => ?_) _
    have hnamed : Ensures P (moduleNamed module s) fun _ => P :=
      .get fun _ => .of_imp (h s _) fun _ hw => hw.1
    refine .bind (.lift hnamed) fun found => ?_
    split
    · exact .pure
    · exact .bind (ih _) fun _ => .pure

/-- Collecting the exported names keeps what resolving modules keeps. -/
theorem exportedNames_ensures (module : ScopeId) :
    Ensures P (exportedNames module) fun _ => P :=
  .get fun _ => .bind (.of_imp (exportedNamesFrom_keeps h _ module []) fun _ hw => hw.1)
    fun _ => .pure fun _ hw => hw

end Names

/-- Collecting the exported names lets the workspace grow. -/
theorem exportedNames_grown (module : ScopeId) :
    Ensures (Grown base) (exportedNames module) fun _ => Grown base :=
  exportedNames_ensures (fun _ _ => resolveModule_grown.weaken fun _ _ hw => hw.1) module

/-! ## Namespace objects -/

/-- A change of the store that keeps a workspace coherent: scopes stay, and so do the statics of
the namespaces that have been declared. -/
theorem Coherent.changeStore {w : Workspace} (h : w.Coherent) {next : Store}
    (hle : w.store.NoSmaller next) (hscopes : next.scopes = w.store.scopes)
    (hstatics : ∀ id owner : _, (w.store.scope id).table = .staticsOf owner →
      owner.index < w.store.symbols.size → (next.symbol owner).statics =
        (w.store.symbol owner).statics)
    (hnode : ∀ id, id.index < w.store.declarations.size →
      (next.declaration id).node = (w.store.declaration id).node) :
    Coherent { w with store := next } where
  closed := h.closed.change hle hscopes hstatics
  library := h.library.mono hle hnode
  bindings e he := (h.bindings e he).mono hle hnode
  modules e he module hm := hle.scope_lt (h.modules e he module hm)
  namespaces e he := by
    -- The scopes are the same, so no table has come to be shared.
    obtain ⟨hlt, hfree⟩ := h.namespaces e he
    refine ⟨hle.symbol_lt hlt, fun id => ?_⟩
    show (next.scope id).table ≠ _
    rw [Store.scope, hscopes]
    exact hfree id

/-- A symbol that `base` does not have and that is no namespace that has been declared. -/
structure NewSymbol (base : Workspace) (symbol : SymbolId) (w : Workspace) : Prop where
  new : base.store.symbols.size ≤ symbol.index
  lt : symbol.index < w.store.symbols.size
  free : ∀ id, (w.store.scope id).table ≠ .staticsOf symbol

/-- A symbol that is added is new. -/
theorem addSymbol_new {name : String} {known : Table ScopeId SymbolId} :
    Ensures (fun w => Grown base w ∧ w.namespaces = known) (addSymbol name)
      fun symbol w => (Grown base w ∧ w.namespaces = known) ∧ NewSymbol base symbol w := by
  rintro w ⟨hw, hknown⟩
  -- The old symbols stay what they are.
  have hold : ∀ id : SymbolId, id.index < w.store.symbols.size →
      (w.store.addSymbol { name }).2.symbol id = w.store.symbol id := fun id hid => by
    rw [Store.symbol_addSymbol, if_neg (Nat.ne_of_lt hid)]
  have hle := w.store.noSmaller_addSymbol { name }
  have hext : w.store.Extends (w.store.addSymbol { name }).2 :=
    ⟨hle, hold, fun _ _ => rfl, fun _ _ => rfl⟩
  have hcoherent := hw.coherent.changeStore hle rfl
    (fun _ owner _ ho => congrArg Symbol.statics (hold owner ho)) fun _ _ => rfl
  refine ⟨⟨⟨{ hw.extends_base with store := hw.extends_base.store.trans hext }, hcoherent,
    hw.added⟩, hknown⟩, hw.extends_base.store.symbols_le, ?_, fun id ht => ?_⟩
  · show w.store.symbols.size < (w.store.symbols.push _).size
    rw [Array.size_push]
    exact Nat.lt_succ_self _
  -- The owner of a scope was there before, and the new symbol was not.
  · exact absurd (hw.coherent.closed.owner_lt id _ ht) (Nat.lt_irrefl _)

/-- Adding a symbol lets the workspace grow. -/
theorem addSymbol_grown {name : String} :
    Ensures (Grown base) (addSymbol name) fun _ => Grown base :=
  fun w hw => (addSymbol_new w ⟨hw, rfl⟩).1.1

/-- A namespace object that `base` does not have, and that is known under its module. -/
structure Fresh (base : Workspace) (module : ScopeId) (symbol : SymbolId) (w : Workspace) :
    Prop where
  new : base.store.symbols.size ≤ symbol.index
  known : w.namespaces.find? module = some symbol

/-- A workspace still grows when it learns the namespace object of a module. -/
theorem Grown.putNamespace {w : Workspace} (h : Grown base w) {module : ScopeId}
    {symbol : SymbolId} (hnone : w.namespaces.find? module = none)
    (hs : NewSymbol base symbol w) :
    Grown base { w with namespaces := w.namespaces.put module symbol } where
  extends_base :=
    { h.extends_base with
      namespaces := fun other s hfound => by
        -- The module had no namespace object, so none is forgotten.
        have hother := h.extends_base.namespaces other s hfound
        rw [Table.find?_put, if_neg fun he => ?_, hother]
        rw [he, hother] at hnone
        exact nomatch hnone }
  coherent :=
    { h.coherent with
      namespaces := fun e he => by
        rcases Table.mem_entries_put he with rfl | he
        · exact ⟨hs.lt, hs.free⟩
        · exact h.coherent.namespaces e he }
  added := h.added

/-- A namespace object may change. No scope declares among its statics. -/
theorem Coherent.modifyNamespace {w : Workspace} (h : w.Coherent) {module : ScopeId}
    {symbol : SymbolId} (hknown : w.namespaces.find? module = some symbol) (f : Symbol → Symbol) :
    Coherent { w with store := w.store.modifySymbol symbol f } :=
  have hfree := (h.namespaces _ (Table.mem_entries_of_find? hknown)).2
  h.changeStore (w.store.noSmaller_modifySymbol symbol f) rfl
    (fun id owner ht _ =>
      have hne : symbol ≠ owner := fun he => hfree id (he ▸ ht)
      congrArg Symbol.statics (w.store.symbol_modifySymbol_of_ne hne f))
    fun _ _ => rfl

/-- A new namespace object may change. -/
theorem Grown.modifyFresh {w : Workspace} (h : Grown base w) {module : ScopeId}
    {symbol : SymbolId} (hs : Fresh base module symbol w) (f : Symbol → Symbol) :
    Grown base { w with store := w.store.modifySymbol symbol f } := by
  have hbase : base.store.Extends (w.store.modifySymbol symbol f) :=
    { toNoSmaller :=
        h.extends_base.store.toNoSmaller.trans (w.store.noSmaller_modifySymbol symbol f)
      symbol_eq := fun id hid => by
        -- No symbol but the namespace object changes, and `base` does not have it.
        have hne : symbol ≠ id := fun he => absurd hid (Nat.not_lt.mpr (he ▸ hs.new))
        rw [w.store.symbol_modifySymbol_of_ne hne]
        exact h.extends_base.store.symbol_eq id hid
      declaration_eq := h.extends_base.store.declaration_eq
      scope_eq := h.extends_base.store.scope_eq }
  exact ⟨{ h.extends_base with store := hbase }, h.coherent.modifyNamespace hs.known f, h.added⟩

/-- A namespace object stays known while the workspace grows. -/
theorem fresh_of_grown {α : Type} {x : StateM Workspace α} {module : ScopeId}
    {symbol : SymbolId} (hx : ∀ base, Ensures (Grown base) x fun _ => Grown base) :
    Ensures (fun w => Grown base w ∧ Fresh base module symbol w) x
      fun _ w => Grown base w ∧ Fresh base module symbol w := fun w hw =>
  ⟨hx base w hw.1, hw.2.new,
    (hx w w (.refl hw.1.coherent)).extends_base.namespaces _ _ hw.2.known⟩

/-- Adding one export to a namespace object lets the workspace grow. -/
theorem addExport_grown {whole : ScopeId → String → StateM Workspace SymbolId}
    (hwhole : Grows whole) {module : ScopeId} {symbol : SymbolId} (exported : String) :
    Ensures (fun w => Grown base w ∧ Fresh base module symbol w)
      (addExport whole module symbol exported)
      fun _ w => Grown base w ∧ Fresh base module symbol w := by
  unfold addExport
  split
  · refine .bind (fresh_of_grown fun _ => exportIn_grown hwhole module exported) fun found => ?_
    split
    · exact fun w hw => ⟨hw.1.modifyFresh hw.2 _, hw.2.new, hw.2.known⟩
    · exact .pure fun _ hw => hw
  · exact .pure fun _ hw => hw

/-- Adding what an exported value holds lets the workspace grow. -/
theorem addWholeExport_grown {whole : ScopeId → String → StateM Workspace SymbolId}
    (hwhole : Grows whole) {module : ScopeId} {symbol : SymbolId} :
    Ensures (fun w => Grown base w ∧ Fresh base module symbol w)
      (addWholeExport whole module symbol) fun _ => Grown base := by
  refine .bind (fresh_of_grown fun _ => exportIn_grown hwhole module _) fun found => ?_
  split
  · exact .pure fun _ hw => hw.1
  · refine .get fun _ => ?_
    dsimp only
    split
    · exact fun w hw => hw.1.1.modifyFresh hw.1.2 _
    · exact .pure fun _ hw => hw.1.1

/-- Adding all exports to a namespace object lets the workspace grow. -/
theorem addExports_grown {whole : ScopeId → String → StateM Workspace SymbolId}
    (hwhole : Grows whole) {module : ScopeId} {symbol : SymbolId} :
    Ensures (fun w => Grown base w ∧ Fresh base module symbol w)
      (addExports whole module symbol) fun _ => Grown base := by
  refine .bind (fresh_of_grown fun _ => exportedNames_grown module) fun names =>
    .bind (.forM fun exported _ => addExport_grown hwhole exported) fun _ => .get fun _ =>
      .of_imp (P := fun w => Grown base w ∧ Fresh base module symbol w) ?_ fun _ hw => hw.1
  split
  · exact addWholeExport_grown hwhole
  · exact .pure fun _ hw => hw.1

/-- Making the namespace object of a module changes no symbol that was there before. -/
theorem namespaceFrom_grows (depth : Nat) : Grows (namespaceFrom depth) := by
  -- Gathering the exports makes other namespace objects, nested one level deeper.
  induction depth with
  | zero => exact fun _ _ _ => addSymbol_grown
  | succ depth ih =>
    intro base module specifier
    refine .get fun now => ?_
    split
    · exact .pure fun _ hw => hw.1
    · rename_i hnone
      refine .bind (R := fun _ w => Grown base w ∧ w.namespaces = now.namespaces)
        (.get fun _ => .pure fun _ hw => ⟨hw.1.1, congrArg namespaces hw.1.2⟩) fun file =>
        .bind addSymbol_new fun symbol => .bind
          (R := fun _ w => Grown base w ∧ Fresh base module symbol w) (.modify fun w hw => ?_)
          fun _ => .bind (addExports_grown ih) fun _ => .pure fun _ hw => hw
      obtain ⟨⟨hw, hknown⟩, hs⟩ := hw
      exact ⟨hw.putNamespace (hknown ▸ hnone) hs, hs.new, by rw [Table.find?_put, if_pos rfl]⟩

/-- Making the namespace object of a module lets the workspace grow. -/
theorem moduleSymbol_grows : Grows moduleSymbol := fun base module specifier =>
  .get fun _ => .of_imp (namespaceFrom_grows _ base module specifier) fun _ hw => hw.1

/-- Finding what a module exports lets the workspace grow. -/
theorem exportSymbol_grown (module : ScopeId) (name : String) :
    Ensures (Grown base) (exportSymbol module name) fun _ => Grown base :=
  exportIn_grown moduleSymbol_grows module name

/-! ## Aliases -/

/-- A symbol that is no alias stands for itself. -/
theorem run_resolveAliasFrom_of_not_alias {w : Workspace} {symbol : SymbolId}
    (h : w.store.isAlias symbol = false) (hops : Nat) :
    (resolveAliasFrom hops symbol).run w = (some symbol, w) := by
  cases hops with
  | zero =>
    rw [resolveAliasFrom, StateT.run_bind, StateT.run_get, pure_bind, h]
    rfl
  | succ hops =>
    rw [resolveAliasFrom, StateT.run_bind, StateT.run_get, pure_bind]
    dsimp only
    rw [h]
    rfl

section Following

variable {P : Workspace → Prop}
  (hresolve : ∀ specifier importer, Ensures P (resolveModule specifier importer)
    fun found w => P w ∧ ∀ target, found = some target → w.HasModule target)
  (hwhole : ∀ module specifier,
    Ensures (fun w => P w ∧ w.HasModule module) (moduleSymbol module specifier) fun _ => P)
include hresolve hwhole

/-- Finding what a declaration imports keeps what resolving modules keeps. -/
theorem importedSymbol_keeps (d : Declaration) :
    Ensures P (importedSymbol d) fun _ => P := by
  unfold importedSymbol
  split
  · exact .pure fun _ hw => hw
  · refine .bind (hresolve _ _) fun found => ?_
    split
    · exact .pure fun _ hw => hw.1
    · rename_i module
      split
      · exact .bind (.of_imp (hwhole module _) fun _ hw => ⟨hw.1, hw.2 module rfl⟩) fun _ =>
          .pure fun _ hw => hw
      · exact .of_imp (exportIn_keeps hresolve hwhole module _) fun _ hw => hw.1

/-- So does following aliases, within any number of hops. -/
theorem resolveAliasFrom_keeps (hops : Nat) (symbol : SymbolId) :
    Ensures P (resolveAliasFrom hops symbol) fun _ => P := by
  induction hops generalizing symbol with
  | zero =>
    refine .get fun now => .of_imp (P := P) ?_ fun _ hw => hw.1
    split
    · exact .pure fun _ hw => hw
    · exact .pure fun _ hw => hw
  | succ hops ih =>
    refine .get fun now => .of_imp (P := P) ?_ fun _ hw => hw.1
    -- A symbol that is no alias is where the search ends.
    dsimp only
    split
    · exact .pure fun _ hw => hw
    · split
      · exact .pure fun _ hw => hw
      · refine .bind (importedSymbol_keeps hresolve hwhole _) fun next => ?_
        split
        · exact ih _
        · exact .pure fun _ hw => hw

/-- Following aliases keeps what resolving modules and making namespace objects keep. -/
theorem pickDeclaration_keeps (symbol : Option SymbolId) :
    Ensures P (pickDeclaration symbol) fun _ => P := by
  unfold pickDeclaration
  split
  · exact .pure fun _ hw => hw
  · refine .bind (resolveAliasFrom_keeps hresolve hwhole aliasHops _) fun target => ?_
    split
    · exact .pure fun _ hw => hw
    · exact .get fun _ => .pure fun _ hw => hw.1

end Following

/-- Following aliases lets the workspace grow. -/
theorem resolveAlias_grown (symbol : SymbolId) :
    Ensures (Grown base) (resolveAlias symbol) fun _ => Grown base :=
  resolveAliasFrom_keeps resolveModule_finds moduleSymbol_grows.keeps aliasHops symbol

/-- Picking a declaration lets the workspace grow. -/
theorem pickDeclaration_grown (symbol : Option SymbolId) :
    Ensures (Grown base) (pickDeclaration symbol) fun _ => Grown base :=
  pickDeclaration_keeps resolveModule_finds moduleSymbol_grows.keeps symbol

end ScriptGraph.Workspace
