import ScriptGraph.Proofs.Matches
import ScriptGraph.Proofs.Workspace.Stability

/-!
# What lookups make of the surroundings

The settings and the disk surround a workspace. Looking things up asks the settings for one thing
only, whether imports are resolved, and asks the disk for nothing when they are not. So lookups
find the same, and learn the same, in workspaces that are `Alike` in this respect.

- `Workspace.Alike`: workspaces that lookups cannot tell apart
- `resolveModule_blind`, `moduleSymbol_blind`, `exportSymbol_blind`, `pickDeclaration_blind`
-/

namespace ScriptGraph.Workspace

open Binding Syntax

/-- Workspaces that know the same and agree on whether imports are resolved. If they are, the
workspaces stand next to the same files. -/
structure Alike (v w : Workspace) : Prop where
  root_eq : v.root = w.root
  library_eq : v.library = w.library
  store_eq : v.store = w.store
  bindings_eq : v.bindings = w.bindings
  modules_eq : v.modules = w.modules
  namespaces_eq : v.namespaces = w.namespaces
  resolves_eq : v.settings.resolveImports.isTruthy = w.settings.resolveImports.isTruthy
  disk_eq : w.settings.resolveImports.isTruthy = true → v.disk = w.disk
  files_eq : w.settings.resolveImports.isTruthy = true → v.files = w.files

variable {v w : Workspace} {α : Type}

/-- Workspaces that are alike differ in their surroundings. -/
theorem Alike.eq (h : v.Alike w) :
    v = { w with settings := v.settings, disk := v.disk, files := v.files } := by
  obtain ⟨settings, disk, root, files, library, store, bindings, modules, namespaces⟩ := v
  obtain ⟨hroot, hlibrary, hstore, hbindings, hmodules, hnamespaces, -⟩ := h
  subst hroot hlibrary hstore hbindings hmodules hnamespaces
  rfl

/-- As many nodes may be bound. -/
theorem Alike.size_eq (h : v.Alike w) : v.size = w.size := by
  unfold size importable
  rw [h.root_eq, h.library_eq, h.resolves_eq]
  split
  · rw [h.files_eq ‹_›]
  · rfl

/-! ## Looking at a workspace -/

/-- Whether the surroundings do not matter for what is done. -/
def Inward {β : Sort _} (f : Workspace → β) : Prop :=
  ∀ (w : Workspace) (settings : Settings) (disk : Disk) (files : Table String Source),
    f { w with settings, disk, files } = f w

/-- What looks only inward is the same in workspaces that are alike. -/
theorem Inward.eq {β : Sort _} {f : Workspace → β} (hf : Inward f) (h : v.Alike w) : f v = f w := by
  rw [h.eq]
  exact hf w _ _ _

/-- An action that goes by what a workspace knows. -/
theorem look_blind {f : Workspace → StateM Workspace α} (hf : Inward f)
    (h : ∀ w, Blind Alike (f w)) : Blind Alike (MonadState.get >>= f) :=
  .get fun _ w hvw => hf.eq hvw ▸ h w

/-- A search that goes by what a workspace knows. -/
theorem lookBelow_blind {τ : Type} {f : Workspace → StateT τ (StateM Workspace) α} (hf : Inward f)
    (h : ∀ w, BlindBelow Alike (f w)) : BlindBelow Alike (getThe Workspace >>= f) :=
  fun t v w hvw => look_blind (f := fun w => (f w).run t)
    (fun w settings disk files => congrArg (·.run t) (hf w settings disk files)) (h · t) v w hvw

/-! ## Modules -/

/-- Binding a file does not look at surroundings. -/
theorem bindingFor_blind (s : Source) : Blind Alike (bindingFor s) := by
  intro v w h
  rw [run_bindingFor, run_bindingFor, h.library_eq, h.bindings_eq, h.store_eq]
  split
  · exact ⟨rfl, h⟩
  · split
    · exact ⟨rfl, h⟩
    · refine ⟨rfl, ?_⟩
      unfold bindFile
      rw [h.store_eq, h.bindings_eq]
      exact { h with store_eq := rfl, bindings_eq := rfl }

/-- The search for an ambient module does not look at surroundings. -/
theorem ambientModule?_blind (specifier : String) : Blind Alike (ambientModule? specifier) :=
  look_blind (fun _ _ _ _ => rfl) fun w => (bindingFor_blind w.root).bind fun _ =>
    look_blind (fun _ _ _ _ => rfl) fun _ => .pure _

/-- Only here the surroundings are asked for. -/
theorem fileModule?_blind (specifier : String) (importer : Source) :
    Blind Alike (fileModule? specifier importer) := by
  refine .get fun v w h => ?_
  rw [h.resolves_eq]
  cases hon : w.settings.resolveImports.isTruthy with
  | false => exact .pure rfl
  | true =>
    -- With the same files the same path leads to the same file.
    have hsource : v.source? = w.source? := by
      funext path
      unfold source? isRoot
      rw [h.root_eq, h.files_eq hon]
    rw [h.disk_eq hon, hsource]
    split
    · exact .pure rfl
    · split
      · exact (bindingFor_blind _).bind fun _ => .pure _
      · exact .pure rfl

/-- Resolving a specifier does not look at surroundings. -/
theorem resolveModule_blind (specifier : String) (importer : Source) :
    Blind Alike (resolveModule specifier importer) := by
  unfold resolveModule
  split
  · exact .pure _
  refine look_blind (fun _ _ _ _ => rfl) fun w => ?_
  split
  · exact .pure _
  -- Remembering the answer is the same change on both sides.
  have hput : ∀ found : Option ScopeId, Blind Alike (do
      modify fun w : Workspace =>
        { w with modules := w.modules.put (importer.fileName, specifier) found }
      return found) := by
    refine fun found => .bind (.modify fun v w h => { h with modules_eq := ?_ }) fun _ => .pure _
    exact congrArg (fun known : Table _ _ => known.put _ found) h.modules_eq
  refine (ambientModule?_blind specifier).bind fun found => ?_
  split
  · exact hput _
  · exact (fileModule?_blind specifier importer).bind hput

/-- Nor does it within a module. -/
theorem moduleNamed_blind (module : ScopeId) (specifier : String) :
    Blind Alike (moduleNamed module specifier) :=
  look_blind (fun _ _ _ _ => rfl) fun _ => resolveModule_blind specifier _

/-! ## Exports -/

section Searching

variable {follow : ScopeId → String → ExportSearch (Option SymbolId)}
  {whole : ScopeId → String → StateM Workspace SymbolId}

/-- A search through a list is as blind as its parts. -/
theorem firstFound_blind {β : Type} {search : β → ExportSearch (Option SymbolId)}
    (h : ∀ b, BlindBelow Alike (search b)) (l : List β) :
    BlindBelow Alike (firstFound search l) := by
  induction l with
  | nil => exact .pure _
  | cons b rest ih =>
    refine .bind (h b) fun found => ?_
    split
    · exact .pure _
    · exact ih

variable (hwhole : ∀ module specifier, Blind Alike (whole module specifier))
include hwhole

/-- Finding a name in one module is as blind as following it. -/
theorem pairSymbol?_blind (hfollow : ∀ module name, BlindBelow Alike (follow module name))
    (module : ScopeId) (name : String) :
    BlindBelow Alike (pairSymbol? follow whole module name) := by
  refine lookBelow_blind (fun _ _ _ _ => rfl) fun w => ?_
  dsimp only
  -- An entry of the module, a module whose exports are taken over, or an entry for all.
  split
  · rename_i entry _
    cases entry with
    | value symbol => exact .pure _
    | named inside => exact lookBelow_blind (fun _ _ _ _ => rfl) fun _ => .pure _
    | forwarded specifier imported =>
      refine .bind (.lift (moduleNamed_blind module specifier)) fun found => ?_
      split
      · exact .pure _
      · split
        · exact .bind (.lift (hwhole _ _)) fun _ => .pure _
        · exact hfollow _ _
  · split
    · refine firstFound_blind (fun specifier => ?_) _
      refine .bind (.lift (moduleNamed_blind module specifier)) fun found => ?_
      split
      · exact .pure _
      · exact hfollow _ _
    · split
      · exact hfollow _ _
      · exact .pure _

/-- The search through exports does not look at surroundings. -/
theorem searchExport_blind (hops : Nat) (module : ScopeId) (name : String) :
    BlindBelow Alike (searchExport whole hops module name) := by
  -- A search with fewer hops follows the pairs that this one leads to.
  induction hops generalizing module name with
  | zero => exact .pure _
  | succ hops ih =>
    unfold searchExport
    refine .bind .get fun seen => ?_
    split
    · exact .pure _
    · exact .bind (.set _) fun _ => pairSymbol?_blind hwhole ih module name

/-- Finding an export does not look at surroundings. -/
theorem exportIn_blind (module : ScopeId) (name : String) :
    Blind Alike (exportIn whole module name) :=
  (searchExport_blind hwhole _ module name []).bind fun _ => .pure _

end Searching

/-- Collecting exported names does not look at surroundings, at any depth. -/
theorem exportedNamesFrom_blind (depth : Nat) (module : ScopeId) :
    BlindBelow Alike (exportedNamesFrom depth module) := by
  -- By induction on the depth; the modules visited are no surroundings.
  induction depth generalizing module with
  | zero => exact .pure _
  | succ depth ih =>
    unfold exportedNamesFrom
    refine .bind .get fun seen => ?_
    dsimp only
    split
    · exact .pure _
    refine .bind (.set _) fun _ => lookBelow_blind (fun _ _ _ _ => rfl) fun w =>
      .foldlM (fun names s _ => ?_) _
    refine .bind (.lift (moduleNamed_blind module s)) fun found => ?_
    split
    · exact .pure _
    · exact .bind (ih _) fun _ => .pure _

/-- Nor does it altogether. -/
theorem exportedNames_blind (module : ScopeId) : Blind Alike (exportedNames module) :=
  .get fun _ _ h => h.size_eq ▸ (exportedNamesFrom_blind _ module []).bind fun _ => .pure _

/-! ## Namespace objects -/

/-- A change of the store that goes by the store. -/
theorem changeStore_blind (f : Store → Store) :
    Blind Alike (modify fun w : Workspace => { w with store := f w.store }) :=
  .modify fun _ _ h => { h with store_eq := congrArg f h.store_eq }

/-- Adding a symbol does not look at surroundings. -/
theorem addSymbol_blind (name : String) : Blind Alike (addSymbol name) := fun v w h => by
  unfold addSymbol
  refine ⟨congrArg (fun st : Store => (st.addSymbol { name }).1) h.store_eq, ?_⟩
  exact { h with store_eq := congrArg (fun st : Store => (st.addSymbol { name }).2) h.store_eq }

/-- Adding exports to a namespace object does not look at surroundings. -/
theorem addExports_blind {whole : ScopeId → String → StateM Workspace SymbolId}
    (hwhole : ∀ module specifier, Blind Alike (whole module specifier)) (module : ScopeId)
    (symbol : SymbolId) : Blind Alike (addExports whole module symbol) := by
  refine (exportedNames_blind module).bind fun names => (Blind.forM fun name _ => ?_).bind fun _ =>
    look_blind (fun _ _ _ _ => rfl) fun w => ?_
  -- The names one by one, and then what the module exports as a whole.
  · unfold addExport
    split
    · refine (exportIn_blind hwhole module name).bind fun found => ?_
      split
      · rename_i target
        exact changeStore_blind
          (·.modifySymbol symbol fun o => { o with statics := o.statics.put name target })
      · exact .pure _
    · exact .pure _
  · split
    · refine (exportIn_blind hwhole module _).bind fun found => ?_
      split
      · exact .pure _
      · refine look_blind (fun _ _ _ _ => rfl) fun w => ?_
        dsimp only
        split
        · exact changeStore_blind (·.modifySymbol symbol _)
        · exact .pure _
    · exact .pure _

/-- Making a namespace object does not look at surroundings, at any depth. -/
theorem namespaceFrom_blind (depth : Nat) (module : ScopeId) (specifier : String) :
    Blind Alike (namespaceFrom depth module specifier) := by
  induction depth generalizing module specifier with
  | zero => exact addSymbol_blind ""
  | succ depth ih =>
    refine look_blind (fun _ _ _ _ => rfl) fun w => ?_
    split
    · exact .pure _
    · refine look_blind (fun _ _ _ _ => rfl) fun w => (addSymbol_blind _).bind fun symbol =>
        (Matches.modify fun v w h => ?_).bind_eq fun _ =>
          (addExports_blind ih module symbol).bind fun _ =>
          .pure _
      exact { h with namespaces_eq := congrArg (·.put module symbol) h.namespaces_eq }

/-- Nor does finding the object of a module. -/
theorem moduleSymbol_blind (module : ScopeId) (specifier : String) :
    Blind Alike (moduleSymbol module specifier) :=
  .get fun _ _ h => h.size_eq ▸ namespaceFrom_blind _ module specifier

/-- Finding what a module exports does not look at surroundings. -/
theorem exportSymbol_blind (module : ScopeId) (name : String) :
    Blind Alike (exportSymbol module name) :=
  exportIn_blind moduleSymbol_blind module name

/-! ## Aliases -/

/-- Finding what is imported does not look at surroundings. -/
theorem importedSymbol_blind (d : Declaration) : Blind Alike (importedSymbol d) := by
  unfold importedSymbol
  split
  · exact .pure _
  · refine (resolveModule_blind _ _).bind fun found => ?_
    split
    · exact .pure _
    · split
      · exact (moduleSymbol_blind _ _).bind fun _ => .pure _
      · exact exportSymbol_blind _ _

/-- Following aliases does not look at surroundings. -/
theorem resolveAliasFrom_blind (hops : Nat) (symbol : SymbolId) :
    Blind Alike (resolveAliasFrom hops symbol) := by
  induction hops generalizing symbol with
  | zero =>
    refine look_blind (fun _ _ _ _ => rfl) fun w => ?_
    split
    · exact .pure _
    · exact .pure _
  | succ hops ih =>
    -- Aliases are followed hop by hop, each of which is blind.
    refine look_blind (fun _ _ _ _ => rfl) fun w => ?_
    dsimp only
    split
    · exact .pure _
    · split
      · exact .pure _
      · refine (importedSymbol_blind _).bind fun found => ?_
        split
        · exact ih _
        · exact .pure _

/-- Picking a declaration does not look at surroundings. -/
theorem pickDeclaration_blind (symbol : Option SymbolId) :
    Blind Alike (pickDeclaration symbol) := by
  unfold pickDeclaration
  split
  · exact .pure _
  · refine (resolveAliasFrom_blind _ _).bind fun found => ?_
    split
    · exact .pure _
    · exact look_blind (fun _ _ _ _ => rfl) fun _ => .pure _

end ScriptGraph.Workspace
