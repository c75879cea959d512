import ScriptGraph.Proofs.Workspace.ExportedNames

/-!
# Namespace objects

The namespace object of a module shows the exports of the module among its statics. It is known
before it has been filled, so that modules may refer to each other in a circle. Searches for exports
do not look into it, so they find the same whether it has been filled or not, and whatever they find
they find again.

- `Workspace.Shows`: the statics of a namespace object are the exports of its module
- `Workspace.Filled`: all namespace objects do so, apart from those that are being filled
- `Workspace.namespaceFrom_filled`: making another one keeps this up
-/

namespace ScriptGraph

open Binding Syntax

namespace Binding

/-- A look-up goes by what scopes declare, by the scopes around them and by the kinds of
declarations. -/
theorem Store.lookup?_congr {old new : Store} {kinds : DeclarationKind → Bool}
    (hscope : ∀ id, new.scope id = old.scope id)
    (hsymbols : ∀ id, new.symbolsOf id = old.symbolsOf id)
    (hkinds : ∀ id, new.hasKind kinds id = old.hasKind kinds id) (name : String) (id : ScopeId) :
    new.lookup? kinds name id = old.lookup? kinds name id := by
  have hkinds : new.hasKind kinds = old.hasKind kinds := funext hkinds
  -- By induction along the scopes around the first one.
  fun_induction old.lookup? kinds name id with
  | case1 id symbol hfound => rw [Store.lookup?, hsymbols, hkinds, hfound]
  | case2 id hnone hup => rw [Store.lookup?, hsymbols, hkinds, hnone, hscope, hup]
  | case3 id hnone up hup hlt ih =>
    rw [Store.lookup?, hsymbols, hkinds, hnone, hscope, hup]
    exact (if_pos hlt).trans ih
  | case4 id hnone up hup hlt =>
    rw [Store.lookup?, hsymbols, hkinds, hnone, hscope, hup]
    exact if_neg hlt

end Binding

namespace Workspace

variable {base old new w : Workspace} {module : ScopeId} {symbol : SymbolId}
  {filling : List ScopeId} {depth : Nat} {g : Table String SymbolId → Table String SymbolId}

/-! ## Changing the statics of a namespace object -/

/-- The workspace after the statics of a symbol have changed. -/
def changeStatics (w : Workspace) (symbol : SymbolId)
    (g : Table String SymbolId → Table String SymbolId) : Workspace :=
  { w with store := w.store.modifySymbol symbol fun o => { o with statics := g o.statics } }

/-- A change of statics changes no declarations. -/
theorem declarations_changeStatics (w : Workspace) (symbol : SymbolId)
    (g : Table String SymbolId → Table String SymbolId) (id : SymbolId) :
    ((w.changeStatics symbol g).store.symbol id).declarations =
      (w.store.symbol id).declarations := by
  rw [changeStatics, Store.symbol_modifySymbol]
  split <;> rfl

/-- The statics that are changed are those of the one symbol. -/
theorem statics_changeStatics (hs : w.HasSymbol symbol)
    (g : Table String SymbolId → Table String SymbolId) :
    ((w.changeStatics symbol g).store.symbol symbol).statics =
      g (w.store.symbol symbol).statics := by
  rw [changeStatics, Store.symbol_modifySymbol, if_pos ⟨rfl, hs⟩]

/-- What searches for exports go by does not change with the statics of a namespace object. -/
theorem Coherent.steady_changeStatics (h : w.Coherent)
    (hknown : w.namespaces.find? module = some symbol)
    (g : Table String SymbolId → Table String SymbolId) : w.Steady (w.changeStatics symbol g) := by
  -- No scope shares its table with a namespace object, so no look-up sees the change.
  have hfree := (h.namespaces _ (Table.mem_entries_of_find? hknown)).2
  have hsymbols : ∀ id, (w.changeStatics symbol g).store.symbolsOf id = w.store.symbolsOf id :=
    fun id => h.closed.symbolsOf_eq rfl fun owner ht _ =>
      have hne : symbol ≠ owner := fun he => hfree id (he ▸ ht)
      congrArg Symbol.statics (w.store.symbol_modifySymbol_of_ne hne _)
  have hkinds : ∀ id, (w.changeStatics symbol g).store.hasKind (fun _ => true) id =
      w.store.hasKind (fun _ => true) id := fun id => by
    rw [Store.hasKind, Store.hasKind, Store.firstOf, Store.firstOf, declarations_changeStatics]
  have hscope : ∀ id, (w.changeStatics symbol g).store.scope id = w.store.scope id := fun _ => rfl
  exact
    { scopes_le := Nat.le_refl _
      scope_eq := fun id _ => hscope id
      exportEntry?_eq := fun id _ name => by
        rw [Store.exportEntry?, Store.exportEntry?, hsymbols, hscope]
      lookup?_eq := fun id _ name => Store.lookup?_congr hscope hsymbols hkinds name id
      modules := fun _ _ hm => hm
      namespaces := fun _ _ hn => hn }

/-- Statics may be changed to symbols that are there. -/
theorem Sound.changeStatics (h : w.Sound) (hknown : w.namespaces.find? module = some symbol)
    (hg : ∀ e ∈ (g (w.store.symbol symbol).statics).entries, w.HasSymbol e.2) :
    (w.changeStatics symbol g).Sound where
  coherent := h.coherent.modifyNamespace hknown _
  store := h.store.modifySymbol fun _ => { h.store.symbol symbol with statics := hg }

/-! ## Filled namespace objects -/

/-- The statics of a namespace object are what its module exports, now and as long as a workspace
keeps what searches go by. The whole export is not among them. -/
def Shows (w : Workspace) (module : ScopeId) (symbol : SymbolId) : Prop :=
  ∀ name ≠ wholeExportName,
    w.Knows (exportSymbol module name) ((w.store.symbol symbol).statics.find? name)

/-- A namespace object shows the exports of its module as long as its statics stay. -/
theorem Shows.steady (h : old.Shows module symbol) (hsteady : old.Steady new)
    (hsame : (new.store.symbol symbol).statics = (old.store.symbol symbol).statics) :
    new.Shows module symbol := fun name hname => by
  rw [hsame]
  exact (h name hname).steady hsteady

/-- The module has a whole export. -/
def HasWhole (w : Workspace) (module : ScopeId) : Prop :=
  (w.store.scope module).exports.contains wholeExportName = true

instance : Decidable (w.HasWhole module) :=
  inferInstanceAs (Decidable (_ = true))

/-- Different modules have different namespace objects without declarations. They show the exports
of the modules, apart from those of the modules `filling`. -/
structure Filled (filling : List ScopeId) (w : Workspace) : Prop extends Sound w where
  bounded : w.Bounded
  modules : ∀ m ∈ w.namespaces.keys, w.HasModule m
  nodup : w.namespaces.keys.Nodup
  injective : ∀ m m' s, w.namespaces.find? m = some s → w.namespaces.find? m' = some s → m = m'
  bare : ∀ m s, w.namespaces.find? m = some s → (w.store.symbol s).declarations = []
  shows_exports : ∀ m s, w.namespaces.find? m = some s → m ∉ filling → ¬ w.HasWhole m → w.Shows m s

/-- There is depth enough for the modules that have no namespace object yet. -/
def HasRoom (depth : Nat) (w : Workspace) : Prop :=
  w.size < depth + w.namespaces.keys.length

/-- A namespace object belongs to a module that is there. -/
theorem Filled.hasModule (h : w.Filled filling) (hknown : w.namespaces.find? module = some symbol) :
    w.HasModule module :=
  h.modules module (List.mem_map_of_mem (Table.mem_entries_of_find? hknown))

/-- A namespace object is there. -/
theorem Filled.hasSymbol (h : w.Filled filling) (hknown : w.namespaces.find? module = some symbol) :
    w.HasSymbol symbol :=
  h.coherent.hasSymbol_of_known hknown

/-- The depth for namespace objects to start with. -/
theorem hasRoom_start (w : Workspace) : w.HasRoom (w.size + 1) :=
  Nat.lt_of_lt_of_le (Nat.lt_succ_self _) (Nat.le_add_right _ _)

/-- Where there is room for a namespace object, the depth is not used up. -/
theorem HasRoom.pos (h : w.HasRoom depth) (hfilled : w.Filled filling) : 0 < depth := by
  have hle := hfilled.bounded.length_le hfilled.nodup hfilled.modules
  unfold HasRoom at h
  omega

/-- Namespace objects stay filled as long as no other one is made. -/
theorem Filled.later (h : old.Filled filling) (hlater : old.Later new) (hsound : new.Sound)
    (hbounded : new.Bounded) (hsame : new.namespaces = old.namespaces) : new.Filled filling where
  toSound := hsound
  bounded := hbounded
  modules m hm := hlater.hasModule (h.modules m (hsame ▸ hm))
  nodup := hsame ▸ h.nodup
  injective := hsame ▸ h.injective
  bare m s hknown := by
    -- What an object shows is kept by whatever keeps the exports of its module.
    rw [hsame] at hknown
    rw [hlater.store.symbol_eq s (h.hasSymbol hknown)]
    exact h.bare m s hknown
  shows_exports m s hknown hm hwhole := by
    rw [hsame] at hknown
    rw [HasWhole, hlater.store.scope_eq m (h.hasModule hknown)] at hwhole
    exact (h.shows_exports m s hknown hm hwhole).steady (hlater.steady h.toSound)
      (congrArg Symbol.statics (hlater.store.symbol_eq s (h.hasSymbol hknown)))

/-- Room stays as long as no namespace object is added. -/
theorem HasRoom.later (h : old.HasRoom depth) (hlater : old.Later new)
    (hsame : new.namespaces = old.namespaces) : new.HasRoom depth := by
  rwa [HasRoom, hlater.size_eq, hsame]

/-- A namespace object that is being filled may get other statics. -/
theorem Filled.changeStatics (h : w.Filled filling)
    (hknown : w.namespaces.find? module = some symbol) (hm : module ∈ filling)
    (hg : ∀ e ∈ (g (w.store.symbol symbol).statics).entries, w.HasSymbol e.2) :
    (w.changeStatics symbol g).Filled filling where
  toSound := h.toSound.changeStatics hknown hg
  bounded := h.bounded
  modules := h.modules
  nodup := h.nodup
  injective := h.injective
  bare m s hs := (declarations_changeStatics w symbol g s).trans (h.bare m s hs)
  shows_exports m s hs hfilled hwhole := by
    -- It is not the object of a module that has been filled.
    have hne : symbol ≠ s := fun he => hfilled (h.injective module m s (he ▸ hknown) hs ▸ hm)
    exact (h.shows_exports m s hs hfilled hwhole).steady (h.coherent.steady_changeStatics hknown g)
      (congrArg Symbol.statics (w.store.symbol_modifySymbol_of_ne hne _))

/-- A resolved module changes nothing about namespace objects. -/
theorem resolveModule_filled (specifier : String) (importer : Source) :
    Ensures (fun w => w.Filled filling ∧ w.HasRoom depth) (resolveModule specifier importer)
      fun found w => (w.Filled filling ∧ w.HasRoom depth) ∧
        ∀ target, found = some target → w.HasModule target := by
  rintro w ⟨hw, hroom⟩
  have hlasts : Lasts Sound False w (resolveModule specifier importer) _ := resolveModule_lasts
  obtain ⟨hlater, hsound, hfound, -⟩ := hlasts w (.refl w) hw.toSound
  obtain ⟨hbounded, hsame⟩ :=
    resolveModule_bounded specifier importer w ⟨hw.bounded, rfl⟩
  exact ⟨⟨hw.later hlater hsound hbounded hsame, hroom.later hlater hsame⟩, hfound⟩

/-! ## Making namespace objects -/

/-- A module gets its namespace object last. -/
theorem keys_put (hnone : w.namespaces.find? module = none) (symbol : SymbolId) :
    (w.namespaces.put module symbol).keys = w.namespaces.keys ++ [module] := by
  rw [Table.keys, Table.entries_put_of_not_contains _ (Table.contains_eq_false_of_find? hnone),
    List.map_append]
  rfl

/-- The object of a module that has none yet is to be filled. -/
theorem Filled.put (h : old.Filled filling) (hlater : old.Later new) (hsound : new.Sound)
    (hbounded : new.Bounded) (hput : new.namespaces = old.namespaces.put module symbol)
    (hm : old.HasModule module) (hnone : old.namespaces.find? module = none)
    (hnew : ¬ old.HasSymbol symbol) (hbare : (new.store.symbol symbol).declarations = []) :
    new.Filled (module :: filling) := by
  have hkeys : new.namespaces.keys = old.namespaces.keys ++ [module] := hput ▸ keys_put hnone symbol
  -- A module has the new object or the one that it had.
  have hfind : ∀ m s, new.namespaces.find? m = some s →
      m = module ∧ s = symbol ∨ old.namespaces.find? m = some s := fun m s hs => by
    rw [hput, Table.find?_put] at hs
    split at hs
    next he => exact .inl ⟨he.symm, (Option.some.inj hs).symm⟩
    next => exact .inr hs
  refine
    { toSound := hsound
      bounded := hbounded
      modules := fun m hmem => ?_
      nodup := ?_
      injective := fun m m' s hs hs' => ?_
      bare := fun m s hs => ?_
      shows_exports := fun m s hs hfilled hwhole => ?_ }
  · rw [hkeys] at hmem
    -- The module is new among the keys.
    refine hlater.hasModule ?_
    rcases List.mem_append.mp hmem with hmem | hmem
    · exact h.modules m hmem
    · exact List.mem_singleton.mp hmem ▸ hm
  · rw [hkeys]
    refine List.nodup_append.mpr ⟨h.nodup, List.nodup_singleton _, fun m hmem m' hmem' he => ?_⟩
    obtain ⟨e, hentry, rfl⟩ := List.mem_map.mp hmem
    exact Table.contains_eq_false.mp (Table.contains_eq_false_of_find? hnone) e hentry
      (he.trans (List.mem_singleton.mp hmem'))
  -- The new symbol is no object of another module.
  · rcases hfind m s hs with ⟨rfl, rfl⟩ | hs
    · rcases hfind m' _ hs' with ⟨rfl, -⟩ | hs'
      · rfl
      · exact absurd (h.hasSymbol hs') hnew
    · rcases hfind m' s hs' with ⟨rfl, rfl⟩ | hs'
      · exact absurd (h.hasSymbol hs) hnew
      · exact h.injective m m' s hs hs'
  · rcases hfind m s hs with ⟨rfl, rfl⟩ | hs
    · exact hbare
    · rw [hlater.store.symbol_eq s (h.hasSymbol hs)]
      exact h.bare m s hs
  · rw [List.mem_cons, not_or] at hfilled
    rcases hfind m s hs with ⟨rfl, -⟩ | hs
    · exact absurd rfl hfilled.1
    · rw [HasWhole, hlater.store.scope_eq m (h.hasModule hs)] at hwhole
      exact (h.shows_exports m s hs hfilled.2 hwhole).steady (hlater.steady h.toSound)
        (congrArg Symbol.statics (hlater.store.symbol_eq s (h.hasSymbol hs)))

/-- A namespace object of a module that is being filled. -/
structure Filling (filling : List ScopeId) (depth : Nat) (module : ScopeId) (symbol : SymbolId)
    (w : Workspace) : Prop where
  filled : w.Filled (module :: filling)
  room : w.HasRoom depth
  known : w.namespaces.find? module = some symbol

/-- A new namespace object takes up room and has no statics yet. -/
theorem Filled.addNamespace (h : w.Filled filling) (hroom : w.HasRoom (depth + 1))
    (hm : w.HasModule module) (hnone : w.namespaces.find? module = none) (name : String) :
    let r := (addSymbol name).run w
    let next : Workspace := { r.2 with namespaces := r.2.namespaces.put module r.1 }
    next.Filling filling depth module r.1 ∧ (next.store.symbol r.1).statics = .empty := by
  intro r next
  obtain ⟨⟨hgrown, -⟩, hnew⟩ : (w.Grown r.2 ∧ _) ∧ NewSymbol w r.1 r.2 :=
    addSymbol_new w ⟨.refl h.coherent, rfl⟩
  have hnext : w.Grown next := hgrown.putNamespace hnone hnew
  have hlater := hnext.extends_base.later
  -- The object is a plain symbol, without statics so far.
  have hsymbol : next.store.symbol r.1 = { name } := by
    show (w.store.addSymbol { name }).2.symbol ⟨w.store.symbols.size⟩ = _
    rw [Store.symbol_addSymbol, if_pos rfl]
  have hstore : next.store.SelfContained := h.store.addSymbol (symbol_within_named name none nofun)
  have hput : next.namespaces = w.namespaces.put module r.1 := rfl
  refine ⟨⟨h.put hlater ⟨hnext.coherent, hstore⟩ h.bounded hput hm hnone
    (Nat.not_lt.mpr hnew.new) (by rw [hsymbol]), ?_, ?_⟩, by rw [hsymbol]⟩
  · unfold HasRoom at hroom ⊢
    rw [hlater.size_eq, hput, keys_put hnone, List.length_append, List.length_singleton]
    omega
  · rw [hput, Table.find?_put, if_pos rfl]

/-- A way to make namespace objects that keeps up which ones have been filled. -/
def KeepsFilled (depth : Nat) (whole : ScopeId → String → StateM Workspace SymbolId) : Prop :=
  ∀ filling module specifier,
    Ensures (fun w => (w.Filled filling ∧ w.HasRoom depth) ∧ w.HasModule module)
      (whole module specifier) fun _ w => w.Filled filling ∧ w.HasRoom depth

/-- What is found while a namespace object is being filled is found from then on. -/
theorem Filling.run_exportIn (hwhole : KeepsFilled depth (namespaceFrom depth))
    (h : w.Filling filling depth module symbol) (name : String) :
    let r := (exportIn (namespaceFrom depth) module name).run w
    w.Later r.2 ∧ r.2.Filling filling depth module symbol ∧ r.2.HasFound r.1 ∧
      r.2.Knows (exportSymbol module name) r.1 := by
  obtain ⟨d, rfl⟩ := Nat.exists_eq_succ_of_ne_zero (Nat.ne_of_gt (h.room.pos h.filled))
  have hforetells : Foretells True w (exportIn (namespaceFrom (d + 1)) module name) _ _ :=
    exportIn_foretells (namespaceFrom_foretells d) (h.filled.hasModule h.known) name
  obtain ⟨hlater, -, hfound, hagain⟩ := hforetells w (.refl w) h.filled.toSound
  obtain ⟨hfilled, hroom⟩ :=
    exportIn_keeps resolveModule_filled (hwhole _) module name w ⟨h.filled, h.room⟩
  exact ⟨hlater, ⟨hfilled, hroom, hlater.namespaces _ _ h.known⟩, hfound, hagain trivial⟩

/-- A namespace object that is being filled may get other statics. -/
theorem Filling.changeStatics (h : w.Filling filling depth module symbol)
    (hg : ∀ e ∈ (g (w.store.symbol symbol).statics).entries, w.HasSymbol e.2) :
    (w.changeStatics symbol g).Filling filling depth module symbol :=
  ⟨h.filled.changeStatics h.known List.mem_cons_self hg, h.room, h.known⟩

/-- An object is filled as soon as it shows the exports of its module. -/
theorem Filling.close (h : w.Filling filling depth module symbol)
    (hshows : ¬ w.HasWhole module → w.Shows module symbol) : w.Filled filling :=
  { h.filled with
    shows_exports := fun m s hs hm hwhole => by
      by_cases he : m = module
      · subst he
        obtain rfl : s = symbol := Option.some.inj (hs.symm.trans h.known)
        exact hshows hwhole
      · exact h.filled.shows_exports m s hs (by simp [he, hm]) hwhole }

/-- A namespace object that is being filled with the exports of some names shows the ones of the
names `gone`, and nothing else yet. Under any other name there is nothing to be shown, unless there
is a whole export. -/
structure Gathered (names : List String) (filling : List ScopeId) (depth : Nat) (module : ScopeId)
    (symbol : SymbolId) (gone : List String) (w : Workspace) : Prop
    extends Filling filling depth module symbol w where
  done : ∀ name ∈ gone, name ≠ wholeExportName →
    w.Knows (exportSymbol module name) ((w.store.symbol symbol).statics.find? name)
  rest : ∀ name ∉ gone, (w.store.symbol symbol).statics.find? name = none
  missing : ¬ w.HasWhole module → ∀ name ∉ names, w.Knows (exportSymbol module name) none

section Gathered

variable {names gone : List String}

/-- Exports that have been gathered stay gathered while another one is looked for. -/
theorem Gathered.advance (h : old.Gathered names filling depth module symbol gone)
    (hsteady : old.Steady new) (hfilling : new.Filling filling depth module symbol)
    {exported : String}
    (hothers : ∀ name, exported ≠ name → (new.store.symbol symbol).statics.find? name =
      (old.store.symbol symbol).statics.find? name)
    (hknows : exported ≠ wholeExportName → new.Knows (exportSymbol module exported)
      ((new.store.symbol symbol).statics.find? exported)) :
    new.Gathered names filling depth module symbol (gone ++ [exported]) where
  toFilling := hfilling
  done name hname hplain := by
    -- The export that is looked for now, or one that has been dealt with.
    by_cases he : exported = name
    · exact he ▸ hknows (he ▸ hplain)
    · rw [hothers name he]
      rcases List.mem_append.mp hname with hname | hname
      · exact (h.done name hname hplain).steady hsteady
      · exact absurd (List.mem_singleton.mp hname).symm he
  rest name hname := by
    rw [List.mem_append, List.mem_singleton, not_or] at hname
    rw [hothers name (Ne.symm hname.2)]
    exact h.rest name hname.1
  missing hwhole name hname := by
    rw [HasWhole, hsteady.scope_eq module (h.filled.hasModule h.known)] at hwhole
    exact (h.missing hwhole name hname).steady hsteady

/-- An export that is found is put among the statics. -/
theorem run_addExport (whole : ScopeId → String → StateM Workspace SymbolId) {exported : String}
    (h : exported ≠ wholeExportName) (w : Workspace) :
    (addExport whole module symbol exported).run w =
      match (exportIn whole module exported).run w with
      | (some target, now) => (⟨⟩, now.changeStatics symbol (·.put exported target))
      | (none, now) => (⟨⟩, now) := by
  rw [addExport, if_pos (bne_iff_ne.mpr h), StateT.run_bind]
  rcases (exportIn whole module exported).run w with ⟨_ | target, now⟩
  · rfl
  · rfl

/-- One more export has been gathered. -/
theorem addExport_gathered (hwhole : KeepsFilled depth (namespaceFrom depth)) (exported : String) :
    Ensures (Gathered names filling depth module symbol gone)
      (addExport (namespaceFrom depth) module symbol exported)
      fun _ => Gathered names filling depth module symbol (gone ++ [exported]) := by
  intro w hw
  -- The whole export is not among the members.
  by_cases hplain : exported = wholeExportName
  · rw [addExport, if_neg (by simp [hplain])]
    exact hw.advance (.refl w) hw.toFilling (fun _ _ => rfl) fun h => absurd hplain h
  obtain ⟨hlater, hfilling, hfound, hknows⟩ := hw.run_exportIn hwhole exported
  have hsteady := hlater.steady hw.filled.toSound
  rw [run_addExport _ hplain]
  -- What has been found is named, as all facts above speak of it.
  revert hlater hfilling hfound hknows hsteady
  rcases (exportIn (namespaceFrom depth) module exported).run w with ⟨found, now⟩
  intro hlater hfilling hfound hknows hsteady
  dsimp only at hlater hfilling hfound hknows hsteady
  have hsame : now.store.symbol symbol = w.store.symbol symbol :=
    hlater.store.symbol_eq symbol (hw.filled.hasSymbol hw.known)
  cases found with
  | none =>
    refine hw.advance hsteady hfilling (fun name _ => by rw [hsame]) fun _ => ?_
    -- A name that comes up again has been gathered already.
    by_cases hgone : exported ∈ gone
    · rw [hsame]
      exact (hw.done exported hgone hplain).steady hsteady
    · rw [hsame, hw.rest exported hgone]
      exact hknows
  | some target =>
    have hput : ((now.changeStatics symbol (·.put exported target)).store.symbol symbol).statics =
        (w.store.symbol symbol).statics.put exported target := by
      rw [statics_changeStatics (hfilling.filled.hasSymbol hfilling.known), hsame]
    have hchange := hfilling.filled.coherent.steady_changeStatics hfilling.known
      (·.put exported target)
    refine hw.advance (hsteady.trans hchange) (hfilling.changeStatics fun e he => ?_)
      (fun name he => by rw [hput, Table.find?_put, if_neg he]) fun _ => ?_
    -- Whatever is put there is what has been found, or has been there before.
    · rcases Table.mem_entries_put he with rfl | he
      · exact hfound target rfl
      · exact (hfilling.filled.store.symbol symbol).statics e he
    · rw [hput, Table.find?_put, if_pos rfl]
      exact hknows.steady hchange

/-- When all names have been gathered, the object shows the exports of the module. -/
theorem Gathered.shows_exports (h : w.Gathered names filling depth module symbol names)
    (hwhole : ¬ w.HasWhole module) : w.Shows module symbol := fun name hplain => by
  by_cases hname : name ∈ names
  · exact h.done name hname hplain
  · rw [h.rest name hname]
    exact h.missing hwhole name hname

end Gathered

/-- When the names have been gathered, the filling can start. -/
theorem exportedNames_gathered :
    Ensures (fun w => w.Filling filling depth module symbol ∧
        (w.store.symbol symbol).statics = .empty)
      (exportedNames module)
      fun names => Gathered names filling depth module symbol [] := by
  rintro w ⟨hw, hempty⟩
  have hm := hw.filled.hasModule hw.known
  have hs := hw.filled.hasSymbol hw.known
  -- Collecting the names fills no object, so all stays as it was.
  have hkeeps := exportedNames_ensures (P := fun next => next.Filled (module :: filling) ∧
    next.HasRoom depth) (fun specifier importer => (resolveModule_filled specifier importer).weaken
      fun _ _ h => h.1) module w ⟨hw.filled, hw.room⟩
  have hgrown := (exportedNames_grown module w (.refl hw.filled.coherent)).extends_base
  refine ⟨⟨hkeeps.1, hkeeps.2, hgrown.namespaces _ _ hw.known⟩, nofun, fun name _ => ?_,
    fun hwhole => ?_⟩
  · rw [hgrown.store.symbol_eq symbol hs, hempty]
    rfl
  · rw [HasWhole, hgrown.store.scope_eq module hm, Bool.not_eq_true] at hwhole
    exact (exportedNames_complete hw.filled.toSound hw.filled.bounded hm hwhole).2.2.2

/-- A module with a whole export does not have to show its exports. -/
theorem addWholeExport_filled (hwhole : KeepsFilled depth (namespaceFrom depth)) :
    Ensures (fun w => w.Filling filling depth module symbol ∧ w.HasWhole module)
      (addWholeExport (namespaceFrom depth) module symbol)
      fun _ w => w.Filled filling ∧ w.HasRoom depth := by
  -- A module with a whole export may stay unfilled.
  have hclose : ∀ w : Workspace, w.Filling filling depth module symbol ∧ w.HasWhole module →
      w.Filled filling ∧ w.HasRoom depth := fun w hw =>
    ⟨hw.1.close fun hnone => absurd hw.2 hnone, hw.1.room⟩
  refine .bind (R := fun _ w => w.Filling filling depth module symbol ∧ w.HasWhole module)
    (fun w hw => ?_) fun found => ?_
  · obtain ⟨hlater, hfilling, -⟩ := hw.1.run_exportIn hwhole wholeExportName
    refine ⟨hfilling, ?_⟩
    rw [HasWhole, hlater.store.scope_eq module (hw.1.filled.hasModule hw.1.known)]
    exact hw.2
  split
  · exact .pure hclose
  · rename_i target
    refine .get fun now => ?_
    dsimp only
    split
    -- The statics of the target are copied over, those that are there first.
    · rintro w ⟨⟨hw, hall⟩, rfl⟩
      let add (statics : Table String SymbolId) : Table String SymbolId :=
        (w.store.symbol target).statics.entries.foldl (fun t e => t.putNew e.1 e.2) statics
      have hadd : ∀ e ∈ (add (w.store.symbol symbol).statics).entries, w.HasSymbol e.2 :=
        fun e he => by
          rcases Table.mem_entries_foldl_putNew he with he | he
          · exact (hw.filled.store.symbol symbol).statics e he
          · exact (hw.filled.store.symbol target).statics e he
      exact hclose _ ⟨hw.changeStatics hadd, hall⟩
    · exact .pure fun w hw => hclose w hw.1

/-- A namespace object without statics is filled with all exports of its module. -/
theorem addExports_filled (hwhole : KeepsFilled depth (namespaceFrom depth)) :
    Ensures (fun w => w.Filling filling depth module symbol ∧
        (w.store.symbol symbol).statics = .empty)
      (addExports (namespaceFrom depth) module symbol)
      fun _ w => w.Filled filling ∧ w.HasRoom depth := by
  refine .bind exportedNames_gathered fun names => .bind
    (.forM_from (I := Gathered names filling depth module symbol)
      (fun _ exported => addExport_gathered hwhole exported) []) fun _ => .get fun now => ?_
  split
  next hall =>
    exact .of_imp (addWholeExport_filled hwhole) fun w hw => ⟨hw.1.toFilling, hw.2 ▸ hall⟩
  next =>
    exact .pure fun w hw => ⟨hw.1.toFilling.close hw.1.shows_exports, hw.1.room⟩

/-- With depth enough every namespace object that is made gets filled, and it does not matter which
other ones are being filled at the time. -/
theorem namespaceFrom_filled (depth : Nat) : KeepsFilled depth (namespaceFrom depth) := by
  -- Gathering the exports makes other namespace objects, nested one level deeper.
  induction depth with
  | zero =>
    rintro filling module specifier w ⟨⟨hw, hroom⟩, -⟩
    exact absurd (hroom.pos hw) (Nat.lt_irrefl 0)
  | succ depth ih =>
    intro filling module specifier
    refine .get fun now => ?_
    split
    · exact .pure fun w hw => hw.1.1
    · rename_i hnone
      refine .bind (R := fun _ w => ((w.Filled filling ∧ w.HasRoom (depth + 1)) ∧
        w.HasModule module) ∧ w = now) (.get fun _ => .pure fun _ hw => hw.1) fun file => ?_
      refine .bind (R := fun symbol w =>
        let next : Workspace := { w with namespaces := w.namespaces.put module symbol }
        next.Filling filling depth module symbol ∧ (next.store.symbol symbol).statics = .empty)
        ?_ fun symbol => ?_
      · rintro w ⟨⟨⟨hw, hroom⟩, hm⟩, rfl⟩
        exact hw.addNamespace hroom hm hnone _
      · refine .bind (R := fun _ w => w.Filling filling depth module symbol ∧
          (w.store.symbol symbol).statics = .empty) (.modify fun _ hw => hw) fun _ =>
          .bind (addExports_filled ih) fun _ => .pure fun w hw => ⟨hw.1, ?_⟩
        exact Nat.lt_trans hw.2 (Nat.add_lt_add_right (Nat.lt_succ_self depth) _)

/-- Making a namespace object leaves all of them filled. -/
theorem moduleSymbol_filled (module : ScopeId) (specifier : String) :
    Ensures (fun w => w.Filled filling ∧ w.HasModule module) (moduleSymbol module specifier)
      fun _ => Filled filling := by
  rintro w ⟨hw, hm⟩
  rw [run_moduleSymbol]
  exact (namespaceFrom_filled _ filling module specifier w ⟨⟨hw, hasRoom_start w⟩, hm⟩).1

end Workspace

end ScriptGraph
