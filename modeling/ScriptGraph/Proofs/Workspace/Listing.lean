import ScriptGraph.Proofs.Binding.Keys
import ScriptGraph.Proofs.Workspace.ExportedNames
import ScriptGraph.Proofs.Workspace.Imports
import ScriptGraph.Proofs.Workspace.Reexports

/-!
# The list of exported names

The list of the names that a module exports starts with its own names and goes on with those of the
modules that it takes over, directly or through others. However these modules take over each other,
every name is listed once, and no name is listed that comes from nowhere.

- `Workspace.Lists`: what the list of a module is
- `Workspace.exportedNames_lists`: the names that a module exports
-/

namespace ScriptGraph.Workspace

open Binding Syntax

variable {base old new w : Workspace} {module : ScopeId} {symbol : SymbolId} {name : String}
  {names more : List String} {seen visited : List ScopeId} {α : Type}

/-! ## Scopes list every name once -/

/-- A coherent workspace whose scopes list every name once. -/
structure Listed (w : Workspace) : Prop where
  coherent : w.Coherent
  store : w.store.Listed

/-- Binding a file lists every name once. -/
theorem bindingFor_listed (s : Source) :
    Ensures (fun w => w.store.Closed ∧ w.store.Listed) (bindingFor s)
      fun _ w => w.store.Closed ∧ w.store.Listed := by
  intro w hw
  rw [run_bindingFor]
  split
  · exact hw
  · split
    · exact hw
    · exact ⟨(bind_grown s w.store).store.closed hw.1, bind_listed s hw.1 hw.2⟩

/-- Resolving a specifier leaves every name listed once. -/
theorem resolveModule_listed (specifier : String) (importer : Source) :
    Ensures Listed (resolveModule specifier importer)
      fun found w => w.Listed ∧ ∀ target, found = some target → w.HasModule target := by
  intro w hw
  obtain ⟨hgrown, hfound, -⟩ :=
    @resolveModule_grown w specifier importer w (.refl hw.coherent)
  have hlisted := resolveModule_keeps (fun s => .of_imp (bindingFor_listed s) fun _ hw => hw.1)
    (fun _ _ _ hw => hw) specifier importer w ⟨hw.coherent.closed, hw.store⟩
  exact ⟨⟨hgrown.coherent, hlisted.2⟩, hfound⟩

/-- Scopes list the same names when symbols change that no scope declares among. -/
theorem Listed.change (h : w.Listed) (hcoherent : new.Coherent)
    (hscope : ∀ id, new.store.scope id = w.store.scope id)
    (hstatics : ∀ id owner : _, (w.store.scope id).table = .staticsOf owner →
      owner.index < w.store.symbols.size → (new.store.symbol owner).statics =
        (w.store.symbol owner).statics) : new.Listed where
  coherent := hcoherent
  store := h.store.congr hscope fun id =>
    h.coherent.closed.symbolsOf_eq (hscope id) (hstatics id)

/-- Scopes list the same names when symbols are added. -/
theorem Listed.gain (h : w.Listed) (hcoherent : new.Coherent) (hlater : w.store.Later new.store)
    (hsize : new.store.scopes.size = w.store.scopes.size) : new.Listed := by
  refine h.change hcoherent (fun id => ?_) fun _ owner _ ho =>
    congrArg Symbol.statics (hlater.symbol_eq owner ho)
  by_cases hid : id.index < w.store.scopes.size
  · exact hlater.scope_eq id hid
  · rw [Store.scope, Store.scope, Array.getD_eq_getD_getElem?, Array.getD_eq_getD_getElem?,
      Array.getElem?_eq_none (Nat.not_lt.mp hid), Array.getElem?_eq_none (by omega)]

/-- Changing a namespace object changes no scope. -/
theorem Listed.modifyNamespace (h : w.Listed)
    (hknown : w.namespaces.find? module = some symbol) (f : Symbol → Symbol) :
    Listed { w with store := w.store.modifySymbol symbol f } := by
  have hfree := (h.coherent.namespaces _ (Table.mem_entries_of_find? hknown)).2
  refine h.change (h.coherent.modifyNamespace hknown f) (fun _ => rfl) fun id owner ht _ => ?_
  have hne : symbol ≠ owner := fun he => hfree id (he ▸ ht)
  exact congrArg Symbol.statics (w.store.symbol_modifySymbol_of_ne hne f)

/-! ## Making namespace objects -/

/-- The namespace object of a module is known, in a workspace whose scopes list every name once. -/
structure Knowing (module : ScopeId) (symbol : SymbolId) (w : Workspace) : Prop
    extends Listed w where
  known : w.namespaces.find? module = some symbol

/-- What only grows keeps a namespace object known. -/
theorem Knowing.of_grown {x : StateM Workspace α}
    (hgrown : ∀ base, Ensures (Grown base) x fun _ => Grown base)
    (hlisted : Ensures Listed x fun _ => Listed) :
    Ensures (Knowing module symbol) x fun _ => Knowing module symbol := fun w hw =>
  ⟨hlisted w hw.toListed, (hgrown w w (.refl hw.coherent)).extends_base.namespaces _ _ hw.known⟩

section Gathering

variable {whole : ScopeId → String → StateM Workspace SymbolId} (hgrows : Grows whole)
  (hwhole : ∀ module specifier,
    Ensures (fun w => w.Listed ∧ w.HasModule module) (whole module specifier) fun _ => Listed)
include hgrows hwhole

/-- Finding an export of the module keeps its namespace object known. -/
theorem exportIn_listed (name : String) :
    Ensures (Knowing module symbol) (exportIn whole module name)
      fun _ => Knowing module symbol :=
  .of_grown (fun _ => exportIn_grown hgrows module name)
    (exportIn_keeps resolveModule_listed hwhole module name)

/-- Adding one export keeps the namespace object known. -/
theorem addExport_listed (exported : String) :
    Ensures (Knowing module symbol) (addExport whole module symbol exported)
      fun _ => Knowing module symbol := by
  unfold addExport
  split
  · refine .bind (exportIn_listed hgrows hwhole exported) fun found => ?_
    split
    · exact fun w hw => ⟨hw.modifyNamespace hw.known _, hw.known⟩
    · exact .pure fun _ hw => hw
  · exact .pure fun _ hw => hw

/-- Adding what an exported value holds lists every name once. -/
theorem addWholeExport_listed :
    Ensures (Knowing module symbol) (addWholeExport whole module symbol) fun _ => Listed := by
  refine .bind (exportIn_listed hgrows hwhole _) fun found => ?_
  split
  · exact .pure fun _ hw => hw.toListed
  · refine .get fun _ => ?_
    dsimp only
    split
    · exact fun w hw => hw.1.modifyNamespace hw.1.known _
    · exact .pure fun _ hw => hw.1.toListed

/-- Adding all exports lists every name once. -/
theorem addExports_listed :
    Ensures (Knowing module symbol) (addExports whole module symbol) fun _ => Listed := by
  have hnames : Ensures (Knowing module symbol) (exportedNames module)
      fun _ => Knowing module symbol :=
    .of_grown (fun _ => exportedNames_grown module)
      (exportedNames_ensures (fun specifier importer =>
        (resolveModule_listed specifier importer).weaken fun _ _ hw => hw.1) module)
  refine .bind hnames fun names => .bind (.forM fun exported _ =>
    addExport_listed hgrows hwhole exported) fun _ => .get fun _ =>
      .of_imp (P := Knowing module symbol) ?_ fun _ hw => hw.1
  split
  · exact addWholeExport_listed hgrows hwhole
  · exact .pure fun _ hw => hw.toListed

end Gathering

/-- A new symbol is the object of no namespace that has been declared. -/
theorem addSymbol_listed {known : Table ScopeId SymbolId} (name : String) :
    Ensures (fun w => w.Listed ∧ w.namespaces = known) (addSymbol name)
      fun symbol w => (w.Listed ∧ w.namespaces = known) ∧
        w.HasSymbol symbol ∧ ∀ id, (w.store.scope id).table ≠ .staticsOf symbol := by
  rintro w ⟨hw, hknown⟩
  obtain ⟨⟨hgrown, hknown⟩, hnew⟩ := @addSymbol_new w name known w ⟨.refl hw.coherent, hknown⟩
  exact ⟨⟨hw.gain hgrown.coherent hgrown.extends_base.store.later rfl, hknown⟩, hnew.lt, hnew.free⟩

/-- Making a namespace object lists every name once, at any depth. -/
theorem namespaceFrom_listed (depth : Nat) (module : ScopeId) (specifier : String) :
    Ensures (fun w => w.Listed ∧ w.HasModule module) (namespaceFrom depth module specifier)
      fun _ => Listed := by
  -- Gathering the exports makes other namespace objects, nested one level deeper.
  induction depth generalizing module specifier with
  | zero => exact fun w hw => (addSymbol_listed _ w ⟨hw.1, rfl⟩).1.1
  | succ depth ih =>
    refine .get fun now => ?_
    split
    · exact .pure fun _ hw => hw.1.1
    · rename_i hnone
      refine .bind (R := fun _ w => w.Listed ∧ w.namespaces = now.namespaces)
        (.get fun _ => .pure fun _ hw => ⟨hw.1.1.1, congrArg namespaces hw.1.2⟩) fun file =>
        .bind (addSymbol_listed _) fun symbol => .bind (R := fun _ => Knowing module symbol)
          (.modify ?_) fun _ => .bind (addExports_listed (namespaceFrom_grows depth) ih)
            fun _ => .pure fun _ hw => hw
      rintro w ⟨⟨hw, hknown⟩, hlt, hfree⟩
      have hcoherent : Coherent { w with namespaces := w.namespaces.put module symbol } :=
        { hw.coherent with
          namespaces := fun e he => by
            rcases Table.mem_entries_put he with rfl | he
            · exact ⟨hlt, hfree⟩
            · exact hw.coherent.namespaces e he }
      exact ⟨⟨hcoherent, hw.store⟩, by rw [Table.find?_put, if_pos rfl]⟩

/-- So does finding the object of a module. -/
theorem moduleSymbol_listed (module : ScopeId) (specifier : String) :
    Ensures (fun w => w.Listed ∧ w.HasModule module) (moduleSymbol module specifier)
      fun _ => Listed :=
  .get fun _ => .of_imp (namespaceFrom_listed _ module specifier) fun _ hw => hw.1

/-- A workspace starts with scopes that list every name once. -/
theorem ofSource_listed (settings : Settings) (disk : Disk) (library root : Source) :
    (ofSource settings disk (.ofSource library) root).Listed where
  coherent := ofSource_coherent settings disk (Library.ofSource_bound library) root
  store := bind_listed root (Library.ofSource_bound library).closed
    (bind_listed library Store.closed_empty Store.listed_empty)

/-- However a workspace comes about, its scopes list every name once. -/
theorem Reached.listed {start : Workspace} (h : Reached start w) (hstart : start.Listed) :
    w.Listed := by
  induction h with
  | start => exact hstart
  | lookUp h l ih => exact lookUp_keeps resolveModule_listed moduleSymbol_listed l _ ih
  | gain h hnext ih => exact ih.gain hnext.sound.coherent hnext.store hnext.scopes_size

/-! ## Own names -/

/-- A module exposes a name itself: the name is listed explicitly, or the module declares it and
exposes whatever it declares. -/
def Exposes (w : Workspace) (module : ScopeId) (name : String) : Prop :=
  (w.store.exportEntry? module name).isSome = true

/-- A module exposes a name that is not explicit if it exposes whatever it declares. -/
theorem exposes_iff (hname : name ∉ (w.store.scope module).exports.keys) :
    w.Exposes module name ↔
      (w.store.scope module).exportsAll = true ∧ name ∈ (w.store.symbolsOf module).keys := by
  have hnone : (w.store.scope module).exports.find? name = none := by
    rw [← Option.not_isSome_iff_eq_none, Table.isSome_find?]
    exact hname
  rw [Exposes, Store.exportEntry?, hnone, ← Table.isSome_find?]
  cases (w.store.scope module).exportsAll <;> simp

/-- A module exposes the names that it has an entry for. -/
theorem exposes_of_mem_keys (h : name ∈ (w.store.scope module).exports.keys) :
    w.Exposes module name := by
  obtain ⟨entry, hentry⟩ := Option.isSome_iff_exists.mp (Table.isSome_find?.mpr h)
  rw [Exposes, Store.exportEntry?, hentry]
  rfl

/-- The names that a module exposes itself are the explicit ones and after them the other ones. -/
theorem exists_ownExports (w : Workspace) (module : ScopeId) :
    ∃ implicit, ownExports w.store module = (w.store.scope module).exports.keys ++ implicit ∧
      ∀ name, name ∈ implicit ↔
        w.Exposes module name ∧ name ∉ (w.store.scope module).exports.keys := by
  unfold ownExports
  dsimp only
  -- Without explicit exports only, every name at the top is exposed.
  split
  next hall =>
    refine ⟨_, rfl, fun name => ?_⟩
    rw [List.mem_filter, Bool.not_eq_true', ← Bool.not_eq_true, Table.contains_iff]
    exact ⟨fun h => ⟨(exposes_iff h.2).mpr ⟨hall, h.1⟩, h.2⟩,
      fun h => ⟨((exposes_iff h.2).mp h.1).2, h.2⟩⟩
  next hsome =>
    exact ⟨[], (List.append_nil _).symm, fun name => ⟨fun hname => absurd hname List.not_mem_nil,
      fun h => absurd ((exposes_iff h.2).mp h.1).1 hsome⟩⟩

/-- The own exports of a module are the names that it exposes. -/
theorem mem_ownExports_iff : name ∈ ownExports w.store module ↔ w.Exposes module name := by
  obtain ⟨implicit, heq, himplicit⟩ := exists_ownExports w module
  rw [heq, List.mem_append, himplicit]
  by_cases hname : name ∈ (w.store.scope module).exports.keys
  · simp [hname, exposes_of_mem_keys hname]
  · simp [hname]

/-- A module exposes no name twice. -/
theorem Listed.nodup_ownExports (h : w.Listed) (module : ScopeId) :
    (ownExports w.store module).Nodup := by
  obtain ⟨hexports, hsymbols⟩ := h.store module
  unfold ownExports
  dsimp only
  split
  · refine List.nodup_append.mpr ⟨hexports, hsymbols.filter _, ?_⟩
    rintro name hname other hother rfl
    rw [List.mem_filter, Table.contains_iff.mpr hname] at hother
    exact Bool.false_ne_true hother.2
  · exact hexports

/-! ## Names of other modules -/

/-- Names that are added come after those that are there. -/
theorem prefix_addNames (names more : List String) : names <+: addNames names more := by
  induction more generalizing names with
  | nil => exact List.prefix_rfl
  | cons n rest ih =>
    rw [addNames]
    split
    · exact ih names
    · exact (List.prefix_append names [n]).trans (ih _)

/-- Names that are there already are not added again. -/
theorem nodup_addNames (h : names.Nodup) (more : List String) : (addNames names more).Nodup := by
  induction more generalizing names with
  | nil => exact h
  | cons n rest ih =>
    rw [addNames]
    split
    · exact ih h
    next hnew =>
      rw [Bool.or_eq_true, List.contains_iff_mem, not_or] at hnew
      refine ih (List.nodup_append.mpr ⟨h, List.nodup_singleton n, ?_⟩)
      rintro a ha b hb rfl
      exact hnew.2 (List.mem_singleton.mp hb ▸ ha)

/-- A module takes over the exports of another one that a specifier of it names. -/
def TakesOver (w : Workspace) (module target : ScopeId) : Prop :=
  ∃ specifier ∈ (w.store.scope module).starExports, w.named? module specifier = some target

/-- A module takes over the exports of another one that has been asked for. -/
def HasTaken (w : Workspace) (module target : ScopeId) : Prop :=
  ∃ specifier ∈ (w.store.scope module).starExports,
    w.Settled specifier (w.store.scope module).node.source (some target)

/-- A specifier that is settled names the module that was found. -/
theorem Settled.named? {specifier : String} {found : Option ScopeId}
    (h : w.Settled specifier (w.store.scope module).node.source found) :
    w.named? module specifier = found := by
  have hrun : (moduleNamed module specifier).run w = (found, w) := h.resolveModule_eq
  rw [Workspace.named?, hrun]

/-- A module that has been taken over is one that is exported whole. -/
theorem HasTaken.takesOver {target : ScopeId} (h : w.HasTaken module target) :
    w.TakesOver module target :=
  let ⟨specifier, hmem, hsettled⟩ := h
  ⟨specifier, hmem, hsettled.named?⟩

/-- What has been taken over stays taken over. -/
theorem HasTaken.later {target : ScopeId} (h : old.HasTaken module target)
    (hm : old.HasModule module) (hlater : old.Later new) : new.HasTaken module target := by
  obtain ⟨specifier, hmem, hsettled⟩ := h
  rw [← hlater.store.scope_eq module hm] at hmem hsettled
  exact ⟨specifier, hmem, hsettled.later hlater⟩

/-- A module that has been taken over is there. -/
theorem HasTaken.hasModule {target : ScopeId} (h : w.HasTaken module target) (hw : w.Coherent) :
    w.HasModule target := by
  obtain ⟨specifier, -, hsettled⟩ := h
  unfold Settled at hsettled
  split at hsettled
  · exact nomatch hsettled
  · exact hw.modules _ (Table.mem_entries_of_find? hsettled) target rfl

/-- A module exports the names that it exposes itself and, but for the default, those that modules
expose which it takes over, directly or through others. -/
def Exports (w : Workspace) (takes : ScopeId → ScopeId → Prop) (module : ScopeId)
    (name : String) : Prop :=
  w.Exposes module name ∨
    name ≠ "default" ∧ ∃ m, Relation.ReflTransGen takes module m ∧ w.Exposes m name

/-- What a module exposes it exposes later on. -/
theorem Exposes.later (h : old.Exposes module name) (hsound : old.Sound)
    (hm : old.HasModule module) (hlater : old.Later new) : new.Exposes module name := by
  rw [Exposes, hlater.store.exportEntry?_eq hsound.store hm]
  exact h

/-- What a module has taken over stays taken over. -/
theorem hasTaken_later {target : ScopeId} (h : Relation.ReflTransGen old.HasTaken module target)
    (hsound : old.Sound) (hm : old.HasModule module) (hlater : old.Later new) :
    old.HasModule target ∧ Relation.ReflTransGen new.HasTaken module target := by
  induction h with
  | refl => exact ⟨hm, .refl⟩
  | tail _ hlast ih =>
    exact ⟨hlast.hasModule hsound.coherent, ih.2.tail (hlast.later ih.1 hlater)⟩

/-- What a module exports it exports later on. -/
theorem Exports.later (h : old.Exports old.HasTaken module name) (hsound : old.Sound)
    (hm : old.HasModule module) (hlater : old.Later new) :
    new.Exports new.HasTaken module name := by
  refine h.imp (fun h => h.later hsound hm hlater) fun ⟨hplain, m, hreach, hexposes⟩ => ?_
  obtain ⟨hmodule, hreach⟩ := hasTaken_later hreach hsound hm hlater
  exact ⟨hplain, m, hreach, hexposes.later hsound hmodule hlater⟩

/-- Whatever a module exports that has been taken over is exported on, unless it is the default. -/
theorem Exports.taken {target : ScopeId} (h : w.Exports w.HasTaken target name)
    (hplain : name ≠ "default") (htaken : w.HasTaken module target) :
    w.Exports w.HasTaken module name := by
  refine .inr ⟨hplain, ?_⟩
  rcases h with hexposes | ⟨-, m, hreach, hexposes⟩
  · exact ⟨target, .single htaken, hexposes⟩
  · exact ⟨m, .head htaken hreach, hexposes⟩

/-! ## No name comes from nowhere -/

/-- The names that a traversal has gathered for a module are names that it exports. -/
structure Drawn (base : Workspace) (module : ScopeId) (names : List String) (w : Workspace) :
    Prop where
  later : base.Later w
  sound : w.Sound
  bounded : w.Bounded
  exports : ∀ name ∈ names, w.Exports w.HasTaken module name

/-- A traversal draws the names of a module from the module and from what it takes over. -/
def Draws (depth : Nat) : Prop :=
  ∀ (w : Workspace) (module : ScopeId) (seen : List ScopeId), w.Sound → w.Bounded →
    w.HasModule module →
    let r := ((exportedNamesFrom depth module).run seen).run w
    Drawn w module r.1.1 r.2

/-- Names that have been drawn are drawn later on. -/
theorem Drawn.next (h : Drawn base module names w) (hm : base.HasModule module)
    (hlater : w.Later new) (hsound : new.Sound) (hbounded : new.Bounded) :
    Drawn base module names new where
  later := h.later.trans hlater
  sound := hsound
  bounded := hbounded
  exports name hname := (h.exports name hname).later h.sound (h.later.hasModule hm) hlater

/-- What is added to the own names of a module while the modules that it takes over are gone
through. -/
structure Lengthens (base : Workspace) (module : ScopeId) (r : List String × List ScopeId)
    (w : Workspace) : Prop where
  drawn : Drawn base module r.1 w
  own : ownExports base.store module <+: r.1
  nodup : (ownExports base.store module).Nodup → r.1.Nodup

/-- Taking over a module adds names, and the modules that have been visited. -/
theorem takeNames_lengthens {depth : Nat} (hdepth : Draws depth) (hm : base.HasModule module)
    {specifier : String} (hmem : specifier ∈ (base.store.scope module).starExports)
    (names : List String) (visited : List ScopeId) :
    Ensures (Lengthens base module (names, visited))
      ((takeNames depth module names specifier).run visited) (Lengthens base module) := by
  intro w hw
  have hmodule := hw.drawn.later.hasModule hm
  obtain ⟨hlater, hsound, hbounded, htarget, hsettled⟩ :=
    moduleNamed_settles hw.drawn.sound hw.drawn.bounded hmodule specifier
  have hnow := hw.drawn.next hm hlater hsound hbounded
  -- The module that was asked for is named, as all facts above speak of it.
  rw [run_takeNames]
  revert hlater hsound hbounded htarget hsettled hnow
  rcases (moduleNamed module specifier).run w with ⟨_ | target, now⟩
  all_goals
    intro hlater hsound hbounded htarget hsettled hnow
    dsimp only at hlater hsound hbounded htarget hsettled hnow ⊢
  -- The specifier names no module, so no names are added.
  · exact ⟨hnow, hw.own, hw.nodup⟩
  · have hmodule := hnow.later.hasModule hm
    have htaken : now.HasTaken module target := by
      refine ⟨specifier, ?_, hsettled⟩
      rwa [hnow.later.store.scope_eq module hm]
    have hnext := hdepth now target visited hsound hbounded (htarget target rfl)
    refine
      { drawn :=
          { later := hnow.later.trans hnext.later
            sound := hnext.sound
            bounded := hnext.bounded
            exports := fun name hname => ?_ }
        own := hw.own.trans (prefix_addNames _ _)
        nodup := fun hown => nodup_addNames (hw.nodup hown) _ }
    -- A name comes from what was there or from the target.
    rcases mem_addNames.mp hname with hname | ⟨hname, hplain⟩
    · exact (hnow.exports name hname).later hsound hmodule hnext.later
    · exact (hnext.exports name hname).taken hplain (htaken.later hmodule hnext.later)

/-- A module that has not been visited adds its own names and those that it takes over. -/
theorem run_exportedNamesFrom_lengthens {depth : Nat} (hdepth : Draws depth) (hsound : w.Sound)
    (hbounded : w.Bounded) (hm : w.HasModule module) (hnew : module ∉ seen) :
    let r := ((exportedNamesFrom (depth + 1) module).run seen).run w
    Lengthens w module r.1 r.2 := by
  -- The module is new, so its own names come first and then those of its stars.
  intro r
  have hr : r = (((w.store.scope module).starExports.foldlM (takeNames depth module)
      (ownExports w.store module)).run (module :: seen)).run w :=
    (run_exportedNamesFrom depth module seen w).trans (if_neg hnew)
  have hstart : Lengthens w module (ownExports w.store module, module :: seen) w :=
    { drawn := ⟨.refl w, hsound, hbounded, fun _ hname => .inl (mem_ownExports_iff.mp hname)⟩
      own := List.prefix_rfl
      nodup := id }
  have hstep := fun specifier hmem names visited =>
    @takeNames_lengthens w module depth hdepth hm specifier hmem names visited
  rw [hr]
  exact Ensures.foldlM_mem hstep _ _ w hstart

/-- At any depth only exported names are drawn. -/
theorem exportedNamesFrom_draws (depth : Nat) : Draws depth := by
  -- The modules that a module takes over are traversed one level deeper.
  induction depth with
  | zero => exact fun w _ _ hsound hbounded _ => ⟨.refl w, hsound, hbounded, nofun⟩
  | succ depth ih =>
    intro w module seen hsound hbounded hm
    by_cases hseen : module ∈ seen
    · rw [run_exportedNamesFrom, if_pos hseen]
      exact ⟨.refl w, hsound, hbounded, nofun⟩
    · exact (run_exportedNamesFrom_lengthens ih hsound hbounded hm hseen).drawn

/-! ## The list of a module -/

/-- Some names are the list of what a module exports. No name is listed twice. The explicit names
of the module come first and the others that it exposes itself next, before those of the modules
that it takes over. -/
structure Lists (w : Workspace) (module : ScopeId) (names : List String) : Prop where
  nodup : names.Nodup
  own_first : ∃ implicit taken,
    names = (w.store.scope module).exports.keys ++ implicit ++ taken ∧
      ∀ name, name ∈ implicit ↔
        w.Exposes module name ∧ name ∉ (w.store.scope module).exports.keys
  mem_iff : ∀ name, name ∈ names ↔ w.Exports w.TakesOver module name

/-- Modules that have been gone through are not left along what they take over. -/
theorem mem_of_takesOver {region : List ScopeId} {target : ScopeId} (hmem : module ∈ region)
    (hclosed : ∀ m ∈ region, w.LeadsInto m (w.store.scope m).starExports region)
    (h : Relation.ReflTransGen w.TakesOver module target) : target ∈ region := by
  induction h with
  | refl => exact hmem
  | tail _ hlast ih =>
    obtain ⟨specifier, hspecifier, hnamed⟩ := hlast
    obtain ⟨found, hsettled, htarget⟩ := hclosed _ ih specifier hspecifier
    exact htarget _ (hsettled.named?.symm.trans hnamed)

/-- When all that can be reached has been visited, the names are exactly the exported ones. -/
theorem Lengthens.lists {r : List String × List ScopeId} (h : Lengthens base module r w)
    (hlisted : base.Listed) (hsound : base.Sound) (hm : base.HasModule module)
    (htraversed : Traversed base [] r.1 r.2 w) (hmem : module ∈ r.2)
    (hown : ∀ name, w.Exposes module name → name ∈ r.1) : w.Lists module r.1 where
  nodup := h.nodup (hlisted.nodup_ownExports module)
  own_first := by
    -- The names that were gathered are split at the own ones.
    have hlater := h.drawn.later.store
    have hexposes : ∀ name, w.Exposes module name ↔ base.Exposes module name := fun name => by
      rw [Exposes, Exposes, hlater.exportEntry?_eq hsound.store hm]
    obtain ⟨taken, htaken⟩ := h.own
    obtain ⟨implicit, heq, himplicit⟩ := exists_ownExports base module
    refine ⟨implicit, taken, ?_, fun name => ?_⟩
    · rw [hlater.scope_eq module hm, ← heq, htaken]
    · rw [hlater.scope_eq module hm, hexposes, himplicit]
  mem_iff name := by
    constructor
    · intro hname
      refine (h.drawn.exports name hname).imp_right fun ⟨hplain, m, hreach, hexposes⟩ => ?_
      exact ⟨hplain, m, Relation.ReflTransGen.mono (fun _ _ => HasTaken.takesOver) _ _ hreach,
        hexposes⟩
    · rintro (hexposes | ⟨hplain, m, hreach, hexposes⟩)
      · exact hown name hexposes
      · have hm : m ∈ r.2 :=
          mem_of_takesOver hmem (fun m hm => htraversed.closed m hm List.not_mem_nil) hreach
        exact htraversed.names m hm List.not_mem_nil name hplain hexposes

/-- However a workspace has come about, the names that are gathered for a module are the list of
what it exports. -/
theorem exportedNames_lists (settings : Settings) (disk : Disk) (library root : Source)
    {w : Workspace} {module : ScopeId}
    (hw : Reached (ofSource settings disk (.ofSource library) root) w) (hm : w.HasModule module) :
    let r := (exportedNames module).run w
    r.2.Lists module r.1 := by
  have hlisted := hw.listed (ofSource_listed settings disk library root)
  have hfilled := hw.filled (ofSource_filled settings disk library root)
  have hstart : Marked [] w := ⟨hfilled.toSound, hfilled.bounded, List.nodup_nil, nofun⟩
  obtain ⟨htraversed, hmem, hown⟩ := exportedNamesFrom_gatherer (w.size + 1) w module [] hstart hm
    (Nat.lt_succ_self _)
  have hlengthens := run_exportedNamesFrom_lengthens (exportedNamesFrom_draws w.size)
    hfilled.toSound hfilled.bounded hm (List.not_mem_nil (a := module))
  exact hlengthens.lists hlisted hfilled.toSound hm htraversed hmem (hown List.not_mem_nil)

instance : Decidable (w.HasModule module) :=
  inferInstanceAs (Decidable (_ < _))

/-- Files that take over each other's exports: two of them lead to the same one, which leads back to
the file under analysis. -/
def roundDisk : Disk :=
  .ofFiles [("/b.ts", "export*from'./d';export let y"),
    ("/c.ts", "export*from'./d';export let z,y"),
    ("/d.ts", "export*from'./a';export let x,d;export default 1")]

/-- The file under analysis among them. -/
def roundRoot : Source :=
  .ofText "/a.ts" "export*from'./b';export*from'./c';export let x" .ts

/-- The workspace of this file. -/
def roundStart : Workspace :=
  ofSource {} roundDisk (.ofSource default) roundRoot

theorem exportedNames_lists_round :
    Reached roundStart roundStart ∧ roundStart.HasModule ⟨1⟩ ∧
      ((exportedNames ⟨1⟩).run roundStart).1 = ["x", "y", "d", "z"] ∧
      ((exportedNames ⟨1⟩).run roundStart).2.Lists ⟨1⟩ ["x", "y", "d", "z"] := by
  obtain ⟨hm, hnames⟩ : roundStart.HasModule ⟨1⟩ ∧
      ((exportedNames ⟨1⟩).run roundStart).1 = ["x", "y", "d", "z"] := by
    decide +kernel
  have hlists := @exportedNames_lists {} roundDisk default roundRoot roundStart ⟨1⟩ .start hm
  refine ⟨.start, hm, hnames, ?_⟩
  rw [← hnames]
  exact hlists

end ScriptGraph.Workspace
