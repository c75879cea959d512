import ScriptGraph.Proofs.Workspace.Namespaces

/-!
# Imports of names and of whole modules

A name that is imported from a module stands for the export that the namespace object of the module
shows under the name, however modules take over each other's exports and whatever has been looked up
before. The import is an alias of its own, though, so it takes one more step to what the name stands
for than the static of the namespace object does.

- `Workspace.Reached`: how workspaces come about
- `Workspace.imports_agree`: namespace objects, exports and imports agree
- `Workspace.not_pickDeclaration_eq`: a name at the limit of steps is reached through the namespace
  object only
-/

namespace ScriptGraph.Workspace

open Binding Syntax

variable {start old new w next : Workspace} {module : ScopeId} {symbol target importing : SymbolId}
  {name : String}

/-! ## Workspaces that come about -/

/-- Something to be looked up: the module that a specifier names in a file, its namespace object,
one of its exports, or the declaration that a symbol stands for. -/
inductive Lookup
  | module (specifier : String) (importer : Source)
  | whole (specifier : String) (importer : Source)
  | exported (specifier : String) (importer : Source) (name : String)
  | declaration (symbol : Option SymbolId)

/-- Looks something up. -/
def lookUp : Lookup → StateM Workspace Unit
  | .module specifier importer => do
    let _ ← resolveModule specifier importer
  | .whole specifier importer => do
    match ← resolveModule specifier importer with
    | some module => let _ ← moduleSymbol module specifier
    | none => return ()
  | .exported specifier importer name => do
    match ← resolveModule specifier importer with
    | some module => let _ ← exportSymbol module name
    | none => return ()
  | .declaration symbol => do
    let _ ← pickDeclaration symbol

/-- A workspace has got more symbols and declarations, as inference adds them, and nothing else. -/
structure Gains (old new : Workspace) : Prop extends Later old new where
  sound : new.Sound
  scopes_size : new.store.scopes.size = old.store.scopes.size
  bindings_eq : new.bindings = old.bindings
  namespaces_eq : new.namespaces = old.namespaces

/-- The workspaces that come about from one at the start, while things are looked up and symbols and
declarations are added. -/
inductive Reached (start : Workspace) : Workspace → Prop
  | start : Reached start start
  | lookUp {w : Workspace} (h : Reached start w) (l : Lookup) :
      Reached start ((lookUp l).run w).2
  | gain {w next : Workspace} (h : Reached start w) (hnext : w.Gains next) : Reached start next

/-- Resolving a specifier leaves namespace objects filled. -/
theorem resolveModule_keepsFilled {filling : List ScopeId} (specifier : String)
    (importer : Source) :
    Ensures (Filled filling) (resolveModule specifier importer)
      fun found w => w.Filled filling ∧ ∀ target, found = some target → w.HasModule target :=
  fun w hw =>
    let ⟨h, hfound⟩ := resolveModule_filled specifier importer w ⟨hw, hasRoom_start w⟩
    ⟨h.1, hfound⟩

/-- Whatever is looked up, it keeps what resolving modules and making namespace objects keep. -/
theorem lookUp_keeps {P : Workspace → Prop}
    (hresolve : ∀ specifier importer, Ensures P (resolveModule specifier importer)
      fun found w => P w ∧ ∀ target, found = some target → w.HasModule target)
    (hwhole : ∀ module specifier,
      Ensures (fun w => P w ∧ w.HasModule module) (moduleSymbol module specifier) fun _ => P)
    (l : Lookup) : Ensures P (lookUp l) fun _ => P := by
  -- Every kind of look-up resolves a module first.
  cases l with
  | module specifier importer =>
    exact .bind (hresolve specifier importer) fun _ => .pure fun _ hw => hw.1
  | whole specifier importer =>
    refine .bind (hresolve specifier importer) fun found => ?_
    split
    · rename_i module
      exact .bind (.of_imp (hwhole module specifier) fun _ hw => ⟨hw.1, hw.2 module rfl⟩)
        fun _ => .pure fun _ hw => hw
    · exact .pure fun _ hw => hw.1
  | exported specifier importer name =>
    refine .bind (hresolve specifier importer) fun found => ?_
    split
    · have hexport : ∀ module, Ensures P (exportSymbol module name) fun _ => P := fun module =>
        exportIn_keeps hresolve hwhole module name
      exact .bind (.of_imp (hexport _) fun _ hw => hw.1) fun _ => .pure fun _ hw => hw
    · exact .pure fun _ hw => hw.1
  | declaration symbol =>
    exact .bind (pickDeclaration_keeps hresolve hwhole symbol) fun _ => .pure fun _ hw => hw

/-- A workspace without namespace objects. -/
theorem ofSource_filled (settings : Settings) (disk : Disk) (library root : Source) :
    (ofSource settings disk (.ofSource library) root).Filled [] where
  toSound := ofSource_sound settings disk library root
  bounded := ofSource_bounded settings disk library root
  modules := nofun
  nodup := List.nodup_nil
  injective _ _ _ hs := nomatch hs
  bare _ _ hs := nomatch hs
  shows_exports _ _ hs := nomatch hs

/-- However a workspace comes about, its namespace objects show the exports of their modules. -/
theorem Reached.filled (h : Reached start w) (hstart : start.Filled []) : w.Filled [] := by
  induction h with
  | start => exact hstart
  | lookUp h l ih => exact lookUp_keeps resolveModule_keepsFilled moduleSymbol_filled l _ ih
  | gain h hnext ih =>
    exact ih.later hnext.toLater hnext.sound
      (ih.bounded.later hnext.toLater hnext.scopes_size hnext.bindings_eq) hnext.namespaces_eq

/-! ## Following an import -/

instance {specifier : String} {importer : Source} {found : Option ScopeId} :
    Decidable (w.Settled specifier importer found) :=
  inferInstanceAs (Decidable (if specifier.isEmpty then _ else _))

/-- A symbol is an import of a name from a module, which has been found for it before. The star
imports the whole module. -/
def Imports (w : Workspace) (importing : SymbolId) (module : ScopeId) (name : String) : Prop :=
  w.store.isAlias importing = true ∧
    ∃ d ∈ (w.store.declarationsOf importing).head?, ∃ s ∈ d.importSource,
      s.imported = name ∧ w.Settled s.specifier d.source (some module)

instance : Decidable (w.Imports importing module name) :=
  inferInstanceAs (Decidable (_ ∧ _))

/-- An alias has a first declaration. -/
theorem exists_head?_of_isAlias {store : Store} (h : store.isAlias symbol = true) :
    ∃ d, (store.declarationsOf symbol).head? = some d := by
  unfold Store.isAlias at h
  unfold Store.declarationsOf
  cases hd : (store.symbol symbol).declarations with
  | nil =>
    rw [hd] at h
    exact nomatch h
  | cons d rest => exact ⟨_, rfl⟩

/-- An alias is followed by what its first declaration imports. -/
theorem run_resolveAliasFrom_succ (h : w.store.isAlias symbol = true) {d : Declaration}
    (hd : (w.store.declarationsOf symbol).head? = some d) (hops : Nat) :
    (resolveAliasFrom (hops + 1) symbol).run w =
      match (importedSymbol d).run w with
      | (some next, now) => (resolveAliasFrom hops next).run now
      | (none, now) => (none, now) := by
  rw [resolveAliasFrom, StateT.run_bind, StateT.run_get, pure_bind]
  dsimp only
  rw [h, hd]
  dsimp only
  -- The number of hops is what tells the next step from this one.
  rw [if_neg (by decide), StateT.run_bind]
  rcases (importedSymbol d).run w with ⟨_ | target, now⟩
  · rfl
  · rfl

/-- What is found with some hops is found with more of them. -/
theorem resolveAliasFrom_succ {hops : Nat}
    (h : (resolveAliasFrom hops symbol).run w = (some target, next)) :
    (resolveAliasFrom (hops + 1) symbol).run w = (some target, next) := by
  -- By induction on the hops, along the same aliases.
  induction hops generalizing symbol w with
  | zero =>
    cases hs : w.store.isAlias symbol with
    | false => rwa [run_resolveAliasFrom_of_not_alias hs] at h ⊢
    | true =>
      rw [resolveAliasFrom, StateT.run_bind, StateT.run_get, pure_bind, hs] at h
      exact absurd (Prod.mk.inj h).1.symm (Option.some_ne_none _)
  | succ hops ih =>
    cases hs : w.store.isAlias symbol with
    | false => rwa [run_resolveAliasFrom_of_not_alias hs] at h ⊢
    | true =>
      obtain ⟨d, hd⟩ := exists_head?_of_isAlias hs
      rw [run_resolveAliasFrom_succ hs hd] at h ⊢
      revert h
      rcases (importedSymbol d).run w with ⟨_ | following, now⟩
      · exact fun h => h
      · exact ih

/-- An import of a name is followed to what the module exports under the name. -/
theorem Imports.run_named (h : w.Imports importing module name) (hempty : name ≠ "")
    (hstar : name ≠ "*") {found : Option SymbolId}
    (hexport : (exportSymbol module name).run w = (found, w)) (hops : Nat) :
    (resolveAliasFrom (hops + 1) importing).run w =
      match found with
      | some following => (resolveAliasFrom hops following).run w
      | none => (none, w) := by
  obtain ⟨halias, d, hd, s, hs, rfl, hsettled⟩ := h
  have himported : (importedSymbol d).run w = (found, w) := by
    rw [importedSymbol, Option.mem_def.mp hs]
    dsimp only
    rw [StateT.run_bind, hsettled.resolveModule_eq]
    -- The import is of a name: neither all of the module nor nothing.
    show (if s.imported == "*" then _ else _ : StateM Workspace (Option SymbolId)) w = _
    rw [if_neg (by simpa using hstar), if_neg (by simpa using hempty)]
    exact hexport
  rw [run_resolveAliasFrom_succ halias (Option.mem_def.mp hd), himported]
  cases found <;> rfl

/-- An import of a whole module is followed to its namespace object. -/
theorem Imports.run_whole (h : w.Imports importing module "*")
    (hmade : ∀ specifier, (moduleSymbol module specifier).run w = (symbol, w)) (hops : Nat) :
    (resolveAliasFrom (hops + 1) importing).run w = (resolveAliasFrom hops symbol).run w := by
  obtain ⟨halias, d, hd, s, hs, hstar, hsettled⟩ := h
  have himported : (importedSymbol d).run w = (some symbol, w) := by
    rw [importedSymbol, Option.mem_def.mp hs]
    dsimp only
    rw [StateT.run_bind, hsettled.resolveModule_eq]
    show (if s.imported == "*" then _ else _ : StateM Workspace (Option SymbolId)) w = _
    -- The import is of the whole module.
    rw [if_pos (by simpa using hstar)]
    show (some ((moduleSymbol module s.specifier).run w).1,
      ((moduleSymbol module s.specifier).run w).2) = _
    rw [hmade]
  rw [run_resolveAliasFrom_succ halias (Option.mem_def.mp hd), himported]

/-- The declaration is picked at the end of the chain of aliases. -/
theorem run_pickDeclaration (symbol : SymbolId) (w : Workspace) :
    (pickDeclaration (some symbol)).run w =
      match (resolveAlias symbol).run w with
      | (some target, now) => (bestDeclaration? now.store target, now)
      | (none, now) => (none, now) := by
  rw [pickDeclaration, StateT.run_bind]
  rcases (resolveAlias symbol).run w with ⟨_ | target, now⟩
  · rfl
  · rfl

/-- An import of a name leads to the declaration of what the module exports under the name, unless
it gives up because that is one alias further away for the import. -/
theorem Imports.pickDeclaration_or (h : w.Imports importing module name) (hempty : name ≠ "")
    (hstar : name ≠ "*") {found : Option SymbolId}
    (hexport : (exportSymbol module name).run w = (found, w)) :
    ((pickDeclaration (some importing)).run w).1 = ((pickDeclaration found).run w).1 ∨
      ((pickDeclaration (some importing)).run w).1 = none ∧
        ∃ m, found = some m ∧ ((resolveAliasFrom (aliasHops - 1) m).run w).1 = none := by
  have himport := h.run_named hempty hstar hexport (aliasHops - 1)
  rw [run_pickDeclaration, resolveAlias, show aliasHops = aliasHops - 1 + 1 from rfl, himport]
  cases found with
  | none => exact .inl rfl
  | some m =>
    rw [run_pickDeclaration]
    -- The import takes one hop more than its target does.
    dsimp only
    rcases hm : (resolveAliasFrom (aliasHops - 1) m).run w with ⟨_ | target, next⟩
    · exact .inr ⟨rfl, m, rfl, congrArg Prod.fst hm⟩
    · -- What is found one alias earlier is found with all of them.
      have hmember : (resolveAlias m).run w = (some target, next) := resolveAliasFrom_succ hm
      rw [hmember]
      exact .inl rfl

/-- The names that an import may take from a module by themselves. The empty name and the star stand
for the default and for the whole module. -/
def IsPlain (name : String) : Prop :=
  name ≠ "" ∧ name ≠ "*" ∧ name ≠ wholeExportName

/-- A symbol agrees with a module and with its imports, as the namespace object of the module. It
has a static under a name exactly if the module exports a symbol under the name, which is the static
then. An import of the whole module stands for it. The declaration that an import of a name leads to
is the one of the static; and where the static leads to something along less than `aliasHops`
aliases, the import leads to the same declaration. -/
structure Agrees (w : Workspace) (module : ScopeId) (symbol : SymbolId) : Prop where
  exports : ∀ name ≠ wholeExportName,
    ((exportSymbol module name).run w).1 = (w.store.symbol symbol).statics.find? name
  whole : ∀ importing, w.Imports importing module "*" →
    ((resolveAlias importing).run w).1 = some symbol
  named : ∀ importing name, IsPlain name → w.Imports importing module name → ∀ d,
    ((pickDeclaration (some importing)).run w).1 = some d →
      ((pickDeclaration ((w.store.symbol symbol).statics.find? name)).run w).1 = some d
  named_eq : ∀ importing name, IsPlain name → w.Imports importing module name →
    (∀ m, (w.store.symbol symbol).statics.find? name = some m →
      ((resolveAliasFrom (aliasHops - 1) m).run w).1.isSome = true) →
    ((pickDeclaration (some importing)).run w).1 =
      ((pickDeclaration ((w.store.symbol symbol).statics.find? name)).run w).1

/-- An object that shows the exports of its module agrees with imports of them. -/
theorem Shows.agrees (h : w.Shows module symbol)
    (hmade : ∀ specifier, (moduleSymbol module specifier).run w = (symbol, w))
    (hbare : (w.store.symbol symbol).declarations = []) : w.Agrees module symbol := by
  have hexport : ∀ name ≠ wholeExportName, (exportSymbol module name).run w =
      ((w.store.symbol symbol).statics.find? name, w) := fun name hname => h name hname w (.refl w)
  refine
    { exports := fun name hname => congrArg Prod.fst (hexport name hname)
      whole := fun importing himports => ?_
      named := fun importing name hplain himports d hd => ?_
      named_eq := fun importing name hplain himports hsome => ?_ }
  -- The object is declared nowhere, so it is no alias.
  · have hnone : w.store.isAlias symbol = false := by rw [Store.isAlias, hbare]
    rw [resolveAlias, show aliasHops = aliasHops - 1 + 1 from rfl, himports.run_whole hmade,
      run_resolveAliasFrom_of_not_alias hnone]
  · rcases himports.pickDeclaration_or hplain.1 hplain.2.1 (hexport name hplain.2.2) with heq |
      ⟨hnone, -⟩
    · exact heq ▸ hd
    · exact nomatch hnone.symm.trans hd
  · rcases himports.pickDeclaration_or hplain.1 hplain.2.1 (hexport name hplain.2.2) with heq |
      ⟨-, m, hm, hnone⟩
    · exact heq
    · exact absurd (hsome m hm) (by rw [hnone]; decide)

/-- A namespace object that is filled agrees with imports. -/
theorem Filled.agrees (h : w.Filled []) (hknown : w.namespaces.find? module = some symbol)
    (hwhole : ¬ w.HasWhole module) (hlater : w.Later next) : next.Agrees module symbol := by
  have hsame := hlater.store.symbol_eq symbol (h.hasSymbol hknown)
  have hshows := (h.shows_exports module symbol hknown List.not_mem_nil hwhole).steady
    (hlater.steady h.toSound) (congrArg Symbol.statics hsame)
  refine hshows.agrees (fun specifier => ?_) (hsame ▸ h.bare module symbol hknown)
  rw [run_moduleSymbol]
  exact namespaceFrom_of_known (hlater.namespaces _ _ hknown)

/-- So does one that is made for an import. -/
theorem Filled.agrees_made (h : w.Filled []) (hm : w.HasModule module)
    (hwhole : ¬ w.HasWhole module) {specifier : String} {made later : Workspace}
    (hmade : (moduleSymbol module specifier).run w = (symbol, made))
    (hlater : made.Later later) : later.Agrees module symbol := by
  have hfilled := moduleSymbol_filled module specifier w ⟨h, hm⟩
  have hgrown := moduleSymbol_grows w module specifier w (.refl h.coherent)
  have hknown := (namespaceFrom_ensures (namespaceFrom_once w.size) module specifier w
    ⟨h.toSound, hm⟩).2
  rw [← run_moduleSymbol, hmade] at hknown
  rw [hmade] at hfilled hgrown
  refine hfilled.agrees hknown ?_ hlater
  rwa [HasWhole, hgrown.extends_base.store.scope_eq module hm]

/-- However a workspace has come about, the namespace object that is made for a module without a
whole export agrees with the module and its imports from then on. -/
theorem moduleSymbol_agrees (settings : Settings) (disk : Disk) (library root : Source)
    {w asked made later : Workspace} {specifier : String} {importer : Source} {module : ScopeId}
    {symbol : SymbolId}
    (hw : Reached (ofSource settings disk (.ofSource library) root) w)
    (hfound : (resolveModule specifier importer).run w = (some module, asked))
    (hwhole : ¬ asked.HasWhole module)
    (hmade : (moduleSymbol module specifier).run asked = (symbol, made))
    (hlater : made.Later later) : later.Agrees module symbol := by
  have hfilled := hw.filled (ofSource_filled settings disk library root)
  obtain ⟨hasked, htarget⟩ := resolveModule_keepsFilled specifier importer w hfilled
  rw [hfound] at hasked htarget
  exact hasked.agrees_made (htarget module rfl) hwhole hmade hlater

/-! ## Chains of imports -/

/-- The letter of a module in a chain. -/
def linkName (place : Nat) : String :=
  String.singleton (Char.ofNat (97 + place))

/-- Files of which each but the last one imports a name from the next one and exports it again. -/
def linkDisk (count : Nat) : Disk :=
  .ofFiles ((List.range count).map (fun place => ("/" ++ linkName place ++ ".ts",
    "import\x7bx\x7dfrom'./" ++ linkName (place + 1) ++ "';export\x7bx\x7d")) ++
      [("/" ++ linkName count ++ ".ts", "var x;export\x7bx\x7d")])

/-- A file that imports the name from the first one. -/
def linkUser : Source :=
  .ofText "/~.ts" "import\x7bx\x7dfrom'./a'" .ts

/-- The workspace of the file that imports the name. -/
def linkStart (count : Nat) : Workspace :=
  ofSource {} (linkDisk count) (.ofSource default) linkUser

/-- The workspace after the first module has been asked for. -/
def linkAsked (count : Nat) : Workspace :=
  ((resolveModule "./a" linkUser).run (linkStart count)).2

/-- The namespace object of the first module, and the workspace after it has been made. -/
def linkMade (count : Nat) : SymbolId × Workspace :=
  (moduleSymbol ⟨2⟩ "./a").run (linkAsked count)

/-- The static of the name. -/
def linkStatic (count : Nat) : Option SymbolId :=
  ((linkMade count).2.store.symbol (linkMade count).1).statics.find? "x"

/-- Asking for the first file of the chain binds it. -/
theorem run_linkAsked {count : Nat}
    (hfound : ((resolveModule "./a" linkUser).run (linkStart count)).1 = some ⟨2⟩) :
    (resolveModule "./a" linkUser).run (linkStart count) = (some ⟨2⟩, linkAsked count) := by
  unfold linkAsked
  rw [← hfound]
  exact (Prod.eta _).symm

/-- Making its namespace object follows the chain. -/
theorem run_linkMade (count : Nat) :
    (moduleSymbol ⟨2⟩ "./a").run (linkAsked count) = ((linkMade count).1, (linkMade count).2) := by
  unfold linkMade
  exact (Prod.eta _).symm

/-- An import of a name and the namespace object lead to the same declaration. -/
theorem moduleSymbol_agrees_link :
    (resolveModule "./a" linkUser).run (linkStart 1) = (some ⟨2⟩, linkAsked 1) ∧
      ¬ (linkAsked 1).HasWhole ⟨2⟩ ∧ (linkMade 1).2.Agrees ⟨2⟩ (linkMade 1).1 ∧
      ∃ d, ((pickDeclaration (some ⟨0⟩)).run (linkMade 1).2).1 = some d ∧
        ((pickDeclaration (linkStatic 1)).run (linkMade 1).2).1 = some d := by
  -- All that depends on the disk is checked once.
  obtain ⟨hfirst, hwhole, himports, hsome⟩ :
      ((resolveModule "./a" linkUser).run (linkStart 1)).1 = some ⟨2⟩ ∧
        ¬ (linkAsked 1).HasWhole ⟨2⟩ ∧ (linkMade 1).2.Imports ⟨0⟩ ⟨2⟩ "x" ∧
        ((pickDeclaration (some ⟨0⟩)).run (linkMade 1).2).1.isSome = true := by
    decide +kernel
  obtain ⟨d, hd⟩ := Option.isSome_iff_exists.mp hsome
  have hagrees := moduleSymbol_agrees {} (linkDisk 1) default linkUser .start
    (run_linkAsked hfirst) hwhole (run_linkMade 1) (.refl _)
  exact ⟨run_linkAsked hfirst, hwhole, hagrees, d, hd,
    hagrees.named ⟨0⟩ "x" (by unfold IsPlain; decide) himports d hd⟩

/-- What a chain of as many imports as are followed looks like. -/
theorem linkMade_limit :
    ((resolveModule "./a" linkUser).run (linkStart aliasHops)).1 = some ⟨2⟩ ∧
      ¬ (linkAsked aliasHops).HasWhole ⟨2⟩ ∧ (linkMade aliasHops).2.Imports ⟨0⟩ ⟨2⟩ "x" ∧
      ((pickDeclaration (some ⟨0⟩)).run (linkMade aliasHops).2).1 = none ∧
      ((pickDeclaration (linkStatic aliasHops)).run (linkMade aliasHops).2).1.isSome = true := by
  decide +kernel

/-- A name that is as many aliases away as are followed is reached through the namespace object
only, since the import of it is one more. -/
theorem not_pickDeclaration_eq :
    ¬ ∀ (settings : Settings) (disk : Disk) (library root : Source) (w asked made : Workspace)
      (specifier : String) (importer : Source) (module : ScopeId) (symbol : SymbolId),
      Reached (ofSource settings disk (.ofSource library) root) w →
      (resolveModule specifier importer).run w = (some module, asked) → ¬ asked.HasWhole module →
      (moduleSymbol module specifier).run asked = (symbol, made) →
      ∀ importing name, IsPlain name → made.Imports importing module name →
        ((pickDeclaration (some importing)).run made).1 =
          ((pickDeclaration ((made.store.symbol symbol).statics.find? name)).run made).1 := by
  -- At the limit the import fails, and the static does not.
  intro h
  obtain ⟨hfirst, hwhole, himports, hnone, hsome⟩ := linkMade_limit
  have hsame : ((pickDeclaration (some ⟨0⟩)).run (linkMade aliasHops).2).1 =
      ((pickDeclaration (linkStatic aliasHops)).run (linkMade aliasHops).2).1 :=
    h {} (linkDisk aliasHops) default linkUser (linkStart aliasHops) (linkAsked aliasHops)
      (linkMade aliasHops).2 "./a" linkUser ⟨2⟩ (linkMade aliasHops).1 .start
      (run_linkAsked hfirst) hwhole (run_linkMade aliasHops) ⟨0⟩ "x" (by unfold IsPlain; decide)
      himports
  rw [← hsame, hnone] at hsome
  exact Bool.false_ne_true hsome

end ScriptGraph.Workspace
