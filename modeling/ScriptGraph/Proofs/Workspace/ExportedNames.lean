import ScriptGraph.Proofs.Workspace.Size

/-!
# The names that a module exports

The names of a module are gathered along the modules whose exports it takes over, each of them once.
The traversal is deep enough for all modules that there are, so it misses none, and a search for any
other name finds nothing.

- `Workspace.Traversed`: what a traversal leaves behind
- `Workspace.exportedNamesFrom_traverses`: a traversal from any modules visited so far
- `Workspace.exportedNames_complete`: nothing is exported under any other name
-/

namespace ScriptGraph.Workspace

open Binding Syntax

variable {base old new w : Workspace} {module : ScopeId} {names more : List String}
  {seen visited : List ScopeId}

/-! ## Names -/

/-- A name that a module has an entry for is one of its own. -/
theorem mem_ownExports {store : Store} {name : String}
    (h : (store.exportEntry? module name).isSome) : name ∈ ownExports store module := by
  have hkeys : ∀ {β : Type} {t : Table String β} {v : β}, t.find? name = some v →
      name ∈ t.keys := fun hv => List.mem_map_of_mem (Table.mem_entries_of_find? hv)
  unfold Store.exportEntry? at h
  unfold ownExports
  dsimp only at h ⊢
  cases hlisted : (store.scope module).exports.find? name with
  | some entry =>
    split
    · exact List.mem_append_left _ (hkeys hlisted)
    · exact hkeys hlisted
  | none =>
    rw [hlisted] at h
    dsimp only at h
    split at h
    next hall =>
      rw [if_pos hall]
      obtain ⟨entry, hentry⟩ := Option.isSome_iff_exists.mp h
      obtain ⟨symbol, hsymbol, -⟩ := Option.map_eq_some_iff.mp hentry
      -- A symbol that is not listed counts as an export of its own.
      refine List.mem_append_right _ (List.mem_filter.mpr ⟨hkeys hsymbol, ?_⟩)
      rw [Table.contains_eq_false_of_find? hlisted]
      rfl
    next => exact absurd h Bool.false_ne_true

/-- Names that are added are those that were there and the new ones, less the default. -/
theorem mem_addNames {name : String} :
    name ∈ addNames names more ↔ name ∈ names ∨ name ∈ more ∧ name ≠ "default" := by
  induction more generalizing names with
  | nil => simp [addNames]
  | cons n rest ih =>
    rw [addNames, ih]
    -- A name is skipped if it is the default or there already.
    by_cases hskip : n == "default" || names.contains n
    · rw [if_pos hskip]
      rw [Bool.or_eq_true, beq_iff_eq, List.contains_iff_mem] at hskip
      constructor
      · exact Or.imp_right fun h => ⟨List.mem_cons_of_mem _ h.1, h.2⟩
      · rintro (h | ⟨h, hplain⟩)
        · exact .inl h
        · rcases List.mem_cons.mp h with rfl | h
          · exact .inl (hskip.resolve_left hplain)
          · exact .inr ⟨h, hplain⟩
    · rw [if_neg hskip]
      rw [Bool.or_eq_true, beq_iff_eq, not_or] at hskip
      simp only [List.mem_append, List.mem_cons, List.not_mem_nil, or_false, or_assoc, or_and_right]
      have hn : name = n ↔ name = n ∧ name ≠ "default" := ⟨fun h => ⟨h, h ▸ hskip.1⟩, And.left⟩
      rw [← hn]

/-! ## The traversal -/

/-- Some specifiers in the file of a module have been settled, and none of them leads out of some
modules. -/
def LeadsInto (w : Workspace) (module : ScopeId) (specifiers : List String)
    (region : List ScopeId) : Prop :=
  ∀ specifier ∈ specifiers, ∃ found,
    w.Settled specifier (w.store.scope module).node.source found ∧
      ∀ target, found = some target → target ∈ region

/-- Modules that are taken over stay in the region in a steady workspace. -/
theorem LeadsInto.steady {specifiers : List String} {region : List ScopeId}
    (h : old.LeadsInto module specifiers region) (hsteady : old.Steady new)
    (hm : old.HasModule module) : new.LeadsInto module specifiers region := by
  intro specifier hs
  obtain ⟨found, hsettled, htarget⟩ := h specifier hs
  refine ⟨found, ?_, htarget⟩
  rw [hsteady.scope_eq module hm]
  exact hsettled.keep hsteady.modules

/-- They stay in a larger region. -/
theorem LeadsInto.mono {specifiers : List String} {region larger : List ScopeId}
    (h : w.LeadsInto module specifiers region) (hsub : region ⊆ larger) :
    w.LeadsInto module specifiers larger := fun specifier hs =>
  let ⟨found, hsettled, htarget⟩ := h specifier hs
  ⟨found, hsettled, fun target ht => hsub (htarget target ht)⟩

/-- Different modules have been visited in a workspace that is sound and within its bound. -/
structure Marked (visited : List ScopeId) (w : Workspace) : Prop where
  sound : w.Sound
  bounded : w.Bounded
  nodup : visited.Nodup
  hasModule : ∀ m ∈ visited, w.HasModule m

/-- What a traversal leaves behind that starts with the modules `seen`. The names are among the ones
gathered under which a module visited on the way has an entry, except for the default, and the
modules that it takes over the exports of have been visited. -/
structure Traversed (base : Workspace) (seen : List ScopeId) (names : List String)
    (visited : List ScopeId) (w : Workspace) : Prop extends Marked visited w where
  later : base.Later w
  suffix : seen <:+ visited
  names : ∀ m ∈ visited, m ∉ seen → ∀ name ≠ "default",
    (w.store.exportEntry? m name).isSome → name ∈ names
  closed : ∀ m ∈ visited, m ∉ seen → w.LeadsInto m (w.store.scope m).starExports visited

/-- At first only the modules that were marked have been visited. -/
theorem Traversed.start (h : Marked seen w) : Traversed w seen names seen w where
  toMarked := h
  later := .refl w
  suffix := List.suffix_rfl
  names _ hm hnew := absurd hm hnew
  closed _ hm hnew := absurd hm hnew

/-- One traversal after another. -/
theorem Traversed.append {now : Workspace} {next : List ScopeId}
    (h : Traversed base seen names visited now) (h' : Traversed now visited more next w) :
    Traversed base seen (addNames names more) next w where
  toMarked := h'.toMarked
  later := h.later.trans h'.later
  suffix := h.suffix.trans h'.suffix
  names m hm hnew name hplain hentry := by
    -- A module was visited before, or it is visited by the second traversal.
    by_cases hbefore : m ∈ visited
    · rw [h'.later.store.exportEntry?_eq h.sound.store (h.hasModule m hbefore)] at hentry
      exact mem_addNames.mpr (.inl (h.names m hbefore hnew name hplain hentry))
    · exact mem_addNames.mpr (.inr ⟨h'.names m hm hbefore name hplain hentry, hplain⟩)
  closed m hm hnew := by
    by_cases hbefore : m ∈ visited
    · have hmodule := h.hasModule m hbefore
      rw [h'.later.store.scope_eq m hmodule]
      exact ((h.closed m hbefore hnew).steady (h'.later.steady h.sound) hmodule).mono
        h'.suffix.subset
    · exact h'.closed m hm hbefore

/-- What has been traversed has been traversed later on. -/
theorem Traversed.later_right {next : Workspace} (h : Traversed base seen names visited w)
    (hnext : w.Later next) (hsound : next.Sound) (hbounded : next.Bounded) :
    Traversed base seen names visited next := by
  have hmarked : Marked visited next :=
    ⟨hsound, hbounded, h.nodup, fun m hm => hnext.hasModule (h.hasModule m hm)⟩
  refine { hmarked with
    later := h.later.trans hnext
    suffix := h.suffix
    names := fun m hm hnew name hplain hentry => ?_
    closed := fun m hm hnew => ?_ }
  -- The tables of the modules that have been traversed do not change any more.
  · rw [hnext.store.exportEntry?_eq h.sound.store (h.hasModule m hm)] at hentry
    exact h.names m hm hnew name hplain hentry
  · rw [hnext.store.scope_eq m (h.hasModule m hm)]
    exact (h.closed m hm hnew).steady (hnext.steady h.sound) (h.hasModule m hm)

/-- Asking for a module settles which one it is, and binds a file at most. -/
theorem moduleNamed_settles (hsound : w.Sound) (hbounded : w.Bounded) (hm : w.HasModule module)
    (specifier : String) :
    let r := (moduleNamed module specifier).run w
    w.Later r.2 ∧ r.2.Sound ∧ r.2.Bounded ∧ (∀ target, r.1 = some target → r.2.HasModule target) ∧
      r.2.Settled specifier (r.2.store.scope module).node.source r.1 := by
  have hforetells : Foretells False w (moduleNamed module specifier) _ _ :=
    moduleNamed_foretells hm specifier
  obtain ⟨hlater, hsound', htarget, -⟩ := hforetells w (.refl w) hsound
  -- Asking once settles the answer for the file, whatever it is.
  obtain ⟨-, -, hsettled⟩ := @resolveModule_grown w specifier (w.store.scope module).node.source w
    (.refl hsound.coherent)
  refine ⟨hlater, hsound',
    (resolveModule_bounded specifier (w.store.scope module).node.source w ⟨hbounded, rfl⟩).1,
    htarget, ?_⟩
  rw [hlater.store.scope_eq module hm]
  exact hsettled

/-- Adds the names of a module whose exports are taken over. -/
def takeNames (depth : Nat) (module : ScopeId) (names : List String) (specifier : String) :
    StateT (List ScopeId) (StateM Workspace) (List String) := do
  match ← moduleNamed module specifier with
  | none => return names
  | some target => return addNames names (← exportedNamesFrom depth target)

/-- Taking over a module resolves it and collects its names. -/
theorem run_takeNames (depth : Nat) (module : ScopeId) (names : List String) (specifier : String)
    (visited : List ScopeId) (w : Workspace) :
    ((takeNames depth module names specifier).run visited).run w =
      match (moduleNamed module specifier).run w with
      | (none, now) => ((names, visited), now)
      | (some target, now) =>
        let r := ((exportedNamesFrom depth target).run visited).run now
        ((addNames names r.1.1, r.1.2), r.2) := by
  show (match ((moduleNamed module specifier).run w).1 with | none => _ | some target => _ :
    StateT (List ScopeId) (StateM Workspace) (List String)) visited
      ((moduleNamed module specifier).run w).2 = _
  -- No module, or one whose names are gathered below.
  rcases (moduleNamed module specifier).run w with ⟨_ | target, now⟩
  · rfl
  · rfl

/-- A module that was visited before adds nothing. -/
theorem run_exportedNamesFrom (depth : Nat) (module : ScopeId) (seen : List ScopeId)
    (w : Workspace) :
    ((exportedNamesFrom (depth + 1) module).run seen).run w =
      if module ∈ seen then (([], seen), w)
      else (((w.store.scope module).starExports.foldlM (takeNames depth module)
        (ownExports w.store module)).run (module :: seen)).run w := by
  rw [exportedNamesFrom, StateT.run_bind, StateT.run_get, pure_bind]
  dsimp only
  by_cases h : module ∈ seen
  · rw [if_pos h, if_pos (List.contains_iff_mem.mpr h)]
    rfl
  · rw [if_neg h, if_neg (mt List.contains_iff_mem.mp h)]
    rfl

/-- What has been gathered when the specifiers `gone` of the exports that a module takes over have
been gone through. All names that the module itself has an entry for are there from the start. -/
structure Gathers (base : Workspace) (module : ScopeId) (seen : List ScopeId) (gone : List String)
    (r : List String × List ScopeId) (w : Workspace) : Prop where
  traversed : Traversed base (module :: seen) r.1 r.2 w
  hasModule : w.HasModule module
  own : ∀ name, (w.store.exportEntry? module name).isSome → name ∈ r.1
  taken : w.LeadsInto module gone r.2

/-- When all modules that are taken over have been gone through, the module has been traversed. -/
theorem Gathers.finish {gone : List String} {r : List String × List ScopeId}
    (h : Gathers base module seen gone r w) (hgone : gone = (w.store.scope module).starExports) :
    Traversed base seen r.1 r.2 w ∧ module ∈ r.2 ∧
      ∀ name, (w.store.exportEntry? module name).isSome → name ∈ r.1 := by
  have ht := h.traversed
  refine ⟨{ toMarked := ht.toMarked
            later := ht.later
            suffix := (List.suffix_cons _ _).trans ht.suffix
            names := fun m hm hnew name hplain hentry => ?_
            closed := fun m hm hnew => ?_ }, ht.suffix.subset List.mem_cons_self, h.own⟩
  -- The module itself counts among those that have been visited on the way.
  · by_cases hmodule : m = module
    · exact h.own name (hmodule ▸ hentry)
    · exact ht.names m hm (by simp [hmodule, hnew]) name hplain hentry
  · by_cases hmodule : m = module
    · exact hmodule ▸ hgone ▸ h.taken
    · exact ht.closed m hm (by simp [hmodule, hnew])

/-- From any modules visited so far a traversal gathers the names of a module and visits it, as long
as `depth` allows for all modules that may still be visited. -/
def Gatherer (depth : Nat) : Prop :=
  ∀ (w : Workspace) (module : ScopeId) (seen : List ScopeId), Marked seen w → w.HasModule module →
    w.size < depth + seen.length →
    let r := ((exportedNamesFrom depth module).run seen).run w
    Traversed w seen r.1.1 r.1.2 r.2 ∧ module ∈ r.1.2 ∧
      (module ∉ seen → ∀ name, (r.2.store.exportEntry? module name).isSome → name ∈ r.1.1)

/-- Taking over one more module goes on gathering. -/
theorem takeNames_gathers {depth : Nat} (hdepth : Gatherer depth)
    (hsize : base.size < depth + (seen.length + 1)) (gone : List String) (specifier : String)
    (names : List String) (visited : List ScopeId) :
    Ensures (Gathers base module seen gone (names, visited))
      ((takeNames depth module names specifier).run visited)
      (Gathers base module seen (gone ++ [specifier])) := by
  intro w hw
  obtain ⟨hlater, hsound, hbounded, htarget, hsettled⟩ :=
    moduleNamed_settles hw.traversed.sound hw.traversed.bounded hw.hasModule specifier
  have hnow := hw.traversed.later_right hlater hsound hbounded
  have hown : ∀ next : Workspace, w.Later next → ∀ name,
      (next.store.exportEntry? module name).isSome → name ∈ names :=
        fun next hnext name hentry => by
    rw [hnext.store.exportEntry?_eq hw.traversed.sound.store hw.hasModule] at hentry
    exact hw.own name hentry
  -- What is taken over leads into the modules visited, whichever they are.
  have htaken : ∀ (next : Workspace) (target : Option ScopeId) (region : List ScopeId),
      w.Later next → visited ⊆ region → (∀ t, target = some t → t ∈ region) →
      next.Settled specifier (next.store.scope module).node.source target →
      next.LeadsInto module (gone ++ [specifier]) region := by
    intro next target region hnext hsub htarget hsettled other ho
    rcases List.mem_append.mp ho with ho | ho
    · exact ((hw.taken.steady (hnext.steady hw.traversed.sound) hw.hasModule).mono hsub) other ho
    · exact ⟨target, List.mem_singleton.mp ho ▸ hsettled, htarget⟩
  rw [run_takeNames]
  revert hlater hsound hbounded htarget hsettled hnow
  rcases (moduleNamed module specifier).run w with ⟨_ | target, now⟩
  -- The invariant is told again for the module that was found, or for none.
  all_goals
    intro hlater hsound hbounded htarget hsettled hnow
    dsimp only at hlater hsound hbounded htarget hsettled hnow ⊢
  · exact ⟨hnow, hlater.hasModule hw.hasModule, hown now hlater,
      htaken now none visited hlater (List.Subset.refl _) nofun hsettled⟩
  · have hmarked : Marked visited now := hnow.toMarked
    -- The depth is enough as long as it exceeds the modules that are left.
    have hlong : now.size < depth + visited.length := by
      have hle := hnow.suffix.length_le
      rw [hnow.later.size_eq]
      rw [List.length_cons] at hle
      omega
    obtain ⟨hnext, hmem, -⟩ := hdepth now target visited hmarked (htarget target rfl) hlong
    have hlater' := hlater.trans hnext.later
    refine ⟨hnow.append hnext, hlater'.hasModule hw.hasModule, fun name hentry =>
      mem_addNames.mpr (.inl (hown _ hlater' name hentry)),
      htaken _ (some target) _ hlater' hnext.suffix.subset
        (fun t ht => Option.some.inj ht ▸ hmem) ?_⟩
    rw [hnext.later.store.scope_eq module (hlater.hasModule hw.hasModule)]
    exact hsettled.later hnext.later

/-- Collecting names gathers them, at a depth that suffices for what is left. -/
theorem exportedNamesFrom_gatherer (depth : Nat) : Gatherer depth := by
  -- The modules that a module takes over are traversed one level deeper.
  induction depth with
  | zero =>
    intro w module seen h hm hdepth
    -- More modules would have been visited than there are.
    have hle := h.bounded.length_le h.nodup h.hasModule
    omega
  | succ depth ih =>
    intro w module seen h hm hdepth
    rw [run_exportedNamesFrom]
    dsimp only
    split
    next hseen => exact ⟨.start h, hseen, fun hnew => absurd hseen hnew⟩
    next hnew =>
      have hmarked : Marked (module :: seen) w :=
        ⟨h.sound, h.bounded, List.nodup_cons.mpr ⟨hnew, h.nodup⟩,
          List.forall_mem_cons.mpr ⟨hm, h.hasModule⟩⟩
      have hstart : Gathers w module seen [] (ownExports w.store module, module :: seen) w :=
        ⟨.start hmarked, hm, fun _ => mem_ownExports, fun _ h => absurd h List.not_mem_nil⟩
      have hstep : ∀ gone specifier names visited,
          Ensures (Gathers w module seen gone (names, visited))
            ((takeNames depth module names specifier).run visited)
            (Gathers w module seen (gone ++ [specifier])) :=
        fun gone specifier names visited =>
          takeNames_gathers ih (by omega) gone specifier names visited
      have hdone := Ensures.foldlM_from (l := (w.store.scope module).starExports) hstep []
        (ownExports w.store module) (module :: seen) w hstart
      rw [List.nil_append] at hdone
      obtain ⟨htraversed, hmem, hown⟩ :=
        hdone.finish (congrArg Scope.starExports
          (hdone.traversed.later.store.scope_eq module hm)).symm
      exact ⟨htraversed, hmem, fun _ => hown⟩

/-! ## Names that are not exported -/

/-- An action finds an answer and changes nothing, as long as a workspace keeps what searches go
by. -/
def Knows {α : Type} (w : Workspace) (x : StateM Workspace α) (a : α) : Prop :=
  ∀ next, w.Steady next → x.run next = (a, next)

/-- What a workspace knows it knows when it is steady. -/
theorem Knows.steady {α : Type} {x : StateM Workspace α} {a : α} (h : old.Knows x a)
    (hsteady : old.Steady new) : new.Knows x a :=
  fun next hnext => h next (hsteady.trans hnext)

/-- Some modules take over the exports of each other only. -/
def Enclosed (w : Workspace) (region : List ScopeId) : Prop :=
  ∀ m ∈ region, w.HasModule m ∧ w.LeadsInto m (w.store.scope m).starExports region

/-- An enclosed region stays enclosed in a steady workspace. -/
theorem Enclosed.steady {region : List ScopeId} (h : old.Enclosed region)
    (hsteady : old.Steady new) : new.Enclosed region := fun m hm => by
  obtain ⟨hmodule, hleads⟩ := h m hm
  rw [hsteady.scope_eq m hmodule]
  exact ⟨hsteady.hasModule hmodule, hleads.steady hsteady hmodule⟩

/-- A search finds nothing and changes nothing, whatever it has visited. -/
def Misses (w : Workspace) (x : ExportSearch (Option SymbolId)) : Prop :=
  ∀ seen, ∃ seen', (x.run seen).run w = ((none, seen'), w)

section Misses

variable {follow : ScopeId → String → ExportSearch (Option SymbolId)}
  {whole : ScopeId → String → StateM Workspace SymbolId} {name : String}

/-- A search that finds nothing misses. -/
theorem misses_none (w : Workspace) : w.Misses (return none) :=
  fun seen => ⟨seen, rfl⟩

/-- A search through a list misses if all its parts do. -/
theorem firstFound_misses {α : Type} {search : α → ExportSearch (Option SymbolId)} {l : List α}
    (h : ∀ a ∈ l, w.Misses (search a)) : w.Misses (firstFound search l) := by
  induction l with
  | nil => exact misses_none w
  | cons a rest ih =>
    intro seen
    obtain ⟨middle, hfirst⟩ := h a List.mem_cons_self seen
    obtain ⟨seen', hrest⟩ := ih (fun b hb => h b (List.mem_cons_of_mem _ hb)) middle
    refine ⟨seen', ?_⟩
    rw [firstFound, StateT.run_bind, StateT.run_bind, hfirst]
    exact hrest

/-- A module that is exported whole is resolved and followed. -/
theorem run_starSymbol? (specifier : String) (seen : List (ScopeId × String)) (w : Workspace) :
    ((starSymbol? follow module name specifier).run seen).run w =
      match (moduleNamed module specifier).run w with
      | (none, now) => ((none, seen), now)
      | (some target, now) => ((follow target name).run seen).run now := by
  show (match ((moduleNamed module specifier).run w).1 with | none => _ | some target => _ :
    ExportSearch (Option SymbolId)) seen ((moduleNamed module specifier).run w).2 = _
  rcases (moduleNamed module specifier).run w with ⟨_ | target, now⟩
  · rfl
  · rfl

/-- Following it misses if there is no such module, or nothing in it. -/
theorem starSymbol?_misses {specifier : String} {found : Option ScopeId}
    (hsettled : w.Settled specifier (w.store.scope module).node.source found)
    (h : ∀ target, found = some target → w.Misses (follow target name)) :
    w.Misses (starSymbol? follow module name specifier) := by
  intro seen
  have hnamed : (moduleNamed module specifier).run w = (found, w) := hsettled.resolveModule_eq
  rw [run_starSymbol?, hnamed]
  cases found with
  | none => exact ⟨seen, rfl⟩
  | some target => exact h target rfl seen

/-- A pair without an entry is searched in the modules whose exports are taken over, unless it is
the default. -/
theorem pairSymbol?_misses (hentry : w.store.exportEntry? module name = none)
    (hstars : name ≠ "default" → ∀ specifier ∈ (w.store.scope module).starExports,
      w.Misses (starSymbol? follow module name specifier))
    (hwhole : name = "default" →
      (w.store.scope module).exports.contains wholeExportName = false) :
    w.Misses (pairSymbol? follow whole module name) := by
  intro seen
  unfold pairSymbol?
  rw [StateT.run_bind]
  show ∃ seen', ((pure w : StateM Workspace Workspace) >>= fun _ => StateT.run _ seen).run w = _
  rw [pure_bind]
  dsimp only
  rw [hentry]
  dsimp only
  -- Only the default stops at the stars, as it is not taken over.
  by_cases hplain : name = "default"
  · rw [if_neg (by simp [hplain]), hwhole hplain, if_neg Bool.false_ne_true]
    exact ⟨seen, rfl⟩
  · rw [if_pos (bne_iff_ne.mpr hplain)]
    exact firstFound_misses (hstars hplain) seen

/-- The search misses if the name is missing in the module. -/
theorem searchExport_misses {hops : Nat}
    (h : w.Misses (pairSymbol? (searchExport whole hops) whole module name)) :
    w.Misses (searchExport whole (hops + 1) module name) := by
  intro seen
  rw [searchExport, StateT.run_bind, StateT.run_get, pure_bind]
  dsimp only
  split
  · exact ⟨seen, rfl⟩
  · exact h _

/-- A search among such modules finds nothing under a name that none of them has an entry for. -/
theorem Enclosed.misses {region : List ScopeId} (h : w.Enclosed region)
    (hplain : name ≠ "default") (hnone : ∀ m ∈ region, w.store.exportEntry? m name = none)
    (hops : Nat) : ∀ m ∈ region, w.Misses (searchExport whole hops m name) := by
  -- The modules that are taken over are searched with fewer hops.
  induction hops with
  | zero => exact fun _ _ => misses_none w
  | succ hops ih =>
    intro m hm
    obtain ⟨-, hleads⟩ := h m hm
    refine searchExport_misses (pairSymbol?_misses (hnone m hm) (fun _ specifier hs => ?_)
      fun hdefault => absurd hdefault hplain)
    obtain ⟨found, hsettled, htarget⟩ := hleads specifier hs
    exact starSymbol?_misses hsettled fun target ht => ih target (htarget target ht)

/-- What a search misses, no export is found under. -/
theorem Misses.run_exportIn (h : w.Misses (searchExport whole (exportHops + 2) module name)) :
    (exportIn whole module name).run w = (none, w) := by
  obtain ⟨seen', hmiss⟩ := h []
  rw [exportIn, StateT.run_bind, hmiss]
  rfl

end Misses

/-- The depth of the collection comes from the size of the workspace. -/
theorem run_exportedNames (module : ScopeId) (w : Workspace) :
    (exportedNames module).run w =
      let r := ((exportedNamesFrom (w.size + 1) module).run []).run w
      (r.1.1, r.2) :=
  rfl

/-- When the names of a module have been gathered, nothing is exported under any other name, and
looking for it changes nothing. -/
theorem exportedNames_complete (hsound : w.Sound) (hbounded : w.Bounded) (hm : w.HasModule module)
    (hwhole : (w.store.scope module).exports.contains wholeExportName = false) :
    let r := (exportedNames module).run w
    w.Later r.2 ∧ r.2.Sound ∧ r.2.Bounded ∧
      ∀ name ∉ r.1, r.2.Knows (exportSymbol module name) none := by
  have hstart : Marked [] w := ⟨hsound, hbounded, List.nodup_nil, nofun⟩
  obtain ⟨htraversed, hmem, hown⟩ := exportedNamesFrom_gatherer (w.size + 1) w module [] hstart hm
    (Nat.lt_succ_self _)
  rw [run_exportedNames]
  -- The result of the walk is named, as everything is said about it.
  revert htraversed hmem hown
  generalize ((exportedNamesFrom (w.size + 1) module).run []).run w = r
  intro htraversed hmem hown
  have hlater := htraversed.later
  refine ⟨hlater, htraversed.sound, htraversed.bounded, fun name hname next hnext => ?_⟩
  have hnone : ∀ m, r.2.HasModule m → ¬ (r.2.store.exportEntry? m name).isSome →
      next.store.exportEntry? m name = none := fun m hm hmiss => by
    rw [hnext.exportEntry?_eq m hm]
    exact Option.not_isSome_iff_eq_none.mp hmiss
  refine Misses.run_exportIn ?_
  by_cases hplain : name = "default"
  · -- The default is not taken over from other modules.
    refine searchExport_misses (pairSymbol?_misses ?_ (absurd hplain) fun _ => ?_)
    · exact hnone module (hlater.hasModule hm) fun h => hname (hown List.not_mem_nil name h)
    · rw [hnext.scope_eq module (hlater.hasModule hm), hlater.store.scope_eq module hm]
      exact hwhole
  -- Everything that has been visited is closed under taking over, so it is all there is to search.
  · have henclosed : r.2.Enclosed r.1.2 := fun m hm =>
      ⟨htraversed.hasModule m hm, htraversed.closed m hm List.not_mem_nil⟩
    refine (henclosed.steady hnext).misses hplain (fun m hm => ?_) _ module hmem
    exact hnone m (htraversed.hasModule m hm) fun h =>
      hname (htraversed.names m hm List.not_mem_nil name hplain h)

end ScriptGraph.Workspace
