import ScriptGraph.Proofs.DepthFirst
import ScriptGraph.Proofs.Workspace.Reexports

/-!
# Searching for an export

The search for an export walks the graph of re-exports depth first, and finds a symbol when it
visits a pair that offers one. It gives up after `exportHops + 1` pairs.

- `searchExport_follows`: from the pairs seen so far the search does what a walk does
- `exportSymbol_isSome_iff`: the whole search
-/

namespace ScriptGraph.Workspace

open Binding Syntax

/-- The pairs that a search along `todo` has visited in the end. -/
def visits (w : Workspace) (todo seen : List ExportPair) : List ExportPair :=
  depthFirst w.leads (exportHops + 1) todo seen

/-- Two lists are visited one after the other. -/
theorem visits_append (w : Workspace) (todo rest seen : List ExportPair) :
    w.visits (todo ++ rest) seen = w.visits rest (w.visits todo seen) :=
  depthFirst_append rest

/-- What has been seen stays seen. -/
theorem suffix_visits (w : Workspace) (todo seen : List ExportPair) :
    seen <:+ w.visits todo seen :=
  suffix_depthFirst

/-- The outcome of a search that starts with the pairs `seen`. A symbol shows that the search had
one at hand or that a walk along `todo` visits a pair that offers one. Without a symbol there is
none at hand, the search has visited what the walk visits, and no new pair offers a symbol. -/
structure Searched (base : Workspace) (atHand : Workspace → Bool)
    (todo : Workspace → List ExportPair) (seen : List ExportPair)
    (r : Option SymbolId × List ExportPair) (w : Workspace) : Prop where
  grown : Grown base w
  found : r.1.isSome → w.Lasting fun v => atHand v ∨ ∃ pair ∈ v.visits (todo v) seen, v.offers pair
  missed : r.1 = none → w.Lasting fun v => atHand v = false ∧ r.2 = v.visits (todo v) seen ∧
    ∀ pair ∈ r.2, pair ∈ seen ∨ v.offers pair = false

/-- From any pairs seen so far, `least` of them at least, the action ends with an outcome of a
search. -/
def Searches (base : Workspace) (least : Nat) (x : ExportSearch (Option SymbolId))
    (atHand : Workspace → Bool) (todo : Workspace → List ExportPair) : Prop :=
  ∀ seen, least ≤ seen.length →
    Ensures (Grown base) (x.run seen) (Searched base atHand todo seen)

variable {base : Workspace} {least : Nat} {atHand atHand' : Workspace → Bool}
  {todo todo' : Workspace → List ExportPair}

namespace Searches

/-- A search that has found something goes no further. -/
theorem found {symbol : SymbolId} (h : base.Lasting fun v => atHand v) :
    Searches base least (pure (some symbol)) atHand todo :=
  fun _ _ => .pure fun _ hw =>
    { grown := hw
      found := fun _ => (h.mono hw.extends_base).imp fun _ => .inl
      missed := nofun }

/-- A search that has missed leaves what was seen. -/
theorem missed (h : base.Lasting fun v => atHand v = false)
    (hstay : ∀ seen, least ≤ seen.length → base.Lasting fun v => v.visits (todo v) seen = seen) :
    Searches base least (pure none) atHand todo :=
  fun seen hleast => .pure fun _ hw =>
    { grown := hw
      found := nofun
      missed := fun _ v hv =>
        have hv := hw.extends_base.trans hv
        ⟨h v hv, (hstay seen hleast v hv).symm, fun _ => .inl⟩ }

/-- A search without a symbol at hand that has nowhere to go. -/
theorem nothing (h : base.Lasting fun v => atHand v = false)
    (hnil : base.Lasting fun v => todo v = []) :
    Searches base least (pure none) atHand todo :=
  missed h fun _ _ => hnil.imp fun v hv => by rw [hv, visits, depthFirst_nil]

/-- What a search goes by may be told in another way. -/
theorem congr {x : ExportSearch (Option SymbolId)} (hx : Searches base least x atHand todo)
    (h : base.Lasting fun v => atHand v = atHand' v)
    (htodo : base.Lasting fun v => todo v = todo' v) : Searches base least x atHand' todo' := by
  intro seen hleast w hw
  have hs := hx seen hleast w hw
  refine { grown := hs.grown, found := fun hr v hv => ?_, missed := fun hr v hv => ?_ }
  -- Both ways to tell it agree from the base on.
  · have hbase := hs.grown.extends_base.trans hv
    dsimp only
    rw [← h v hbase, ← htodo v hbase]
    exact hs.found hr v hv
  · have hbase := hs.grown.extends_base.trans hv
    dsimp only
    rw [← h v hbase, ← htodo v hbase]
    exact hs.missed hr v hv

/-- A search goes on in the workspace that an action leaves. -/
theorem lift {α : Type} {x : StateM Workspace α} {f : α → ExportSearch (Option SymbolId)}
    {R : α → Workspace → Prop}
    (hx : ∀ now, base.Extends now → Ensures (Grown now) x fun a w => Grown now w ∧ R a w)
    (hf : ∀ a w, Grown base w → R a w → Searches w least (f a) atHand todo) :
    Searches base least (StateT.lift x >>= f) atHand todo := by
  intro seen hleast w hw
  obtain ⟨hnext, hr⟩ := hx w hw.extends_base w (.refl hw.coherent)
  have hgrown := hw.trans hnext
  have hs := hf _ _ hgrown hr seen hleast _ (.refl hnext.coherent)
  exact { hs with grown := hgrown.trans hs.grown }

end Searches

/-- One search after another one that has found nothing. -/
theorem Searched.trans {seen middle : List ExportPair} {r : Option SymbolId × List ExportPair}
    {now w : Workspace} (h : Searched base (fun _ => false) todo seen (none, middle) now)
    (h' : Searched now (fun _ => false) todo' middle r w) :
    Searched base (fun _ => false) (fun v => todo v ++ todo' v) seen r w := by
  have hmiddle := (h.missed rfl).mono h'.grown.extends_base
  refine ⟨h.grown.trans h'.grown, fun hr v hv => ?_, fun hr v hv => ?_⟩
  -- The second search goes on from what a walk along `todo` has visited.
  · obtain ⟨_, hmiddle, _⟩ := hmiddle v hv
    rw [visits_append, ← hmiddle]
    exact h'.found hr v hv
  · obtain ⟨_, hmiddle, hbefore⟩ := hmiddle v hv
    obtain ⟨hhand, hseen, hfailed⟩ := h'.missed hr v hv
    rw [visits_append, ← hmiddle]
    refine ⟨hhand, hseen, fun pair hp => ?_⟩
    rcases hfailed pair hp with hp | hp
    · exact hbefore pair hp
    · exact .inr hp

/-- Searches one after the other walk along one list after the other. -/
theorem firstFound_searches {α : Type} {search : α → ExportSearch (Option SymbolId)}
    {todo : α → Workspace → List ExportPair} (l : List α)
    (h : ∀ a ∈ l, ∀ now, base.Extends now →
      Searches now least (search a) (fun _ => false) (todo a)) :
    Searches base least (firstFound search l) (fun _ => false) fun v =>
      l.flatMap fun a => todo a v := by
  induction l generalizing base with
  | nil => exact .nothing (fun _ _ => rfl) fun _ _ => rfl
  | cons a rest ih =>
    intro seen hleast
    rw [firstFound, StateT.run_bind]
    -- The rest is searched only if nothing has been found, from what has been visited by then.
    refine .bind (h a List.mem_cons_self base (.refl base) seen hleast) fun r => ?_
    obtain ⟨_ | symbol, middle⟩ := r
    · intro now hs
      -- Nothing is forgotten, so enough pairs have been seen for the rest as well.
      have hlong : least ≤ middle.length := by
        have hmiddle : middle = _ := (hs.missed rfl now (.refl now)).2.1
        rw [hmiddle]
        exact Nat.le_trans hleast (suffix_visits _ _ _).length_le
      exact hs.trans (ih (fun b hb v hv => h b (List.mem_cons_of_mem _ hb) v
        (hs.grown.extends_base.trans hv)) middle hlong now (.refl hs.grown.coherent))
    · refine .pure fun w hs => ⟨hs.grown, fun hr v hv => .inr ?_, nofun⟩
      obtain hhand | ⟨pair, hpair, hoffers⟩ := hs.found rfl v hv
      · exact nomatch hhand
      · refine ⟨pair, ?_, hoffers⟩
        rw [List.flatMap_cons, visits_append]
        exact (suffix_visits _ _ _).subset hpair

/-! ## Searching a pair -/

/-- `follow` searches every pair of a module of the store. -/
def Follows (base : Workspace) (least : Nat)
    (follow : ScopeId → String → ExportSearch (Option SymbolId)) : Prop :=
  ∀ now module name, base.Extends now → now.HasModule module →
    Searches now least (follow module name) (fun _ => false) fun _ => [(module, name)]

/-- A search that follows names does so in workspaces that extend this one. -/
theorem Follows.mono {follow : ScopeId → String → ExportSearch (Option SymbolId)} {now : Workspace}
    (h : Follows base least follow) (hext : base.Extends now) : Follows now least follow :=
  fun later module name hlater => h later module name (hext.trans hlater)

section

variable {whole : ScopeId → String → StateM Workspace SymbolId}
  {follow : ScopeId → String → ExportSearch (Option SymbolId)} {module : ScopeId} {name : String}

/-- A module that is exported whole is searched where it leads. -/
theorem starSymbol?_searches (hfollow : Follows base least follow) (hm : base.HasModule module)
    (specifier : String) :
    Searches base least (starSymbol? follow module name specifier) (fun _ => false)
      fun v => v.pairNamed module specifier name := by
  refine .lift (fun now hnow => moduleNamed_lasting (hnow.hasModule hm)) ?_
  rintro (_ | target) now hnow ⟨htarget, hnamed⟩
  · exact .nothing (fun _ _ => rfl) fun v hv => pairNamed_of_named (hnamed v hv) name
  · exact (hfollow now target name hnow.extends_base (htarget target rfl)).congr (fun _ _ => rfl)
      fun v hv => (pairNamed_of_named (hnamed v hv) name).symm

/-- A name that the module has inside is looked up, which changes nothing. -/
theorem named_searches (hbase : base.Coherent) (hm : base.HasModule module) (inside : String) :
    Searches base least (entrySymbol? follow whole module name (.named inside))
      (·.entryOffers module (.named inside)) (·.entryLeads module name (.named inside)) := by
  have hlookup := hbase.lasting_lookup? hm inside
  unfold entrySymbol?
  refine .lift (x := get) (R := fun now w => w = now) (fun _ _ _ hw => ⟨hw, rfl⟩) ?_
  rintro _ now hnow rfl
  rw [hlookup now hnow.extends_base]
  -- What the look-up finds now is what it finds later.
  have hlater := hlookup.mono hnow.extends_base
  cases hfound : base.store.lookup? (fun _ => true) inside module with
  | some symbol =>
    refine .found fun v hv => ?_
    show (v.store.lookup? _ inside module).isSome
    rw [hlater v hv, hfound]
    rfl
  | none =>
    refine .nothing (fun v hv => ?_) fun _ _ => rfl
    show (v.store.lookup? _ inside module).isSome = false
    rw [hlater v hv, hfound]
    rfl

/-- A forwarded name is searched in the module that the specifier names; a whole module is a
namespace object. -/
theorem forwarded_searches (hwhole : Grows whole) (hfollow : Follows base least follow)
    (hm : base.HasModule module) (specifier imported : String) :
    Searches base least (entrySymbol? follow whole module name (.forwarded specifier imported))
      (·.entryOffers module (.forwarded specifier imported))
      (·.entryLeads module name (.forwarded specifier imported)) := by
  refine .lift (fun now hnow => moduleNamed_lasting (hnow.hasModule hm)) ?_
  rintro (_ | target) now hnow ⟨htarget, hnamed⟩
  · -- The specifier names no module.
    refine .nothing (fun v hv => ?_) fun v hv => ?_
    · simp only [entryOffers, hnamed v hv, Option.isSome_none, Bool.and_false]
    · simp only [entryLeads, pairNamed_of_named (hnamed v hv), Option.toList_none, List.map_nil,
        ite_self]
  dsimp only
  split
  · rename_i hstar
    -- A namespace object is at hand as soon as the module is known.
    refine .lift (R := fun _ _ => True)
      (fun now _ => (hwhole now target specifier).weaken fun _ _ h => ⟨h, trivial⟩) ?_
    intro symbol later hlater _
    refine .found fun v hv => ?_
    have hv := hlater.extends_base.trans hv
    simp only [entryOffers, hstar, hnamed v hv, Option.isSome_some, Bool.and_true]
  -- Any other name is searched in the target, which is where the pair leads.
  · rename_i hpart
    refine (hfollow now target _ hnow.extends_base (htarget target rfl)).congr (fun v _ => ?_)
      fun v hv => ?_
    · simp only [entryOffers, hpart, Bool.false_and]
    · simp only [entryLeads, hpart, pairNamed_of_named (hnamed v hv), Option.toList_some,
        List.map_cons, List.map_nil, Bool.false_eq_true, if_false]

/-- Searching a pair with an export entry goes where the entry points. -/
theorem entrySymbol?_searches (hwhole : Grows whole) (hfollow : Follows base least follow)
    (hbase : base.Coherent) (hm : base.HasModule module) (entry : ExportEntry) :
    Searches base least (entrySymbol? follow whole module name entry)
      (·.entryOffers module entry) (·.entryLeads module name entry) := by
  cases entry with
  | value symbol => exact .found fun _ _ => rfl
  | named inside => exact named_searches hbase hm inside
  | forwarded specifier imported => exact forwarded_searches hwhole hfollow hm specifier imported

/-- Searching a pair without an export entry goes through the modules whose exports are taken over,
or from the default to the whole export. -/
theorem unlisted_searches (hfollow : Follows base least follow) (hm : base.HasModule module)
    (hnone : base.Lasting fun v => v.store.exportEntry? module name = none) :
    Searches base least
      (if name != "default" then
        firstFound (starSymbol? follow module name) (base.store.scope module).starExports
      else if (base.store.scope module).exports.contains wholeExportName then
        follow module wholeExportName
      else return none)
      (·.offers (module, name)) (·.leads (module, name)) := by
  -- What the scope takes over and exposes stays the same.
  have hscope : base.Lasting fun v => v.store.scope module = base.store.scope module :=
    fun v hv => hv.store.scope_eq module hm
  have hoffers : base.Lasting fun v => false = v.offers (module, name) :=
    fun v hv => (offers_of_none (hnone v hv)).symm
  -- Only the default has a fallback; other names are looked for in what is taken over.
  split
  · rename_i hplain
    refine (firstFound_searches _ fun specifier _ now hnow =>
      starSymbol?_searches (hfollow.mono hnow) (hnow.hasModule hm) specifier).congr hoffers
        fun v hv => ?_
    have hleads := leads_of_plain (hnone v hv) (bne_iff_ne.mp hplain)
    rw [hscope v hv] at hleads
    exact hleads.symm
  rename_i hdefault
  obtain rfl : name = "default" := by
    simpa using hdefault
  split
  · rename_i hknown
    refine (hfollow base module _ (.refl base) hm).congr hoffers fun v hv => ?_
    have hleads := leads_of_default (hnone v hv)
    rw [hscope v hv, if_pos hknown] at hleads
    exact hleads.symm
  · rename_i hunknown
    refine .nothing (fun v hv => (hoffers v hv).symm) fun v hv => ?_
    have hleads := leads_of_default (hnone v hv)
    rw [hscope v hv, if_neg hunknown] at hleads
    exact hleads

/-- Searching a pair goes where the pair leads. -/
theorem pairSymbol?_searches (hwhole : Grows whole) (hfollow : Follows base least follow)
    (hm : base.HasModule module) :
    Searches base least (pairSymbol? follow whole module name) (·.offers (module, name))
      (·.leads (module, name)) := by
  refine .lift (x := get) (R := fun now w => w = now) (fun _ _ _ hw => ⟨hw, rfl⟩) ?_
  rintro _ now hnow rfl
  have hm := hnow.extends_base.hasModule hm
  have hfollow := hfollow.mono hnow.extends_base
  -- Whether the pair has an entry is decided for good.
  have hentry := hnow.coherent.lasting_entry hm name
  dsimp only
  split
  · rename_i entry hsome
    have hlater := hentry.imp fun v hv => hv.trans hsome
    exact (entrySymbol?_searches hwhole hfollow hnow.coherent hm entry).congr
      (fun v hv => (offers_of_entry (hlater v hv)).symm)
      fun v hv => (leads_of_entry (hlater v hv)).symm
  · rename_i hnone
    exact unlisted_searches hfollow hm (hentry.imp fun v hv => hv.trans hnone)

end

/-- A new pair is visited before the pairs that it leads to. -/
theorem Searched.of_visit {seen : List ExportPair} {pair : ExportPair} {now w : Workspace}
    {r : Option SymbolId × List ExportPair}
    (h : Searched now (·.offers pair) (·.leads pair) (pair :: seen) r w) (hbase : Grown base now)
    (hnew : ¬ (pair ∈ seen ∨ exportHops + 1 ≤ seen.length)) :
    Searched base (fun _ => false) (fun _ => [pair]) seen r w := by
  -- Visiting the pair puts it in front and goes on with what it leads to.
  have hvisits : ∀ v : Workspace, v.visits [pair] seen = v.visits (v.leads pair) (pair :: seen) :=
    fun v => by rw [visits, depthFirst_cons_of_new hnew, List.append_nil, visits]
  refine ⟨hbase.trans h.grown, fun hr v hv => .inr ?_, fun hr v hv => ⟨rfl, ?_⟩⟩
  · rw [hvisits v]
    obtain hoffers | hfound := h.found hr v hv
    · exact ⟨pair, (suffix_visits _ _ _).subset List.mem_cons_self, hoffers⟩
    · exact hfound
  · obtain ⟨hoffers, hseen, hfailed⟩ := h.missed hr v hv
    refine ⟨hseen.trans (hvisits v).symm, fun other ho => ?_⟩
    rcases hfailed other ho with ho | ho
    · rcases List.mem_cons.mp ho with rfl | ho
      · exact .inr hoffers
      · exact .inl ho
    · exact .inr ho

/-- The search visits what a walk visits, as long as `hops` allows for all the pairs that it may
still visit. -/
theorem searchExport_follows {whole : ScopeId → String → StateM Workspace SymbolId}
    (hwhole : Grows whole) (hops : Nat) :
    Follows base (exportHops + 1 - hops) (searchExport whole hops) := by
  -- The pairs seen and the hops left are more than `exportHops` at every call.
  induction hops generalizing base with
  | zero =>
    intro now module name _ _
    -- With no hops left so many pairs have been seen that a walk stops too.
    exact .missed (fun _ _ => rfl) fun seen hleast _ _ =>
      (depthFirst_cons_of_stop (.inr hleast)).trans depthFirst_nil
  | succ hops ih =>
    intro now module name _ hm seen hleast w hw
    rw [searchExport, StateT.run_bind, StateT.run_get, pure_bind]
    dsimp only
    split
    · rename_i hstop
      -- A walk stops at this pair as well.
      rw [Bool.or_eq_true, List.contains_iff_mem, decide_eq_true_eq] at hstop
      exact ⟨hw, nofun, fun _ v _ => ⟨rfl,
        ((depthFirst_cons_of_stop hstop).trans depthFirst_nil).symm, fun _ => .inl⟩⟩
    · rename_i hgo
      rw [Bool.or_eq_true, List.contains_iff_mem, decide_eq_true_eq] at hgo
      rw [StateT.run_bind, StateT.run_set, pure_bind]
      -- The pair is new, so the walk visits it and then goes where it leads.
      refine .of_visit (pairSymbol?_searches hwhole ih (hw.extends_base.hasModule hm)
        ((module, name) :: seen) ?_ w (.refl hw.coherent)) hw hgo
      rw [List.length_cons]
      omega

/-- A module exports a symbol under a name exactly when a pair that offers one is among the first
`exportHops + 1` pairs of the depth-first walk from the module and the name. These can all be
reached, and they are all that can be reached unless there are `exportHops + 1` of them. However
much the workspace learns, this stays so. -/
theorem exportSymbol_isSome_iff {w : Workspace} (hw : w.Coherent) {module : ScopeId}
    (hm : w.HasModule module) (name : String) {later : Workspace}
    (hlater : ((exportSymbol module name).run w).2.Extends later) :
    let visited := later.visits [(module, name)] []
    (((exportSymbol module name).run w).1.isSome ↔ ∃ pair ∈ visited, later.offers pair) ∧
      visited.Nodup ∧ visited.length ≤ exportHops + 1 ∧
      (∀ pair ∈ visited, later.Reaches (module, name) pair) ∧
      (visited.length ≤ exportHops →
        ∀ pair, later.Reaches (module, name) pair → pair ∈ visited) := by
  -- The search starts at one pair and has seen nothing.
  have hs : Searched w (fun _ => false) (fun _ => [(module, name)]) []
      (((searchExport moduleSymbol (exportHops + 2) module name).run []).run w).1
      ((exportSymbol module name).run w).2 :=
    searchExport_follows moduleSymbol_grows _ w module name (.refl w) hm [] (by decide) w (.refl hw)
  refine ⟨⟨fun h => ?_, fun ⟨pair, hpair, hoffers⟩ => ?_⟩, nodup_depthFirst .nil,
    length_depthFirst_le (Nat.zero_le _), fun pair hpair => ?_, fun hlt pair hreach =>
    mem_depthFirst_of_reaches (Nat.lt_succ_of_le hlt) hreach⟩
  · exact (hs.found h later hlater).resolve_left nofun
  · by_contra hnone
    obtain ⟨-, hseen, hfailed⟩ := hs.missed (Option.not_isSome_iff_eq_none.mp hnone) later hlater
    have hno := (hfailed pair (hseen ▸ hpair)).resolve_left nofun
    rw [hno] at hoffers
    exact nomatch hoffers
  · obtain hpair | ⟨_, hstart, hreach⟩ := reaches_of_mem_depthFirst hpair
    · exact nomatch hpair
    · exact List.mem_singleton.mp hstart ▸ hreach

/-! ## Chains and barrels

The search counts the pairs that it has visited, not the steps that lead to them. So the end of a
long chain is out of reach, and so is what the last of many modules next to each other offers. -/

/-- The specifier of a numbered module. -/
def numberedSpecifier (place : Nat) : String := "./m" ++ toString place

/-- A workspace of the modules up to a number. -/
def numbered (last : Nat) (module : Nat → Scope) : Workspace :=
  { (default : Workspace) with
    store := { scopes := Array.ofFn fun place : Fin (last + 1) => module place }
    modules := ⟨(List.range last).map fun place =>
      (("", numberedSpecifier (place + 1)), some ⟨place + 1⟩)⟩ }

section

variable {last : Nat} {module : Nat → Scope}

/-- The modules of the chain are there. -/
theorem numbered_hasModule {place : Nat} (h : place ≤ last) :
    (numbered last module).HasModule ⟨place⟩ := by
  show place < (Array.ofFn _).size
  rw [Array.size_ofFn]
  exact Nat.lt_succ_of_le h

/-- No module of the chain declares a name. -/
theorem numbered_table (hmodule : ∀ place, (module place).table = .own .empty) (id : ScopeId) :
    ((numbered last module).store.scope id).table = .own .empty := by
  show ((Array.ofFn fun place : Fin (last + 1) => module place).getD id.index default).table = _
  by_cases h : id.index < last + 1
  · simp only [Array.getD, Array.size_ofFn, h, dif_pos, Array.getInternal_eq_getElem,
      Array.getElem_ofFn]
    exact hmodule _
  · simp only [Array.getD, Array.size_ofFn, h, dif_neg, not_false_eq_true]
    rfl

/-- Modules without symbols of their own make a coherent workspace. -/
theorem numbered_coherent (hmodule : ∀ place, (module place).table = .own .empty) :
    (numbered last module).Coherent where
  -- No scope lists anything, so there is nothing to keep together.
  closed :=
    { owner_lt := fun id owner h => by
        rw [numbered_table hmodule] at h
        exact nomatch h
      symbol_lt := fun id e he => by
        rw [Store.symbolsOf, numbered_table hmodule] at he
        exact nomatch he }
  library := ⟨numbered_hasModule (Nat.zero_le _), nofun, nofun, nofun, nofun⟩
  bindings := nofun
  modules e he target htarget := by
    obtain ⟨place, hplace, rfl⟩ := List.mem_map.mp he
    cases htarget
    exact numbered_hasModule (List.mem_range.mp hplace)
  namespaces := nofun

end

/-- The module at a place of a chain: it takes `f` from the next one, and the last one has it. -/
def chainModule (last place : Nat) : Scope :=
  let entry := if place = last then .value ⟨0⟩ else .forwarded (numberedSpecifier (place + 1)) "f"
  { (default : Scope) with exports := ⟨[("f", entry)]⟩ }

/-- A workspace whose modules are a chain. -/
def chain (last : Nat) : Workspace :=
  numbered last (chainModule last)

/-- A chain of `exportHops` modules is followed to its end. -/
theorem exportSymbol_chain :
    let after := (exportSymbol ⟨0⟩ "f").run (chain exportHops)
    after.1.isSome ∧ ∃ pair ∈ after.2.visits [(⟨0⟩, "f")] [], after.2.offers pair := by
  have hsome : ((exportSymbol ⟨0⟩ "f").run (chain exportHops)).1.isSome := by decide +kernel
  exact ⟨hsome, (exportSymbol_isSome_iff (numbered_coherent fun _ => rfl)
    (numbered_hasModule (Nat.zero_le _)) "f" (.refl _)).1.mp hsome⟩

/-- The module at a place of a barrel: the first one takes over what all others export, and the
last one has `x`. -/
def barrelModule (last place : Nat) : Scope :=
  { (default : Scope) with
    exports := if place = last then ⟨[("x", .value ⟨0⟩)]⟩ else .empty
    starExports := if place = 0 then (List.range last).map fun k => numberedSpecifier (k + 1)
      else [] }

/-- A workspace whose modules are a barrel and those next to it. -/
def barrel (last : Nat) : Workspace :=
  numbered last (barrelModule last)

/-- A barrel may be too wide: the search is through before it comes to the last module, which is
one step away and offers a symbol. -/
theorem not_exportSymbol_isSome_iff_reaches :
    ¬ ∀ w : Workspace, w.Coherent → ∀ module, w.HasModule module → ∀ name later,
      ((exportSymbol module name).run w).2.Extends later →
      (((exportSymbol module name).run w).1.isSome ↔
        ∃ pair, later.Reaches (module, name) pair ∧ later.offers pair) := by
  intro h
  -- The barrel is as wide as the search is long, and the last module is the one that exposes `x`.
  let w := barrel (exportHops + 1)
  let later := ((exportSymbol ⟨0⟩ "x").run w).2
  have hnone : ((exportSymbol ⟨0⟩ "x").run w).1.isSome = false := by decide +kernel
  obtain ⟨pair, hnext, hoffers⟩ :
      ∃ pair ∈ later.leads (⟨0⟩, "x"), later.offers pair = true := by decide +kernel
  have hsome := (h w (numbered_coherent fun _ => rfl) ⟨0⟩ (numbered_hasModule (Nat.zero_le _)) "x"
    later (.refl _)).mpr ⟨pair, .single hnext, hoffers⟩
  rw [hnone] at hsome
  exact nomatch hsome

end ScriptGraph.Workspace
