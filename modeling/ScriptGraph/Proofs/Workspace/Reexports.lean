import Mathlib.Logic.Relation
import ScriptGraph.Proofs.Workspace.Growth

/-!
# The graph of re-exports

A module and a name form a pair. How the module exports the name decides whether the pair offers a
symbol or leads to other pairs: to one pair of another module, to every module whose exports are
taken over, or to the whole export of the same module.

A workspace learns more as it is asked, so what is known of a pair is stated for every later
workspace as well: `Workspace.Lasting`.

- `offers`, `leads`: what a pair offers, and the pairs that it leads to
- `Coherent.lasting_entry`: how a module exports a name stays the same
- `moduleNamed_lasting`: so does a module that has been asked for
-/

namespace ScriptGraph

open Binding Syntax

namespace Binding

variable {old new : Store}

/-- Looking up a name finds the same symbol when the store grows. -/
theorem Store.Closed.lookup?_extends (h : old.Closed) (hext : old.Extends new) (name : String)
    {id : ScopeId} (hid : id.index < old.scopes.size) :
    new.lookup? (fun _ => true) name id = old.lookup? (fun _ => true) name id := by
  -- The scope has the same symbols, and they have the same declarations.
  have hfind : ((new.symbolsOf id).find? name).filter (new.hasKind fun _ => true) =
      ((old.symbolsOf id).find? name).filter (old.hasKind fun _ => true) := by
    rw [h.symbolsOf_extends hext hid]
    cases hs : (old.symbolsOf id).find? name with
    | none => rfl
    | some symbol =>
      have hlt := h.symbol_lt id _ (Table.mem_entries_of_find? hs)
      have hkind : new.hasKind (fun _ => true) symbol = old.hasKind (fun _ => true) symbol := by
        unfold Store.hasKind Store.firstOf
        rw [hext.symbol_eq symbol hlt]
      show (if new.hasKind _ symbol then some symbol else none) = _
      rw [hkind]
      rfl
  unfold Store.lookup?
  rw [hfind, hext.scope_eq id hid]
  split
  · rfl
  · split
    · rfl
    · split
      · rename_i up _ hup
        exact lookup?_extends h hext name (Nat.lt_trans hup hid)
      · rfl
termination_by id.index

/-- A module exposes a name in the same way when the store grows. -/
theorem Store.Closed.exportEntry?_extends (h : old.Closed) (hext : old.Extends new) (name : String)
    {id : ScopeId} (hid : id.index < old.scopes.size) :
    new.exportEntry? id name = old.exportEntry? id name := by
  unfold Store.exportEntry?
  rw [hext.scope_eq id hid, h.symbolsOf_extends hext hid]

end Binding

namespace Workspace

/-- A module and a name that it may export. -/
abbrev ExportPair := ScopeId × String

/-- The module that a specifier names in the file of a module. -/
def named? (w : Workspace) (module : ScopeId) (specifier : String) : Option ScopeId :=
  ((moduleNamed module specifier).run w).1

/-- The pair of a name and the module that a specifier names, if there is one. -/
def pairNamed (w : Workspace) (module : ScopeId) (specifier name : String) : List ExportPair :=
  (w.named? module specifier).toList.map fun target => (target, name)

/-- Whether an export entry has a symbol at hand: a value, a name that is found in the module, or
the namespace object of a module that resolves. -/
def entryOffers (w : Workspace) (module : ScopeId) : ExportEntry → Bool
  | .value _ => true
  | .named inside => (w.store.lookup? (fun _ => true) inside module).isSome
  | .forwarded specifier imported => imported == "*" && (w.named? module specifier).isSome

/-- The pair that an export entry points to, if it points to one. -/
def entryLeads (w : Workspace) (module : ScopeId) (name : String) : ExportEntry → List ExportPair
  | .value _ | .named _ => []
  | .forwarded specifier imported =>
    if imported == "*" then []
    else w.pairNamed module specifier (if imported.isEmpty then name else imported)

/-- Whether a pair has an export entry with a symbol at hand. -/
def offers (w : Workspace) (pair : ExportPair) : Bool :=
  match w.store.exportEntry? pair.1 pair.2 with
  | some entry => w.entryOffers pair.1 entry
  | none => false

/-- The pairs that a pair leads to, in the order in which they are tried: where its entry points,
or without an entry the same name in the modules whose exports are taken over, or the whole export
for the default. -/
def leads (w : Workspace) (pair : ExportPair) : List ExportPair :=
  match w.store.exportEntry? pair.1 pair.2 with
  | some entry => w.entryLeads pair.1 pair.2 entry
  | none =>
    if pair.2 != "default" then
      (w.store.scope pair.1).starExports.flatMap fun specifier =>
        w.pairNamed pair.1 specifier pair.2
    else if (w.store.scope pair.1).exports.contains wholeExportName then
      [(pair.1, wholeExportName)]
    else []

section

variable {w : Workspace} {module : ScopeId} {name : String}

/-- A name is followed into the module that is named, if there is one. -/
theorem pairNamed_of_named {specifier : String} {found : Option ScopeId}
    (h : w.named? module specifier = found) (name : String) :
    w.pairNamed module specifier name = found.toList.map fun target => (target, name) := by
  rw [pairNamed, h]

/-- A module offers a name that its entry offers. -/
theorem offers_of_entry {entry : ExportEntry}
    (h : w.store.exportEntry? module name = some entry) :
    w.offers (module, name) = w.entryOffers module entry := by
  rw [offers, h]

/-- A module without an entry offers nothing itself. -/
theorem offers_of_none (h : w.store.exportEntry? module name = none) :
    w.offers (module, name) = false := by
  rw [offers, h]

/-- An entry leads where it forwards to. -/
theorem leads_of_entry {entry : ExportEntry}
    (h : w.store.exportEntry? module name = some entry) :
    w.leads (module, name) = w.entryLeads module name entry := by
  rw [leads, h]

/-- Without an entry, a name leads into the modules that are exported whole. -/
theorem leads_of_plain (h : w.store.exportEntry? module name = none) (hplain : name ≠ "default") :
    w.leads (module, name) =
      (w.store.scope module).starExports.flatMap fun s => w.pairNamed module s name := by
  rw [leads, h]
  exact if_pos (bne_iff_ne.mpr hplain)

/-- The default leads to the value that is exported, if there is one. -/
theorem leads_of_default (h : w.store.exportEntry? module "default" = none) :
    w.leads (module, "default") =
      if (w.store.scope module).exports.contains wholeExportName then [(module, wholeExportName)]
      else [] := by
  rw [leads, h]
  rfl

end

/-- A pair can be reached from another one along the re-exports. -/
def Reaches (w : Workspace) : ExportPair → ExportPair → Prop :=
  Relation.ReflTransGen fun pair next => next ∈ w.leads pair

/-- What holds of a workspace and stays true however much the workspace learns. -/
def Lasting (w : Workspace) (P : Workspace → Prop) : Prop :=
  ∀ later, w.Extends later → P later

/-- What lasts does so in workspaces that extend this one. -/
theorem Lasting.mono {w later : Workspace} {P : Workspace → Prop} (h : w.Lasting P)
    (hext : w.Extends later) : later.Lasting P :=
  fun v hv => h v (hext.trans hv)

/-- What follows from what lasts does so too. -/
theorem Lasting.imp {w : Workspace} {P Q : Workspace → Prop} (h : w.Lasting P)
    (hPQ : ∀ v, P v → Q v) : w.Lasting Q :=
  fun v hv => hPQ v (h v hv)

/-- The way in which a module exposes a name is there to stay. -/
theorem Coherent.lasting_entry {w : Workspace} (h : w.Coherent) {module : ScopeId}
    (hm : w.HasModule module) (name : String) :
    w.Lasting fun v => v.store.exportEntry? module name = w.store.exportEntry? module name :=
  fun _ hv => h.closed.exportEntry?_extends hv.store name hm

/-- A name that is found in a module is there to stay. -/
theorem Coherent.lasting_lookup? {w : Workspace} (h : w.Coherent) {module : ScopeId}
    (hm : w.HasModule module) (name : String) :
    w.Lasting fun v => v.store.lookup? (fun _ => true) name module =
      w.store.lookup? (fun _ => true) name module :=
  fun _ hv => h.closed.lookup?_extends hv.store name hm

/-- The module that a specifier names is there to stay once it is settled. -/
theorem Settled.lasting_named? {w : Workspace} {module : ScopeId} {specifier : String}
    {found : Option ScopeId} (h : w.Settled specifier (w.store.scope module).node.source found)
    (hm : w.HasModule module) : w.Lasting fun v => v.named? module specifier = found := by
  intro v hv
  -- The module stands in the same file as before, for which the answer is settled.
  have hrun : (moduleNamed module specifier).run v =
      (resolveModule specifier (w.store.scope module).node.source).run v := by
    rw [← hv.store.scope_eq module hm]
    rfl
  unfold named?
  rw [hrun, (h.mono hv).resolveModule_eq]

/-- Asking for a module settles which one it is. -/
theorem moduleNamed_lasting {base : Workspace} {module : ScopeId} {specifier : String}
    (hm : base.HasModule module) :
    Ensures (Grown base) (moduleNamed module specifier) fun found w => Grown base w ∧
      (∀ target, found = some target → w.HasModule target) ∧
      w.Lasting fun v => v.named? module specifier = found := by
  refine .get fun now => ?_
  rintro w ⟨hw, rfl⟩
  obtain ⟨hgrown, hfound, hsettled⟩ := resolveModule_grown w hw
  refine ⟨hgrown, hfound, Settled.lasting_named? ?_ (hgrown.extends_base.hasModule hm)⟩
  rw [hgrown.extends_base.store.scope_eq module hm, ← hw.extends_base.store.scope_eq module hm]
  exact hsettled

end Workspace

end ScriptGraph
