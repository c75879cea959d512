import Mathlib.Data.List.Nodup
import Mathlib.Data.List.Perm.Subperm
import ScriptGraph.Proofs.Binding.Scopes
import ScriptGraph.Proofs.Workspace.Stability

/-!
# The size of a workspace

Only the file under analysis, the ambient library and the files that may be imported are ever bound,
and each of them once. So a workspace never has more scopes than these files have nodes, and with
them no more modules, however many files are bound on demand.

- `Workspace.Bounded`: the scopes that there are and those that may still be opened
- `Workspace.ofSource_bounded`, `resolveModule_bounded`: the bound holds at the start and is kept
- `Workspace.Bounded.length_le`: a list of different modules is no longer than the size
-/

namespace ScriptGraph.Workspace

open Binding Syntax

/-- The files that may be bound and have not been bound yet. -/
def unbound (w : Workspace) : List Source :=
  (w.root :: w.importable).filter fun s => (w.bindings.find? s.fileName).isNone

/-- The scopes that there are and those that files may still open are no more than all the nodes of
the files. -/
def Bounded (w : Workspace) : Prop :=
  w.store.scopes.size + nodeCount w.unbound ≤ w.size

variable {old new w : Workspace} {s : Source}

/-- Leaving files out leaves no more nodes. -/
theorem nodeCount_filter_le (files : List Source) (test : Source → Bool) :
    nodeCount (files.filter test) ≤ nodeCount files := by
  induction files with
  | nil => exact Nat.le_refl _
  | cons f rest ih =>
    rw [List.filter_cons]
    split
    · rw [nodeCount, nodeCount]
      exact Nat.add_le_add_left ih _
    · rw [nodeCount]
      exact Nat.le_add_left_of_le ih

/-- Leaving out a file takes its nodes away. -/
theorem nodeCount_filter_add_le {files : List Source} (hs : s ∈ files) (test : Source → Bool)
    (htest : test s = false) :
    nodeCount (files.filter test) + s.tree.size ≤ nodeCount files := by
  induction files with
  | nil => exact nomatch hs
  | cons f rest ih =>
    rw [List.filter_cons, nodeCount]
    -- The file that is left out comes first, or later in the list.
    rcases List.mem_cons.mp hs with rfl | hs
    · rw [htest, if_neg Bool.false_ne_true, Nat.add_comm]
      exact Nat.add_le_add_left (nodeCount_filter_le rest test) _
    · have hrest := ih hs
      split
      · rw [nodeCount]
        omega
      · omega

/-- Once a file has been bound, files of its name are not bound any more. -/
theorem unbound_bindFile (w : Workspace) (s : Source) :
    (w.bindFile s).unbound = w.unbound.filter fun t => s.fileName ≠ t.fileName := by
  unfold unbound
  rw [List.filter_filter]
  refine List.filter_congr fun t _ => ?_
  show ((w.bindings.put s.fileName _).find? t.fileName).isNone = _
  rw [Table.find?_put]
  split
  next he => simp [he]
  next he => simp [he]

/-- Binding a file opens the scopes that had been reserved for it. -/
theorem Bounded.bindFile (h : w.Bounded) (hs : w.MayBind s)
    (hnew : w.bindings.find? s.fileName = none) : (w.bindFile s).Bounded := by
  have hscopes : (w.bindFile s).store.scopes.size ≤ w.store.scopes.size + s.tree.size :=
    bind_scopes_le s w.store
  have hmem : s ∈ w.unbound :=
    List.mem_filter.mpr ⟨List.mem_cons.mpr hs, by rw [hnew]; rfl⟩
  have hcount := nodeCount_filter_add_le hmem (fun t => s.fileName ≠ t.fileName) (by simp)
  have hsize : (w.bindFile s).size = w.size := rfl
  unfold Bounded at h ⊢
  rw [unbound_bindFile, hsize]
  omega

/-- Binding a file that may be bound keeps the number of scopes bounded. -/
theorem bindingFor_bounded {known : Table ScopeId SymbolId} (s : Source) :
    Ensures (fun w => (w.Bounded ∧ w.namespaces = known) ∧ w.MayBind s) (bindingFor s)
      fun _ w => w.Bounded ∧ w.namespaces = known := by
  rintro w ⟨hw, hs⟩
  rw [run_bindingFor]
  split
  · exact hw
  · split
    · exact hw
    next hnew => exact ⟨hw.1.bindFile hs hnew, hw.2⟩

/-- Resolving a module binds only files that it may bind, and makes no namespace object. -/
theorem resolveModule_bounded {known : Table ScopeId SymbolId} (specifier : String)
    (importer : Source) :
    Ensures (fun w => w.Bounded ∧ w.namespaces = known) (resolveModule specifier importer)
      fun _ w => w.Bounded ∧ w.namespaces = known :=
  resolveModule_keeps bindingFor_bounded (fun _ _ _ hw => hw) specifier importer

/-- The library and the file under analysis have been bound at the start, and nothing else. -/
theorem ofSource_bounded (settings : Settings) (disk : Disk) (library root : Source) :
    (ofSource settings disk (.ofSource library) root).Bounded := by
  have hlibrary : (Library.ofSource library).store.scopes.size ≤ 0 + library.tree.size :=
    bind_scopes_le library {}
  have hroot := bind_scopes_le root (Library.ofSource library).store
  have hsource : (Library.ofSource library).binding.source = library :=
    (bind_grown library {}).source
  let start := ofSource settings disk (.ofSource library) root
  -- The file under analysis is bound, so it does not count any more.
  have hunbound : nodeCount start.unbound ≤ nodeCount start.importable := by
    have hbound : (start.bindings.find? start.root.fileName).isNone = false := by
      show (start.bindings.find? root.fileName).isNone = false
      rw [bindings_ofSource]
      rfl
    unfold unbound
    rw [List.filter_cons, hbound, if_neg Bool.false_ne_true]
    exact nodeCount_filter_le _ _
  have hsize : start.size = root.tree.size + library.tree.size + nodeCount start.importable := by
    show root.tree.size + (Library.ofSource library).binding.source.tree.size + _ = _
    rw [hsource]
  show (Binding.bind root (Library.ofSource library).store).2.scopes.size + nodeCount
    start.unbound ≤
    start.size
  rw [hsize]
  omega

/-- The bound is kept as long as no file is bound and no scope is opened. -/
theorem Bounded.later (h : old.Bounded) (hlater : old.Later new)
    (hscopes : new.store.scopes.size = old.store.scopes.size)
    (hbindings : new.bindings = old.bindings) : new.Bounded := by
  have hunbound : new.unbound = old.unbound := by
    unfold unbound importable
    rw [hbindings, hlater.root_eq, hlater.settings_eq, hlater.files_eq]
  unfold Bounded at h ⊢
  rwa [hscopes, hunbound, hlater.size_eq]

/-- There are no more different modules than nodes. -/
theorem Bounded.length_le (h : w.Bounded) {modules : List ScopeId} (hnodup : modules.Nodup)
    (hm : ∀ module ∈ modules, w.HasModule module) : modules.length ≤ w.size := by
  have hinjective : Function.Injective ScopeId.index := fun ⟨_⟩ ⟨_⟩ h => congrArg ScopeId.mk h
  have hindices : (modules.map ScopeId.index).Nodup := List.Nodup.map hinjective hnodup
  have hsub : modules.map ScopeId.index ⊆ List.range w.store.scopes.size := fun i hi => by
    obtain ⟨module, hmodule, rfl⟩ := List.mem_map.mp hi
    exact List.mem_range.mpr (hm module hmodule)
  have hle := (hindices.subperm hsub).length_le
  rw [List.length_map, List.length_range] at hle
  exact Nat.le_trans hle (Nat.le_trans (Nat.le_add_right _ _) h)

end ScriptGraph.Workspace
