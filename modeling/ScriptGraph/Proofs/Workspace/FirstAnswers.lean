import ScriptGraph.Proofs.Workspace.Stability

/-!
# Modules that are asked for too early

Which module a specifier names in a file is decided when it is first asked for there. A module that
is declared by its name counts from the moment on in which the file with the declaration is bound,
so that the same question may get another answer if it is first asked later.

- `Workspace.Continues`: how a workspace goes on while files and modules are asked for
- `Workspace.resolveModule_after`: when the remembered answer is the one to a first question
- `Workspace.exists_asked_too_early`: it is not always
-/

namespace ScriptGraph.Workspace

open Binding Syntax

/-! ## What is declared for a specifier -/

/-- The binding of the file under analysis. -/
def rootBinding (w : Workspace) : FileBinding :=
  ((bindingFor w.root).run w).1

/-- The module that a file bound so far declares for a specifier by its name. -/
def declared? (w : Workspace) (specifier : String) : Option ScopeId :=
  (w.rootBinding :: w.library :: w.bindings.values).findSome?
    fun b => b.ambientModules.find? specifier

/-- The module of the file that a specifier stands for. -/
def ofFile? (w : Workspace) (specifier : String) (importer : Source) : Option ScopeId :=
  ((fileModule? specifier importer).run w).1

/-- The module that a specifier would name in a file if no module had been asked for before. -/
def firstAnswer (w : Workspace) (specifier : String) (importer : Source) : Option ScopeId :=
  ((resolveModule specifier importer).run { w with modules := .empty }).1

/-- The file under analysis has been bound. -/
def RootBound (w : Workspace) : Prop :=
  w.root.isBundled = true ∨ (w.bindings.find? w.root.fileName).isSome = true

/-- The file under analysis is bound from the start. -/
theorem ofSource_rootBound (settings : Settings) (disk : Disk) (library : Library) (root : Source) :
    (ofSource settings disk library root).RootBound := by
  rw [RootBound, show (ofSource settings disk library root).root = root from rfl,
    bindings_ofSource]
  exact .inr rfl

/-- The file under analysis is not bound again. -/
theorem RootBound.run_bindingFor {w : Workspace} (h : w.RootBound) :
    (bindingFor w.root).run w = (w.rootBinding, w) := by
  rw [rootBinding, Workspace.run_bindingFor]
  split
  · rfl
  next hbundled =>
    obtain ⟨b, hb⟩ := Option.isSome_iff_exists.mp (h.resolve_left hbundled)
    rw [hb]

/-- Asking for what is declared changes nothing. -/
theorem RootBound.run_ambientModule? {w : Workspace} (h : w.RootBound) (specifier : String) :
    (ambientModule? specifier).run w = (w.declared? specifier, w) := by
  unfold ambientModule?
  rw [StateT.run_bind, StateT.run_get, pure_bind]
  dsimp only
  rw [StateT.run_bind, h.run_bindingFor]
  rfl

/-! ## Requests one after the other -/

/-- Some files have been bound before all others. -/
def BoundFirst (bound : List (String × FileBinding)) (w : Workspace) : Prop :=
  bound <+: w.bindings.entries

/-- A workspace that has gone on from another one: it knows more, and the files that have been
bound since then come after the others. -/
structure Continues (old new : Workspace) : Prop where
  later : old.Later new
  bindings : BoundFirst old.bindings.entries new

/-- Something that is asked of a workspace: the module that a specifier names in a file, or the
binding of a file. -/
inductive Request
  | resolve (specifier : String) (importer : Source)
  | load (file : Source)

/-- Answers a request. -/
def serve : Request → StateM Workspace Unit
  | .resolve specifier importer => do
    let _ ← resolveModule specifier importer
  | .load file => do
    let _ ← bindingFor file

/-- The workspace after some requests. -/
def after (w : Workspace) (requests : List Request) : Workspace :=
  ((requests.forM serve).run w).2

variable {base old new : Workspace} {specifier : String} {importer : Source}
  {bound : List (String × FileBinding)}

/-- Files are bound one after the other. -/
theorem bindingFor_appends (s : Source) :
    Ensures (BoundFirst bound) (bindingFor s) fun _ => BoundFirst bound := by
  intro w hw
  rw [run_bindingFor]
  split
  · exact hw
  · split
    · exact hw
    next hnone =>
      show bound <+: (w.bindings.put s.fileName _).entries
      rw [Table.entries_put_of_not_contains _ (Table.contains_eq_false_of_find? hnone)]
      exact List.IsPrefix.trans hw (List.prefix_append _ _)

/-- Resolving a specifier binds files after those that are bound. -/
theorem resolveModule_appends :
    Ensures (BoundFirst bound) (resolveModule specifier importer) fun _ => BoundFirst bound :=
  resolveModule_keeps (fun s => .of_imp (bindingFor_appends s) fun _ hw => hw.1)
    (fun _ _ _ hw => hw) specifier importer

/-- Every workspace continues itself. -/
theorem Continues.refl (w : Workspace) : w.Continues w :=
  ⟨.refl w, List.prefix_rfl⟩

/-- Continuing twice is continuing. -/
theorem Continues.trans {a b c : Workspace} (hab : a.Continues b) (hbc : b.Continues c) :
    a.Continues c :=
  ⟨hab.later.trans hbc.later, hab.bindings.trans hbc.bindings⟩

/-- Resolving a specifier continues a sound workspace. -/
theorem Sound.resolveModule {w : Workspace} (h : w.Sound) (specifier : String)
    (importer : Source) :
    w.Continues ((resolveModule specifier importer).run w).2 ∧
      ((resolveModule specifier importer).run w).2.Sound := by
  have hlasts : Lasts Sound False w (Workspace.resolveModule specifier importer) _ :=
    resolveModule_lasts
  obtain ⟨hlater, hsound, -⟩ := hlasts w (.refl w) h
  exact ⟨⟨hlater, resolveModule_appends w List.prefix_rfl⟩, hsound⟩

/-- Binding a file continues a sound workspace. -/
theorem Sound.bindingFor {w : Workspace} (h : w.Sound) (file : Source) :
    w.Continues ((bindingFor file).run w).2 ∧ ((bindingFor file).run w).2.Sound := by
  have hlasts : Lasts Sound False w (Workspace.bindingFor file) _ := bindingFor_lasts
  obtain ⟨hlater, hsound, -⟩ := hlasts w (.refl w) h
  exact ⟨⟨hlater, bindingFor_appends file w List.prefix_rfl⟩, hsound⟩

/-- A request leaves a workspace behind that goes on from the one before. -/
theorem serve_continues (r : Request) :
    Ensures (fun w => base.Continues w ∧ w.Sound) (serve r)
      fun _ w => base.Continues w ∧ w.Sound := by
  rintro w ⟨hw, hsound⟩
  cases r with
  | resolve specifier importer =>
    obtain ⟨hnext, hnsound⟩ := hsound.resolveModule specifier importer
    exact ⟨hw.trans hnext, hnsound⟩
  | load file =>
    obtain ⟨hnext, hnsound⟩ := hsound.bindingFor file
    exact ⟨hw.trans hnext, hnsound⟩

/-- So do all requests together. -/
theorem after_continues {w : Workspace} (h : w.Sound) (requests : List Request) :
    w.Continues (w.after requests) ∧ (w.after requests).Sound :=
  Ensures.forM (fun r _ => serve_continues r) w ⟨.refl w, h⟩

/-! ## First answers and remembered ones -/

/-- The file under analysis stays bound. -/
theorem RootBound.later (h : old.RootBound) (hlater : old.Later new) : new.RootBound := by
  rw [RootBound, hlater.root_eq]
  refine h.imp_right fun hb => ?_
  obtain ⟨b, hb⟩ := Option.isSome_iff_exists.mp hb
  rw [hlater.bindings _ b hb]
  rfl

/-- Its binding stays the same. -/
theorem RootBound.rootBinding_eq (h : old.RootBound) (hlater : old.Later new) :
    new.rootBinding = old.rootBinding := by
  rw [rootBinding, rootBinding, Workspace.run_bindingFor, Workspace.run_bindingFor, hlater.root_eq]
  split
  · exact hlater.library_eq
  next hbundled =>
    obtain ⟨b, hb⟩ := Option.isSome_iff_exists.mp (h.resolve_left hbundled)
    rw [hb, hlater.bindings _ b hb]

/-- What is declared for a specifier stays the same once there is something. -/
theorem Continues.declared?_eq (h : old.Continues new) (hroot : old.RootBound) {module : ScopeId}
    (hm : old.declared? specifier = some module) : new.declared? specifier = some module := by
  obtain ⟨more, hmore⟩ := h.bindings
  have hvalues : new.bindings.values = old.bindings.values ++ more.map (·.2) := by
    rw [Table.values, Table.values, ← hmore, List.map_append]
  rw [declared?] at hm
  rw [declared?, hroot.rootBinding_eq h.later, h.later.library_eq, hvalues, ← List.cons_append,
    ← List.cons_append, List.findSome?_append, hm, Option.some_or]

/-- The file that a specifier stands for. -/
def importedFile? (w : Workspace) (specifier : String) (importer : Source) : Option Source :=
  if !w.settings.resolveImports.isTruthy || importer.isBundled then none
  else (Resolution.resolve? w.disk specifier importer.fileName).bind w.source?

/-- A specifier that leads to a file leads to the module of its binding. -/
theorem run_fileModule? (w : Workspace) :
    (fileModule? specifier importer).run w =
      match w.importedFile? specifier importer with
      | some file => (some ((bindingFor file).run w).1.moduleScope, ((bindingFor file).run w).2)
      | none => (none, w) := by
  unfold fileModule? importedFile?
  rw [StateT.run_bind, StateT.run_get, pure_bind]
  dsimp only
  split
  · rfl
  · cases (Resolution.resolve? w.disk specifier importer.fileName).bind w.source? <;> rfl

/-- A specifier leads to the same file later on. -/
theorem importedFile?_eq (h : old.Later new) :
    new.importedFile? specifier importer = old.importedFile? specifier importer := by
  have hsource : new.source? = old.source? := by
    funext path
    rw [source?, source?, isRoot, isRoot, h.root_eq, h.files_eq]
  rw [importedFile?, importedFile?, h.settings_eq, h.disk_eq, hsource]

/-- The module of the file that a specifier stands for is the same for good, once it has been asked
for. -/
theorem ofFile?_eq (hsound : old.Sound)
    (h : ((fileModule? specifier importer).run old).2.Later new) :
    new.ofFile? specifier importer = old.ofFile? specifier importer := by
  obtain ⟨hlater, -⟩ := fileModule?_lasts old (.refl old) hsound
  have hfile : new.importedFile? specifier importer = old.importedFile? specifier importer :=
    importedFile?_eq (Later.trans hlater h)
  rw [ofFile?, ofFile?, run_fileModule?, run_fileModule?, hfile]
  rw [run_fileModule?] at h
  -- A specifier that stands for no file has no answer to keep.
  cases hf : old.importedFile? specifier importer with
  | none => rfl
  | some file =>
    rw [hf] at h
    have hlasts : Lasts Sound True old (bindingFor file) _ := bindingFor_lasts
    obtain ⟨-, -, -, hagain⟩ := hlasts old (.refl old) hsound
    dsimp only
    rw [hagain trivial new h]

/-- The workspace that remembers which module a specifier names in a file. -/
def remember (w : Workspace) (specifier : String) (importer : Source) (found : Option ScopeId) :
    Workspace :=
  { w with modules := w.modules.put (importer.fileName, specifier) found }

/-- Nothing is forgotten when the answer to a first question is remembered. -/
theorem later_remember {w : Workspace} (found : Option ScopeId)
    (hnew : w.modules.find? (importer.fileName, specifier) = none) :
    w.Later (w.remember specifier importer found) :=
  { Later.refl w with
    modules := fun key module h => by
      show (w.modules.put _ found).find? key = some module
      rw [Table.find?_put, if_neg fun he => ?_, h]
      rw [he, h] at hnew
      exact nomatch hnew }

/-- A first question is answered by what is declared for the specifier, or else by the file that it
stands for; the answer is remembered. -/
theorem RootBound.run_resolveModule {w : Workspace} (h : w.RootBound)
    (hspecifier : specifier ≠ "")
    (hnew : w.modules.find? (importer.fileName, specifier) = none) :
    (resolveModule specifier importer).run w =
      match w.declared? specifier with
      | some module => (some module, w.remember specifier importer (some module))
      | none => (w.ofFile? specifier importer, ((fileModule? specifier importer).run w).2.remember
          specifier importer (w.ofFile? specifier importer)) := by
  have hempty : specifier.isEmpty = false := by simpa using hspecifier
  rw [resolveModule, hempty, if_neg (by decide), StateT.run_bind, StateT.run_get, pure_bind]
  dsimp only
  -- Nothing is remembered, so declarations are looked at first, then the disk.
  rw [hnew]
  dsimp only
  rw [StateT.run_bind, h.run_ambientModule?]
  cases w.declared? specifier <;> rfl

/-- The binding of a file does not depend on the modules that are remembered. -/
theorem bindingFor_forgetful (s : Source) (w : Workspace) :
    ((bindingFor s).run { w with modules := .empty }).1 = ((bindingFor s).run w).1 := by
  rw [run_bindingFor, run_bindingFor]
  dsimp only
  split
  · rfl
  · cases w.bindings.find? s.fileName <;> rfl

/-- What a first question is answered by, whatever has been asked before. -/
theorem RootBound.firstAnswer_eq {w : Workspace} (h : w.RootBound) (hspecifier : specifier ≠ "") :
    w.firstAnswer specifier importer =
      (w.declared? specifier).or (w.ofFile? specifier importer) := by
  -- The answer does not depend on what is remembered, so the question may be asked afresh.
  let fresh : Workspace := { w with modules := .empty }
  have hfresh : fresh.RootBound := h
  have hdeclared : fresh.declared? specifier = w.declared? specifier := by
    have hbinding : fresh.rootBinding = w.rootBinding := bindingFor_forgetful w.root w
    rw [declared?, declared?, hbinding]
  have hfile : fresh.ofFile? specifier importer = w.ofFile? specifier importer := by
    have himported : fresh.importedFile? specifier importer = w.importedFile? specifier importer :=
      rfl
    rw [ofFile?, ofFile?, run_fileModule?, run_fileModule?, himported]
    cases w.importedFile? specifier importer with
    | none => rfl
    | some file => exact congrArg (fun b => some b.moduleScope) (bindingFor_forgetful file w)
  rw [firstAnswer, hfresh.run_resolveModule hspecifier rfl, hdeclared]
  cases w.declared? specifier with
  | some module => rfl
  | none => exact hfile

/-- A module that has been asked for keeps the answer of that time. Whatever has been asked since
then, it is what was declared for the specifier at that time or else the file; asked for the first
time now, it would be what is declared now or else the file. -/
theorem answers_of_asked (hroot : old.RootBound) (hsound : old.Sound) (hspecifier : specifier ≠ "")
    (hnew : old.modules.find? (importer.fileName, specifier) = none)
    (hnext : ((resolveModule specifier importer).run old).2.Continues new) :
    ((resolveModule specifier importer).run new).1 =
        (old.declared? specifier).or (new.ofFile? specifier importer) ∧
      new.firstAnswer specifier importer =
        (new.declared? specifier).or (new.ofFile? specifier importer) := by
  have hlater := (hsound.resolveModule specifier importer).1.later.trans hnext.later
  refine ⟨?_, (hroot.later hlater).firstAnswer_eq hspecifier⟩
  have hlasts : Lasts Sound True old (resolveModule specifier importer) _ := resolveModule_lasts
  obtain ⟨-, -, -, hagain⟩ := hlasts old (.refl old) hsound
  rw [hagain trivial new hnext.later]
  have hasked := hroot.run_resolveModule hspecifier hnew
  rw [hasked] at hnext ⊢
  cases hdeclared : old.declared? specifier with
  | some module => rfl
  | none =>
    rw [hdeclared] at hnext
    -- Looking for the file leaves the question open, so nothing is forgotten afterwards.
    have hopen : ((fileModule? specifier importer).run old).2.modules = old.modules :=
      fileModule?_modules specifier importer old rfl
    have hfile := later_remember (old.ofFile? specifier importer) (hopen ▸ hnew)
    exact (ofFile?_eq hsound (hfile.trans hnext.later)).symm

/-- The answer of an earlier time is the one to a first question, unless a module has been declared
for the specifier in between. -/
theorem Continues.or_declared?_eq (h : old.Continues new) (hroot : old.RootBound)
    (hdeclared : (old.declared? specifier).isSome = true ∨ new.declared? specifier = none)
    (file : Option ScopeId) :
    (old.declared? specifier).or file = (new.declared? specifier).or file := by
  cases hm : old.declared? specifier with
  | some module => rw [h.declared?_eq hroot hm]
  | none =>
    rw [hm] at hdeclared
    rw [hdeclared.resolve_left (by decide)]

/-- Whatever has been asked for before and is asked for afterwards, a specifier that is asked for in
a file keeps the answer of that time: the module that was declared for it then, or else the file
that it stands for. That is the answer to a first question unless a module has been declared for it
since then. -/
theorem resolveModule_after (settings : Settings) (disk : Disk) (library root : Source)
    (before later : List Request) {specifier : String} (hspecifier : specifier ≠ "")
    (importer : Source) :
    let asked := (ofSource settings disk (.ofSource library) root).after before
    let now := asked.after (.resolve specifier importer :: later)
    let answer := ((resolveModule specifier importer).run now).1
    asked.modules.find? (importer.fileName, specifier) = none →
      answer = (asked.declared? specifier).or (now.ofFile? specifier importer) ∧
        now.firstAnswer specifier importer =
          (now.declared? specifier).or (now.ofFile? specifier importer) ∧
        ((asked.declared? specifier).isSome = true ∨ now.declared? specifier = none →
          answer = now.firstAnswer specifier importer) := by
  intro asked now answer hnew
  obtain ⟨hstart, hsound⟩ : _ ∧ asked.Sound :=
    after_continues (ofSource_sound settings disk library root) before
  -- The file was bound from the start, so what is declared for the specifier is known throughout.
  have hroot : asked.RootBound := (ofSource_rootBound settings disk _ root).later hstart.later
  obtain ⟨hfirst, hfsound⟩ := hsound.resolveModule specifier importer
  have hnext : Continues _ now := (after_continues hfsound later).1
  obtain ⟨hanswer, hanew⟩ := answers_of_asked hroot hsound hspecifier hnew hnext
  refine ⟨hanswer, hanew, fun hdeclared => ?_⟩
  rw [hanew, ← (hfirst.trans hnext).or_declared?_eq hroot hdeclared]
  exact hanswer

/-- A file without imports, next to one that declares a module by its name. -/
def lonelySource : Source :=
  .ofText "/a.ts" "" .ts

/-- A disk with a file that declares a module by its name. -/
def blockDisk : Disk :=
  .ofFiles [("/b.ts", "declare module 'v'{}")]

/-- The module is found if the file that declares it has been imported first. -/
theorem resolveModule_after_import :
    let asked := (ofSource {} blockDisk (.ofSource default) lonelySource).after
      [.resolve "./b" lonelySource]
    let now := asked.after [.resolve "v" lonelySource]
    let answer := ((resolveModule "v" lonelySource).run now).1
    asked.modules.find? (lonelySource.fileName, "v") = none ∧ answer.isSome = true ∧
      answer = now.firstAnswer "v" lonelySource := by
  intro asked now answer
  have hnew : asked.modules.find? (lonelySource.fileName, "v") = none := by decide +kernel
  have hdeclared : (asked.declared? "v").isSome = true := by decide +kernel
  have hsome : answer.isSome = true := by decide +kernel
  exact ⟨hnew, hsome, (resolveModule_after {} blockDisk default lonelySource
    [.resolve "./b" lonelySource] [] (by decide) lonelySource hnew).2.2 (.inl hdeclared)⟩

/-- It is not found if it has been asked for before that. -/
theorem exists_asked_too_early : ∃ requests : List Request,
    let now := (ofSource {} blockDisk (.ofSource default) lonelySource).after requests
    ((resolveModule "v" lonelySource).run now).1 = none ∧
      (now.firstAnswer "v" lonelySource).isSome = true := by
  refine ⟨[.resolve "v" lonelySource, .resolve "./b" lonelySource], ?_⟩
  decide +kernel

end ScriptGraph.Workspace
