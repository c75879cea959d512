import Mathlib.Data.List.Forall2
import ScriptGraph.Interface.Exports
import ScriptGraph.Proofs.Binding.Changes
import ScriptGraph.Proofs.Binding.Scopes
import ScriptGraph.Proofs.Syntax.Kinds
import ScriptGraph.Syntax.Reader

/-!
# Export statements are read twice

An export statement is read for the records of a file, and when the file is bound it fills the
export table of its module. Both readings go through the same statement with rules of their own.
They agree where every name is written out: the records show, in order, the names that the table
gets. They differ where a variable is bound by a pattern, of which the records show the text and the
table gets the names.

- `ExportRecord.ExposesNames`: the statements whose names are written out
- `ExportRecord.exports_agree`: both readings of such a statement
- `ExportRecord.exports_differ`: a pattern
-/

namespace ScriptGraph.ExportRecord

open Binding Syntax

/-! ## The names of a declaration -/

/-- Whether a declaration declares variables. -/
def declaresVariables (declaration : Node) : Bool :=
  declaration.isOneOf [.lexicalDeclaration, .variableDeclaration]

/-- Where the names of a declaration stand: each variable has a name or pattern of its own. -/
def nameNodes (declaration : Node) : List Node :=
  if declaresVariables declaration then
    (declaration.constructs.filter (·.is .variableDeclarator)).filterMap (·.child? .name)
  else (declaration.child? .name).toList

/-- A name is written out if it is there and is no pattern. No declaration but that of a module has
a quoted name. -/
def IsWritten (declaration name : Node) : Prop :=
  name.text ≠ "" ∧
    if declaresVariables declaration then name.is .identifier = true
    else name.is .string = false

/-- The spelled names are the texts of the nodes of names. -/
theorem spelledNames_eq (declaration : Node) :
    spelledNames declaration = (nameNodes declaration).map Node.text := by
  unfold spelledNames nameNodes declaresVariables
  split
  · rw [List.map_filterMap]
  · rw [Option.toList_map]

/-- A name binds itself. -/
theorem boundNames_of_identifier {n : Node} (h : n.is .identifier = true) : boundNames n = [n] := by
  obtain ⟨source, ⟨l, r, start, stop, cs⟩, trail⟩ := n
  have hl : l = .construct .identifier := Node.label_of_is h
  subst hl
  rfl

/-- Variables with names of their own declare these names. -/
theorem flatMap_boundNames (declarators : List Node)
    (h : ∀ n ∈ (declarators.filter (·.is .variableDeclarator)).filterMap (·.child? .name),
      n.is .identifier = true) :
    (declarators.flatMap fun d =>
      if d.is .variableDeclarator then (boundNamesOf (d.child? .name)).map Node.text else []) =
      ((declarators.filter (·.is .variableDeclarator)).filterMap (·.child? .name)).map
        Node.text := by
  induction declarators with
  | nil => rfl
  | cons d rest ih =>
    rw [List.flatMap_cons]
    -- Only declarators count, and only those that have a name.
    cases hd : d.is .variableDeclarator with
    | false =>
      simp only [List.filter_cons, hd, Bool.false_eq_true, if_false] at h ⊢
      exact ih h
    | true =>
      simp only [List.filter_cons, hd, if_true, List.filterMap_cons] at h ⊢
      cases hname : d.child? .name with
      | none =>
        rw [hname] at h
        exact ih h
      | some n =>
        rw [hname, List.forall_mem_cons] at h
        rw [ih h.2, boundNamesOf, boundNames_of_identifier h.1]
        rfl

/-- What can be exported is no ambient declaration itself. -/
theorem is_ambient_eq_false {declaration : Node} (h : (declaredKind? declaration).isSome) :
    declaration.is .ambientDeclaration = false := by
  rw [Bool.eq_false_iff]
  intro hambient
  rw [declaredKind?, Node.kind?_of_is hambient] at h
  exact nomatch h

/-- A declaration whose names are written declares them, whatever the depth. -/
theorem declaredNamesFrom_succ {declaration : Node} (hkind : (declaredKind? declaration).isSome)
    (hnames : ∀ n ∈ nameNodes declaration, IsWritten declaration n) (depth : Nat) :
    declaredNamesFrom (depth + 1) declaration = (nameNodes declaration).map Node.text := by
  have hambient := is_ambient_eq_false hkind
  unfold declaredNamesFrom
  show (if declaresVariables declaration then _ else _) = _
  unfold nameNodes at hnames ⊢
  -- Variables have a name each in their declarators; other declarations have one name.
  by_cases hvariables : declaresVariables declaration = true
  · rw [if_pos hvariables] at hnames ⊢
    rw [if_pos hvariables]
    refine flatMap_boundNames _ fun n hn => ?_
    have hwritten := (hnames n hn).2
    rwa [if_pos hvariables] at hwritten
  · rw [if_neg hvariables] at hnames ⊢
    rw [if_neg hvariables, hambient, if_neg Bool.false_ne_true]
    cases hname : declaration.child? .name with
    | none => rfl
    | some n =>
      rw [hname] at hnames
      have hwritten := (hnames n (List.mem_singleton.mpr rfl)).2
      rw [if_neg hvariables] at hwritten
      dsimp only
      rw [hwritten, if_neg Bool.false_ne_true]
      rfl

/-- A declaration can be exported, or the ambient declaration that it stands in alone, and all its
names are written out. -/
def WritesNames (declaration inner : Node) : Prop :=
  (declaredKind? inner).isSome ∧
    (declaration.is .ambientDeclaration = true → declaration.constructs.length = 1) ∧
    ∀ n ∈ nameNodes inner, IsWritten inner n

/-- Both readings find the same names in a declaration. -/
theorem declaredNames_eq {declaration inner : Node}
    (hinner : innerDeclaration? declaration = some inner) (h : WritesNames declaration inner) :
    declaredNames declaration = (nameNodes inner).map Node.text := by
  obtain ⟨hkind, halone, hnames⟩ := h
  obtain ⟨depth, hdepth⟩ := Nat.exists_eq_succ_of_ne_zero (Nat.ne_of_gt (Tree.size_pos inner.tree))
  cases hambient : declaration.is .ambientDeclaration with
  | false =>
    rw [innerDeclaration?, hambient, if_neg Bool.false_ne_true, Option.some_inj] at hinner
    subst hinner
    rw [declaredNames, hdepth]
    exact declaredNamesFrom_succ hkind hnames depth
  | true =>
    rw [innerDeclaration?, if_pos hambient] at hinner
    -- The ambient declaration is bigger than the one declaration in it.
    have hmem := List.mem_of_find?_eq_some hinner
    have hlt := Node.size_lt_of_mem_constructs hmem
    obtain ⟨only, honly⟩ := List.length_eq_one_iff.mp (halone hambient)
    rw [honly, List.mem_singleton] at hmem
    subst hmem
    obtain ⟨outer, houter⟩ : ∃ outer, declaration.tree.size = outer + 1 + 1 :=
      ⟨declaration.tree.size - 2, by omega⟩
    have hvariables : declaration.isOneOf [.lexicalDeclaration, .variableDeclaration] = false := by
      simp [Node.isOneOf, Node.is_eq_of_kind? (Node.kind?_of_is hambient)]
    rw [declaredNames, houter, declaredNamesFrom, hvariables, if_neg Bool.false_ne_true,
      if_pos hambient, honly, List.flatMap_singleton]
    exact declaredNamesFrom_succ hkind hnames outer

/-! ## What a statement exposes -/

/-- What an export clause exposes under one of its names. -/
def specified? (specifier : Option String) (item : Node) : Option (String × ExportEntry) :=
  match item.child? .name with
  | some name =>
    let inner := Text.unquote name.text
    let outer := ((item.child? .alias).map fun n => Text.unquote n.text).getD inner
    if item.is .exportSpecifier then
      some (outer, match specifier with
        | some specifier => .forwarded specifier inner
        | none => .named inner)
    else none
  | none => none

/-- An export statement exposes names that are written out: those of a declaration, or those of a
clause, none of which is empty. -/
def ExposesNames (statement : Node) : Prop :=
  (∃ declaration ∈ statement.child? .declaration, ∃ inner ∈ innerDeclaration? declaration,
    WritesNames declaration inner) ∨
  (statement.child? .declaration).isNone ∧ statement.hasToken "=" = false ∧
    ∃ clause ∈ statement.constructs.find? (·.is .exportClause),
      ∀ item ∈ clause.constructs, item.is .exportSpecifier = true →
        (item.child? .name).isSome ∧ ImportRecord.elementSpecifier item ≠ ""

instance (declaration name : Node) : Decidable (IsWritten declaration name) :=
  inferInstanceAs (Decidable (_ ∧ ite _ _ _))

instance (declaration inner : Node) : Decidable (WritesNames declaration inner) :=
  inferInstanceAs (Decidable (_ ∧ (_ → _) ∧ ∀ _ ∈ _, _))

instance (statement : Node) : Decidable (ExposesNames statement) :=
  inferInstanceAs (Decidable (_ ∨ _))

/-- A record shows an entry of an export table: the name of the entry, after the name that it stands
for in its module if that is another one. -/
def ShowsEntry (r : ExportRecord) (e : String × ExportEntry) : Prop :=
  ∃ inner, (e.2 = .named inner ∨ ∃ specifier, e.2 = .forwarded specifier inner) ∧
    r.name = ImportRecord.renamed inner e.1

/-- A name that is exposed is shown under itself. -/
theorem showsEntry_named (name : String) (kind : ExportKind) :
    ShowsEntry ⟨name, kind⟩ (name, .named name) := by
  refine ⟨name, .inl rfl, ?_⟩
  simp [ImportRecord.renamed]

/-- A specifier shows the entry that it exposes. -/
theorem showsEntry_of_specified? {specifier : Option String} {item : Node}
    {e : String × ExportEntry} (h : specified? specifier item = some e) (kind : ExportKind) :
    ShowsEntry ⟨ImportRecord.elementSpecifier item, kind⟩ e := by
  unfold specified? at h
  split at h
  · rename_i name hname
    dsimp only at h
    split at h
    -- Whether the name is exported under another one does not show in the record.
    · obtain rfl := (Option.some.inj h).symm
      refine ⟨Text.unquote name.text, ?_, ?_⟩
      · cases specifier with
        | none => exact .inl rfl
        | some specifier => exact .inr ⟨specifier, rfl⟩
      · rw [ImportRecord.elementSpecifier, hname]
        rfl
    · exact nomatch h
  · exact nomatch h

/-! ## The export table -/

/-- Puts entries into an export table, one after the other. -/
def putEntries (exports : Table String ExportEntry) (entries : List (String × ExportEntry)) :
    Table String ExportEntry :=
  entries.foldl (fun t e => t.put e.1 e.2) exports

/-- Exposing entries puts them into the table of the module. -/
theorem exports_expose {module : ScopeId} (entries : List (String × ExportEntry)) {p : Progress}
    (hmodule : module.index < p.store.scopes.size) :
    (((entries.forM fun e => Bind.expose module e.1 e.2).run p).2.store.scope module).exports =
      putEntries (p.store.scope module).exports entries := by
  induction entries generalizing p with
  | nil => rfl
  | cons e rest ih =>
    let next : Progress := ((Bind.expose module e.1 e.2).run p).2
    -- One entry more is in the table, and the others come after it.
    have hscope : next.store.scope module =
        { p.store.scope module with exports := (p.store.scope module).exports.put e.1 e.2 } := by
      show (p.store.modifyScope module _).scope module = _
      rw [Store.scope_modifyScope, if_pos ⟨rfl, hmodule⟩]
    have hnext : module.index < next.store.scopes.size := by
      show module.index < (p.store.modifyScope module _).scopes.size
      simpa [Store.modifyScope] using hmodule
    have hrest := ih hnext
    rw [hscope] at hrest
    exact hrest

/-- Actions that each expose one entry or nothing expose the entries that there are. -/
theorem forM_eq_expose {α : Type} {module : ScopeId} {act : α → Bind Unit}
    {found? : α → Option (String × ExportEntry)}
    (h : ∀ a, act a = match found? a with
      | some e => Bind.expose module e.1 e.2
      | none => pure ()) (l : List α) :
    l.forM act = (l.filterMap found?).forM fun e => Bind.expose module e.1 e.2 := by
  induction l with
  | nil => rfl
  | cons a rest ih =>
    show (act a >>= fun _ => rest.forM act) = _
    rw [h a, ih, List.filterMap_cons]
    cases found? a with
    | none => rfl
    | some e => rfl

/-- A declaration exposes its names, one after the other. -/
theorem exposeDeclared_eq {module : ScopeId} (declaration : Node) :
    Bind.exposeDeclared module false declaration =
      ((declaredNames declaration).map fun n => (n, ExportEntry.named n)).forM fun e =>
        Bind.expose module e.1 e.2 := by
  rw [← List.filterMap_eq_map']
  exact @forM_eq_expose _ _ _ (fun n => some (n, .named n)) (fun _ => rfl) _

/-- A specifier exposes its entry, if it has one. -/
theorem exposeSpecifier_eq {module : ScopeId} {specifier : Option String} (item : Node) :
    Bind.exposeSpecifier module specifier item =
      match specified? specifier item with
      | some e => Bind.expose module e.1 e.2
      | none => pure () := by
  unfold Bind.exposeSpecifier specified?
  cases item.child? .name with
  | none => rfl
  | some name =>
    dsimp only
    cases item.is .exportSpecifier with
    | false => rfl
    | true =>
      -- The alias and the module may each be missing.
      cases item.child? .alias <;> cases specifier <;> rfl

/-- An export statement is bound by exposing what it exposes. -/
theorem bindTask_export {statement : Node} (h : statement.is .exportStatement = true)
    {scope enclosing : ScopeId} {p : Progress} :
    ((Bind.bindTask ⟨statement, scope, enclosing⟩).run p).2 =
      ((Bind.bindExport scope statement).run p).2 := by
  unfold Bind.bindTask
  rw [Node.kind?_of_is h]
  rfl

/-- An export statement exposes its declaration, its value or its names. -/
theorem run_bindExport {statement : Node} {scope : ScopeId} {p : Progress}
    (hscope : p.store.moduleScope scope = scope) (hdefault : statement.hasToken "default" = false)
    (hvalue : statement.child? .declaration = none → statement.hasToken "=" = false) :
    ((Bind.bindExport scope statement).run p).2 =
      match statement.child? .declaration with
      | some declaration => ((Bind.exposeDeclared scope false declaration).run p).2
      | none => ((Bind.exposeNames scope statement).run p).2 := by
  unfold Bind.bindExport
  rw [StateT.run_bind, StateT.run_get, pure_bind]
  dsimp only
  rw [hscope, hdefault]
  -- With a declaration the rest of the statement does not matter.
  cases hchild : statement.child? .declaration with
  | some declaration => rfl
  | none =>
    rw [hvalue hchild]
    rfl

/-- Names that are not empty are all kept. -/
theorem filter_isEmpty_of_forall {names : List String} (h : ∀ n ∈ names, n ≠ "") :
    names.filter (fun n => !n.isEmpty) = names := by
  refine List.filter_eq_self.mpr fun n hn => ?_
  simpa using h n hn

/-- The records of a declaration whose names are written out show what it exposes. -/
theorem ofDeclaration_shows {declaration inner : Node}
    (hinner : innerDeclaration? declaration = some inner) (h : WritesNames declaration inner) :
    List.Forall₂ ShowsEntry (ofDeclaration false declaration)
      ((declaredNames declaration).map fun n => (n, .named n)) := by
  obtain ⟨kind, hkind⟩ := Option.isSome_iff_exists.mp h.1
  -- Written names are not empty, so no record is dropped.
  have hwritten : ∀ text ∈ (nameNodes inner).map Node.text, text ≠ "" := by
    intro text htext
    obtain ⟨n, hn, rfl⟩ := List.mem_map.mp htext
    exact (h.2.2 n hn).1
  rw [declaredNames_eq hinner h, ofDeclaration, hinner]
  dsimp only
  rw [hkind, spelledNames_eq]
  dsimp only
  rw [Bool.and_false, if_neg Bool.false_ne_true, filter_isEmpty_of_forall hwritten]
  refine List.forall₂_map_left_iff.mpr (List.forall₂_map_right_iff.mpr ?_)
  exact List.forall₂_same.mpr fun name _ => showsEntry_named name kind

/-- The records of a clause without empty names show what it exposes. -/
theorem ofClause_shows {specifier : Option String} (items : List Node)
    (h : ∀ item ∈ items, item.is .exportSpecifier = true →
      (item.child? .name).isSome ∧ ImportRecord.elementSpecifier item ≠ "") :
    List.Forall₂ ShowsEntry
      (((((items.filter (·.is .exportSpecifier)).map ImportRecord.elementSpecifier).filter
        fun l => !l.isEmpty)).map fun l => ⟨l, .unknown⟩)
      (items.filterMap (specified? specifier)) := by
  induction items with
  | nil => exact .nil
  | cons item rest ih =>
    obtain ⟨hitem, hrest⟩ := List.forall_mem_cons.mp h
    -- What is no specifier has neither a record nor an entry.
    cases hkind : item.is .exportSpecifier with
    | false =>
      have hnone : specified? specifier item = none := by
        unfold specified?
        cases item.child? .name with
        | none => rfl
        | some name => simp [hkind]
      rw [List.filterMap_cons_none hnone]
      simpa [hkind] using ih hrest
    | true =>
      -- A specifier with a name: its record and its entry show the same.
      obtain ⟨hname, hlabel⟩ := hitem hkind
      obtain ⟨name, hname⟩ := Option.isSome_iff_exists.mp hname
      obtain ⟨e, he⟩ : ∃ e, specified? specifier item = some e := by
        unfold specified?
        rw [hname]
        exact ⟨_, if_pos hkind⟩
      rw [List.filterMap_cons_some he]
      have hshows := showsEntry_of_specified? he .unknown
      simpa [hkind, hlabel] using List.Forall₂.cons hshows (ih hrest)

/-- What an export statement exposes, in order, and the records that show it. -/
theorem exists_entries {statement : Node} (hdefault : statement.hasToken "default" = false)
    (hexposes : ExposesNames statement) (scope : ScopeId) :
    ∃ entries, List.Forall₂ ShowsEntry (ofStatement statement) entries ∧
      ∀ p : Progress, p.store.moduleScope scope = scope →
        ((Bind.bindExport scope statement).run p).2 =
          ((entries.forM fun e => Bind.expose scope e.1 e.2).run p).2 := by
  -- The two forms that expose names: a declaration, and a clause in braces.
  rcases hexposes with ⟨declaration, hchild, inner, hinner, hwrites⟩ |
    ⟨hnone, hvalue, clause, hclause, hitems⟩
  · have hchild : statement.child? .declaration = some declaration := hchild
    refine ⟨(declaredNames declaration).map fun n => (n, .named n), ?_, fun p hscope => ?_⟩
    · rw [ofStatement, hchild, hdefault]
      exact ofDeclaration_shows hinner hwrites
    · rw [run_bindExport hscope hdefault (fun h => absurd (hchild.symm.trans h) nofun), hchild,
        ← exposeDeclared_eq]
  · have hchild := Option.isNone_iff_eq_none.mp hnone
    have hclause : statement.constructs.find? (·.is .exportClause) = some clause := hclause
    refine ⟨clause.constructs.filterMap (specified? (specifierOf statement)), ?_,
      fun p hscope => ?_⟩
    · rw [ofStatement, hchild, hdefault, hvalue, hclause]
      exact ofClause_shows clause.constructs hitems
    · rw [run_bindExport hscope hdefault fun _ => hvalue, hchild,
        ← forM_eq_expose exposeSpecifier_eq]
      dsimp only
      rw [Bind.exposeNames, hclause]

/-! ## Both readings -/

/-- Both readings of an export statement whose names are written out agree: entry by entry the
records of the statement show what it puts into the export table of the file's module, whatever
statements of the file have been bound before it. -/
theorem exports_agree (file : Source) (store : Store) (before : List Node) {statement : Node}
    (hkind : statement.is .exportStatement = true)
    (hdefault : statement.hasToken "default" = false) (hexposes : ExposesNames statement) :
    let module := (Binding.bind file store).1.moduleScope
    let p := boundUpTo file store before
    let q := ((Bind.bindTask ⟨statement, module, module⟩).run p).2
    ∃ entries, List.Forall₂ ShowsEntry (ofStatement statement) entries ∧
      (q.store.scope module).exports = putEntries (p.store.scope module).exports entries := by
  intro module p q
  -- Binding starts in the scope of the module, which is its own module scope.
  obtain ⟨hlt, hscope⟩ : module.index < p.store.scopes.size ∧
      p.store.moduleScope module = module := by
    have hmodule : module = ⟨store.scopes.size⟩ := bind_moduleScope file store
    rw [hmodule]
    exact boundUpTo_module file store before
  obtain ⟨entries, hshows, hrun⟩ := exists_entries hdefault hexposes module
  refine ⟨entries, hshows, ?_⟩
  have hq : q = ((entries.forM fun e => Bind.expose module e.1 e.2).run p).2 :=
    (bindTask_export hkind).trans (hrun p hscope)
  rw [hq]
  exact exports_expose entries hlt

/-- A clause that renames one of its names. -/
def clauseFile : Source :=
  .ofText "/a.ts" "export\x7bx as y,z\x7d" .ts

/-- The records of a clause agree with what the module exposes. -/
theorem exports_agree_clause :
    let module := (Binding.bind clauseFile {}).1.moduleScope
    ∃ statement ∈ clauseFile.root.constructs, statement.is .exportStatement = true ∧
      statement.hasToken "default" = false ∧ ExposesNames statement ∧
      ofStatement statement = [⟨"x as y", .unknown⟩, ⟨"z", .unknown⟩] ∧
      ∃ entries, List.Forall₂ ShowsEntry (ofStatement statement) entries ∧
        ((((Bind.bindTask ⟨statement, module, module⟩).run
          (boundUpTo clauseFile {} [])).2.store.scope module).exports =
            putEntries ((boundUpTo clauseFile {} []).store.scope module).exports entries) := by
  intro module
  -- Which records the statement has is computed; that they agree is the theorem.
  obtain ⟨statement, hmem, hkind, hdefault, hexposes, hrecords⟩ :
      ∃ statement ∈ clauseFile.root.constructs, statement.is .exportStatement = true ∧
        statement.hasToken "default" = false ∧ ExposesNames statement ∧
        ofStatement statement = [⟨"x as y", .unknown⟩, ⟨"z", .unknown⟩] := by
    decide +kernel
  exact ⟨statement, hmem, hkind, hdefault, hexposes, hrecords,
    exports_agree clauseFile {} [] hkind hdefault hexposes⟩

/-- Putting an entry adds one at most. -/
theorem length_putEntry_le (name : String) (entry : ExportEntry)
    (entries : List (String × ExportEntry)) :
    (Table.putEntry name entry entries).length ≤ entries.length + 1 := by
  induction entries with
  | nil => exact Nat.le_refl _
  | cons e rest ih =>
    rw [Table.putEntry]
    split
    · simp
    · simpa using ih

/-- Every entry that is put into a table gives it at most one more key. -/
theorem length_keys_putEntries (exports : Table String ExportEntry)
    (entries : List (String × ExportEntry)) :
    (putEntries exports entries).keys.length ≤ exports.keys.length + entries.length := by
  induction entries generalizing exports with
  | nil => exact Nat.le_refl _
  | cons e rest ih =>
    have hput : (exports.put e.1 e.2).keys.length ≤ exports.keys.length + 1 := by
      simp only [Table.keys, Table.put, List.length_map]
      exact length_putEntry_le e.1 e.2 exports.entries
    refine Nat.le_trans (ih (exports.put e.1 e.2)) ?_
    rw [List.length_cons]
    omega

/-- Records do not show what gives a table more keys than there are records. -/
theorem not_shows_of_length {records : List ExportRecord}
    {exports exposed : Table String ExportEntry}
    (h : exports.keys.length + records.length < exposed.keys.length) :
    ¬ ∃ entries, List.Forall₂ ShowsEntry records entries ∧
      exposed = putEntries exports entries := by
  rintro ⟨entries, hshows, rfl⟩
  have hlength := hshows.length_eq
  have hkeys := length_keys_putEntries exports entries
  omega

/-- Variables that are bound by a pattern. -/
def patternFile : Source :=
  .ofText "/a.ts" "export const\x7ba,b\x7d=o" .ts

/-- Of a pattern there is one record, which shows its text, and the table gets its names. -/
theorem exports_differ :
    let module := (Binding.bind patternFile {}).1.moduleScope
    ∃ statement ∈ patternFile.root.constructs, statement.is .exportStatement = true ∧
      statement.hasToken "default" = false ∧ (statement.child? .declaration).any declaresVariables ∧
      ofStatement statement = [⟨"\x7ba,b\x7d", .const⟩] ∧
      ¬ ∃ entries, List.Forall₂ ShowsEntry (ofStatement statement) entries ∧
        ((((Bind.bindTask ⟨statement, module, module⟩).run
          (boundUpTo patternFile {} [])).2.store.scope module).exports =
            putEntries ((boundUpTo patternFile {} []).store.scope module).exports entries) := by
  intro module
  -- The table gets two names where there is one record, so nothing can be matched.
  obtain ⟨statement, hmem, hkind, hdefault, hvariables, hrecords, hbefore, hkeys⟩ :
      ∃ statement ∈ patternFile.root.constructs, statement.is .exportStatement = true ∧
        statement.hasToken "default" = false ∧
        (statement.child? .declaration).any declaresVariables ∧
        ofStatement statement = [⟨"\x7ba,b\x7d", .const⟩] ∧
        ((boundUpTo patternFile {} []).store.scope module).exports.keys = [] ∧
        ((((Bind.bindTask ⟨statement, module, module⟩).run
          (boundUpTo patternFile {} [])).2.store.scope module).exports.keys = ["a", "b"]) := by
    decide +kernel
  exact ⟨statement, hmem, hkind, hdefault, hvariables, hrecords,
    not_shows_of_length (by rw [hrecords, hbefore, hkeys]; decide)⟩

end ScriptGraph.ExportRecord
