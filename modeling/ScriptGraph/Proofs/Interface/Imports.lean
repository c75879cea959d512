import Mathlib.Data.List.Forall2
import ScriptGraph.Interface.Imports
import ScriptGraph.Proofs.Binding.Declared
import ScriptGraph.Proofs.Binding.Scopes
import ScriptGraph.Proofs.Syntax.Imports
import ScriptGraph.Proofs.Syntax.Layout

/-!
# Import statements are read twice

An import statement is read for the records of a file, and when the file is bound it declares
aliases. The one reading looks for the name and the collection of a clause, the other one goes
through the clause part by part. They agree on every file whose clauses have the one shape that the
grammar gives them: each statement but those that assign the result of `require` has one record, and
the record shows the aliases that the statement declares.

- `ImportRecord.statementAliases`: what an import statement declares
- `ImportRecord.Mirrors`: a record shows what is declared
- `ImportRecord.imports_mirror`: both readings of all import statements of a file
-/

namespace ScriptGraph

open Binding Syntax

namespace ImportRecord

/-! ## What a statement declares -/

/-- An alias for something imported. -/
def aliasFor (specifier imported name : String) (node nameNode : Node) : Declaration :=
  { kind := .importAlias, name, node, nameNode := some nameNode
    importSource := some ⟨specifier, imported⟩ }

/-- The alias that an element of a braced list declares. -/
def elementAlias? (specifier : String) (element : Node) : Option Declaration :=
  match element.child? .name with
  | some name =>
    let taken := (element.child? .alias).getD name
    if element.is .importSpecifier then
      some (aliasFor specifier (Text.unquote name.text) (Text.unquote taken.text) element taken)
    else none
  | none => none

/-- The aliases that a part of an import clause declares. -/
def partAliases (specifier : String) (part : Node) : List Declaration :=
  match part.kind? with
  | some .identifier => [aliasFor specifier "default" part.text part part]
  | some .namespaceImport =>
    (part.constructs.find? (·.is .identifier)).toList.map fun name =>
      aliasFor specifier "*" name.text part name
  | some .namedImports => part.constructs.filterMap (elementAlias? specifier)
  | _ => []

/-- The aliases that a construct within an import statement declares. -/
def clauseAliases (statement clause : Node) : List Declaration :=
  match clause.kind? with
  | some .importClause =>
    clause.constructs.flatMap (partAliases ((specifierOf statement).getD ""))
  | some .importRequireClause =>
    match clause.constructs.find? (·.is .identifier), specifierOf clause with
    | some name, some specifier => [aliasFor specifier wholeExportName name.text clause name]
    | _, _ => []
  | _ => []

/-- The aliases that an import statement declares. -/
def statementAliases (statement : Node) : List Declaration :=
  statement.constructs.flatMap (clauseAliases statement)

/-- Declares each of some declarations in a scope. -/
def declareAll (scope : ScopeId) (ds : List Declaration) : Bind Unit :=
  ds.forM fun d => do let _ ← Bind.declare scope d

/-- Two lists are declared one after the other. -/
theorem declareAll_append (scope : ScopeId) (ds more : List Declaration) :
    declareAll scope (ds ++ more) = (do declareAll scope ds; declareAll scope more) := by
  unfold declareAll
  rw [List.forM_eq_forM, List.forM_append]

/-- Actions that each declare some declarations declare all of them. -/
theorem forM_eq_declareAll {α : Type} {scope : ScopeId} {act : α → Bind Unit}
    {declared : α → List Declaration} (h : ∀ a, act a = declareAll scope (declared a))
    (l : List α) : l.forM act = declareAll scope (l.flatMap declared) := by
  induction l with
  | nil => rfl
  | cons a rest ih =>
    rw [List.flatMap_cons, declareAll_append, ← h a, ← ih]
    rfl

/-- An element in braces declares its alias, if it is an import. -/
theorem bindElement_eq (scope : ScopeId) (specifier : String) (element : Node) :
    (match element.child? .name with
      | some name =>
        let taken := (element.child? .alias).getD name
        if element.is .importSpecifier then
          Bind.declareAlias scope specifier (Text.unquote name.text) (Text.unquote taken.text)
            element taken
        else pure ()
      | none => pure ()) =
      declareAll scope (elementAlias? specifier element).toList := by
  unfold elementAlias?
  cases element.child? .name with
  | none => rfl
  | some name => cases element.is .importSpecifier <;> rfl

/-- A part of a clause declares its aliases, one after the other. -/
theorem bindImportPart_eq (scope : ScopeId) (specifier : String) (part : Node) :
    Bind.bindImportPart scope specifier part = declareAll scope (partAliases specifier part) := by
  unfold Bind.bindImportPart partAliases
  generalize part.kind? = kind
  split
  · rfl
  · cases part.constructs.find? (·.is .identifier) <;> rfl
  · dsimp only
    rw [List.filterMap_eq_flatMap_toList]
    exact forM_eq_declareAll (bindElement_eq scope specifier) _
  · simp_all [declareAll]

/-- A statement declares the aliases of its parts, one after the other. -/
theorem bindImport_eq (scope : ScopeId) (statement : Node) :
    Bind.bindImport scope statement = declareAll scope (statementAliases statement) := by
  refine forM_eq_declareAll (fun child => ?_) _
  unfold clauseAliases
  generalize child.kind? = kind
  split
  · exact forM_eq_declareAll (bindImportPart_eq scope _) _
  · cases child.constructs.find? (·.is .identifier) <;> cases specifierOf child <;> rfl
  · simp_all [declareAll]

/-- Declaring some declarations adds them behind those that are there. -/
theorem declareAll_detached (p : Progress) (scope : ScopeId) (ds : List Declaration) :
    ((declareAll scope ds).run p).2.store.detached =
      p.store.detached ++ ds.map Declaration.detached := by
  induction ds generalizing p with
  | nil => exact (List.append_nil _).symm
  | cons d rest ih =>
    let q := ((Bind.declare scope d).run p).2
    have hfirst : q.store.detached = p.store.detached ++ [d.detached] :=
      Bind.declare_detached p scope d
    refine (ih q).trans ?_
    rw [hfirst, List.map_cons, List.append_assoc, List.singleton_append]

/-- The import aliases that binding a file declares in one of the statements at its top. -/
def aliasesIn (file : Source) (base : Store) (statement : Node) : List Declaration :=
  (declaredIn file base statement).filter (·.kind == .importAlias)

/-- Nothing in an import statement is left to be bound. -/
theorem bindFrom_import {statement : Node} (h : statement.is .importStatement = true)
    (depth : Nat) (scope : ScopeId) (p : Progress) :
    ((Bind.bindFrom (depth + 1) ⟨statement, scope, scope⟩).run p).2 =
      ((Bind.bindImport scope statement).run p).2 := by
  unfold Bind.bindFrom Bind.bindTask
  rw [Node.kind?_of_is h]
  rfl

/-- A declaration is an alias for something in a module, and is not attached to a symbol yet. -/
structure IsAliasFrom (specifier : String) (d : Declaration) : Prop where
  kind_eq : d.kind = .importAlias
  symbol_eq : d.symbol = none
  source_eq : d.importSource.map ImportSource.specifier = some specifier

/-- The aliases of a part are from the module of the statement. -/
theorem isAliasFrom_of_mem_partAliases {specifier : String} {part : Node} :
    ∀ d ∈ partAliases specifier part, IsAliasFrom specifier d := by
  unfold partAliases
  intro d hd
  -- The three parts of a clause: its own name, a whole module, and names in braces.
  split at hd
  · exact List.mem_singleton.mp hd ▸ ⟨rfl, rfl, rfl⟩
  · obtain ⟨name, -, rfl⟩ := List.mem_map.mp hd
    exact ⟨rfl, rfl, rfl⟩
  · obtain ⟨element, -, helement⟩ := List.mem_filterMap.mp hd
    unfold elementAlias? at helement
    split at helement
    · dsimp only at helement
      split at helement
      · exact Option.some.inj helement ▸ ⟨rfl, rfl, rfl⟩
      · exact nomatch helement
    · exact nomatch helement
  · exact absurd hd List.not_mem_nil

/-- The aliases of a statement are from one module. -/
theorem isAliasFrom_of_mem {statement : Node} :
    ∀ d ∈ statementAliases statement, ∃ specifier, IsAliasFrom specifier d := by
  intro d hd
  obtain ⟨clause, -, hd⟩ := List.mem_flatMap.mp hd
  unfold clauseAliases at hd
  split at hd
  · obtain ⟨part, -, hd⟩ := List.mem_flatMap.mp hd
    exact ⟨_, isAliasFrom_of_mem_partAliases d hd⟩
  · split at hd
    · exact List.mem_singleton.mp hd ▸ ⟨_, rfl, rfl, rfl⟩
    · exact absurd hd List.not_mem_nil
  · exact absurd hd List.not_mem_nil

/-- A declaration without a symbol is detached. -/
theorem detached_eq {d : Declaration} (h : d.symbol = none) : d.detached = d := by
  obtain ⟨kind, name, node, nameNode, symbol, isStatic, accessor, importSource⟩ := d
  obtain rfl : symbol = none := h
  rfl

/-- The binder declares in an import statement what the statement declares. -/
theorem aliasesIn_eq (file : Source) (base : Store) {statement : Node}
    (hmem : statement ∈ file.root.children) (h : statement.is .importStatement = true) :
    aliasesIn file base statement = statementAliases statement := by
  -- The statement is bound once, and what it adds is what has been declared in it.
  obtain ⟨p, hp⟩ := exists_declaredIn file base hmem
  obtain ⟨depth, hdepth⟩ := Nat.exists_eq_succ_of_ne_zero (Nat.ne_of_gt (Tree.size_pos file.tree))
  rw [hdepth, bindFrom_import h, bindImport_eq, declareAll_detached] at hp
  -- Imported names have no symbol to be taken away.
  have hdetached : (statementAliases statement).map Declaration.detached =
      statementAliases statement := by
    refine (List.map_congr_left fun d hd => ?_).trans (List.map_id _)
    obtain ⟨_, hd⟩ := isAliasFrom_of_mem d hd
    exact detached_eq hd.symbol_eq
  rw [hdetached] at hp
  rw [aliasesIn, ← List.append_cancel_left hp]
  refine List.filter_eq_self.mpr fun d hd => ?_
  obtain ⟨_, hd⟩ := isAliasFrom_of_mem d hd
  simp [hd.kind_eq]

/-! ## The shape of a statement -/

/-- The trees of the constructs of a node are the parts of its tree. -/
theorem map_tree_constructs (n : Node) :
    n.constructs.map Node.tree = n.tree.children.filter Tree.isPart := by
  rw [Node.constructs, ← n.map_tree_children, List.filter_map]
  rfl

/-- If the trees of some nodes are at most one, the nodes are. -/
theorem exists_node? {ns : List Node} {t? : Option Tree} (h : ns.map Node.tree = t?.toList) :
    ∃ n? : Option Node, ns = n?.toList ∧ n?.map Node.tree = t? := by
  cases t? with
  | none => exact ⟨none, List.map_eq_nil_iff.mp h, rfl⟩
  | some t =>
    obtain ⟨n, rfl, hn⟩ := List.map_eq_singleton_iff.mp h
    exact ⟨some n, rfl, congrArg some hn⟩

/-- What holds only of parts is found among the constructs of a node. -/
theorem map_tree_constructs_filter {p : Tree → Bool} (hp : ∀ t, p t = true → t.isPart = true)
    (n : Node) : (n.constructs.filter fun c => p c.tree).map Node.tree =
      n.tree.children.filter p := by
  have hparts : n.tree.children.filter p = (n.tree.children.filter Tree.isPart).filter p := by
    rw [List.filter_filter]
    refine List.filter_congr fun t _ => ?_
    cases h : p t with
    | false => rfl
    | true => rw [hp t h]; rfl
  rw [hparts, ← map_tree_constructs, List.filter_map]
  rfl

/-- A statement has at most one clause, of the shape of an import clause. -/
theorem exists_clause? {statement : Node} (h : statement.tree.ImportsNames)
    (hkind : statement.is .importStatement = true) : ∃ clause? : Option Node,
      statement.constructs.filter (fun c => c.tree.isClause) = clause?.toList ∧
        ∀ clause ∈ clause?, clause.tree.BindsNames := by
  obtain ⟨t?, ht, hbinds⟩ := h hkind
  rw [← map_tree_constructs_filter fun _ => Grammar.isPart_of_isClause] at ht
  obtain ⟨clause?, hclause, rfl⟩ := exists_node? ht
  exact ⟨clause?, hclause, fun clause hmem => hbinds _ (Option.mem_map_of_mem _ hmem)⟩

/-- A clause has at most one name and one collection. -/
theorem exists_parts? {clause : Node} (h : clause.tree.BindsNames)
    (hkind : clause.is .importClause = true) : ∃ name? part? : Option Node,
      clause.constructs.filter (fun c => c.tree.bringsIn) = name?.toList ++ part?.toList ∧
        (∀ name ∈ name?, name.is .identifier = true) ∧
          ∀ part ∈ part?, part.tree.IsCollection := by
  obtain ⟨t?, u?, htrees, hname, hpart⟩ := h hkind
  rw [← map_tree_constructs_filter fun _ => Grammar.isPart_of_bringsIn] at htrees
  obtain ⟨names, parts, hsplit, hnames, hparts⟩ := List.map_eq_append_iff.mp htrees
  obtain ⟨name?, rfl, rfl⟩ := exists_node? hnames
  obtain ⟨part?, rfl, rfl⟩ := exists_node? hparts
  exact ⟨name?, part?, hsplit, fun name hmem => hname _ (Option.mem_map_of_mem _ hmem),
    fun part hmem => hpart _ (Option.mem_map_of_mem _ hmem)⟩

/-! ## Both readings -/

/-- How a record shows an alias: a name from a braced list after the name that it stands for in the
module if that is another one, any other name alone. -/
def shown (d : Declaration) : String :=
  if d.node.is .importSpecifier then
    renamed ((d.importSource.map ImportSource.imported).getD "") d.name
  else d.name

/-- Only elements in braces may be shown under another name. -/
theorem shown_eq_name {d : Declaration} (h : d.node.is .importSpecifier = false) :
    shown d = d.name := by
  rw [shown, h, if_neg Bool.false_ne_true]

/-- The names that a collection brings in, as a record shows them. -/
def collected (part : Node) : List String :=
  if part.is .namespaceImport then
    (part.constructs.find? (·.is .identifier)).toList.map Node.text
  else (part.constructs.filter (·.is .importSpecifier)).map elementSpecifier

/-- A node has a part in a role if its tree has a child in the role. -/
theorem isSome_child? {n : Node} {f : Field} (h : ∃ c ∈ n.tree.children, c.role = some f) :
    (n.child? f).isSome = true := by
  obtain ⟨c, hc, hrole⟩ := h
  rw [← n.map_tree_children] at hc
  obtain ⟨child, hchild, rfl⟩ := List.mem_map.mp hc
  exact List.find?_isSome.mpr ⟨child, hchild, beq_iff_eq.mpr hrole⟩

/-- The elements of a collection are shown in their order. -/
theorem shown_elements (specifier : String) (elements : List Node)
    (h : ∀ element ∈ elements, element.tree.NamesElement) :
    (elements.filterMap (elementAlias? specifier)).map shown =
      (elements.filter (·.is .importSpecifier)).map elementSpecifier := by
  induction elements with
  | nil => rfl
  | cons element rest ih =>
    obtain ⟨helement, hrest⟩ := List.forall_mem_cons.mp h
    -- What is no specifier declares nothing and is not shown.
    cases hkind : element.is .importSpecifier with
    | false =>
      have hnone : elementAlias? specifier element = none := by
        unfold elementAlias?
        cases element.child? .name with
        | none => rfl
        | some name => simp [hkind]
      rw [List.filterMap_cons_none hnone, ih hrest]
      simp [hkind]
    | true =>
      -- A specifier declares an alias, which is shown as the specifier is written.
      obtain ⟨name, hname⟩ := Option.isSome_iff_exists.mp (isSome_child? (helement hkind))
      obtain ⟨d, hd, hshown⟩ : ∃ d, elementAlias? specifier element = some d ∧
          shown d = elementSpecifier element := by
        unfold elementAlias? elementSpecifier
        rw [hname]
        dsimp only
        rw [hkind]
        refine ⟨_, rfl, ?_⟩
        rw [shown, aliasFor, hkind]
        cases element.child? .alias <;> rfl
      rw [List.filterMap_cons_some hd, List.map_cons, ih hrest, hshown]
      simp [hkind]

/-- A record shows the aliases of a collection. -/
theorem shown_collection (specifier : String) {part : Node} (h : part.tree.IsCollection) :
    (partAliases specifier part).map shown = collected part := by
  obtain ⟨hkind, helements⟩ := h
  -- The whole module under one name, or names in braces.
  rcases hkind with (hwhole : part.is .namespaceImport = true) | hnamed
  · have hkind : part.kind? = some .namespaceImport := Node.kind?_of_is hwhole
    have hother : part.is .importSpecifier = false := Node.is_eq_false hwhole nofun
    rw [partAliases, hkind, collected, if_pos hwhole, List.map_map]
    exact List.map_congr_left fun name _ => shown_eq_name hother
  · have hkind : part.kind? = some .namedImports := Node.kind?_of_is hnamed
    have hother : part.is .namespaceImport = false := Node.is_eq_false hnamed nofun
    rw [partAliases, hkind, collected, hother, if_neg Bool.false_ne_true]
    refine shown_elements specifier part.constructs fun element hmem => helements hnamed _ ?_
    rw [← part.map_tree_children]
    exact List.mem_map_of_mem (List.mem_filter.mp hmem).1

/-- Only clauses declare something. -/
theorem clauseAliases_eq_nil {statement child : Node} (h : child.tree.isClause = false) :
    clauseAliases statement child = [] := by
  obtain ⟨hclause, hrequire⟩ := Bool.or_eq_false_iff.mp h
  unfold clauseAliases
  split
  · rename_i hkind
    exact absurd (Node.is_of_kind? hkind) (by simp [Node.is, hclause])
  · rename_i hkind
    exact absurd (Node.is_of_kind? hkind) (by simp [Node.is, hrequire])
  · rfl

/-- Only names and collections declare something in a clause. -/
theorem partAliases_eq_nil {specifier : String} {part : Node} (h : part.tree.bringsIn = false) :
    partAliases specifier part = [] := by
  obtain ⟨hfirst, hnamed⟩ := Bool.or_eq_false_iff.mp h
  obtain ⟨hname, hwhole⟩ := Bool.or_eq_false_iff.mp hfirst
  unfold partAliases
  split
  · rename_i hkind
    exact absurd (Node.is_of_kind? hkind) (by simp [Node.is, hname])
  · rename_i hkind
    exact absurd (Node.is_of_kind? hkind) (by simp [Node.is, hwhole])
  · rename_i hkind
    exact absurd (Node.is_of_kind? hkind) (by simp [Node.is, hnamed])
  · rfl

/-- What contributes nothing may be left out beforehand. -/
theorem flatMap_eq_filter {α β : Type} {f : α → List β} {p : α → Bool}
    (h : ∀ a, p a = false → f a = []) (l : List α) : l.flatMap f = (l.filter p).flatMap f := by
  induction l with
  | nil => rfl
  | cons a rest ih =>
    rw [List.flatMap_cons, List.filter_cons, ih]
    split
    · rw [List.flatMap_cons]
    · rename_i hother
      rw [h a (by simpa using hother), List.nil_append]

/-- What a clause declares is all that its statement declares. -/
theorem statementAliases_eq {statement : Node} {clause? : Option Node}
    (h : statement.constructs.filter (fun c => c.tree.isClause) = clause?.toList) :
    statementAliases statement = clause?.toList.flatMap (clauseAliases statement) := by
  rw [← h, statementAliases]
  exact flatMap_eq_filter (fun _ => clauseAliases_eq_nil) _

/-- The record of an import statement and the aliases that the statement declares tell the same:
they have the module in common, the record shows the aliases in order, and these are that of the
default export, if any, and then either that of the whole module or those of names in braces. A
statement without a clause is read for its effects. -/
structure Mirrors (statement : Node) (aliases : List Declaration) (r : ImportRecord) : Prop where
  module_eq : r.module = (specifierOf statement).getD ""
  source_eq : ∀ d ∈ aliases, d.importSource.map ImportSource.specifier = some r.module
  specifiers_eq : r.specifiers = aliases.map shown
  inOrder : ∃ default? rest, aliases = Option.toList default? ++ rest ∧
    (∀ d ∈ default?, d.importSource.map ImportSource.imported = some "default") ∧
      ((∃ whole? : Option Declaration, rest = whole?.toList ∧
        ∀ d ∈ whole?, d.importSource.map ImportSource.imported = some "*") ∨
          ∀ d ∈ rest, d.node.is .importSpecifier = true)
  sideEffect_iff : r.kind = .sideEffect ↔
    ∀ c ∈ statement.constructs, c.is .importClause = false

/-- Whether an import statement assigns the result of `require`. -/
def assignsRequire (statement : Node) : Bool :=
  statement.constructs.any (·.is .importRequireClause)

/-- A test that an optional item passes finds the item. -/
theorem find?_toList_eq_self {α : Type} {p : α → Bool} {o : Option α}
    (h : ∀ a ∈ o, p a = true) : o.toList.find? p = o := by
  cases o with
  | none => rfl
  | some a => exact List.find?_cons_of_pos (h a rfl)

/-- A test that an optional item fails finds nothing. -/
theorem find?_toList_eq_none {α : Type} {p : α → Bool} {o : Option α}
    (h : ∀ a ∈ o, p a = false) : o.toList.find? p = none := by
  cases o with
  | none => rfl
  | some a => exact List.find?_eq_none.mpr fun b hb => by simp [List.mem_singleton.mp hb, h a rfl]

/-- A collection is found as such, and a name is none. -/
theorem isCollection_eq_true {part : Node} (h : part.tree.IsCollection) :
    isCollection part = true ∧ part.is .identifier = false := by
  rcases h.1 with h | h
  · have hkind : part.is .namespaceImport = true := h
    exact ⟨by simp [isCollection, Node.isOneOf, hkind], Node.is_eq_false hkind (by decide)⟩
  · have hkind : part.is .namedImports = true := h
    exact ⟨by simp [isCollection, Node.isOneOf, hkind], Node.is_eq_false hkind (by decide)⟩

/-- A name is no collection. -/
theorem isCollection_eq_false {name : Node} (h : name.is .identifier = true) :
    isCollection name = false := by
  simp [isCollection, Node.isOneOf, Node.is_eq_false h]

/-- Names, namespace imports and imports in braces bring in names. -/
theorem bringsIn_of_is {n : Node} {k : Kind} (h : n.is k = true)
    (hk : k = .identifier ∨ k = .namespaceImport ∨ k = .namedImports) :
    n.tree.bringsIn = true := by
  have h : n.tree.isKind k = true := h
  rcases hk with rfl | rfl | rfl <;> simp [Tree.bringsIn, h]

/-- The first part of a sort that brings something in is the first among the parts that do. -/
theorem find?_constructs_eq {clause : Node} {p : Node → Bool}
    (h : ∀ c, p c = true → c.tree.bringsIn = true) : clause.constructs.find? p =
      (clause.constructs.filter fun c => c.tree.bringsIn).find? p := by
  rw [List.find?_filter]
  refine congrArg (fun q => clause.constructs.find? q) (funext fun c => ?_)
  cases hc : p c with
  | false => simp
  | true => simp [h c hc]

/-- A clause is read as its name and what its collection brings in. -/
theorem ofClause_eq {clause : Node} {name? part? : Option Node}
    (hparts : clause.constructs.filter (fun c => c.tree.bringsIn) = name?.toList ++ part?.toList)
    (hname : ∀ name ∈ name?, name.is .identifier = true)
    (hpart : ∀ part ∈ part?, part.tree.IsCollection) :
    (ofClause clause).1 = name?.toList.map Node.text ++ part?.toList.flatMap collected ∧
      (ofClause clause).2 ≠ .sideEffect := by
  -- The name is the only identifier among the parts, and the collection the only collection.
  have hfindName : clause.constructs.find? (·.is .identifier) = name? := by
    rw [find?_constructs_eq fun _ hc => bringsIn_of_is hc (.inl rfl), hparts, List.find?_append,
      find?_toList_eq_self hname,
      find?_toList_eq_none fun part hmem => (isCollection_eq_true (hpart part hmem)).2,
      Option.or_none]
  have hcollects : ∀ c, isCollection c = true → c.tree.bringsIn = true := fun c hc => by
    obtain ⟨k, hk, his⟩ := List.any_eq_true.mp hc
    exact bringsIn_of_is his (.inr (by simpa using hk))
  have hfindPart : clause.constructs.find? isCollection = part? := by
    rw [find?_constructs_eq hcollects, hparts, List.find?_append,
      find?_toList_eq_none fun name hmem => isCollection_eq_false (hname name hmem),
      find?_toList_eq_self fun part hmem => (isCollection_eq_true (hpart part hmem)).1,
      Option.none_or]
  unfold ofClause
  rw [hfindName, hfindPart]
  dsimp only
  -- Without a collection, what is brought in is the name alone.
  cases part? with
  | none =>
    refine ⟨(List.append_nil _).symm, ?_⟩
    dsimp only
    split <;> exact nofun
  | some part =>
    dsimp only
    -- The collection is a namespace or a list of names.
    split
    · rename_i hwhole
      exact ⟨by rw [Option.toList_some, List.flatMap_singleton, collected, if_pos hwhole], nofun⟩
    · rename_i hnamed
      exact ⟨by rw [Option.toList_some, List.flatMap_singleton, collected, if_neg hnamed], nofun⟩

/-- A clause declares its name and then what its collection brings in. -/
theorem clauseAliases_eq (statement : Node) {clause : Node}
    (hkind : clause.is .importClause = true)
    {name? part? : Option Node}
    (hparts : clause.constructs.filter (fun c => c.tree.bringsIn) = name?.toList ++ part?.toList)
    (hname : ∀ name ∈ name?, name.is .identifier = true) :
    clauseAliases statement clause =
      (name?.map fun name => aliasFor ((specifierOf statement).getD "") "default" name.text name
        name).toList ++ part?.toList.flatMap (partAliases ((specifierOf statement).getD "")) := by
  rw [clauseAliases, Node.kind?_of_is hkind]
  dsimp only
  rw [flatMap_eq_filter (fun _ => partAliases_eq_nil), hparts, List.flatMap_append]
  -- The default comes first if there is one.
  cases name? with
  | none => rfl
  | some name =>
    rw [Option.toList_some, List.flatMap_singleton, partAliases, Node.kind?_of_is (hname name rfl)]
    rfl

/-- A collection is of a whole module, or of names in braces. -/
theorem partAliases_collection (specifier : String) {part : Node} (h : part.tree.IsCollection) :
    (∃ whole? : Option Declaration, partAliases specifier part = whole?.toList ∧
      ∀ d ∈ whole?, d.importSource.map ImportSource.imported = some "*") ∨
        ∀ d ∈ partAliases specifier part, d.node.is .importSpecifier = true := by
  rcases h.1 with
    (hwhole : part.is .namespaceImport = true) | (hnamed : part.is .namedImports = true)
  -- A whole module has one alias for all of it; names have one for each specifier.
  · refine .inl ⟨(part.constructs.find? (·.is .identifier)).map fun name =>
      aliasFor specifier "*" name.text part name, ?_, fun d hd => ?_⟩
    · rw [partAliases, Node.kind?_of_is hwhole, Option.toList_map]
    · obtain ⟨name, -, rfl⟩ := Option.map_eq_some_iff.mp hd
      rfl
  · refine .inr fun d hd => ?_
    rw [partAliases, Node.kind?_of_is hnamed] at hd
    obtain ⟨element, -, helement⟩ := List.mem_filterMap.mp hd
    unfold elementAlias? at helement
    split at helement
    · dsimp only at helement
      split at helement
      · rename_i hspecifier
        exact Option.some.inj helement ▸ hspecifier
      · exact nomatch helement
    · exact nomatch helement

/-- The record of a statement with a clause shows what the clause declares. -/
theorem mirrors_clause {statement clause : Node} (hkind : clause.is .importClause = true)
    (hmem : clause ∈ statement.constructs) (hbinds : clause.tree.BindsNames) :
    Mirrors statement (clauseAliases statement clause)
      ⟨(specifierOf statement).getD "", (ofClause clause).1, (ofClause clause).2⟩ := by
  obtain ⟨name?, part?, hparts, hname, hpart⟩ := exists_parts? hbinds hkind
  obtain ⟨hspecifiers, hclauseKind⟩ := ofClause_eq hparts hname hpart
  have haliases := clauseAliases_eq statement hkind hparts hname
  refine ⟨rfl, fun d hd => ?_, ?_, ⟨_, _, haliases, fun d hd => ?_, ?_⟩, ?_⟩
  · rw [clauseAliases, Node.kind?_of_is hkind] at hd
    obtain ⟨part, -, hd⟩ := List.mem_flatMap.mp hd
    exact (isAliasFrom_of_mem_partAliases d hd).source_eq
  -- The shown names are those of the default and of the collection, in this order.
  · have hshownName : (name?.map fun name =>
        aliasFor ((specifierOf statement).getD "") "default" name.text name name).toList.map shown =
          name?.toList.map Node.text := by
      cases name? with
      | none => rfl
      | some name =>
        have hother : name.is .importSpecifier = false := Node.is_eq_false (hname name rfl) nofun
        rw [Option.map_some, Option.toList_some, List.map_singleton, shown_eq_name hother]
        rfl
    have hshownPart : (part?.toList.flatMap
        (partAliases ((specifierOf statement).getD ""))).map shown =
          part?.toList.flatMap collected := by
      cases part? with
      | none => rfl
      | some part =>
        rw [Option.toList_some, List.flatMap_singleton, List.flatMap_singleton]
        exact shown_collection _ (hpart part rfl)
    rw [haliases, List.map_append, hshownName, hshownPart]
    exact hspecifiers
  · obtain ⟨name, -, rfl⟩ := Option.map_eq_some_iff.mp hd
    rfl
  -- Only the default has no alias of its own in braces.
  · cases part? with
    | none => exact .inl ⟨none, rfl, fun d hd => absurd hd (Option.not_mem_none d)⟩
    | some part =>
      rw [Option.toList_some, List.flatMap_singleton]
      exact partAliases_collection _ (hpart part rfl)
  · refine ⟨fun h => absurd h hclauseKind, fun h => ?_⟩
    rw [h clause hmem] at hkind
    exact nomatch hkind

/-- The two kinds of clauses are the kinds of import clauses. -/
theorem isOneOf_clauses (n : Node) :
    n.isOneOf [.importClause, .importRequireClause] = n.tree.isClause := by
  simp [Node.isOneOf, Tree.isClause, Node.is]

/-- The record of one statement mirrors what it declares. -/
theorem ofStatement?_mirrors {statement : Node} (hshape : statement.tree.ImportsNames)
    (hkind : statement.is .importStatement = true) :
    (assignsRequire statement = true → ofStatement? statement = none) ∧
      (assignsRequire statement = false → ∃ r, ofStatement? statement = some r ∧
        Mirrors statement (statementAliases statement) r) := by
  obtain ⟨clause?, hclauses, hbinds⟩ := exists_clause? hshape hkind
  have haliases := statementAliases_eq hclauses
  have hfind : statement.constructs.find? (·.isOneOf [.importClause, .importRequireClause]) =
      clause? := by
    simp only [isOneOf_clauses]
    rw [← List.head?_filter, hclauses, Option.head?_toList]
  -- There is one clause at most, so whatever is a clause is this one.
  have hmem : ∀ c ∈ statement.constructs, c.tree.isClause = true → c ∈ clause? := fun c hc his =>
    Option.mem_toList.mp (hclauses ▸ List.mem_filter.mpr ⟨hc, his⟩)
  unfold ofStatement?
  rw [hfind]
  cases clause? with
  -- Without a clause the statement is imported for its effect only.
  | none =>
    have hnone : ∀ c ∈ statement.constructs, c.tree.isClause = false := fun c hc =>
      Bool.eq_false_iff.mpr fun his => absurd (hmem c hc his) (Option.not_mem_none c)
    refine ⟨fun hrequire => ?_, fun _ => ⟨_, rfl, ?_⟩⟩
    · obtain ⟨c, hc, his⟩ := List.any_eq_true.mp hrequire
      exact absurd (Bool.or_eq_true_iff.mpr (.inr his)) (Bool.eq_false_iff.mp (hnone c hc))
    · rw [haliases]
      exact ⟨rfl, List.forall_mem_nil _, rfl, ⟨none, [], rfl, fun d hd =>
        absurd hd (Option.not_mem_none d), .inr (List.forall_mem_nil _)⟩,
        fun _ c hc => (Bool.or_eq_false_iff.mp (hnone c hc)).1, fun _ => rfl⟩
  | some clause =>
    have hsome : clause ∈ statement.constructs.filter fun c => c.tree.isClause := by
      rw [hclauses]
      exact List.mem_singleton_self clause
    obtain ⟨hclause, his⟩ := List.mem_filter.mp hsome
    dsimp only
    -- A clause of `require` is what the statement is told by.
    cases hrequire : clause.is .importRequireClause with
    | true =>
      have hassigns : assignsRequire statement = true :=
        List.any_eq_true.mpr ⟨clause, hclause, hrequire⟩
      exact ⟨fun _ => rfl, fun h => absurd (hassigns.symm.trans h) nofun⟩
    | false =>
      -- A clause of an import, so the record is read from it.
      refine ⟨fun hassigns => ?_, fun _ => ⟨_, rfl, ?_⟩⟩
      · obtain ⟨c, hc, hcrequire⟩ := List.any_eq_true.mp hassigns
        obtain rfl := Option.some.inj (hmem c hc (Bool.or_eq_true_iff.mpr (.inr hcrequire)))
        exact absurd (hrequire.symm.trans hcrequire) nofun
      · have himport : clause.is .importClause = true :=
          (Bool.or_eq_true_iff.mp his).resolve_right (Bool.eq_false_iff.mp hrequire)
        rw [haliases, Option.toList_some, List.flatMap_singleton]
        exact mirrors_clause himport hclause (hbinds clause rfl)

/-- What is found for some items of a list is found in their order. -/
theorem forall₂_filterMap {α β : Type} {R : α → β → Prop} {f : α → Option β} {p : α → Bool}
    {l : List α} (h : ∀ a ∈ l, (p a = false → f a = none) ∧
      (p a = true → ∃ b, f a = some b ∧ R a b)) :
    List.Forall₂ R (l.filter p) (l.filterMap f) := by
  induction l with
  | nil => exact .nil
  | cons a rest ih =>
    -- The first item is found or passed over, and the rest stays in order.
    obtain ⟨⟨hnone, hsome⟩, hrest⟩ := List.forall_mem_cons.mp h
    cases hp : p a with
    | false =>
      rw [List.filter_cons_of_neg (by simp [hp]), List.filterMap_cons_none (hnone hp)]
      exact ih hrest
    | true =>
      obtain ⟨b, hb, hR⟩ := hsome hp
      rw [List.filter_cons_of_pos hp, List.filterMap_cons_some hb]
      exact .cons hR (ih hrest)

/-- Both readings of the import statements of a file agree: in source order each statement at the
top of the file has one record, if it does not assign the result of `require`, and the record tells
the same as the aliases that the statement declares when the file is bound. The file may have any
tree whose import statements have the shape that the grammar gives them; by `readProgram_imports`
those of a text that is read do. -/
theorem imports_mirror (file : Source) (hshape : ∀ t ∈ file.tree.children, t.ImportsNames)
    (base : Store) :
    List.Forall₂ (fun statement r => Mirrors statement (aliasesIn file base statement) r)
      (file.root.constructs.filter fun s => !assignsRequire s && s.is .importStatement)
      file.imports := by
  rw [← List.filter_filter, Source.imports]
  refine forall₂_filterMap fun statement hmem => ?_
  obtain ⟨hconstruct, hkind⟩ := List.mem_filter.mp hmem
  have hchild : statement ∈ file.root.children := (List.mem_filter.mp hconstruct).1
  -- The shape is that of the statement's own tree.
  have htree : statement.tree ∈ file.tree.children := by
    rw [show file.tree = file.root.tree from rfl, ← Node.map_tree_children]
    exact List.mem_map_of_mem hchild
  obtain ⟨hnone, hsome⟩ := ofStatement?_mirrors (hshape _ htree) hkind
  rw [aliasesIn_eq file base hchild hkind]
  exact ⟨fun h => hnone (by simpa using h), fun h => hsome (by simpa using h)⟩

/-- A text with two import statements, and a bracket between them that no rule accepts. -/
def bracketText : String := "import a from 'm'; ) import b,\x7bc as d\x7d from 'n';"

/-- The tree of the text: that of the statements alone, and the bracket as something unread. -/
def bracketTree : Tree :=
  let statements := readProgram .ts "import a from 'm';   import b,\x7bc as d\x7d from 'n';"
  .node statements.label none statements.start statements.stop
    (statements.children.take 1 ++ Tree.leaf (.construct .error) 19 20 ::
      statements.children.drop 1)

/-- What no rule accepts makes no difference to the statements around it. -/
theorem imports_mirror_around_bracket :
    let file : Source :=
      { fileName := "/a.ts", text := bracketText, dialect := .ts, tree := bracketTree }
    (∀ t ∈ bracketTree.children, t.ImportsNames) ∧
      file.imports = [⟨"m", ["a"], .default⟩, ⟨"n", ["b", "c as d"], .named⟩] ∧
      List.Forall₂ (fun statement r => Mirrors statement (aliasesIn file {} statement) r)
        (file.root.constructs.filter fun s => !assignsRequire s && s.is .importStatement)
        file.imports := by
  intro file
  have hstatements := readProgram_imports .ts
    "import a from 'm';   import b,\x7bc as d\x7d from 'n';"
  have hshape : ∀ t ∈ bracketTree.children, t.ImportsNames :=
    List.forall_mem_append.mpr ⟨fun t ht => hstatements t (List.mem_of_mem_take ht),
      List.forall_mem_cons.mpr ⟨nofun, fun t ht => hstatements t (List.mem_of_mem_drop ht)⟩⟩
  exact ⟨hshape, by decide +kernel, imports_mirror file hshape {}⟩

end ImportRecord

end ScriptGraph
