import ScriptGraph.Proofs.Binding.Links
import ScriptGraph.Proofs.Inference.Growth

/-!
# What a statement declares

Whatever is bound adds its declarations behind those that are there, and they are of constructs of
its own. So the declarations of a file can be told apart by the statement at the top of the file
that they stand in: the statement declares what binding it alone adds.

- `Bind.Step.declares`: what one step of binding adds
- `declaredIn`: what binding a file declares in one of its statements
- `exists_declaredIn`: what binding the statement adds
- `forall_declaredBy`: all that a file declares
-/

namespace ScriptGraph

namespace Syntax.Node

/-- The child of the root that a node stands in, by its number. -/
def place (n : Node) : Option Nat :=
  n.trail.getLast?.map Crumb.index

/-- A child does not stand at the root. -/
theorem trail_ne_nil_of_mem_children {n c : Node} (h : c ∈ n.children) : c.trail ≠ [] := by
  obtain ⟨e, -, rfl⟩ := List.mem_map.mp h
  exact List.cons_ne_nil _ _

/-- A child stands in the statement that its parent stands in. -/
theorem place_of_mem_children {n c : Node} (hn : n.trail ≠ []) (h : c ∈ n.children) :
    c.place = n.place := by
  obtain ⟨e, -, rfl⟩ := List.mem_map.mp h
  rw [place, List.getLast?_cons_of_ne_nil hn, place]

end Syntax.Node

open Binding Syntax

/-- The statement in which a node stands is handed down. -/
theorem passesDown_place (q : Option Nat → Prop) :
    PassesDown fun n => n.trail ≠ [] ∧ q n.place := fun _ hn _ hc =>
  ⟨Node.trail_ne_nil_of_mem_children hc, Node.place_of_mem_children hn.1 hc ▸ hn.2⟩

/-- No two statements at the top of a file stand in the same place. -/
theorem Source.nodup_place (file : Source) : (file.root.children.map Node.place).Nodup := by
  have hplaces : file.root.children.map Node.place =
      (file.tree.children.zipIdx.map Prod.snd).map some := by
    rw [Node.children, List.map_map, List.map_map]
    rfl
  rw [hplaces, List.zipIdx_map_snd]
  exact (List.nodup_range' (s := 0)).map fun _ _ => Option.some.inj

namespace Binding

namespace Store

/-- The declarations of a store, apart from the symbols that they are attached to. -/
def detached (s : Store) : List Declaration :=
  s.declarations.toList.map Declaration.detached

/-- A declaration that is added is the last one. -/
theorem detached_addDeclaration (s : Store) (d : Declaration) :
    (s.addDeclaration d).2.detached = s.detached ++ [d.detached] := by
  simp [detached, addDeclaration]

/-- Attaching does not change what was declared. -/
theorem detached_attach (s : Store) (x : SymbolId) (d : DeclarationId) :
    (s.attach x d).detached = s.detached := by
  refine List.ext_getElem? fun i => ?_
  simp only [detached, attach, modifySymbol, modifyDeclaration, List.getElem?_map,
    Array.getElem?_toList, Array.getElem?_modify]
  split
  · rw [Option.map_map]
    rfl
  · rfl

/-- Putting a symbol into a scope does not change what was declared. -/
theorem detached_putSymbol (s : Store) (scope : ScopeId) (name : String) (x : SymbolId) :
    (s.putSymbol scope name x).detached = s.detached := by
  unfold putSymbol
  split <;> rfl

end Store

namespace Bind

open Store

variable {φ : Node → Prop} {p q : Progress}

/-- Attaching in a scope declares nothing. -/
theorem attachIn_detached (p : Progress) (scope : ScopeId) (name : String) (d : DeclarationId) :
    ((attachIn scope name d).run p).2.store.detached = p.store.detached := by
  rw [attachIn_store]
  split
  · exact detached_attach _ _ _
  · exact (detached_attach _ _ _).trans (detached_putSymbol _ _ _ _)

/-- Declaring a name adds one declaration. -/
theorem declare_detached (p : Progress) (scope : ScopeId) (d : Declaration) :
    ((declare scope d).run p).2.store.detached = p.store.detached ++ [d.detached] :=
  (attachIn_detached ((record d).run p).2 scope d.name ⟨p.store.declarations.size⟩).trans
    (detached_addDeclaration p.store d)

/-- Declaring a member adds one declaration. -/
theorem declareMember_detached (p : Progress) (owner : SymbolId) (d : Declaration) :
    ((declareMember owner d).run p).2.store.detached = p.store.detached ++ [d.detached] := by
  rw [declareMember_store]
  dsimp only
  split
  · rw [detached_attach, detached_addDeclaration]
  · rw [detached_attach]
    exact detached_addDeclaration p.store d

/-- The declarations that a step adds are of its own constructs. -/
theorem Step.declares (h : Step φ p q) :
    ∃ ds : List Declaration, q.store.detached = p.store.detached ++ ds ∧ ∀ d ∈ ds, φ d.node := by
  -- A step adds no declaration or one: two rules, and a case for each kind of step.
  have hnone : ∀ {q : Progress}, q.store.detached = p.store.detached →
      ∃ ds : List Declaration, q.store.detached = p.store.detached ++ ds ∧ ∀ d ∈ ds, φ d.node :=
    fun h => ⟨[], h.trans (List.append_nil _).symm, List.forall_mem_nil _⟩
  have hone : ∀ {q : Progress} {d : Declaration},
      q.store.detached = p.store.detached ++ [d.detached] → φ d.node →
      ∃ ds : List Declaration, q.store.detached = p.store.detached ++ ds ∧ ∀ d ∈ ds, φ d.node :=
    fun {_ d} h hφ => ⟨[d.detached], h, List.forall_mem_singleton.mpr hφ⟩
  cases h with
  | scope => exact hnone rfl
  | declare scope d hd hφ => exact hone (declare_detached p scope d) hφ
  -- Opening scopes and attaching do not count, as declarations are compared without their symbols.
  | within scope d hd hφ =>
    let opened := (openScope .function d.node scope).run ((record d).run p).2
    exact hone ((attachIn_detached opened.2 opened.1 d.name ⟨p.store.declarations.size⟩).trans
      (detached_addDeclaration p.store d)) hφ
  | introduced d hd hφ =>
    exact hone ((detached_attach _ _ _).trans (detached_addDeclaration _ d)) hφ
  | introducedWithin scope d hd hφ =>
    exact hone ((detached_putSymbol _ _ _ _).trans
      ((detached_attach _ _ _).trans (detached_addDeclaration _ d))) hφ
  | unattached d hd hφ => exact hone (detached_addDeclaration p.store d) hφ
  | member owner d hd hφ => exact hone (declareMember_detached p owner d) hφ
  | constructs owner d hφ => exact hone (detached_addDeclaration p.store _) hφ
  | calls owner d hφ => exact hone (detached_addDeclaration p.store _) hφ
  | typeParameter => exact hnone rfl
  | exposed => exact hnone rfl
  | star => exact hnone rfl
  | ambient => exact hnone rfl
  | block => exact hnone rfl
  | quoted => exact hnone rfl

/-- Steps add declarations of constructs that they go through. -/
theorem Steps.declares (h : Steps φ p q) :
    ∃ ds : List Declaration, q.store.detached = p.store.detached ++ ds ∧ ∀ d ∈ ds, φ d.node := by
  induction h with
  | refl => exact ⟨[], (List.append_nil _).symm, List.forall_mem_nil _⟩
  | tail _ hlast ih =>
    obtain ⟨ds, heq, hds⟩ := ih
    obtain ⟨more, hmore, hφ⟩ := hlast.declares
    exact ⟨ds ++ more, by rw [hmore, heq, List.append_assoc],
      List.forall_mem_append.mpr ⟨hds, hφ⟩⟩

end Bind

/-! ## Statements at the top of a file -/

/-- What binding a file declares in one of the statements at its top, apart from the symbols that
the declarations are attached to. -/
def declaredIn (file : Source) (base : Store) (statement : Node) : List Declaration :=
  ((bind file base).2.detached.drop base.declarations.size).filter fun d =>
    d.node.place == statement.place

/-- More statements are bound from where the earlier ones have led. -/
theorem boundUpTo_append (file : Source) (base : Store) (statements more : List Node) :
    boundUpTo file base (statements ++ more) =
      (((tasks ⟨base.scopes.size⟩ ⟨base.scopes.size⟩ more).forM
        (Bind.bindFrom file.tree.size)).run (boundUpTo file base statements)).2 := by
  unfold boundUpTo tasks
  rw [List.map_append, List.forM_eq_forM, List.forM_append]
  rfl

/-- What is bound of some statements declares in their places only. -/
theorem statements_declare (q : Option Nat → Prop) {statements : List Node}
    (h : ∀ n ∈ statements, n.trail ≠ [] ∧ q n.place) (scope : ScopeId) (depth : Nat)
    (p : Progress) : ∃ ds : List Declaration,
      (((tasks scope scope statements).forM (Bind.bindFrom depth)).run p).2.store.detached =
        p.store.detached ++ ds ∧ ∀ d ∈ ds, q d.node.place := by
  obtain ⟨ds, heq, hds⟩ := (statements_go (passesDown_place q) h scope depth p).1.declares
  exact ⟨ds, heq, fun d hd => (hds d hd).2⟩

/-- The statements around one at the top of a file stand in other places. -/
theorem place_ne_of_children_eq {file : Source} {before after : List Node} {statement : Node}
    (h : file.root.children = before ++ statement :: after) :
    ∀ n ∈ before ++ after, n.place ≠ statement.place := by
  have hnodup := file.nodup_place
  rw [h, List.map_append, List.map_cons] at hnodup
  have hperm : (statement.place :: (before ++ after).map Node.place).Nodup := by
    rw [List.map_append]
    exact List.perm_middle.nodup hnodup
  exact fun n hn heq => (List.nodup_cons.mp hperm).1 (heq ▸ List.mem_map_of_mem hn)

/-- What is declared in a statement is what binding the statement adds to what is bound of the
statements before it. -/
theorem exists_declaredIn (file : Source) (base : Store) {statement : Node}
    (h : statement ∈ file.root.children) : ∃ p : Progress,
      ((Bind.bindFrom file.tree.size ⟨statement, ⟨base.scopes.size⟩, ⟨base.scopes.size⟩⟩).run
        p).2.store.detached = p.store.detached ++ declaredIn file base statement := by
  obtain ⟨before, after, hsplit⟩ := List.append_of_mem h
  have hplace := place_ne_of_children_eq hsplit
  have htrail : ∀ n ∈ before ++ statement :: after, n.trail ≠ [] :=
    fun n hn => Node.trail_ne_nil_of_mem_children (hsplit ▸ hn)
  let walk (l : List Node) : Bind Unit :=
    (tasks ⟨base.scopes.size⟩ ⟨base.scopes.size⟩ l).forM (Bind.bindFrom file.tree.size)
  let p := boundUpTo file base before
  let q := ((walk [statement]).run p).2
  let done := ((walk after).run q).2
  -- The statements are bound one after another, so the list splits where `statement` begins and
  -- where it ends; places tell which part is which.
  obtain ⟨earlier, hearlier, hbefore⟩ : ∃ ds : List Declaration,
      p.store.detached = base.detached ++ ds ∧ ∀ d ∈ ds, d.node.place ≠ statement.place :=
    statements_declare (· ≠ statement.place)
      (fun n hn => ⟨htrail n (by simp [hn]), hplace n (by simp [hn])⟩) _ _ (opened file base)
  obtain ⟨own, hown, hhere⟩ : ∃ ds : List Declaration,
      q.store.detached = p.store.detached ++ ds ∧ ∀ d ∈ ds, d.node.place = statement.place :=
    statements_declare (· = statement.place)
      (List.forall_mem_singleton.mpr ⟨htrail statement (by simp), rfl⟩) _ _ p
  obtain ⟨later, hlater, hafter⟩ : ∃ ds : List Declaration,
      done.store.detached = q.store.detached ++ ds ∧ ∀ d ∈ ds, d.node.place ≠ statement.place :=
    statements_declare (· ≠ statement.place)
      (fun n hn => ⟨htrail n (by simp [hn]), hplace n (by simp [hn])⟩) _ _ q
  have hbound : (bind file base).2.detached = base.detached ++ (earlier ++ own ++ later) := by
    have hdone : (bind file base).2 = done.store := by
      rw [bind_eq, hsplit, List.append_cons, boundUpTo_append, boundUpTo_append]
    rw [hdone, hlater, hown, hearlier, List.append_assoc, List.append_assoc, List.append_assoc]
  refine ⟨p, hown.trans (congrArg _ ?_)⟩
  have hlength : base.detached.length = base.declarations.size := by simp [Store.detached]
  have hnone : ∀ ds : List Declaration, (∀ d ∈ ds, d.node.place ≠ statement.place) →
      ds.filter (fun d => d.node.place == statement.place) = [] := fun ds hds =>
    List.filter_eq_nil_iff.mpr fun d hd => by simpa using hds d hd
  have hall : own.filter (fun d => d.node.place == statement.place) = own :=
    List.filter_eq_self.mpr fun d hd => by simpa using hhere d hd
  rw [declaredIn, hbound, List.drop_left' hlength, List.filter_append, List.filter_append,
    hnone earlier hbefore, hall, hnone later hafter, List.append_nil, List.nil_append]

/-- The declarations of a file. -/
def declaredBy (file : Source) (base : Store) : List Declaration :=
  (bind file base).2.declarations.toList.drop base.declarations.size

/-- Every declaration that a file adds is declared by its statements. -/
theorem mem_declaredBy {file : Source} {base : Store} {d : DeclarationId}
    (hbase : base.declarations.size ≤ d.index)
    (hd : d.index < (bind file base).2.declarations.size) :
    (bind file base).2.declaration d ∈ declaredBy file base := by
  have hget : (bind file base).2.declaration d = (bind file base).2.declarations[d.index] := by
    rw [Store.declaration, Array.getD_eq_getD_getElem?, Array.getElem?_eq_getElem hd,
      Option.getD_some]
  obtain ⟨i, hi⟩ := Nat.exists_eq_add_of_le hbase
  have hplace : (declaredBy file base)[i]? = some ((bind file base).2.declaration d) := by
    rw [declaredBy, List.getElem?_drop, ← hi, hget, Array.getElem?_toList]
    exact Array.getElem?_eq_getElem hd
  exact List.mem_of_getElem? hplace

/-- They are of constructs of the file. -/
theorem forall_declaredBy {φ : Node → Prop} (hφ : PassesDown φ) {file : Source}
    (hfile : φ file.root) (base : Store) : ∀ d ∈ declaredBy file base, φ d.node := by
  obtain ⟨ds, heq, hds⟩ := (statements_go hφ (hφ _ hfile) ⟨base.scopes.size⟩ file.tree.size
    (opened file base)).1.declares
  have hdetached : (bind file base).2.detached = base.detached ++ ds := heq
  have hlength : base.detached.length = base.declarations.size := by simp [Store.detached]
  intro d hd
  have hmem : d.detached ∈ (bind file base).2.detached.drop base.declarations.size := by
    rw [Store.detached, ← List.map_drop]
    exact List.mem_map_of_mem hd
  rw [hdetached, List.drop_left' hlength] at hmem
  exact hds d.detached hmem

end Binding

end ScriptGraph
