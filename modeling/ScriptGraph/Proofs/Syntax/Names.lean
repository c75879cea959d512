import ScriptGraph.Inference.Members
import ScriptGraph.Proofs.Binding.SelfContained

/-!
# Names in trees

A name that is called is labelled as an identifier, the name of a method is not. So no name that is
called is at the same time the name of a method.

- `Tree.Throughout`: a property of a tree and of all its parts
- `Tree.NamesApart`: how the names of a construct are labelled
-/

namespace ScriptGraph.Syntax

open Binding Inference

namespace Tree

/-- A property holds of a tree and of all its parts. -/
inductive Throughout (φ : Tree → Prop) : Tree → Prop
  | intro {t : Tree} (here : φ t) (parts : ∀ c ∈ t.children, Throughout φ c) : Throughout φ t

namespace Throughout

variable {φ : Tree → Prop} {t : Tree}

/-- What holds throughout a tree holds of the tree. -/
theorem here (h : t.Throughout φ) : φ t := by
  cases h
  assumption

/-- It holds throughout the children. -/
theorem parts (h : t.Throughout φ) : ∀ c ∈ t.children, c.Throughout φ := by
  cases h
  assumption

/-- What holds throughout is handed down. -/
theorem hereditary (φ : Tree → Prop) : Hereditary (Throughout φ) :=
  fun _ h => h.parts

/-- What holds of every tree holds throughout each of them. -/
theorem of_forall (h : ∀ t, φ t) : ∀ t : Tree, t.Throughout φ
  | .node l r s e cs => .intro (h _) fun c (_ : c ∈ cs) => of_forall h c

end Throughout

/-- A method is not named by an identifier, and of all the names only identifiers are called. -/
structure NamesApart (t : Tree) : Prop where
  method : t.isKind .methodDefinition = true → ∀ c ∈ t.children, c.role = some .name →
    c.isKind .identifier = false
  call : t.isKind .callExpression = true → ∀ c ∈ t.children, c.role = some .callee →
    ∀ k ∈ nameKinds, c.isKind k = true → k = .identifier

instance : DecidablePred NamesApart := fun _ =>
  decidable_of_iff (_ ∧ _) ⟨fun h => ⟨h.1, h.2⟩, fun h => ⟨h.method, h.call⟩⟩

end Tree

variable {n c : Node}

/-- The tree of a part in a role is a child in the role. -/
theorem tree_of_child? {f : Field} (h : n.child? f = some c) :
    c.tree ∈ n.tree.children ∧ c.tree.role = some f := by
  have hrole := List.find?_some h
  obtain ⟨e, he, rfl⟩ := List.mem_map.mp (List.mem_of_find?_eq_some h)
  exact ⟨List.fst_mem_of_mem_zipIdx he, beq_iff_eq.mp hrole⟩

mutual

/-- Whatever holds throughout a tree holds throughout the nodes below it, all of one file. -/
theorem throughout_of_mem_preorderFrom {φ : Tree → Prop} {source : Source} {trail : List Crumb}
    {t : Tree} (ht : t.Throughout φ) (h : n ∈ preorderFrom source trail t) :
    n.source = source ∧ n.tree.Throughout φ := by
  match t with
  | .node l r start stop cs =>
    rw [preorderFrom] at h
    rcases List.mem_cons.mp h with rfl | h
    · exact ⟨rfl, ht⟩
    · exact throughout_of_mem_preorderAll (fun c hc => ht.parts c hc) h

/-- What holds throughout trees holds throughout their nodes in preorder. -/
theorem throughout_of_mem_preorderAll {φ : Tree → Prop} {source : Source} {parent : Tree}
    {trail : List Crumb} {index : Nat} {ts : List Tree} (hts : ∀ t ∈ ts, t.Throughout φ)
    (h : n ∈ preorderAll source parent trail index ts) :
    n.source = source ∧ n.tree.Throughout φ := by
  match ts with
  | [] => exact absurd h List.not_mem_nil
  | t :: ts =>
    rw [preorderAll] at h
    rcases List.mem_append.mp h with h | h
    · exact throughout_of_mem_preorderFrom (hts t List.mem_cons_self) h
    · exact throughout_of_mem_preorderAll (fun c hc => hts c (List.mem_cons_of_mem _ hc)) h

end

mutual

/-- What holds of every node below a tree holds throughout the tree. -/
theorem throughout_of_forall_preorderFrom {φ : Tree → Prop} {source : Source} {trail : List Crumb}
    {t : Tree} (h : ∀ n ∈ preorderFrom source trail t, φ n.tree) : t.Throughout φ := by
  match t with
  | .node l r start stop cs =>
    rw [preorderFrom] at h
    obtain ⟨hhere, hparts⟩ := List.forall_mem_cons.mp h
    exact .intro hhere (throughout_of_forall_preorderAll hparts)

/-- What holds of all nodes in preorder holds throughout. -/
theorem throughout_of_forall_preorderAll {φ : Tree → Prop} {source : Source} {parent : Tree}
    {trail : List Crumb} {index : Nat} {ts : List Tree}
    (h : ∀ n ∈ preorderAll source parent trail index ts, φ n.tree) :
    ∀ t ∈ ts, t.Throughout φ := by
  match ts with
  | [] => exact fun _ hmem => absurd hmem List.not_mem_nil
  | t :: ts =>
    rw [preorderAll] at h
    obtain ⟨hfirst, hrest⟩ := List.forall_mem_append.mp h
    exact List.forall_mem_cons.mpr
      ⟨throughout_of_forall_preorderFrom hfirst, throughout_of_forall_preorderAll hrest⟩

end

/-- What holds throughout a tree can be told from its nodes one by one. -/
instance {φ : Tree → Prop} [DecidablePred φ] : DecidablePred (Tree.Throughout φ) := fun t =>
  decidable_of_iff (∀ n ∈ preorderFrom default [] t, φ n.tree)
    ⟨throughout_of_forall_preorderFrom,
      fun ht _ hn => (throughout_of_mem_preorderFrom ht hn).2.here⟩

/-- What holds throughout a file holds throughout its nodes. -/
theorem throughout_of_mem_preorder {φ : Tree → Prop} {s : Source} (hs : s.tree.Throughout φ)
    (h : n ∈ s.root.preorder) : n.source = s ∧ n.tree.Throughout φ :=
  throughout_of_mem_preorderFrom hs h

/-- The nodes of a file are of that file. -/
theorem source_of_mem_preorder {s : Source} (h : n ∈ s.root.preorder) : n.source = s :=
  (throughout_of_mem_preorder (.of_forall (φ := fun _ => True) (fun _ => trivial) s.tree) h).1

/-- The name that is called is an identifier. -/
theorem Tree.NamesApart.label_of_called (h : n.tree.NamesApart) (hn : n.is .callExpression = true)
    (hc : n.child? .callee = some c) (hname : c.isOneOf nameKinds = true) :
    c.label = .construct .identifier := by
  obtain ⟨hmem, hrole⟩ := tree_of_child? hc
  obtain ⟨k, hk, his⟩ := List.any_eq_true.mp hname
  have hkind := h.call hn c.tree hmem hrole k hk his
  exact beq_iff_eq.mp (hkind ▸ his)

/-- The name of a method is no identifier. -/
theorem Tree.NamesApart.label_of_method (h : n.tree.NamesApart)
    (hn : n.is .methodDefinition = true) (hc : n.child? .name = some c) :
    c.label ≠ .construct .identifier := by
  obtain ⟨hmem, hrole⟩ := tree_of_child? hc
  intro hlabel
  have his : c.tree.isKind .identifier = true := beq_iff_eq.mpr hlabel
  rw [h.method hn c.tree hmem hrole] at his
  exact nomatch his

end ScriptGraph.Syntax
