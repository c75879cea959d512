import ScriptGraph.Proofs.Binding.Declared
import ScriptGraph.Proofs.Syntax.Reading.Statements

/-!
# Nodes of files

A node of a file knows the way to the root of the file, on which every tree has the one below as a
child. All of them stand in the text of the file, and so does whatever is declared in it.

- `Threads`: the way from a place to the top of a tree
- `Threads.nested_or_apart`: two places of a tree
- `Node.StandsIn`: a node of a file
- `standsIn_of_declaredBy`: what a file declares are nodes of it
-/

namespace ScriptGraph

namespace Syntax

open Binding

/-- The way from a place up to the top of a tree: every tree on it has the one below as a child. -/
inductive Threads (top : Tree) : Tree → List Crumb → Prop
  | top : Threads top top []
  | child {t : Tree} {c : Crumb} {rest : List Crumb} (h : c.parent.children[c.index]? = some t)
      (hrest : Threads top c.parent rest) : Threads top t (c :: rest)

namespace Threads

variable {top t u : Tree} {c : Crumb} {trail other rest : List Crumb}

/-- What holds throughout the top holds throughout a tree below it. -/
theorem throughout {φ : Tree → Prop} (h : Threads top t trail) (htop : top.Throughout φ) :
    t.Throughout φ := by
  induction h with
  | top => exact htop
  | child h _ ih => exact ih.parts _ (List.mem_of_getElem? h)

/-- A way down leads through the parent. -/
theorem above (h : Threads top t (c :: rest)) : Threads top c.parent rest := by
  cases h
  assumption

/-- The last step of a way down leads to the tree. -/
theorem getElem? (h : Threads top t (c :: rest)) : c.parent.children[c.index]? = some t := by
  cases h
  assumption

/-- The way down, told by numbers, leads to one place. -/
theorem eq_of_index_eq (h : Threads top t trail) (h' : Threads top u other)
    (hindex : trail.map Crumb.index = other.map Crumb.index) : t = u ∧ trail = other := by
  -- By induction on the way down: the same numbers lead to the same children.
  induction h generalizing u other with
  | top =>
    cases h' with
    | top => exact ⟨rfl, rfl⟩
    | child => exact nomatch hindex
  | @child t c rest hchild _ ih =>
    cases h' with
    | top => exact nomatch hindex
    | @child u c' rest' hchild' hrest' =>
      obtain ⟨hlast, hup⟩ := List.cons.inj hindex
      obtain ⟨parent, index⟩ := c
      obtain ⟨parent', index'⟩ := c'
      obtain ⟨rfl, rfl⟩ := ih hrest' hup
      obtain rfl : index = index' := hlast
      exact ⟨Option.some.inj (hchild.symm.trans hchild'), rfl⟩

/-- One place has one tree. -/
theorem tree_eq (h : Threads top t trail) (h' : Threads top u trail) : t = u :=
  (h.eq_of_index_eq h' rfl).1

/-- The trees on the way are at places of their own. -/
theorem exists_above {below : List Crumb} (h : Threads top u (below ++ trail)) :
    ∃ t, Threads top t trail := by
  induction below generalizing u with
  | nil => exact ⟨u, h⟩
  | cons c rest ih => exact ih h.above

section Placed

variable {text : List Char} (htop : top.Throughout (Placed text))
include htop

/-- A tree on the way down encloses the one that the way leads to. -/
theorem encloses {below : List Crumb} (h : Threads top t trail)
    (h' : Threads top u (below ++ trail)) : t.start ≤ u.start ∧ u.stop ≤ t.stop := by
  induction below generalizing u with
  | nil =>
    obtain rfl := h.tree_eq h'
    exact ⟨Nat.le_refl _, Nat.le_refl _⟩
  | cons c rest ih =>
    obtain ⟨hstart, hstop⟩ := ih h'.above
    obtain ⟨hinside, hinside'⟩ :=
      (h'.above.throughout htop).here.within u (List.mem_of_getElem? h'.getElem?)
    exact ⟨hstart.trans hinside, hinside'.trans hstop⟩

/-- Children of one tree at different places stand one after the other. -/
theorem stop_le_start {parent : Tree} {i j : Nat} (h : Threads top t (⟨parent, i⟩ :: rest))
    (h' : Threads top u (⟨parent, j⟩ :: rest)) (hij : i < j) : t.stop ≤ u.start := by
  have horder := (h.above.throughout htop).here.inOrder
  obtain ⟨hi, rfl⟩ := List.getElem?_eq_some_iff.mp h.getElem?
  obtain ⟨hj, rfl⟩ := List.getElem?_eq_some_iff.mp h'.getElem?
  exact List.pairwise_iff_getElem.mp horder i j hi hj hij

/-- Of two trees one is on the way down to the other, or they stand one after the other. -/
theorem nested_or_apart (h : Threads top t trail) (h' : Threads top u other) :
    (trail <:+ other ∨ other <:+ trail) ∨ t.stop ≤ u.start ∨ u.stop ≤ t.start := by
  -- By induction on the way down to the first tree. What its parent is to the other tree, it is
  -- itself, unless the way to the other tree goes on from the parent.
  induction h with
  | top => exact .inl (.inl List.nil_suffix)
  | @child t c rest hchild hrest ih =>
    obtain ⟨hstart, hstop⟩ := (hrest.throughout htop).here.within t (List.mem_of_getElem? hchild)
    rcases ih with (⟨below, rfl⟩ | hsuffix) | hbefore | hbehind
    · rcases List.eq_nil_or_concat' below with rfl | ⟨front, c', rfl⟩
      · exact .inl (.inr (List.suffix_cons c rest))
      · rw [List.append_assoc, List.singleton_append] at h' ⊢
        obtain ⟨v, hv⟩ := h'.exists_above
        obtain ⟨hvstart, hvstop⟩ := encloses htop hv h'
        obtain ⟨parent, i⟩ := c
        obtain ⟨parent', j⟩ := c'
        obtain rfl : parent = parent' := hrest.tree_eq hv.above
        -- Both ways go on from the parent, to one child of it or to different ones.
        rcases Nat.lt_trichotomy i j with hij | rfl | hij
        · exact .inr (.inl ((stop_le_start htop (.child hchild hrest) hv hij).trans hvstart))
        · exact .inl (.inl (List.suffix_append front _))
        · exact .inr (.inr (hvstop.trans (stop_le_start htop hv (.child hchild hrest) hij)))
    · exact .inl (.inr (hsuffix.trans (List.suffix_cons c rest)))
    · exact .inr (.inl (hstop.trans hbefore))
    · exact .inr (.inr (hbehind.trans hstart))

end Placed

end Threads

/-- A node of a file whose trees stand in its text. -/
structure Node.StandsIn (file : Source) (n : Node) : Prop where
  source_eq : n.source = file
  threads : Threads file.tree n.tree n.trail
  placed : file.tree.Throughout (Placed file.text.toList)

namespace Node.StandsIn

variable {file : Source} {n m parent : Node}

/-- The root stands in its file. -/
theorem root (h : file.tree.Throughout (Placed file.text.toList)) : file.root.StandsIn file :=
  ⟨rfl, .top, h⟩

/-- A node that stands in a file is placed throughout. -/
theorem throughout (h : n.StandsIn file) : n.tree.Throughout (Placed file.text.toList) :=
  h.threads.throughout h.placed

/-- Standing in a file is handed down. -/
theorem passesDown (file : Source) : PassesDown (StandsIn file) := by
  intro n hn c hc
  obtain ⟨e, he, rfl⟩ := List.mem_map.mp hc
  exact ⟨hn.source_eq, .child (List.mem_zipIdx_iff_getElem?.mp he) hn.threads, hn.placed⟩

/-- A node is one of the children of the node around it, which is a node of the file, too. -/
theorem of_parent (h : n.StandsIn file) (hparent : n.parent = some parent) :
    parent.StandsIn file ∧ n ∈ parent.children := by
  obtain ⟨source, tree, trail⟩ := n
  cases trail with
  | nil => exact nomatch hparent
  | cons c rest =>
    obtain rfl : ⟨source, c.parent, rest⟩ = parent := Option.some.inj hparent
    have hzip : (tree, c.index) ∈ c.parent.children.zipIdx :=
      List.mem_zipIdx_iff_getElem?.mpr h.threads.getElem?
    exact ⟨⟨h.source_eq, h.threads.above, h.placed⟩, List.mem_map.mpr ⟨_, hzip, rfl⟩⟩

/-- Nodes of a file with the same numbers on the way down are equal. -/
theorem eq_of_index_eq (hn : n.StandsIn file) (hm : m.StandsIn file)
    (hindex : n.trail.map Crumb.index = m.trail.map Crumb.index) : n = m := by
  obtain ⟨source, tree, trail⟩ := n
  obtain ⟨source', tree', trail'⟩ := m
  obtain ⟨htree, htrail⟩ := hn.threads.eq_of_index_eq hm.threads hindex
  cases hn.source_eq.trans hm.source_eq.symm
  cases htree
  cases htrail
  rfl

end Node.StandsIn

/-- The nodes below a node stand in the order of the text. -/
theorem Node.StandsIn.preorder_ordered {file : Source} {n : Node} (h : n.StandsIn file) :
    n.preorder.Pairwise fun a b => a.start ≤ b.start :=
  (preorderFrom_ordered h.throughout).1

end Syntax

open Syntax

/-- The trees of a text that is read stand in it. -/
theorem Source.ofText_placed (fileName text : String) (dialect : Dialect) :
    let file := Source.ofText fileName text dialect
    file.tree.Throughout (Placed file.text.toList) :=
  readProgram_placed dialect text

namespace Binding

/-- What a file declares are nodes of it, if its trees stand in its text. -/
theorem standsIn_of_declaredBy {file : Source}
    (h : file.tree.Throughout (Placed file.text.toList)) {base : Store} :
    ∀ d ∈ declaredBy file base, d.node.StandsIn file :=
  forall_declaredBy (.passesDown _) (.root h) base

end Binding

end ScriptGraph
