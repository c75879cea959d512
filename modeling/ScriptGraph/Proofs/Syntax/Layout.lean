import ScriptGraph.Proofs.Syntax.Names

/-!
# The layout of a tree

A parser puts the children of a construct into it, one after the other. A body comes after the
parameters of its function and after what its loop goes through. From this it follows that parts of
a construct that are picked in the order of its children stand in the order of the text.

- `Tree.laidOut`: whether all nodes of a tree stand as a parser puts them
- `Row`: parts of a construct, one after the other
- `Row.children`, `Row.flatMap`: the children of a construct form a row, and so do their parts
-/

namespace ScriptGraph.Syntax

namespace Tree

/-- Whether no parameters come after a body, and nothing that a loop goes through. -/
def bodyLast (siblings : List Tree) : Bool :=
  decide (siblings.Pairwise fun a b => a.role = some .body →
    b.role ≠ some .parameters ∧ b.role ≠ some .right)

mutual

/-- Whether the nodes of a tree stand inside the constructs that they are children of, one after the
other and with the body last. -/
def laidOut : Tree → Bool
  | node _ _ start stop children =>
    decide (start ≤ stop) && bodyLast children && laidOutAll start stop children

/-- The same of siblings between two offsets. -/
def laidOutAll (start stop : Nat) : List Tree → Bool
  | [] => true
  | t :: ts =>
    decide (start ≤ t.start) && decide (t.stop ≤ stop) && laidOut t && laidOutAll t.stop stop ts

end

/-- A tree is laid out if it does not end before it starts, and its children are in order inside. -/
theorem laidOut_eq (t : Tree) :
    t.laidOut = (decide (t.start ≤ t.stop) && bodyLast t.children &&
      laidOutAll t.start t.stop t.children) := by
  cases t
  rfl

variable {t : Tree} {ts : List Tree} {start stop : Nat}

/-- A tree that is laid out does not end before it starts. -/
theorem start_le_stop (h : t.laidOut = true) : t.start ≤ t.stop := by
  rw [laidOut_eq, Bool.and_eq_true, Bool.and_eq_true] at h
  exact of_decide_eq_true h.1.1

/-- Trees are laid out in a range if the first one is, and the others after it. -/
theorem laidOutAll_cons : laidOutAll start stop (t :: ts) = true ↔
    start ≤ t.start ∧ t.stop ≤ stop ∧ t.laidOut = true ∧ laidOutAll t.stop stop ts = true := by
  simp [laidOutAll, and_assoc]

/-- Siblings that are laid out stand between the two offsets. -/
theorem bounds_of_laidOutAll (h : laidOutAll start stop ts = true) :
    ∀ t ∈ ts, start ≤ t.start ∧ t.stop ≤ stop ∧ t.laidOut = true := by
  induction ts generalizing start with
  | nil => exact nofun
  | cons t rest ih =>
    obtain ⟨hstart, hstop, ht, hrest⟩ := laidOutAll_cons.mp h
    refine List.forall_mem_cons.mpr ⟨⟨hstart, hstop, ht⟩, fun u hu => ?_⟩
    obtain ⟨hafter, hbounds⟩ := ih hrest u hu
    exact ⟨Nat.le_trans hstart (Nat.le_trans (start_le_stop ht) hafter), hbounds⟩

/-- Trees that are laid out do not overlap. -/
theorem pairwise_of_laidOutAll (h : laidOutAll start stop ts = true) :
    ts.Pairwise fun a b => a.stop ≤ b.start := by
  induction ts generalizing start with
  | nil => exact .nil
  | cons t rest ih =>
    obtain ⟨-, -, -, hrest⟩ := laidOutAll_cons.mp h
    exact .cons (fun u hu => (bounds_of_laidOutAll hrest u hu).1) (ih hrest)

end Tree

/-! ## Rows -/

/-- A node stands inside the span of another one. -/
def Node.Within (m n : Node) : Prop :=
  n.start ≤ m.start ∧ m.start ≤ m.stop ∧ m.stop ≤ n.stop

/-- Nodes that are laid out stand one after the other inside a node. -/
structure Row (n : Node) (ms : List Node) : Prop where
  inOrder : ms.Pairwise fun a b => a.stop ≤ b.start
  within : ∀ m ∈ ms, m.Within n
  laidOut : ∀ m ∈ ms, m.tree.laidOut = true

/-- A node that is laid out is within itself. -/
theorem Node.Within.refl {n : Node} (h : n.tree.laidOut = true) : n.Within n :=
  ⟨Nat.le_refl _, Tree.start_le_stop h, Nat.le_refl _⟩

/-- A node within a part is within the whole. -/
theorem Node.Within.trans {a b c : Node} (hab : a.Within b) (hbc : b.Within c) : a.Within c :=
  ⟨Nat.le_trans hbc.1 hab.1, hab.2.1, Nat.le_trans hab.2.2 hbc.2.2⟩

/-- The trees of the children of a node are the children of its tree. -/
theorem Node.map_tree_children (n : Node) : n.children.map Node.tree = n.tree.children := by
  rw [children, List.map_map]
  exact List.zipIdx_map_fst 0 n.tree.children

namespace Row

variable {n : Node} {ms : List Node}

/-- Nothing is in a row anywhere. -/
theorem nil : Row n [] :=
  ⟨.nil, nofun, nofun⟩

/-- Leaving nodes out leaves a row. -/
theorem sublist (h : Row n ms) {ls : List Node} (hls : ls.Sublist ms) : Row n ls where
  inOrder := h.inOrder.sublist hls
  within m hm := h.within m (hls.subset hm)
  laidOut m hm := h.laidOut m (hls.subset hm)

/-- Rows inside the nodes of a row form a row. -/
theorem flatMap (h : Row n ms) {f : Node → List Node} (hf : ∀ m ∈ ms, Row m (f m)) :
    Row n (ms.flatMap f) where
  inOrder := List.pairwise_flatMap.mpr ⟨fun m hm => (hf m hm).inOrder,
    h.inOrder.imp_of_mem fun ha hb hab x hx y hy =>
      Nat.le_trans ((hf _ ha).within x hx).2.2 (Nat.le_trans hab ((hf _ hb).within y hy).1)⟩
  within x hx := by
    obtain ⟨m, hm, hx⟩ := List.mem_flatMap.mp hx
    exact ((hf m hm).within x hx).trans (h.within m hm)
  laidOut x hx := by
    obtain ⟨m, hm, hx⟩ := List.mem_flatMap.mp hx
    exact (hf m hm).laidOut x hx

/-- A row inside a part of a construct is a row inside the construct. -/
theorem inside (h : Row n ms) {o : Node} (hn : n.Within o) : Row o ms :=
  ⟨h.inOrder, fun m hm => (h.within m hm).trans hn, h.laidOut⟩

section Parts

variable (h : n.tree.laidOut = true)
include h

/-- The children of a node are a row. -/
theorem children : Row n n.children := by
  rw [Tree.laidOut_eq, Bool.and_eq_true, Bool.and_eq_true] at h
  have hbounds : ∀ m ∈ n.children, n.start ≤ m.start ∧ m.stop ≤ n.stop ∧ m.tree.laidOut = true :=
    fun m hm => Tree.bounds_of_laidOutAll h.2 m.tree
      (n.map_tree_children ▸ List.mem_map_of_mem hm)
  have hinOrder : (n.children.map Node.tree).Pairwise fun a b => a.stop ≤ b.start := by
    rw [n.map_tree_children]
    exact Tree.pairwise_of_laidOutAll h.2
  refine ⟨List.pairwise_map.mp hinOrder, fun m hm => ?_, fun m hm => (hbounds m hm).2.2⟩
  obtain ⟨hstart, hstop, hm⟩ := hbounds m hm
  exact ⟨hstart, Tree.start_le_stop hm, hstop⟩

/-- The named children of a node are a row. -/
theorem namedChildren : Row n n.namedChildren :=
  (children h).sublist List.filter_sublist

/-- The constructs in a node are a row. -/
theorem constructs : Row n n.constructs :=
  (children h).sublist List.filter_sublist

/-- The part in a role is a row by itself. -/
theorem child? (f : Field) : Row n (n.child? f).toList := by
  cases hc : n.child? f with
  | none => exact nil
  | some c => exact (children h).sublist (List.singleton_sublist.mpr (List.mem_of_find?_eq_some hc))

/-- The constructs in a role are a row. -/
theorem constructsIn (f : Field) : Row n (n.constructsIn f) := by
  unfold Node.constructsIn
  split
  · rename_i part hpart
    have hrow := (child? h f).flatMap fun m hm => constructs ((child? h f).laidOut m hm)
    rw [hpart] at hrow
    simpa using hrow
  · exact nil

/-- Parameters, and what a loop goes through, come before the body. -/
theorem beforeBody {f : Field} (hf : f = .parameters ∨ f = .right) :
    Row n ((n.child? f).toList ++ (n.child? .body).toList) := by
  -- Without one of the two there is nothing to be in order with.
  cases hpart : n.child? f with
  | none => exact child? h .body
  | some part =>
    cases hbody : n.child? .body with
    | none =>
      rw [← hpart, Option.toList_none, List.append_nil]
      exact child? h f
    | some body =>
      have hlast : n.children.Pairwise fun a b =>
          a.tree.role = some .body → b.tree.role ≠ some f := by
        rw [Tree.laidOut_eq, Bool.and_eq_true, Bool.and_eq_true, ← n.map_tree_children] at h
        refine (List.pairwise_map.mp (of_decide_eq_true h.1.2)).imp fun hab ha => ?_
        rcases hf with rfl | rfl
        · exact (hab ha).1
        · exact (hab ha).2
      have hprole : part.tree.role = some f := (tree_of_child? hpart).2
      have hbrole : body.tree.role = some .body := (tree_of_child? hbody).2
      -- The body is not among the children before the part, so it is among those after it.
      obtain ⟨before, after, hsplit⟩ := List.append_of_mem (List.mem_of_find?_eq_some hpart)
      have hmem : body ∈ after := by
        have hmem := List.mem_of_find?_eq_some hbody
        rw [hsplit] at hmem hlast
        rcases List.mem_append.mp hmem with hmem | hmem
        · exact absurd hprole
            ((List.pairwise_append.mp hlast).2.2 body hmem part List.mem_cons_self hbrole)
        · refine (List.mem_cons.mp hmem).resolve_left fun he => ?_
          rw [he, hprole] at hbrole
          rcases hf with rfl | rfl <;> exact nomatch hbrole
      refine (children h).sublist ?_
      rw [hsplit]
      exact .trans (.cons_cons part (List.singleton_sublist.mpr hmem))
        (List.sublist_append_right before _)

/-- So do the constructs among them. -/
theorem constructsBeforeBody {f : Field} (hf : f = .parameters ∨ f = .right) :
    Row n (n.constructsIn f ++ (n.child? .body).toList) := by
  have hin := constructsIn h f
  have hbody := child? h .body
  refine ⟨List.pairwise_append.mpr ⟨hin.inOrder, hbody.inOrder, fun a ha b hb => ?_⟩,
    fun m hm => (List.mem_append.mp hm).elim (hin.within m) (hbody.within m),
    fun m hm => (List.mem_append.mp hm).elim (hin.laidOut m) (hbody.laidOut m)⟩
  unfold Node.constructsIn at ha
  split at ha
  -- A construct of the part ends with the part, which the body follows.
  · rename_i part hpart
    have hpart : part ∈ (n.child? f).toList := by rw [hpart]; exact List.mem_singleton_self part
    have hbefore := (List.pairwise_append.mp (beforeBody h hf).inOrder).2.2 part hpart b hb
    exact Nat.le_trans ((constructs ((child? h f).laidOut part hpart)).within a ha).2.2 hbefore
  · exact absurd ha List.not_mem_nil

end Parts

end Row

end ScriptGraph.Syntax
