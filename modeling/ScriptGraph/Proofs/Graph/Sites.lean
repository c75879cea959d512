import ScriptGraph.Graph.Builder

/-!
# Which sites count, and for whom

A walk through a tree switches its owner at the bodies of functions and methods and leaves out
their other parts. What it visits can also be told from the place of a site alone: the site counts
if it lies in the body of every function and method around it, and it belongs to the innermost one
of them that has a node.

- `inBodies`, `ownerAt`: both read off the way from a place to the root
- `sitesIn_eq`: the walk finds the sites that count, in preorder
-/

namespace ScriptGraph.Graph

open Binding Syntax

/-- The place of the body among the children of a construct. -/
def bodyIndex (t : Tree) : Option Nat :=
  t.children.findIdx? fun c => c.role = some .body

/-- Whether a place, told by the way to the root, lies in the body of every function and method
around it. -/
def inBodies (s : Source) : List Crumb → Bool
  | [] => true
  | c :: up => (!ownsBody ⟨s, c.parent, up⟩ || bodyIndex c.parent == some c.index) && inBodies s up

/-- The node of the innermost function or method around a place that has one, or else the node of
the file. `vertexOf` is the node of a construct. -/
def ownerAt (vertexOf : Node → Option String) (s : Source) : List Crumb → String
  | [] => (fileVertex s).id
  | c :: up =>
    if ownsBody ⟨s, c.parent, up⟩ then
      (vertexOf ⟨s, c.parent, up⟩).getD (ownerAt vertexOf s up)
    else ownerAt vertexOf s up

/-- Whether a node is a site that counts. -/
def counts (s : Source) (n : Node) : Bool :=
  isSite n.label && inBodies s n.trail

/-- A site with its owner. -/
def ownedSite (vertexOf : Node → Option String) (s : Source) (n : Node) : Site :=
  ⟨n, ownerAt vertexOf s n.trail⟩

/-- A walk that switches from an owner to the node of a construct that owns its body, if the
construct has one. -/
def Switches (inside : Node → String → Option String) (vertexOf : Node → Option String) : Prop :=
  ∀ n owner, inside n owner =
    if ownsBody n then some ((vertexOf n).getD owner) else none

variable {inside : Node → String → Option String} {vertexOf : Node → Option String} {s : Source}

/-- The body is the first child that plays its role. -/
theorem bodyIndex_eq_some {parent t : Tree} {before after : List Tree}
    (hchildren : parent.children = before ++ t :: after)
    (hbefore : ∀ t ∈ before, t.role ≠ some .body) (ht : t.role = some .body) :
    bodyIndex parent = some before.length := by
  have hnone : before.findIdx? (fun c => decide (c.role = some .body)) = none :=
    List.findIdx?_eq_none_iff.mpr fun c hc => decide_eq_false (hbefore c hc)
  rw [bodyIndex, hchildren, List.findIdx?_append, hnone, List.findIdx?_cons]
  simp [ht]

/-- A tree that is no body does not stand at the place of the body. -/
theorem bodyIndex_ne_some {parent t : Tree} {before after : List Tree}
    (hchildren : parent.children = before ++ t :: after) (ht : t.role ≠ some .body) :
    bodyIndex parent ≠ some before.length := by
  intro hbody
  -- The child at this index plays the role, and it is `t`.
  obtain ⟨_, hrole, -⟩ := List.findIdx?_eq_some_iff_getElem.mp hbody
  simp only [hchildren, List.getElem_append_right (Nat.le_refl _), Nat.sub_self,
    List.getElem_cons_zero, decide_eq_true_eq] at hrole
  exact ht hrole

/-- A function or method is no call. -/
theorem isSite_eq_false_of_ownsBody {n : Node} (h : ownsBody n = true) :
    isSite n.label = false := by
  have hkind : ∀ k : Kind, n.is k = true → n.label = .construct k := fun k hk =>
    beq_iff_eq.mp hk
  unfold ownsBody isFunctionDeclaration isPlainMethod Node.isOneOf at h
  simp only [List.any_cons, List.any_nil, Bool.or_false, Bool.and_eq_true, Bool.or_eq_true] at h
  rcases h.2 with ⟨hk | hk, -⟩ | ⟨⟨⟨⟨hk, -⟩, -⟩, -⟩, -⟩
  all_goals rw [hkind _ hk]; rfl

/-- A way inside bodies is inside them from further up. -/
theorem inBodies_of_append {inner outer : List Crumb} (h : inBodies s (inner ++ outer) = true) :
    inBodies s outer = true := by
  induction inner with
  | nil => exact h
  | cons c up ih =>
    rw [List.cons_append, inBodies, Bool.and_eq_true] at h
    exact ih h.2

mutual

/-- The way from a node of a tree leads through the tree. -/
theorem trail_of_mem_preorderFrom {trail : List Crumb} {t : Tree} {n : Node}
    (h : n ∈ preorderFrom s trail t) : ∃ inner, n.trail = inner ++ trail := by
  match t with
  | .node l r start stop cs =>
    rw [preorderFrom] at h
    rcases List.mem_cons.mp h with rfl | h
    · exact ⟨[], rfl⟩
    · obtain ⟨inner, j, -, hn⟩ := trail_of_mem_preorderAll h
      exact ⟨inner ++ [⟨_, j⟩], by rw [hn, List.append_assoc]; rfl⟩

/-- A node in preorder stands below the trees that it was found among. -/
theorem trail_of_mem_preorderAll {parent : Tree} {trail : List Crumb} {index : Nat}
    {ts : List Tree} {n : Node} (h : n ∈ preorderAll s parent trail index ts) :
    ∃ inner j, index ≤ j ∧ n.trail = inner ++ ⟨parent, j⟩ :: trail := by
  match ts with
  | [] => exact absurd h List.not_mem_nil
  | t :: ts =>
    rw [preorderAll] at h
    rcases List.mem_append.mp h with h | h
    · obtain ⟨inner, hn⟩ := trail_of_mem_preorderFrom h
      exact ⟨inner, index, Nat.le_refl _, hn⟩
    · obtain ⟨inner, j, hj, hn⟩ := trail_of_mem_preorderAll h
      exact ⟨inner, j, Nat.le_of_succ_le hj, hn⟩

end

/-- Nothing counts outside the body of a function or method around it. -/
theorem bodyIndex_of_counts {parent : Tree} {inner trail : List Crumb} {index : Nat} {n : Node}
    (howns : ownsBody ⟨s, parent, trail⟩ = true)
    (htrail : n.trail = inner ++ ⟨parent, index⟩ :: trail) (h : counts s n = true) :
    bodyIndex parent = some index := by
  rw [counts, Bool.and_eq_true, htrail] at h
  have hcrumb := inBodies_of_append h.2
  rw [inBodies, howns] at hcrumb
  simp only [Bool.not_true, Bool.false_or, Bool.and_eq_true, beq_iff_eq] at hcrumb
  exact hcrumb.1

/-- Nothing counts in the children from a place on if the body comes before them. -/
theorem filter_preorderAll_eq_nil {parent : Tree} {trail : List Crumb} {index : Nat}
    (howns : ownsBody ⟨s, parent, trail⟩ = true)
    (hbody : ∀ j, index ≤ j → bodyIndex parent ≠ some j) (ts : List Tree) :
    (preorderAll s parent trail index ts).filter (counts s) = [] := by
  refine List.filter_eq_nil_iff.mpr fun n hn hcounts => ?_
  obtain ⟨inner, j, hj, htrail⟩ := trail_of_mem_preorderAll hn
  exact hbody j hj (bodyIndex_of_counts howns htrail hcounts)

/-- Nothing counts in a child that is not the body. -/
theorem filter_preorderFrom_eq_nil {parent : Tree} {trail : List Crumb} {index : Nat}
    (howns : ownsBody ⟨s, parent, trail⟩ = true) (hbody : bodyIndex parent ≠ some index)
    (t : Tree) : (preorderFrom s (⟨parent, index⟩ :: trail) t).filter (counts s) = [] := by
  refine List.filter_eq_nil_iff.mpr fun n hn hcounts => ?_
  obtain ⟨inner, htrail⟩ := trail_of_mem_preorderFrom hn
  exact hbody (bodyIndex_of_counts howns htrail hcounts)

mutual

/-- The sites that a walk finds in a tree that lies in the bodies around it. -/
theorem sitesIn_eq_filter (hinside : Switches inside vertexOf) {trail : List Crumb}
    (htrail : inBodies s trail = true) (t : Tree) :
    sitesIn inside s trail (ownerAt vertexOf s trail) t =
      ((preorderFrom s trail t).filter (counts s)).map (ownedSite vertexOf s) := by
  match t with
  | .node l r start stop cs =>
    rw [sitesIn, preorderFrom]
    dsimp only
    rw [hinside]
    -- A function or method is no site, and the walk goes on in its body alone.
    by_cases howns : ownsBody ⟨s, .node l r start stop cs, trail⟩ = true
    · rw [if_pos howns, List.filter_cons_of_neg]
      · exact sitesInBody_eq_filter hinside htrail howns [] rfl nofun
      · simp [counts, isSite_eq_false_of_ownsBody howns]
    · rw [if_neg howns]
      dsimp only
      rw [sitesAmong_eq_filter hinside htrail howns cs]
      -- The tree lies in the bodies around it, so its root counts if it is a site.
      have hself : counts s ⟨s, .node l r start stop cs, trail⟩ = isSite l := by
        rw [counts, htrail, Bool.and_true]
        rfl
      by_cases hl : isSite l = true
      · rw [if_pos hl, List.filter_cons_of_pos (hself.trans hl)]
        rfl
      · rw [if_neg hl, List.filter_cons_of_neg (fun h => hl (hself.symm.trans h))]
        rfl

/-- The sites in a body are the nodes in preorder that are sites, with their owners. -/
theorem sitesInBody_eq_filter (hinside : Switches inside vertexOf) {parent : Tree}
    {trail : List Crumb} (htrail : inBodies s trail = true)
    (howns : ownsBody ⟨s, parent, trail⟩ = true) (before : List Tree) {ts : List Tree}
    (hchildren : parent.children = before ++ ts)
    (hbefore : ∀ t ∈ before, t.role ≠ some .body) :
    sitesInBody inside s parent trail before.length
      ((vertexOf ⟨s, parent, trail⟩).getD (ownerAt vertexOf s trail)) ts =
      ((preorderAll s parent trail before.length ts).filter (counts s)).map
        (ownedSite vertexOf s) := by
  match ts with
  | [] => rfl
  | t :: ts =>
    rw [sitesInBody, preorderAll, List.filter_append]
    by_cases ht : t.role = some .body
    · -- The walk goes into the body and stops; nothing after it counts.
      have hbody := bodyIndex_eq_some hchildren hbefore ht
      have hcrumb : inBodies s (⟨parent, before.length⟩ :: trail) = true := by
        simp [inBodies, hbody, htrail]
      have howner : ownerAt vertexOf s (⟨parent, before.length⟩ :: trail) =
          (vertexOf ⟨s, parent, trail⟩).getD (ownerAt vertexOf s trail) := by
        rw [ownerAt, if_pos howns]
      -- Nothing after the body is the body, so it is passed over as well.
      have hafter : ∀ j, before.length + 1 ≤ j → bodyIndex parent ≠ some j := fun j hj hsome => by
        rw [hbody] at hsome
        have hlength := Option.some.inj hsome
        omega
      rw [if_pos ht, filter_preorderAll_eq_nil howns hafter, List.append_nil, ← howner]
      exact sitesIn_eq_filter hinside hcrumb t
    · -- A part before the body is passed over; nothing in it counts.
      rw [if_neg ht, filter_preorderFrom_eq_nil howns (bodyIndex_ne_some hchildren ht),
        List.nil_append]
      have hchildren' : parent.children = (before ++ [t]) ++ ts := by
        rw [hchildren, List.append_assoc]
        rfl
      have hrest := sitesInBody_eq_filter hinside htrail howns (before ++ [t]) hchildren'
        fun c hc => by
          rcases List.mem_append.mp hc with hc | hc
          · exact hbefore c hc
          · exact List.mem_singleton.mp hc ▸ ht
      rw [List.length_append, List.length_singleton] at hrest
      exact hrest

/-- So are the sites among trees outside of bodies. -/
theorem sitesAmong_eq_filter (hinside : Switches inside vertexOf) {parent : Tree}
    {trail : List Crumb} (htrail : inBodies s trail = true)
    (howns : ¬ownsBody ⟨s, parent, trail⟩ = true) {index : Nat} (ts : List Tree) :
    sitesAmong inside s parent trail index (ownerAt vertexOf s trail) ts =
      ((preorderAll s parent trail index ts).filter (counts s)).map (ownedSite vertexOf s) := by
  match ts with
  | [] => rfl
  | t :: ts =>
    rw [sitesAmong, preorderAll, List.filter_append, List.map_append,
      sitesAmong_eq_filter hinside htrail howns ts]
    -- A tree outside of bodies keeps the owner around it.
    have hcrumb : inBodies s (⟨parent, index⟩ :: trail) = true := by
      simp [inBodies, howns, htrail]
    have howner : ownerAt vertexOf s (⟨parent, index⟩ :: trail) = ownerAt vertexOf s trail := by
      rw [ownerAt, if_neg howns]
    rw [← sitesIn_eq_filter hinside hcrumb t, howner]

end

/-- A walk through a file finds the sites that count, in preorder, each for its owner. -/
theorem sitesIn_eq (hinside : Switches inside vertexOf) (s : Source) :
    sitesIn inside s [] (fileVertex s).id s.tree =
      (s.root.preorder.filter (counts s)).map (ownedSite vertexOf s) :=
  sitesIn_eq_filter hinside rfl s.tree

end ScriptGraph.Graph
