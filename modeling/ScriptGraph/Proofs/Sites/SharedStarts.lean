import ScriptGraph.Proofs.Sites.Location

/-!
# Declarations that start at one place

Two declarations of a file can only start at one offset if one of them is what the other one starts
with: trees of a file do not overlap unless one is inside the other. So an arrow function and its
bare parameter start together, and declarations that stand one after the other never do.

- `Declaration.Part`: what a declaration may start with
- `Declaration.Opens`: a declaration at the very start of another one
- `declarations_meet`: the declarations of a file at one offset
-/

namespace ScriptGraph

open Binding Syntax

namespace Location

/-- A sibling in front of a node stands at a place of its own, with the closer siblings in
between. -/
theorem exists_siblings {file : Source} {n : Node} (h : n.StandsIn file) {near others : List Tree}
    {t : Tree} (hsiblings : siblingsBefore n = near ++ t :: others) :
    ∃ parent i j rest, n.trail = ⟨parent, i⟩ :: rest ∧ j < i ∧ parent.children[j]? = some t ∧
      ∀ k u, j ≤ k → k < i → parent.children[k]? = some u → u ∈ t :: near := by
  obtain ⟨source, tree, trail⟩ := n
  cases trail with
  | nil => simp [siblingsBefore] at hsiblings
  | cons c rest =>
    obtain ⟨parent, i⟩ := c
    -- The siblings are listed backwards, so the list is turned around.
    have htake : parent.children.take i = others.reverse ++ (t :: near.reverse) := by
      have hturned := congrArg List.reverse hsiblings
      simpa [siblingsBefore] using hturned
    have hat : ∀ k, k < i → parent.children[k]? = (others.reverse ++ (t :: near.reverse))[k]? :=
      fun k hk => by rw [← htake, List.getElem?_take_of_lt hk]
    have hlt : others.length < i := by
      have hlength := congrArg List.length htake
      simp only [List.length_take, List.length_append, List.length_reverse, List.length_cons]
        at hlength
      omega
    refine ⟨parent, i, others.length, rest, rfl, hlt, ?_, fun k u hjk hki hu => ?_⟩
    · rw [hat _ hlt, List.getElem?_append_right (by simp)]
      simp
    · rw [hat k hki, List.getElem?_append_right (by simpa using hjk)] at hu
      simpa using List.mem_of_getElem? hu

end Location

namespace Binding.Declaration

variable {file : Source} {c d : Declaration} {m m' : Node}

/-- A declaration by a construct of a file that is not empty, and is no token, decorator or
comment. -/
structure IsConstructIn (file : Source) (d : Declaration) : Prop where
  standsIn : d.node.StandsIn file
  start_lt_stop : d.node.start < d.node.stop
  isLeading_eq : d.node.tree.isLeading = false

/-- What a declaration may start with: its statement, or a decorator that stands in front of it with
nothing but decorators, comments and tokens in between. -/
inductive Part (d : Declaration) : Node → Prop
  | statement : Part d d.statement
  | decorator {parent : Tree} {i j : Nat} {rest : List Crumb} {m : Node}
      (hstatement : d.statement.trail = ⟨parent, i⟩ :: rest) (hm : m.trail = ⟨parent, j⟩ :: rest)
      (hkind : m.is .decorator = true) (hji : j < i)
      (hbetween : ∀ k t, j ≤ k → k < i → parent.children[k]? = some t → t.isLeading = true) :
      Part d m

/-- A declaration opens another one if it stands in a part of the other one and starts where the
part does. -/
def Opens (c d : Declaration) : Prop :=
  ∃ m, d.Part m ∧ m.start = c.firstByte ∧ m.trail <:+ c.statement.trail

/-- Two declarations meet if they have one statement, or one of them opens the other one. -/
def Meets (c d : Declaration) : Prop :=
  c.statement = d.statement ∨ c.Opens d ∨ d.Opens c

namespace IsConstructIn

/-- The statement of a declaration is neither a token nor a decorator nor a comment. -/
theorem statement_isLeading_eq (h : d.IsConstructIn file) : d.statement.tree.isLeading = false := by
  rw [statement_tree]
  have hlast : d.wrappers.getLastD d.node.tree ∈ d.node.tree :: d.wrappers := List.getLastD_mem_cons
  rcases List.mem_cons.mp hlast with hnode | hwrapper
  · rw [hnode]
    exact h.isLeading_eq
  -- The statements around a declaration export it or declare it.
  · have hkind : ∀ t ∈ d.wrappers,
        (t.isKind .exportStatement || t.isKind .ambientDeclaration) = true := by
      rw [wrappers]
      split
      · exact fun t ht => List.mem_takeWhile_imp
          (p := fun t : Tree => t.isKind .exportStatement || t.isKind .ambientDeclaration) ht
      · exact fun t ht => absurd ht List.not_mem_nil
    rcases Bool.or_eq_true_iff.mp (hkind _ hwrapper) with hexport | hambient
    · exact Tree.isLeading_eq_false hexport (by decide) (by decide)
    · exact Tree.isLeading_eq_false hambient (by decide) (by decide)

/-- The statement of a declaration is not empty. -/
theorem statement_start_lt_stop (h : d.IsConstructIn file) :
    d.statement.start < d.statement.stop := by
  obtain ⟨-, hstart, hstop⟩ := statement_spec h.standsIn
  calc d.statement.start ≤ d.node.start := hstart.2 (.inl rfl)
    _ < d.node.stop := h.start_lt_stop
    _ ≤ d.statement.stop := hstop

/-- A decorator that no comment separates from a declaration is a part of it. -/
theorem exists_decorator (h : d.IsConstructIn file) {t : Tree} (ht : t ∈ d.attached)
    (hkind : t.isKind .decorator = true) : ∃ m, d.Part m ∧ m.StandsIn file ∧ m.tree = t := by
  have hleading : ∀ u ∈ d.attached, u.isLeading = true := fun u hu =>
    List.mem_takeWhile_imp ((List.takeWhile_sublist _).subset hu : u ∈ d.leading)
  -- What is attached is in front of the statement, nearest first.
  obtain ⟨others, hothers⟩ : d.attached <+: Location.siblingsBefore d.statement :=
    (List.takeWhile_prefix _).trans (List.takeWhile_prefix _)
  obtain ⟨near, far, hsplit⟩ := List.append_of_mem ht
  rw [hsplit, List.append_assoc, List.cons_append] at hothers
  have hstands := (statement_spec h.standsIn).1
  obtain ⟨parent, i, j, rest, htrail, hji, ht', hbetween⟩ :=
    Location.exists_siblings hstands hothers.symm
  have hparent : Threads file.tree parent rest := (htrail ▸ hstands.threads).above
  refine ⟨⟨file, t, ⟨parent, j⟩ :: rest⟩,
    .decorator htrail rfl hkind hji fun k u hjk hki hu => ?_,
    ⟨rfl, .child ht' hparent, hstands.placed⟩, rfl⟩
  -- Between the decorator and the statement there is nothing but what is attached as well.
  apply hleading
  rw [hsplit]
  rcases List.mem_cons.mp (hbetween k u hjk hki hu) with rfl | hnear
  · exact List.mem_append_right near List.mem_cons_self
  · exact List.mem_append_left _ hnear

/-- A declaration starts with a part of it. -/
theorem exists_firstPart (h : d.IsConstructIn file) :
    ∃ m, d.Part m ∧ m.StandsIn file ∧ m.start = d.firstByte ∧ m.start < m.stop := by
  rcases (isLeast_attached h.standsIn).1 with hfirst | ⟨t, ht, hfirst⟩
  · exact ⟨d.statement, .statement, (statement_spec h.standsIn).1, hfirst.symm,
      h.statement_start_lt_stop⟩
  · obtain ⟨hattached, hkind⟩ := List.mem_filter.mp ht
    obtain ⟨m, hpart, hm, rfl⟩ := h.exists_decorator hattached hkind
    exact ⟨m, hpart, hm, hfirst.symm, hm.throughout.here.solid .decorator (beq_iff_eq.mp hkind) rfl⟩

/-- The statement of a declaration is no sibling that only decorators, comments and tokens are
among. -/
theorem not_between (h : d.IsConstructIn file) {parent : Tree} {i j k : Nat} {rest : List Crumb}
    (htrail : d.statement.trail = ⟨parent, k⟩ :: rest)
    (hbetween : ∀ k t, j ≤ k → k < i → parent.children[k]? = some t → t.isLeading = true)
    (hjk : j ≤ k) : i ≤ k := by
  by_contra hki
  have hthreads : Threads file.tree d.statement.tree (⟨parent, k⟩ :: rest) :=
    htrail ▸ (statement_spec h.standsIn).1.threads
  have hleading := hbetween k _ hjk (Nat.lt_of_not_le hki) hthreads.getElem?
  exact absurd hleading (ne_true_of_eq_false h.statement_isLeading_eq)

/-- If a part of one declaration is inside a part of another one, so is its statement, unless both
have one statement. -/
theorem statement_eq_or_opens (hc : c.IsConstructIn file) (hd : d.IsConstructIn file)
    (hm : c.Part m) (hm' : d.Part m') (hstands : m.StandsIn file) (hstands' : m'.StandsIn file)
    (hstart : m'.start = c.firstByte) (hsuffix : m'.trail <:+ m.trail) :
    c.statement = d.statement ∨ c.Opens d := by
  cases hm with
  | statement => exact .inr ⟨m', hm', hstart, hsuffix⟩
  | @decorator parent i j rest _ hstatement hm hkind hji hbetween =>
    rw [hm] at hsuffix
    rcases List.suffix_cons_iff.mp hsuffix with hsame | habove
    -- Both start with one tree, which is a decorator and so not a statement.
    · cases hm' with
      | statement =>
        obtain rfl : m = d.statement :=
          hstands.eq_of_index_eq hstands' (congrArg _ (hm.trans hsame.symm))
        have hleading : d.statement.tree.isLeading = true := by
          rw [Tree.isLeading, show d.statement.tree.isKind .decorator = true from hkind]
          simp
        exact absurd hleading (ne_true_of_eq_false hd.statement_isLeading_eq)
      | @decorator parent' i' j' rest' _ hstatement' hm' hkind' hji' hbetween' =>
        obtain ⟨hcrumb, rfl⟩ := List.cons.inj (hm'.symm.trans hsame)
        obtain ⟨rfl, rfl⟩ := Crumb.mk.inj hcrumb
        -- Neither statement is between the decorator and the other one.
        obtain rfl : i = i' := Nat.le_antisymm
          (hd.not_between hstatement' hbetween (Nat.le_of_lt hji'))
          (hc.not_between hstatement hbetween' (Nat.le_of_lt hji))
        exact .inl ((statement_spec hc.standsIn).1.eq_of_index_eq (statement_spec hd.standsIn).1
          (congrArg _ (hstatement.trans hstatement'.symm)))
    · refine .inr ⟨m', hm', hstart, ?_⟩
      rw [hstatement]
      exact habove.trans (List.suffix_cons _ _)

end IsConstructIn

/-- Declarations that start at one byte meet. -/
theorem meets_of_firstByte_eq (hc : c.IsConstructIn file) (hd : d.IsConstructIn file)
    (h : c.firstByte = d.firstByte) : c.Meets d := by
  obtain ⟨m, hpart, hm, hstart, hlt⟩ := hc.exists_firstPart
  obtain ⟨m', hpart', hm', hstart', hlt'⟩ := hd.exists_firstPart
  have hsame : m.start = m'.start := hstart.trans (h.trans hstart'.symm)
  -- Both parts have the byte, so one of them is inside the other.
  rcases hm.threads.nested_or_apart hm.placed hm'.threads with hnested | hapart
  · rcases hnested with hinside | hinside
    · rcases hd.statement_eq_or_opens hc hpart' hpart hm' hm (hstart.trans h) hinside with
        hsame | hopens
      · exact .inl hsame.symm
      · exact .inr (.inr hopens)
    · rcases hc.statement_eq_or_opens hd hpart hpart' hm hm' (hstart'.trans h.symm) hinside with
        hsame | hopens
      · exact .inl hsame
      · exact .inr (.inl hopens)
  · have hstop : m.stop ≤ m'.start ∨ m'.stop ≤ m.start := hapart
    omega

/-- Declarations that are located at one offset start at one byte, as characters start there. -/
theorem firstByte_eq_of_offset_eq (hc : c.IsConstructIn file) (hd : d.IsConstructIn file)
    (h : c.location.offset = d.location.offset) : c.firstByte = d.firstByte := by
  obtain ⟨m, -, hm, hstart, -⟩ := hc.exists_firstPart
  obtain ⟨m', -, hm', hstart', -⟩ := hd.exists_firstPart
  have hboundary := hm.throughout.here.start
  have hboundary' := hm'.throughout.here.start
  rw [location_eq hc.standsIn, location_eq hd.standsIn, ← hstart, ← hstart'] at h
  rw [← hstart, ← hstart']
  rcases Nat.lt_trichotomy m.start m'.start with hlt | heq | hlt
  · exact absurd h (hboundary.offset_lt hboundary' hlt).ne
  · exact heq
  · exact absurd h (hboundary'.offset_lt hboundary hlt).ne'

/-- Of two constructs of a file that declare something and are located at one offset, one stands at
the very start of the other one, or of a decorator in front of it, unless they are in one
statement. -/
theorem declarations_meet (file : Source)
    (htree : file.tree.Throughout (Placed file.text.toList)) (base : Store) :
    ∀ c ∈ declaredBy file base, ∀ d ∈ declaredBy file base,
      c.node.start < c.node.stop → c.node.tree.isLeading = false →
      d.node.start < d.node.stop → d.node.tree.isLeading = false →
      c.location.offset = d.location.offset → c.Meets d := by
  intro c hc d hd hlt hleading hlt' hleading' hoffset
  have hstands : ∀ d ∈ declaredBy file base, d.node.StandsIn file := standsIn_of_declaredBy htree
  have hc : c.IsConstructIn file := ⟨hstands c hc, hlt, hleading⟩
  have hd : d.IsConstructIn file := ⟨hstands d hd, hlt', hleading'⟩
  exact meets_of_firstByte_eq hc hd (firstByte_eq_of_offset_eq hc hd hoffset)

/-- An arrow function and its parameter are located at one offset, in statements of their own. -/
theorem declarations_meet_arrow :
    let file := Source.ofText "/a.ts" "x=>x" .ts
    ∃ c ∈ declaredBy file {}, ∃ d ∈ declaredBy file {},
      c.kind = .parameter ∧ d.kind = .functionExpression ∧
        c.location.offset = d.location.offset ∧ c.statement ≠ d.statement ∧ c.Meets d := by
  intro file
  have hfound : ∃ c ∈ declaredBy file {}, ∃ d ∈ declaredBy file {},
      c.kind = .parameter ∧ d.kind = .functionExpression ∧ c.location.offset = d.location.offset ∧
      c.statement.stop ≠ d.statement.stop ∧ c.node.start < c.node.stop ∧
      c.node.tree.isLeading = false ∧ d.node.start < d.node.stop ∧
      d.node.tree.isLeading = false := by
    decide +kernel
  obtain ⟨c, hc, d, hd, hparameter, hfunction, hoffset, hne, hlt, hleading, hlt', hleading'⟩ :=
    hfound
  exact ⟨c, hc, d, hd, hparameter, hfunction, hoffset, fun h => hne (congrArg Node.stop h),
    declarations_meet file (Source.ofText_placed _ _ _) {} c hc d hd hlt hleading hlt' hleading'
      hoffset⟩

end Binding.Declaration

end ScriptGraph
