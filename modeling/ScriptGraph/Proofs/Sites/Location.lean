import Mathlib.Order.Bounds.Basic
import ScriptGraph.Proofs.Syntax.Standing
import ScriptGraph.Sites.Location

/-!
# Where declarations start and end

A declaration starts at the first of the decorators and keywords that belong to it. They stand in
it, in the statements around it or in front of it; of those in front of it only the ones count that
no comment separates from it. It ends where the outermost of the statements around it ends. The
members of one class have places that do not overlap.

- `Starts`: the starts of a construct and of what belongs to it, found in one step after the other
- `Declaration.heads`: the decorators and keywords that belong to a declaration
- `declarations_placed`: the places of the declarations of a file
-/

namespace ScriptGraph

open Binding Syntax

namespace Syntax

/-! ## Trees in front of a construct -/

namespace Tree

/-- What may stand between a decorator and the construct that it belongs to: a token, another
decorator or a comment. -/
def isLeading (t : Tree) : Bool :=
  !t.isNamed || t.isKind .decorator || t.isComment

/-- Only decorators and comments may come first. -/
theorem isLeading_eq_false {t : Tree} {k : Kind} (h : t.isKind k = true)
    (hdecorator : k ≠ .decorator) (hcomment : k ≠ .comment) : t.isLeading = false := by
  have hnamed : t.isNamed = true := by
    rw [isNamed, beq_iff_eq.mp h]
    rfl
  rw [isLeading, isComment, isKind_eq_false h hdecorator, isKind_eq_false h hcomment, hnamed]
  rfl

end Tree

/-- What is taken from a list ends in front of an element that does not pass. -/
theorem mem_of_mem_takeWhile_append {α : Type} {p : α → Bool} {before after : List α} {x y : α}
    (hx : p x = false) (hy : y ∈ (before ++ x :: after).takeWhile p) : y ∈ before := by
  induction before with
  | nil => simp [hx] at hy
  | cons z rest ih =>
    rw [List.cons_append, List.takeWhile_cons] at hy
    split at hy
    · rcases List.mem_cons.mp hy with rfl | hy
      · exact List.mem_cons_self
      · exact List.mem_cons_of_mem _ (ih hy)
    · exact absurd hy List.not_mem_nil

end Syntax

/-! ## Starts -/

/-- The starts of a construct and of trees that belong to it. -/
def Starts (start : Nat) (heads : List Tree) : Set Nat :=
  {s | s = start ∨ ∃ t ∈ heads, s = t.start}

section Starts

variable {start middle first : Nat} {heads more : List Tree}

/-- Where nothing comes earlier, the start is the least one. -/
theorem isLeast_starts_of_le (h : ∀ t ∈ heads, start ≤ t.start) :
    IsLeast (Starts start heads) start := by
  refine ⟨.inl rfl, ?_⟩
  rintro s (rfl | ⟨t, ht, rfl⟩)
  · exact Nat.le_refl _
  · exact h t ht

/-- The earliest of the heads is the least start. -/
theorem isLeast_starts_of_mem {t : Tree} (ht : t ∈ heads) (h : ∀ u ∈ heads, t.start ≤ u.start)
    (hstart : t.start ≤ start) : IsLeast (Starts start heads) t.start := by
  refine ⟨.inr ⟨t, ht, rfl⟩, ?_⟩
  rintro s (rfl | ⟨u, hu, rfl⟩)
  · exact hstart
  · exact h u hu

/-- What comes first can be found in one step after the other. -/
theorem isLeast_starts_append (hheads : IsLeast (Starts start heads) middle)
    (hmore : IsLeast (Starts middle more) first) :
    IsLeast (Starts start (heads ++ more)) first := by
  have hle : first ≤ middle := hmore.2 (.inl rfl)
  -- The first of both starts is the middle one or one of those found later.
  constructor
  · rcases hmore.1 with rfl | ⟨t, ht, rfl⟩
    · rcases hheads.1 with hstart | ⟨t, ht, hstart⟩
      · exact .inl hstart
      · exact .inr ⟨t, List.mem_append_left _ ht, hstart⟩
    · exact .inr ⟨t, List.mem_append_right _ ht, rfl⟩
  · rintro s (rfl | ⟨t, ht, rfl⟩)
    · exact hle.trans (hheads.2 (.inl rfl))
    · rcases List.mem_append.mp ht with ht | ht
      · exact hle.trans (hheads.2 (.inr ⟨t, ht, rfl⟩))
      · exact hmore.2 (.inr ⟨t, ht, rfl⟩)

end Starts

namespace Location

/-- The walk over the siblings in front of a construct ends at the first of its decorators. -/
theorem isLeast_decoratedStart {start : Nat} {before : List Tree}
    (horder : before.Pairwise fun near far => far.start ≤ near.start)
    (hstart : ∀ t ∈ before, t.start ≤ start) :
    IsLeast (Starts start ((before.takeWhile fun t => !t.isNamed || t.isKind .decorator).filter
      (·.isKind .decorator))) (decoratedStart start before) := by
  induction before generalizing start with
  | nil => exact isLeast_starts_of_le nofun
  | cons t rest ih =>
    obtain ⟨ht, hrest⟩ := List.pairwise_cons.mp horder
    rw [decoratedStart]
    -- A decorator moves the start, a token is passed over, and any other sibling ends the walk.
    by_cases hdecorator : t.isKind .decorator = true
    · rw [if_pos hdecorator, List.takeWhile_cons_of_pos (by simp [hdecorator]),
        List.filter_cons, if_pos hdecorator]
      have hone : IsLeast (Starts start [t]) t.start :=
        isLeast_starts_of_mem (List.mem_singleton_self t)
          (List.forall_mem_singleton.mpr (Nat.le_refl _)) (hstart t List.mem_cons_self)
      exact isLeast_starts_append hone (ih hrest ht)
    · rw [if_neg hdecorator]
      by_cases hnamed : t.isNamed = true
      · rw [if_pos hnamed, List.takeWhile_cons_of_neg (by simp [hdecorator, hnamed])]
        exact isLeast_starts_of_le nofun
      · rw [if_neg hnamed, List.takeWhile_cons_of_pos (by simp [hnamed]),
          List.filter_cons, if_neg hdecorator]
        exact ih hrest fun u hu => hstart u (List.mem_cons_of_mem _ hu)

/-- The export statements and ambient declarations directly around a place, the innermost one
first. -/
def wrappersFrom (trail : List Crumb) : List Tree :=
  (trail.map Crumb.parent).takeWhile fun t =>
    t.isKind .exportStatement || t.isKind .ambientDeclaration

/-- A wrapper has a head, where it starts. -/
theorem headed_of_wrapper {text : List Char} {t : Tree} (ht : Placed text t)
    (h : (t.isKind .exportStatement || t.isKind .ambientDeclaration) = true) : t.Headed := by
  rcases Bool.or_eq_true_iff.mp h with h | h
  · exact ht.headed _ (beq_iff_eq.mp h) rfl
  · exact ht.headed _ (beq_iff_eq.mp h) rfl

/-- The outermost of the statements around a place, if there is one. -/
theorem wrapperFrom_tree (source : Source) (t : Tree) (trail : List Crumb) :
    (wrapperFrom source t trail).tree = (wrappersFrom trail).getLastD t := by
  induction trail generalizing t with
  | nil => rfl
  | cons c rest ih =>
    rw [wrapperFrom, wrappersFrom, List.map_cons, List.takeWhile_cons]
    split
    · rw [List.getLastD_cons, ih]
      rfl
    · rfl

/-- It is a node of the file, and it starts at the first of the keywords and decorators of these
statements. -/
theorem wrapperFrom_spec {file : Source} {t : Tree} {trail : List Crumb}
    (h : (Node.mk file t trail).StandsIn file) :
    (wrapperFrom file t trail).StandsIn file ∧
      IsLeast (Starts t.start ((wrappersFrom trail).flatMap fun w => w.children.filter Tree.isHead))
        (wrapperFrom file t trail).start ∧
      t.stop ≤ (wrapperFrom file t trail).stop := by
  induction trail generalizing t with
  | nil => exact ⟨h, isLeast_starts_of_le nofun, Nat.le_refl _⟩
  | cons c rest ih =>
    rw [wrapperFrom, wrappersFrom, List.map_cons]
    -- A statement around the declaration belongs to it if it only exports or declares it.
    by_cases hwrapper :
        (c.parent.isKind .exportStatement || c.parent.isKind .ambientDeclaration) = true
    · rw [if_pos hwrapper, List.takeWhile_cons, if_pos hwrapper, List.flatMap_cons]
      have hparent := (h.of_parent rfl).1
      obtain ⟨hstands, hleast, hstop⟩ := ih hparent
      have hplaced := hparent.throughout.here
      have ht := hplaced.within t (List.mem_of_getElem? h.threads.getElem?)
      obtain ⟨head, hmem, hstart, hhead⟩ := headed_of_wrapper hplaced hwrapper
      -- The keyword of the statement is where the statement starts.
      have hfirst : IsLeast (Starts t.start (c.parent.children.filter Tree.isHead))
          c.parent.start := by
        rw [← hstart]
        apply isLeast_starts_of_mem (List.mem_filter.mpr ⟨hmem, hhead⟩)
        · intro u hu
          rw [hstart]
          exact (hplaced.within u (List.mem_filter.mp hu).1).1
        · rw [hstart]
          exact ht.1
      exact ⟨hstands, isLeast_starts_append hfirst hleast, ht.2.trans hstop⟩
    · rw [if_neg hwrapper, List.takeWhile_cons, if_neg hwrapper]
      exact ⟨h, isLeast_starts_of_le nofun, Nat.le_refl _⟩

/-- The siblings in front of a node stand there one after the other. -/
theorem siblingsBefore_ordered {file : Source} {n : Node} (h : n.StandsIn file) :
    (siblingsBefore n).Pairwise (fun near far => far.stop ≤ near.start) ∧
      ∀ t ∈ siblingsBefore n, t.stop ≤ n.start ∧ Placed file.text.toList t := by
  obtain ⟨source, tree, trail⟩ := n
  cases trail with
  | nil => exact ⟨.nil, nofun⟩
  | cons c rest =>
    have hparent := (h.of_parent rfl).1.throughout
    have horder : c.parent.children.Pairwise _ := hparent.here.inOrder
    obtain ⟨hlt, htree⟩ := List.getElem?_eq_some_iff.mp h.threads.getElem?
    -- The siblings come from the nearest one outwards, so their order is turned around.
    show (c.parent.children.take c.index).reverse.Pairwise _ ∧ _
    refine ⟨List.pairwise_reverse.mpr (horder.sublist (List.take_sublist _ _)), fun t ht => ?_⟩
    have hmem : t ∈ c.parent.children.take c.index := List.mem_reverse.mp ht
    refine ⟨?_, (hparent.parts t (List.mem_of_mem_take hmem)).here⟩
    have hsplit := List.take_append_drop c.index c.parent.children
    rw [← hsplit, List.drop_eq_getElem_cons hlt, htree] at horder
    exact (List.pairwise_append.mp horder).2.2 t hmem tree List.mem_cons_self

end Location

/-! ## What belongs to a declaration -/

namespace Binding.Declaration

/-- The export statements and ambient declarations whose keywords belong to a declaration. -/
def wrappers (d : Declaration) : List Tree :=
  if Location.takesKeywords d.kind then Location.wrappersFrom d.node.trail else []

/-- A declared construct with these statements. -/
def statement (d : Declaration) : Node :=
  if Location.takesKeywords d.kind then Location.wrapper d.node else d.node

/-- The decorators in front of a declaration, the closest one first, with the comments and tokens
between them. No other construct stands there. -/
def leading (d : Declaration) : List Tree :=
  (Location.siblingsBefore d.statement).takeWhile Tree.isLeading

/-- Those that no comment separates from the declaration. -/
def attached (d : Declaration) : List Tree :=
  d.leading.takeWhile fun t => !t.isComment

/-- The decorators and keywords of a declaration: those in it, in the statements around it and
among some trees in front of it. -/
def headsAmong (d : Declaration) (before : List Tree) : List Tree :=
  d.node.tree.children.filter (·.isKind .decorator) ++
    (d.wrappers.flatMap fun w => w.children.filter Tree.isHead) ++
    before.filter (·.isKind .decorator)

/-- The decorators and keywords that belong to a declaration. -/
def heads (d : Declaration) : List Tree :=
  d.headsAmong d.leading

/-- The byte at which the place of a declaration starts. -/
def firstByte (d : Declaration) : Nat :=
  Location.decoratedStart d.statement.start (Location.siblingsBefore d.statement)

variable {file : Source} {d : Declaration}

/-- The statement of a declaration starts at the first head of its wrappers, and ends no earlier. -/
theorem statement_spec (h : d.node.StandsIn file) :
    d.statement.StandsIn file ∧
      IsLeast (Starts d.node.start (d.wrappers.flatMap fun w => w.children.filter Tree.isHead))
        d.statement.start ∧
      d.node.stop ≤ d.statement.stop := by
  rw [statement, wrappers]
  split
  · have hnode : d.node = ⟨file, d.node.tree, d.node.trail⟩ := by rw [← h.source_eq]
    rw [hnode] at h
    rw [hnode]
    exact Location.wrapperFrom_spec h
  · exact ⟨h, isLeast_starts_of_le nofun, Nat.le_refl _⟩

/-- The statement is the outermost wrapper, or the declaration itself. -/
theorem statement_tree (d : Declaration) : d.statement.tree = d.wrappers.getLastD d.node.tree := by
  rw [statement, wrappers]
  split
  · exact Location.wrapperFrom_tree d.node.source d.node.tree d.node.trail
  · rfl

/-- The location runs from the first byte to the end of the outermost wrapper. -/
theorem location_eq (h : d.node.StandsIn file) :
    d.location = ⟨file.fileName, file.offset d.firstByte,
      ⟨file.position d.firstByte, file.position (d.wrappers.getLastD d.node.tree).stop⟩⟩ := by
  rw [← statement_tree, ← (statement_spec h).1.source_eq]
  rfl

/-- The walk goes past tokens and decorators, and a comment is a construct that it stops at. -/
theorem attached_eq : d.attached =
    (Location.siblingsBefore d.statement).takeWhile fun t => !t.isNamed || t.isKind .decorator := by
  rw [attached, leading, List.takeWhile_takeWhile]
  congr 1
  funext t
  by_cases hcomment : t.isComment = true
  · have hdecorator : t.isKind .decorator = false := Tree.isKind_eq_false hcomment nofun
    have hnamed : t.isNamed = true := by
      rw [Tree.isNamed, beq_iff_eq.mp hcomment]
      rfl
    simp [hcomment, hdecorator, hnamed]
  · simp [Tree.isLeading, hcomment]

/-- What is in front of a declaration stands there one after the other. -/
theorem leading_ordered (h : d.node.StandsIn file) :
    d.leading.Pairwise (fun near far => far.stop ≤ near.start) ∧
      ∀ t ∈ d.leading, t.stop ≤ d.statement.start ∧ Placed file.text.toList t := by
  obtain ⟨horder, hbefore⟩ := Location.siblingsBefore_ordered (statement_spec h).1
  have hsublist : d.leading.Sublist (Location.siblingsBefore d.statement) :=
    List.takeWhile_sublist _
  exact ⟨horder.sublist hsublist, fun t ht => hbefore t (hsublist.subset ht)⟩

/-- The first byte is the earliest of the statement and the decorators before it. -/
theorem isLeast_attached (h : d.node.StandsIn file) :
    IsLeast (Starts d.statement.start (d.attached.filter (·.isKind .decorator))) d.firstByte := by
  obtain ⟨horder, hbefore⟩ := Location.siblingsBefore_ordered (statement_spec h).1
  rw [attached_eq]
  apply Location.isLeast_decoratedStart
  · refine List.Pairwise.imp_of_mem (fun {near far} _ hfar hle => ?_) horder
    exact (hbefore far hfar).2.start_le_stop.trans hle
  · intro t ht
    exact (hbefore t ht).2.start_le_stop.trans (hbefore t ht).1

/-- A declaration starts at the first of its decorators and keywords that no comment separates from
it. -/
theorem isLeast_firstByte (h : d.node.StandsIn file) :
    IsLeast (Starts d.node.start (d.headsAmong d.attached)) d.firstByte := by
  have hinside : IsLeast (Starts d.node.start (d.node.tree.children.filter (·.isKind .decorator)))
      d.node.start := by
    apply isLeast_starts_of_le
    intro t ht
    exact (h.throughout.here.within t (List.mem_filter.mp ht).1).1
  exact isLeast_starts_append (isLeast_starts_append hinside (statement_spec h).2.1)
    (isLeast_attached h)

/-- A declaration does not start before its first byte. -/
theorem firstByte_le (h : d.node.StandsIn file) : d.firstByte ≤ d.node.start :=
  (isLeast_firstByte h).2 (.inl rfl)

/-- A declaration does not reach back over a comment in front of it. -/
theorem stop_le_firstByte_of_comment (h : d.node.StandsIn file) {t : Tree} (ht : t ∈ d.leading)
    (hcomment : t.isComment = true) : t.stop ≤ d.firstByte := by
  obtain ⟨horder, hbefore⟩ := leading_ordered h
  have hsplit := List.takeWhile_append_dropWhile (p := fun t => !t.isComment) (l := d.leading)
  rw [← hsplit] at horder ht
  -- The comment ends the walk, so it is behind everything that the walk has passed over.
  rcases List.mem_append.mp ht with hattached | hbehind
  · have := List.mem_takeWhile_imp hattached
    simp [hcomment] at this
  · have hafter := (List.pairwise_append.mp horder).2.2
    rcases (isLeast_attached h).1 with hfirst | ⟨u, hu, hfirst⟩
    · rw [hfirst]
      exact (hbefore t ((List.dropWhile_sublist _).subset hbehind)).1
    · rw [hfirst]
      exact hafter u (List.mem_filter.mp hu).1 t hbehind

/-- Without a decorator behind a comment nothing is separated from the declaration. -/
theorem heads_eq (h : d.leading.Pairwise fun near far =>
      near.isComment = true → far.isKind .decorator = false) :
    d.heads = d.headsAmong d.attached := by
  have hsplit := List.takeWhile_append_dropWhile (p := fun t => !t.isComment) (l := d.leading)
  -- Behind the first comment there is no decorator, which is all that could be missing.
  have hbehind : (d.leading.dropWhile fun t => !t.isComment).filter (·.isKind .decorator) = [] := by
    have hhead := List.head?_dropWhile_not (fun t : Tree => !t.isComment) d.leading
    have hpairs := h.sublist (List.dropWhile_sublist fun t => !t.isComment)
    cases hrest : d.leading.dropWhile fun t => !t.isComment with
    | nil => rfl
    | cons c rest =>
      rw [hrest] at hhead hpairs
      have hcomment : c.isComment = true := by simpa using hhead
      rw [List.filter_eq_nil_iff, List.forall_mem_cons]
      constructor
      · simp [Tree.isKind_eq_false hcomment (show Kind.comment ≠ .decorator from nofun)]
      · intro u hu
        simp [(List.pairwise_cons.mp hpairs).1 u hu hcomment]
  have hdecorators : d.leading.filter (·.isKind .decorator) =
      d.attached.filter (·.isKind .decorator) := by
    conv_lhs => rw [← hsplit]
    rw [List.filter_append, hbehind, List.append_nil, attached]
  rw [heads, headsAmong, hdecorators, headsAmong]

/-- A declaration starts at the first of all its decorators and keywords unless a comment separates
a decorator from it. -/
theorem isLeast_heads_iff (h : d.node.StandsIn file) :
    IsLeast (Starts d.node.start d.heads) d.firstByte ↔ d.leading.Pairwise fun near far =>
      near.isComment = true → far.isKind .decorator = false := by
  constructor
  · intro hleast
    obtain ⟨horder, hbefore⟩ := leading_ordered h
    refine List.pairwise_iff_forall_sublist.mpr fun {near far} hsublist hcomment => ?_
    -- A decorator behind a comment would be reached by the first start, but the comment cuts it
    -- off.
    by_contra hdecorator
    rw [Bool.not_eq_false] at hdecorator
    have hfar : far ∈ d.leading := hsublist.subset (by simp)
    have hnear : near ∈ d.leading := hsublist.subset (by simp)
    have hsolid : far.start < far.stop :=
      (hbefore far hfar).2.solid _ (beq_iff_eq.mp hdecorator) rfl
    have hle : far.stop ≤ near.start := List.pairwise_iff_forall_sublist.mp horder hsublist
    have hcut := stop_le_firstByte_of_comment h hnear hcomment
    have hnearLe := (hbefore near hnear).2.start_le_stop
    have hfirst : d.firstByte ≤ far.start :=
      hleast.2 (.inr ⟨far, List.mem_append_right _ (List.mem_filter.mpr ⟨hfar, hdecorator⟩), rfl⟩)
    omega
  · intro hpairs
    rw [heads_eq hpairs]
    exact isLeast_firstByte h

/-! ## Members of classes -/

/-- The constructs that declare members of a class. -/
def memberKinds : List Kind :=
  [.methodDefinition, .methodSignature, .abstractMethodSignature, .publicFieldDefinition,
    .fieldDefinition]

/-- A method or a field in the body of a class. -/
structure IsMemberOf (d : Declaration) (body : Node) : Prop where
  ofClass : body.is .classBody = true
  mem : d.node ∈ body.children
  isMember : d.node.isOneOf memberKinds = true

/-- The place of a member among the children of the body. -/
structure IsAt (d : Declaration) (body : Node) (i : Nat) : Prop where
  node_eq : d.node = ⟨body.source, d.node.tree, ⟨body.tree, i⟩ :: body.trail⟩
  getElem? : body.tree.children[i]? = some d.node.tree

variable {body : Node}

namespace IsMemberOf

/-- A member stands at some index of the body. -/
theorem exists_isAt (h : d.IsMemberOf body) : ∃ i, d.IsAt body i := by
  obtain ⟨e, he, hnode⟩ := List.mem_map.mp h.mem
  exact ⟨e.2, by rw [← hnode], by rw [← hnode]; exact List.mem_zipIdx_iff_getElem?.mp he⟩

/-- No keyword in front of the body belongs to a member. -/
theorem wrappersFrom_eq (h : d.IsMemberOf body) : Location.wrappersFrom d.node.trail = [] := by
  obtain ⟨i, hi⟩ := h.exists_isAt
  have hbody : body.tree.isKind .classBody = true := h.ofClass
  rw [hi.node_eq, Location.wrappersFrom, List.map_cons, List.takeWhile_cons_of_neg]
  simp [Tree.isKind_eq_false hbody (show Kind.classBody ≠ .exportStatement from nofun),
    Tree.isKind_eq_false hbody (show Kind.classBody ≠ .ambientDeclaration from nofun)]

/-- A member has no wrappers. -/
theorem wrappers_eq (h : d.IsMemberOf body) : d.wrappers = [] := by
  rw [wrappers, h.wrappersFrom_eq, ite_self]

/-- A member is a statement of its own. -/
theorem statement_eq (h : d.IsMemberOf body) : d.statement = d.node := by
  obtain ⟨i, hi⟩ := h.exists_isAt
  have hbody : body.tree.isKind .classBody = true := h.ofClass
  rw [statement]
  split
  · rw [hi.node_eq, Location.wrapper, Location.wrapperFrom, if_neg]
    simp [Tree.isKind_eq_false hbody (show Kind.classBody ≠ .exportStatement from nofun),
      Tree.isKind_eq_false hbody (show Kind.classBody ≠ .ambientDeclaration from nofun)]
  · rfl

/-- A member is neither a decorator nor a comment. -/
theorem isLeading_eq_false (h : d.IsMemberOf body) : d.node.tree.isLeading = false := by
  obtain ⟨k, hk, hkind⟩ := List.any_eq_true.mp h.isMember
  have hother : ∀ k ∈ memberKinds, k ≠ .decorator ∧ k ≠ .comment := by decide
  exact Tree.isLeading_eq_false hkind (hother k hk).1 (hother k hk).2

/-- A member is not empty. -/
theorem start_lt_stop (h : d.IsMemberOf body) (hd : d.node.StandsIn file) :
    d.node.start < d.node.stop := by
  obtain ⟨k, hk, hkind⟩ := List.any_eq_true.mp h.isMember
  have hsolid : ∀ k ∈ memberKinds, k.isSolid = true := by decide
  exact hd.throughout.here.solid k (beq_iff_eq.mp hkind) (hsolid k hk)

/-- The decorators of a member stand in it or in front of it. -/
theorem mem_heads_iff (h : d.IsMemberOf body) {t : Tree} : t ∈ d.heads ↔
    (t ∈ d.node.tree.children ∨ t ∈ d.leading) ∧ t.isKind .decorator = true := by
  rw [heads, headsAmong, h.wrappers_eq, List.flatMap_nil, List.append_nil, List.mem_append,
    List.mem_filter, List.mem_filter, or_and_right]

/-- Nothing that belongs to a member stands behind it. -/
theorem stop_le_of_mem_heads (h : d.IsMemberOf body) (hd : d.node.StandsIn file) {t : Tree}
    (ht : t ∈ d.heads) : t.stop ≤ d.node.stop := by
  rcases (h.mem_heads_iff.mp ht).1 with hinside | hbefore
  · exact (hd.throughout.here.within t hinside).2
  · have hstop := ((leading_ordered hd).2 t hbefore).1
    rw [h.statement_eq] at hstop
    exact hstop.trans (Nat.le_of_lt (h.start_lt_stop hd))

variable {e : Declaration} {i j : Nat}

/-- Whatever belongs to a member stands behind the members before it. -/
theorem stop_le_of_lt (h : d.IsMemberOf body) (hi : d.IsAt body i) (he : e.IsMemberOf body)
    (hj : e.IsAt body j) (hstands : e.node.StandsIn file) (hij : i < j) :
    d.node.stop ≤ e.node.start ∧ ∀ t ∈ e.heads, d.node.stop ≤ t.start := by
  have hsiblings : Location.siblingsBefore e.node = (body.tree.children.take j).reverse := by
    rw [hj.node_eq]
    rfl
  -- Siblings come one after the other, so what is before a member ends before it starts.
  obtain ⟨horder, hbefore⟩ := Location.siblingsBefore_ordered hstands
  rw [hsiblings] at horder hbefore
  have hmem : d.node.tree ∈ body.tree.children.take j := by
    apply List.mem_of_getElem?
    rw [List.getElem?_take_of_lt hij]
    exact hi.getElem?
  have hstart : d.node.stop ≤ e.node.start := (hbefore _ (List.mem_reverse.mpr hmem)).1
  refine ⟨hstart, fun t ht => ?_⟩
  rcases (he.mem_heads_iff.mp ht).1 with hinside | hleading
  · exact hstart.trans (hstands.throughout.here.within t hinside).1
  · -- The member separates what is in front of it from what is behind it.
    obtain ⟨before, after, hsplit⟩ := List.append_of_mem hmem
    rw [leading, he.statement_eq, hsiblings, hsplit, List.reverse_append, List.reverse_cons,
      List.append_assoc, List.singleton_append] at hleading
    have hafter : t ∈ after :=
      List.mem_reverse.mp (mem_of_mem_takeWhile_append h.isLeading_eq_false hleading)
    rw [List.pairwise_reverse, hsplit] at horder
    exact (List.pairwise_cons.mp (List.pairwise_append.mp horder).2.1).1 t hafter

/-- A member starts behind the members before it, whatever is in front of it. -/
theorem stop_le_firstByte (h : d.IsMemberOf body) (hi : d.IsAt body i) (he : e.IsMemberOf body)
    (hj : e.IsAt body j) (hstands : e.node.StandsIn file) (hij : i < j) :
    d.node.stop ≤ e.firstByte := by
  obtain ⟨hstart, hheads⟩ := h.stop_le_of_lt hi he hj hstands hij
  rcases (isLeast_attached hstands).1 with hfirst | ⟨t, ht, hfirst⟩
  · rw [hfirst, he.statement_eq]
    exact hstart
  · rw [hfirst]
    obtain ⟨hattached, hdecorator⟩ := List.mem_filter.mp ht
    have hleading : t ∈ e.leading := (List.takeWhile_sublist _).subset hattached
    exact hheads t (he.mem_heads_iff.mpr ⟨.inr hleading, hdecorator⟩)

/-- The places of two members of one class do not overlap, and nothing that belongs to the one is
in the place of the other. -/
theorem apart (h : d.IsMemberOf body) (hi : d.IsAt body i) (he : e.IsMemberOf body)
    (hj : e.IsAt body j) (hd : d.node.StandsIn file) (hstands : e.node.StandsIn file)
    (hij : i < j) :
    d.location.offset < e.location.offset ∧ d.location.range.stop ≤ e.location.range.start ∧
      (∀ t ∈ d.heads, file.position t.stop ≤ e.location.range.start) ∧
      ∀ t ∈ e.heads, d.location.range.stop ≤ file.position t.start := by
  have hplaced := hd.throughout.here
  have hlt : file.offset d.node.start < file.offset d.node.stop :=
    hplaced.start.offset_lt hplaced.stop (h.start_lt_stop hd)
  have hnext := h.stop_le_firstByte hi he hj hstands hij
  rw [location_eq hd, location_eq hstands, h.wrappers_eq]
  refine ⟨?_, Text.position_mono hnext _, fun t ht => ?_, fun t ht => ?_⟩
  -- The first member is not empty, and ends before the second one starts.
  · calc file.offset d.firstByte
        ≤ file.offset d.node.start := Text.offset_mono (firstByte_le hd) _
      _ < file.offset d.node.stop := hlt
      _ ≤ file.offset e.firstByte := Text.offset_mono hnext _
  · exact Text.position_mono ((h.stop_le_of_mem_heads hd ht).trans hnext) _
  · exact Text.position_mono ((h.stop_le_of_lt hi he hj hstands hij).2 t ht) _

end IsMemberOf

/-! ## The declarations of a file -/

/-- Let the trees of a file stand in its text, as by `Source.ofText_placed` those of a text that is
read do. Each declaration of the file ends where the outermost of its statements ends, or where it
ends itself if there is none. It starts at the first of the decorators and keywords that belong to
it, those in front of it left out that a comment separates from it. So it starts at the first of all
of them exactly if no decorator is left out. Different members of one class start at different
offsets and have places that do not overlap, and no decorator that belongs to one of them is in the
place of another one. -/
theorem declarations_placed (file : Source)
    (htree : file.tree.Throughout (Placed file.text.toList)) (base : Store) :
    (∀ d ∈ declaredBy file base, ∃ first stop,
      d.location = ⟨file.fileName, file.offset first,
        ⟨file.position first, file.position stop⟩⟩ ∧
      stop = (d.wrappers.getLastD d.node.tree).stop ∧ d.node.stop ≤ stop ∧
      IsLeast (Starts d.node.start (d.headsAmong d.attached)) first ∧
      (IsLeast (Starts d.node.start d.heads) first ↔ d.leading.Pairwise fun near far =>
        near.isComment = true → far.isKind .decorator = false)) ∧
    ∀ body, ∀ a ∈ declaredBy file base, ∀ b ∈ declaredBy file base, a.IsMemberOf body →
      b.IsMemberOf body → a.node ≠ b.node →
      a.location.offset ≠ b.location.offset ∧
      (a.location.range.stop ≤ b.location.range.start ∨
        b.location.range.stop ≤ a.location.range.start) ∧
      ∀ t ∈ b.heads, file.position t.stop ≤ a.location.range.start ∨
        a.location.range.stop ≤ file.position t.start := by
  have hstands : ∀ d ∈ declaredBy file base, d.node.StandsIn file := standsIn_of_declaredBy htree
  constructor
  -- Each declaration by itself: its place is computed from its statement and its decorators.
  · intro d hd
    have hd := hstands d hd
    have hstop : d.node.stop ≤ (d.wrappers.getLastD d.node.tree).stop := by
      rw [← statement_tree]
      exact (statement_spec hd).2.2
    exact ⟨d.firstByte, _, location_eq hd, rfl, hstop, isLeast_firstByte hd, isLeast_heads_iff hd⟩
  · intro body a ha b hb hmember hother hne
    have ha := hstands a ha
    have hb := hstands b hb
    obtain ⟨i, hi⟩ := hmember.exists_isAt
    obtain ⟨j, hj⟩ := hother.exists_isAt
    -- Members of one class are told apart by their places in its body.
    rcases Nat.lt_trichotomy i j with hij | rfl | hij
    · obtain ⟨hoffset, hplaces, -, hheads⟩ := hmember.apart hi hother hj ha hb hij
      exact ⟨hoffset.ne, .inl hplaces, fun t ht => .inr (hheads t ht)⟩
    · have htree := Option.some.inj (hi.getElem?.symm.trans hj.getElem?)
      exact absurd (by rw [hi.node_eq, hj.node_eq, htree]) hne
    · obtain ⟨hoffset, hplaces, hheads, -⟩ := hother.apart hj hmember hi hb ha hij
      exact ⟨hoffset.ne', .inr hplaces, fun t ht => .inl (hheads t ht)⟩

/-- An exported class has a decorator, and so have its two members, with a comment in front of the
second one's. -/
theorem declarations_placed_decorated :
    let file := Source.ofText "/a.ts"
      "@c export class A\x7b@d @e m()\x7b\x7d/**/@f n()\x7b\x7d\x7d" .ts
    file.tree.Throughout (Placed file.text.toList) ∧
    ∃ c ∈ declaredBy file {}, ∃ a ∈ declaredBy file {}, ∃ b ∈ declaredBy file {}, ∃ body,
      a.IsMemberOf body ∧ b.IsMemberOf body ∧ a.node ≠ b.node ∧
      c.kind = .class ∧ c.heads.length = 2 ∧ a.heads.length = 2 ∧ b.heads.length = 1 ∧
      (∀ d ∈ [c, a, b], ∃ first, d.location.offset = file.offset first ∧
        IsLeast (Starts d.node.start d.heads) first) ∧
      a.location.offset ≠ b.location.offset ∧
      ∀ t ∈ b.heads, file.position t.stop ≤ a.location.range.start ∨
        a.location.range.stop ≤ file.position t.start := by
  intro file
  have hfound : ∃ c ∈ declaredBy file {}, ∃ a ∈ declaredBy file {}, ∃ b ∈ declaredBy file {},
      c.kind = .class ∧ c.heads.length = 2 ∧ a.heads.length = 2 ∧ b.heads.length = 1 ∧
      (∀ d ∈ [c, a, b], d.leading.Pairwise fun near far =>
        near.isComment = true → far.isKind .decorator = false) ∧
      a.node.isOneOf memberKinds = true ∧ b.node.isOneOf memberKinds = true ∧
      a.node.start ≠ b.node.start ∧ ∃ body ∈ a.node.parent, ∃ other ∈ b.node.parent,
        body.is .classBody = true ∧
          body.trail.map Crumb.index = other.trail.map Crumb.index := by
    decide +kernel
  obtain ⟨c, hc, a, ha, b, hb, hclass, hcHeads, haHeads, hbHeads, hpairs, haKind, hbKind, hstart,
    body, hbody, other, hother, hofClass, hindex⟩ := hfound
  have htree : file.tree.Throughout (Placed file.text.toList) := Source.ofText_placed _ _ _
  obtain ⟨hplaced, happart⟩ := declarations_placed file htree {}
  have hstands : ∀ d ∈ declaredBy file {}, d.node.StandsIn file := standsIn_of_declaredBy htree
  obtain ⟨hbodyStands, haMem⟩ := (hstands a ha).of_parent hbody
  obtain ⟨hotherStands, hbMem⟩ := (hstands b hb).of_parent hother
  -- The two bodies stand in the file by the same path, so they are one.
  obtain rfl : body = other := hbodyStands.eq_of_index_eq hotherStands hindex
  have hne : a.node ≠ b.node := fun h => hstart (congrArg Node.start h)
  have haMember : a.IsMemberOf body := ⟨hofClass, haMem, haKind⟩
  have hbMember : b.IsMemberOf body := ⟨hofClass, hbMem, hbKind⟩
  obtain ⟨hoffset, -, hheads⟩ := happart body a ha b hb haMember hbMember hne
  refine ⟨htree, c, hc, a, ha, b, hb, body, haMember, hbMember, hne, hclass, hcHeads,
    haHeads, hbHeads,
    fun d hd => ?_, hoffset, hheads⟩
  have hdeclared : d ∈ declaredBy file {} := by
    simp only [List.mem_cons, List.not_mem_nil, or_false] at hd
    rcases hd with rfl | rfl | rfl <;> assumption
  obtain ⟨first, stop, hlocation, -, -, -, hleast⟩ := hplaced d hdeclared
  exact ⟨first, by rw [hlocation], hleast.mpr (hpairs d hd)⟩

/-- A comment between a decorator and its method separates them, and the decorator is left out. -/
theorem exists_decorator_cut_off :
    let file := Source.ofText "/a.ts" "class A\x7b@d/**/m()\x7b\x7d\x7d" .ts
    ∃ d ∈ declaredBy file {}, d.name = "m" ∧
      ∃ t ∈ d.heads, file.offset t.start < d.location.offset := by
  decide +kernel

end Binding.Declaration

end ScriptGraph
