import Mathlib.Data.List.TakeWhile
import ScriptGraph.Syntax.Reader

/-!
# The shape of import statements

An import statement has at most one clause, the clause brings in at most one name and after it at
most one collection, and what is collected in braces has names. Something that no rule accepts may
stand between all of these. The rules of the grammar read import statements of this shape only.

- `Tree.ImportsNames`: the shape of an import statement
- `Grammar.Yields`: what holds of everything that a rule reads
- `Grammar.statement_reads`: a statement is no import statement, or one of this shape
- `readProgram_imports`: the statements of a file that the grammar reads
-/

namespace ScriptGraph.Syntax

namespace Tree

/-- Whether a tree is one of the constructs that its parent is made of. -/
def isPart (t : Tree) : Bool :=
  t.isNamed && !t.isComment

/-- Whether a tree is the clause of an import. -/
def isClause (t : Tree) : Bool :=
  t.isKind .importClause || t.isKind .importRequireClause

/-- Whether a tree brings in a name or a collection of names. -/
def bringsIn (t : Tree) : Bool :=
  t.isKind .identifier || t.isKind .namespaceImport || t.isKind .namedImports

/-- A branch is labelled with the kind it was built for. -/
@[simp] theorem label_branch (k : Kind) (cs : List Tree) : (branch k cs).label = .construct k := by
  cases cs <;> rfl

/-- The children of a branch are the trees it was built from. -/
@[simp] theorem children_branch (k : Kind) (cs : List Tree) : (branch k cs).children = cs := by
  cases cs <;> rfl

/-- A branch is of the one kind it was built for. -/
@[simp] theorem isKind_branch (k k' : Kind) (cs : List Tree) :
    (branch k cs).isKind k' = decide (k = k') := by
  rw [isKind, label_branch, Bool.beq_eq_decide_eq]
  simp

/-- A leaf that is a construct is of one kind, whatever bytes it covers. -/
@[simp] theorem isKind_leaf_construct (k k' : Kind) (start stop : Nat) :
    (leaf (.construct k) start stop).isKind k' = decide (k = k') := by
  rw [isKind, Bool.beq_eq_decide_eq]
  simp [leaf, label]

/-- A token is of no kind. -/
@[simp] theorem isKind_leaf_token (s : String) (k : Kind) (start stop : Nat) :
    (leaf (.token s) start stop).isKind k = false :=
  rfl

/-- A role does not change the label of a tree. -/
@[simp] theorem label_withRole (r : Field) (t : Tree) : (t.withRole r).label = t.label := by
  cases t
  rfl

/-- A tree stands in the role it was given last. -/
@[simp] theorem role_withRole (r : Field) (t : Tree) : (t.withRole r).role = some r := by
  cases t
  rfl

/-- A role does not change the kind of a tree. -/
@[simp] theorem isKind_withRole (r : Field) (t : Tree) (k : Kind) :
    (t.withRole r).isKind k = t.isKind k := by
  rw [isKind, label_withRole, isKind]

/-- A tree is of one kind. -/
theorem isKind_eq_false {t : Tree} {k k' : Kind} (h : t.isKind k = true) (hne : k ≠ k') :
    t.isKind k' = false := by
  rw [isKind, eq_of_beq h]
  simp [Bool.beq_eq_decide_eq, hne]

end Tree

namespace Grammar

open ScriptGraph.Syntax.Tree

variable {α β : Type} {P : α → Prop} {Q : β → Prop} {φ ψ : Tree → Prop}
  {f g : Forest} {k : Kind} {label : Label}

/-- Whatever a rule reads has `P`. -/
def Yields (P : α → Prop) (rule : Grammar α) : Prop :=
  ∀ rules c a next, rule rules c = some (a, next) → P a

namespace Yields

/-- A rule that reads nothing yields its result. -/
theorem pure {a : α} (h : P a) : Yields P (Pure.pure a) := by
  rintro rules c _ _ hread
  cases hread
  exact h

/-- A rule in two parts yields what the second part yields after the first one. -/
theorem bind {x : Grammar β} {f : β → Grammar α} (hx : Yields Q x)
    (hf : ∀ b, Q b → Yields P (f b)) : Yields P (x >>= f) := by
  intro rules c a next hread
  have hread : (x rules c).bind (fun r => f r.1 rules r.2) = some (a, next) := hread
  obtain ⟨⟨b, after⟩, hb, ha⟩ := Option.bind_eq_some_iff.mp hread
  exact hf b (hx _ _ _ _ hb) _ _ _ _ ha

/-- What is read first does not matter. -/
theorem seq {x : Grammar β} {f : β → Grammar α} (hf : ∀ b, Yields P (f b)) :
    Yields P (x >>= f) :=
  bind (Q := fun _ => True) (fun _ _ _ _ _ => trivial) fun b _ => hf b

/-- A rule that never succeeds yields anything at all. -/
theorem failure : Yields P (Alternative.failure : Grammar α) :=
  nofun

/-- Nothing is read after a failure. -/
theorem stop {f : β → Grammar α} : Yields P ((Alternative.failure : Grammar β) >>= f) :=
  nofun

/-- A choice yields what both of its rules yield. -/
theorem orElse {x y : Grammar α} (hx : Yields P x) (hy : Yields P y) : Yields P (x <|> y) := by
  intro rules c a next hread
  have hread : ((x rules c) <|> (y rules c)) = some (a, next) := hread
  cases hfirst : x rules c with
  | none =>
    rw [hfirst] at hread
    exact hy _ _ _ _ hread
  | some r =>
    rw [hfirst] at hread
    exact hx _ _ _ _ (hfirst.trans hread)

/-- What follows from what a rule yields is yielded too. -/
theorem weaken {P' : α → Prop} {rule : Grammar α} (h : Yields P rule) (hP : ∀ a, P a → P' a) :
    Yields P' rule :=
  fun _ _ a _ hread => hP a (h _ _ _ _ hread)

/-- Reading in changed surroundings yields the same. -/
theorem within {change : Surroundings → Surroundings} {rule : Grammar α} (h : Yields P rule) :
    Yields P (Grammar.within change rule) :=
  fun _ _ _ _ hread => h _ _ _ _ hread

/-- An optional part yields what its rule yields, or nothing. -/
theorem optional {P : Forest → Prop} {rule : Grammar Forest} (h : Yields P rule) (hnil : P []) :
    Yields P (Grammar.optional rule) :=
  orElse h (pure hnil)

/-- A repetition with fuel yields what one item yields and what appending keeps. -/
theorem manyFrom {P : Forest → Prop} {rule : Grammar Forest} (h : Yields P rule) (hnil : P [])
    (happend : ∀ f g, P f → P g → P (f ++ g)) (fuel : Nat) :
    Yields P (Grammar.manyFrom rule fuel) := by
  induction fuel with
  | zero => exact pure hnil
  | succ fuel ih =>
    intro rules c a next hread
    unfold Grammar.manyFrom at hread
    split at hread
    · cases hread
      exact hnil
    -- An item that leaves the cursor where it was ends the repetition, like one that fails.
    · rename_i forest after hfirst
      have hforest := h _ _ _ _ hfirst
      split at hread
      · cases hread
        exact hnil
      · split at hread
        · cases hread
          exact hforest
        · rename_i more last hmore
          cases hread
          exact happend _ _ hforest (ih _ _ _ _ hmore)

/-- A repetition yields what one item yields and what appending keeps. -/
theorem many {P : Forest → Prop} {rule : Grammar Forest} (h : Yields P rule) (hnil : P [])
    (happend : ∀ f g, P f → P g → P (f ++ g)) : Yields P (Grammar.many rule) :=
  seq fun _ => manyFrom h hnil happend _

/-- Items with commas between them yield what an item and a comma yield. -/
theorem commaItems {P : Forest → Prop} {item : Grammar Forest} (hcomma : Yields P (punct ","))
    (h : Yields P item) (hnil : P []) (happend : ∀ f g, P f → P g → P (f ++ g)) :
    Yields P (Grammar.commaItems item) := by
  have hpair : Yields P (do
      let s ← punct ","
      let i ← item
      return s ++ i) :=
    .bind hcomma fun _ hs => .bind h fun _ hi => .pure (happend _ _ hs hi)
  exact .optional (.bind h fun _ hfirst => .bind (.many hpair hnil happend) fun _ hmore =>
    .bind (.optional hcomma hnil) fun _ hlast =>
      .pure (happend _ _ (happend _ _ hfirst hmore) hlast)) hnil

end Yields

/-! ## Tokens and comments -/

/-- A forest is a token under a label, with the comments before it. -/
def OneToken (label : Label) (f : Forest) : Prop :=
  ∃ (comments : Forest) (start stop : Nat),
    (∀ c ∈ comments, c.isComment = true) ∧ f = comments ++ [leaf label start stop]

/-- Only comments are collected on the way to the next token. -/
theorem skipTriviaFrom_comments (seen : List Tree) (lineBreak : Bool) (fuel : Nat) (c : Cursor)
    (h : ∀ t ∈ seen, t.isComment = true) :
    ∀ t ∈ (Cursor.skipTriviaFrom seen lineBreak fuel c).comments, t.isComment = true := by
  have hreverse : ∀ t ∈ seen.reverse, t.isComment = true := fun t ht => h t (List.mem_reverse.mp ht)
  induction fuel generalizing seen lineBreak c with
  | zero => exact hreverse
  | succ fuel ih =>
    unfold Cursor.skipTriviaFrom
    dsimp only
    split
    · exact hreverse
    -- A comment that has been read is put before the ones seen so far.
    · rename_i n _
      let comment := leaf (.construct .comment) c.skipSpaces.offset (c.skipSpaces.advance n).offset
      have hseen : ∀ t ∈ comment :: seen, t.isComment = true := List.forall_mem_cons.mpr ⟨rfl, h⟩
      exact ih _ _ _ hseen fun t ht => hseen t (List.mem_reverse.mp ht)

/-- Looking ahead yields a token that has only comments before it. -/
theorem look_yields : Yields (fun t => ∀ c ∈ t.comments, c.isComment = true) look :=
  .seq fun c => .pure (skipTriviaFrom_comments [] false _ c nofun)

/-- An accepted token is one leaf after its comments. -/
theorem accept_yields {t : Token} (ht : ∀ c ∈ t.comments, c.isComment = true) :
    Yields (OneToken label) (accept t label) :=
  .seq fun _ => .pure ⟨t.comments, _, _, ht, rfl⟩

/-- A punctuation mark is read as one token. -/
theorem punct_yields (spelling : String) :
    Yields (OneToken (.token spelling)) (punct spelling) := by
  refine .bind look_yields fun t ht => ?_
  split
  · exact accept_yields ht
  · exact .failure

/-- A keyword is read as one token. -/
theorem keyword_yields (spelling : String) :
    Yields (OneToken (.token spelling)) (keyword spelling) := by
  refine .bind look_yields fun t ht => ?_
  split
  · exact accept_yields ht
  · exact .failure

/-- A string literal is read as one token. -/
theorem string_yields : Yields (OneToken (.construct .string)) string := by
  refine .bind look_yields fun t ht => ?_
  split
  · exact accept_yields ht
  · exact .failure

/-- A word is read as one token of the kind that is asked for. -/
theorem wordAs_yields (k : Kind) : Yields (OneToken (.construct k)) (wordAs k) := by
  refine .bind look_yields fun t ht => ?_
  split
  · exact accept_yields ht
  · exact .failure

/-- An identifier is read as one token. -/
theorem identifier_yields : Yields (OneToken (.construct .identifier)) identifier := by
  refine .bind look_yields fun t ht => ?_
  split
  · split
    · exact .failure
    · exact accept_yields ht
  · exact .failure

/-! ## What a forest has of one sort -/

/-- A forest has no tree with `p`. -/
def Lacks (p : Tree → Bool) (f : Forest) : Prop :=
  ∀ t ∈ f, p t = false

/-- A forest has at most one tree with `p`, and it has `φ`. -/
def AtMostOne (p : Tree → Bool) (φ : Tree → Prop) (f : Forest) : Prop :=
  ∃ only? : Option Tree, f.filter p = only?.toList ∧ ∀ t ∈ only?, φ t

variable {p : Tree → Bool}

/-- The empty forest has no tree of any sort. -/
theorem Lacks.nil : Lacks p [] :=
  nofun

/-- Two forests without a sort of trees have none together. -/
theorem Lacks.append (hf : Lacks p f) (hg : Lacks p g) : Lacks p (f ++ g) :=
  fun t ht => (List.mem_append.mp ht).elim (hf t) (hg t)

/-- Filtering a forest for what it lacks leaves nothing. -/
theorem Lacks.filter_eq (h : Lacks p f) : f.filter p = [] :=
  List.filter_eq_nil_iff.mpr fun t ht => by simp [h t ht]

/-- A role brings no tree of a sort that does not depend on roles. -/
theorem Lacks.inRole (h : Lacks p f) {r : Field} (hp : ∀ t, p (t.withRole r) = p t) :
    Lacks p (inRole r f) := by
  intro t ht
  obtain ⟨u, hu, rfl⟩ := List.mem_map.mp ht
  split
  · exact h u hu
  · exact (hp u).trans (h u hu)

/-- A forest that lacks a sort has at most one tree of it. -/
theorem AtMostOne.of_lacks (h : Lacks p f) : AtMostOne p φ f :=
  ⟨none, h.filter_eq, nofun⟩

/-- What is known of the one tree may be weakened. -/
theorem AtMostOne.imp (h : AtMostOne p φ f) (hφ : ∀ t, φ t → ψ t) : AtMostOne p ψ f := by
  obtain ⟨only?, hf, honly⟩ := h
  exact ⟨only?, hf, fun t ht => hφ t (honly t ht)⟩

/-- Trees of other sorts may follow. -/
theorem AtMostOne.append_lacks (h : AtMostOne p φ f) (hg : Lacks p g) :
    AtMostOne p φ (f ++ g) := by
  obtain ⟨only?, hf, honly⟩ := h
  exact ⟨only?, by rw [List.filter_append, hf, hg.filter_eq, List.append_nil], honly⟩

/-- Trees of other sorts may come before. -/
theorem AtMostOne.lacks_append (hf : Lacks p f) (h : AtMostOne p φ g) :
    AtMostOne p φ (f ++ g) := by
  obtain ⟨only?, hg, honly⟩ := h
  exact ⟨only?, by rw [List.filter_append, hf.filter_eq, hg, List.nil_append], honly⟩

/-- A single tree either has `p` or has not. -/
theorem AtMostOne.singleton {t : Tree} (h : φ t) : AtMostOne p φ [t] := by
  cases hp : p t with
  | true => exact ⟨some t, by simp [hp], fun u hu => Option.mem_some.mp hu ▸ h⟩
  | false => exact .of_lacks fun u hu => List.mem_singleton.mp hu ▸ hp

/-- No comment is a clause. -/
theorem isClause_of_isComment {t : Tree} (h : t.isComment = true) : t.isClause = false := by
  rw [isComment] at h
  simp [isClause, isKind_eq_false h]

/-- No comment brings in a name. -/
theorem bringsIn_of_isComment {t : Tree} (h : t.isComment = true) : t.bringsIn = false := by
  rw [isComment] at h
  simp [bringsIn, isKind_eq_false h]

/-- A construct other than a comment is a part of what it stands in. -/
theorem isPart_of_isKind {t : Tree} {k : Kind} (h : t.isKind k = true) (hk : k ≠ .comment) :
    t.isPart = true := by
  have hnamed : t.isNamed = true := by
    rw [isNamed, eq_of_beq h]
    rfl
  rw [isPart, hnamed, isComment, isKind_eq_false h hk]
  rfl

/-- A clause is a part of an import statement. -/
theorem isPart_of_isClause {t : Tree} (h : t.isClause = true) : t.isPart = true :=
  (Bool.or_eq_true_iff.mp h).elim (isPart_of_isKind · nofun) (isPart_of_isKind · nofun)

/-- What brings in names is a part of an import statement. -/
theorem isPart_of_bringsIn {t : Tree} (h : t.bringsIn = true) : t.isPart = true :=
  (Bool.or_eq_true_iff.mp h).elim
    (fun h => (Bool.or_eq_true_iff.mp h).elim (isPart_of_isKind · nofun) (isPart_of_isKind · nofun))
    (isPart_of_isKind · nofun)

section Comments

variable (hp : ∀ t, t.isComment = true → p t = false)
include hp

/-- A token is no tree of a sort that neither comments nor its leaf belong to. -/
theorem OneToken.lacks (h : OneToken label f)
    (hleaf : ∀ start stop, p (leaf label start stop) = false) : Lacks p f := by
  obtain ⟨comments, start, stop, hcomments, rfl⟩ := h
  exact .append (fun c hc => hp c (hcomments c hc))
    fun t ht => List.mem_singleton.mp ht ▸ hleaf start stop

/-- Read as one token, there is at most one tree of a sort that excludes comments. -/
theorem OneToken.atMostOne (h : OneToken label f)
    (hleaf : ∀ start stop, φ (leaf label start stop)) : AtMostOne p φ f := by
  obtain ⟨comments, start, stop, hcomments, rfl⟩ := h
  exact .lacks_append (fun c hc => hp c (hcomments c hc)) (.singleton (hleaf start stop))

/-- What a construct is gathered of is the same without the comments in front. -/
theorem filter_dropWhile (f : Forest) : (f.dropWhile isComment).filter p = f.filter p :=
  have hcomments : Lacks p (f.takeWhile isComment) :=
    fun t ht => hp t (List.mem_takeWhile_imp ht)
  calc (f.dropWhile isComment).filter p
      = (f.takeWhile isComment ++ f.dropWhile isComment).filter p := by
        rw [List.filter_append, hcomments.filter_eq, List.nil_append]
    _ = f.filter p := by rw [List.takeWhile_append_dropWhile]

/-- A construct is one tree, with comments before it. -/
theorem construct_atMostOne (h : φ (branch k (f.dropWhile isComment))) :
    AtMostOne p φ (construct k f) := by
  unfold construct
  split
  · rename_i hnil
    exact .of_lacks fun t ht => hp t (List.dropWhile_eq_nil_iff.mp hnil t ht)
  · exact .lacks_append (fun t ht => hp t (List.mem_takeWhile_imp ht)) (.singleton h)

end Comments

/-- What holds of comments and of a construct holds of all that stands there. -/
theorem construct_forall (hcomment : ∀ t, t.isComment = true → φ t)
    (h : φ (branch k (f.dropWhile isComment))) : ∀ t ∈ construct k f, φ t := by
  unfold construct
  intro t ht
  split at ht
  -- Comments alone make no construct and are left as they are.
  · rename_i hnil
    exact hcomment t (List.dropWhile_eq_nil_iff.mp hnil t ht)
  · rcases List.mem_append.mp ht with ht | ht
    · exact hcomment t (List.mem_takeWhile_imp ht)
    · exact List.mem_singleton.mp ht ▸ h

/-- A tree that is no comment stays when the leading comments are dropped. -/
theorem mem_dropWhile_of_not {t : Tree} (ht : t ∈ f) (hcomment : t.isComment = false) :
    t ∈ f.dropWhile isComment := by
  rw [← List.takeWhile_append_dropWhile (p := isComment) (l := f)] at ht
  refine (List.mem_append.mp ht).resolve_left fun h => ?_
  rw [List.mem_takeWhile_imp h] at hcomment
  exact nomatch hcomment

end Grammar

namespace Tree

open Grammar

/-- An element of a braced list has a name. -/
def NamesElement (t : Tree) : Prop :=
  t.isKind .importSpecifier = true → ∃ c ∈ t.children, c.role = some .name

/-- A collection is a whole module, or names in braces. -/
def IsCollection (t : Tree) : Prop :=
  (t.isKind .namespaceImport = true ∨ t.isKind .namedImports = true) ∧
    (t.isKind .namedImports = true → ∀ element ∈ t.children, element.NamesElement)

/-- Some trees bring in at most one name, and after it at most one collection. -/
def BindInOrder (ts : List Tree) : Prop :=
  ∃ name? collection? : Option Tree, ts.filter bringsIn = name?.toList ++ collection?.toList ∧
    (∀ t ∈ name?, t.isKind .identifier = true) ∧ ∀ t ∈ collection?, t.IsCollection

/-- What a clause binds stands in order. -/
def BindsNames (clause : Tree) : Prop :=
  clause.isKind .importClause = true → BindInOrder clause.children

/-- An import statement has at most one clause. -/
def ImportsNames (t : Tree) : Prop :=
  t.isKind .importStatement = true → AtMostOne isClause BindsNames t.children

end Tree

namespace Grammar

open ScriptGraph.Syntax.Tree

variable {f g : Forest}

/-! ## Names in braces -/

/-- A forest has something that is no comment. -/
def HasToken (f : Forest) : Prop :=
  ∃ t ∈ f, t.isComment = false

/-- What is read as one token holds a tree that is no comment. -/
theorem OneToken.hasToken {label : Label} (h : OneToken label f)
    (hlabel : label ≠ .construct .comment) : HasToken f := by
  obtain ⟨comments, start, stop, -, rfl⟩ := h
  exact ⟨_, List.mem_append_right _ (List.mem_singleton_self _), beq_eq_false_iff_ne.mpr hlabel⟩

/-- The name in a specifier is a token. -/
theorem exportedName_yields : Yields HasToken exportedName := by
  refine .seq fun isTyped => .seq fun atDefault => ?_
  split
  · exact (keyword_yields _).weaken fun _ h => h.hasToken nofun
  · exact .orElse (string_yields.weaken fun _ h => h.hasToken nofun)
      ((wordAs_yields _).weaken fun _ h => h.hasToken nofun)

/-- A forest has a name, whatever comments stand before it. -/
def HasName (f : Forest) : Prop :=
  ∃ t ∈ f, t.isComment = false ∧ t.role = some .name

/-- In the role of a name, a token is a name. -/
theorem HasToken.inRole_name (h : HasToken f) : HasName (inRole .name f) := by
  obtain ⟨t, ht, hcomment⟩ := h
  refine ⟨t.withRole .name, List.mem_map.mpr ⟨t, ht, by rw [hcomment]; rfl⟩, ?_, role_withRole _ t⟩
  rw [isComment, isKind_withRole]
  exact hcomment

/-- Trees may follow a name. -/
theorem HasName.append_left (h : HasName f) (g : Forest) : HasName (f ++ g) := by
  obtain ⟨t, ht, hname⟩ := h
  exact ⟨t, List.mem_append_left g ht, hname⟩

/-- Trees may come before a name. -/
theorem HasName.append_right (f : Forest) (h : HasName g) : HasName (f ++ g) := by
  obtain ⟨t, ht, hname⟩ := h
  exact ⟨t, List.mem_append_right f ht, hname⟩

/-- A comment is no element, and a token is none. -/
theorem namesElement_of_isComment {t : Tree} (h : t.isComment = true) : t.NamesElement := by
  intro helement
  rw [isComment] at h
  simp [isKind_eq_false h] at helement

/-- A token that is no construct names no element by itself. -/
theorem OneToken.namesElement {spelling : String} (h : OneToken (.token spelling) f) :
    ∀ t ∈ f, t.NamesElement := by
  obtain ⟨comments, start, stop, hcomments, rfl⟩ := h
  exact List.forall_mem_append.mpr ⟨fun t ht => namesElement_of_isComment (hcomments t ht),
    List.forall_mem_singleton.mpr nofun⟩

/-- What is read as an element has a name. -/
theorem specifier_yields (k : Kind) : Yields (fun f => ∀ t ∈ f, t.NamesElement) (specifier k) := by
  have hmarked : Yields HasName (do
      let mark ← typeMark
      let name ← exportedName
      return mark ++ inRole .name name) :=
    .seq fun _ => .bind exportedName_yields fun _ hname =>
      .pure (.append_right _ hname.inRole_name)
  have hplain : Yields HasName (do return inRole .name (← exportedName)) :=
    .bind exportedName_yields fun _ hname => .pure hname.inRole_name
  refine .bind (.orElse hmarked hplain) fun head hhead => .seq fun renamed => .pure ?_
  -- The comments in front stay outside of the specifier, the name does not.
  refine construct_forall (fun _ => namesElement_of_isComment) fun _ => ?_
  obtain ⟨t, ht, hcomment, hrole⟩ := hhead.append_left renamed
  rw [children_branch]
  exact ⟨t, mem_dropWhile_of_not ht hcomment, hrole⟩

/-! ## Clauses -/

/-- Comments in front of a construct are none of its parts. -/
theorem filter_children_branch {p : Tree → Bool} (hp : ∀ t, t.isComment = true → p t = false)
    (k : Kind) (f : Forest) :
    (branch k (f.dropWhile isComment)).children.filter p = f.filter p := by
  rw [children_branch, filter_dropWhile hp]

/-- A namespace import is the one collection of its clause. -/
theorem namespaceImport_yields : Yields (AtMostOne bringsIn IsCollection) namespaceImport :=
  .seq fun _ => .seq fun _ => .seq fun _ => .pure (construct_atMostOne
    (fun _ => bringsIn_of_isComment) ⟨.inl (by simp), by simp⟩)

/-- Imports in braces are the one collection of their clause, and each element has a name. -/
theorem namedImports_yields :
    Yields (AtMostOne bringsIn IsCollection) (specifiers .namedImports .importSpecifier) := by
  have happend : ∀ f g : Forest, (∀ t ∈ f, t.NamesElement) → (∀ t ∈ g, t.NamesElement) →
      ∀ t ∈ f ++ g, t.NamesElement := fun _ _ hf hg => List.forall_mem_append.mpr ⟨hf, hg⟩
  refine .bind (punct_yields _) fun opening hopening => .bind (.within (.commaItems
    ((punct_yields _).weaken fun _ h => h.namesElement) (specifier_yields _) nofun happend))
    fun items hitems => .bind (punct_yields _) fun closing hclosing => .pure ?_
  -- The construct holds the braces and the items, less the comments in front of them.
  refine construct_atMostOne (fun _ => bringsIn_of_isComment)
    ⟨.inr (by simp), fun _ element helement => ?_⟩
  rw [children_branch] at helement
  exact happend _ _ (happend _ _ hopening.namesElement hitems) hclosing.namesElement element
    ((List.dropWhile_sublist _).subset helement)

/-- An import clause is one tree, and what it binds comes in the order of its parts. -/
theorem importClause_yields : Yields (AtMostOne isClause BindsNames) importClause := by
  let collected : Grammar Forest := namespaceImport <|> specifiers .namedImports .importSpecifier
  have hcollected : Yields (AtMostOne bringsIn IsCollection) collected :=
    .orElse namespaceImport_yields namedImports_yields
  have hmore : Yields (AtMostOne bringsIn IsCollection) (optional do
      let comma ← punct ","
      let rest ← collected
      return comma ++ rest) :=
    .optional (.bind (punct_yields _) fun _ hcomma => .bind hcollected fun _ hrest =>
      .pure (.lacks_append (hcomma.lacks (fun _ => bringsIn_of_isComment) fun _ _ => rfl) hrest))
      (.of_lacks .nil)
  have hnamed : Yields BindInOrder (do
      let name ← identifier
      let more ← optional do
        let comma ← punct ","
        let rest ← collected
        return comma ++ rest
      -- A default import, with or without a collection after it.
      return name ++ more) := by
    refine .bind identifier_yields fun name hname => .bind hmore fun more hmore => .pure ?_
    obtain ⟨name?, hname, hidentifier⟩ :
        AtMostOne bringsIn (fun t => t.isKind .identifier = true) name :=
      hname.atMostOne (fun _ => bringsIn_of_isComment) fun _ _ => rfl
    obtain ⟨collection?, hmore, hcollection⟩ := hmore
    exact ⟨name?, collection?, by rw [List.filter_append, hname, hmore], hidentifier, hcollection⟩
  -- A collection alone.
  have hwhole : Yields BindInOrder collected := hcollected.weaken fun _ h => by
    obtain ⟨collection?, hparts, hcollection⟩ := h
    exact ⟨none, collection?, hparts, nofun, hcollection⟩
  refine .bind (.orElse hwhole hnamed) fun f hf => .pure (construct_atMostOne
    (fun _ => isClause_of_isComment) fun _ => ?_)
  rw [BindInOrder, filter_children_branch fun _ => bringsIn_of_isComment]
  exact hf

/-! ## Statements -/

/-- A string is no clause, in whatever role. -/
theorem source_lacks (h : OneToken (.construct .string) f) (r : Field) :
    Lacks isClause (inRole r f) :=
  (h.lacks (fun _ => isClause_of_isComment) fun _ _ => rfl).inRole fun t => by
    rw [isClause, isKind_withRole, isKind_withRole, isClause]

/-- A token of punctuation or a keyword is no clause. -/
theorem lacks_of_token {spelling : String} (h : OneToken (.token spelling) f) :
    Lacks isClause f :=
  h.lacks (fun _ => isClause_of_isComment) fun _ _ => rfl

/-- The source of an import statement holds no clause. -/
theorem fromClause_yields : Yields (Lacks isClause) fromClause :=
  .bind (keyword_yields _) fun _ hword => .bind string_yields fun _ hsource =>
    .pure (.append (lacks_of_token hword) (source_lacks hsource .source))

/-- An import by `require` is one clause. -/
theorem requireClause_yields : Yields (AtMostOne isClause BindsNames) requireClause :=
  .seq fun _ => .seq fun _ => .seq fun _ => .seq fun _ => .seq fun _ => .seq fun _ =>
    .pure (construct_atMostOne (fun _ => isClause_of_isComment) fun h => by simp at h)

/-- Import attributes hold no clause. -/
theorem importAttribute_yields : Yields (Lacks isClause) importAttribute :=
  .seq fun _ => .seq fun _ => .pure (construct_forall (fun _ => isClause_of_isComment) (by
    simp [isClause]))

/-- The end of a line yields only the comments that are skipped. -/
theorem lineEndFrom_yields (operand signature : Bool) (fuel : Nat) :
    Yields (fun f => ∀ t ∈ f, t.isComment = true) (lineEndFrom operand signature fuel) := by
  induction fuel with
  | zero => exact .failure
  | succ fuel ih =>
    refine .seq fun c => .seq fun surroundings => ?_
    split
    · exact .pure nofun
    · dsimp only
      split
      · exact .failure
      · exact .seq fun _ => .bind ih fun more hmore => .pure (List.forall_mem_cons.mpr ⟨rfl, hmore⟩)

/-- The end of a statement holds no clause. -/
theorem semicolon_yields (operand : Bool) : Yields (Lacks isClause) (semicolon operand) :=
  .orElse (.seq fun _ => (lineEndFrom_yields _ _ _).weaken fun _ h t ht =>
    isClause_of_isComment (h t ht)) ((punct_yields _).weaken fun _ h => lacks_of_token h)

/-- No comment is an import statement, and no construct of another kind is one. -/
theorem importsNames_of_isKind {t : Tree} {k : Kind} (h : t.isKind k = true)
    (hk : k ≠ .importStatement) : t.ImportsNames := by
  intro himport
  rw [isKind_eq_false h hk] at himport
  exact nomatch himport

/-- An import statement binds what its one clause says. -/
theorem importStatement_yields : Yields (fun f => ∀ t ∈ f, t.ImportsNames) importStatement := by
  let bare : Grammar Forest := do return inRole .source (← string)
  let clause : Grammar Forest := do
    let what ← importClause
    let source ← fromClause
    return what ++ source
  -- The three forms that come without a mark for types: only a source, a clause, `require`.
  have hbare : Yields (AtMostOne isClause BindsNames) bare :=
    .bind string_yields fun _ hsource => .pure (.of_lacks (source_lacks hsource .source))
  have hclause : Yields (AtMostOne isClause BindsNames) clause :=
    .bind importClause_yields fun _ hwhat => .bind fromClause_yields fun _ hsource =>
      .pure (hwhat.append_lacks hsource)
  have hunmarked : ∀ isTyped : Bool, Yields (AtMostOne isClause BindsNames)
      (bare <|> clause <|> (if isTyped then requireClause else failure)) := fun isTyped => by
    refine .orElse hbare (.orElse hclause ?_)
    split
    · exact requireClause_yields
    · exact .failure
  -- With a mark for types there has to be a clause.
  have hmarked : Yields (AtMostOne isClause BindsNames) (do
      if !(← typed) then failure
      let mark ← keyword "type" <|> keyword "typeof"
      let rest ← clause <|> requireClause
      return mark ++ rest) := by
    have hrest : Yields (AtMostOne isClause BindsNames) (do
        let mark ← keyword "type" <|> keyword "typeof"
        let rest ← clause <|> requireClause
        return mark ++ rest) :=
      .bind (Q := Lacks isClause) (.orElse ((keyword_yields _).weaken fun _ => lacks_of_token)
        ((keyword_yields _).weaken fun _ => lacks_of_token)) fun _ hmark =>
          .bind (.orElse hclause requireClause_yields) fun _ hrest =>
            .pure (.lacks_append hmark hrest)
    refine .seq fun isTyped => ?_
    split
    · exact .failure
    · exact hrest
  refine .bind (keyword_yields _) fun word hword => .seq fun isTyped =>
    .bind (.orElse (hunmarked isTyped) hmarked) fun what hwhat =>
      .bind (.optional importAttribute_yields .nil) fun attributes hattributes =>
        .bind (semicolon_yields false) fun ending hending => .pure ?_
  -- Only one of the parts is a clause, so the statement has the names of that one.
  refine construct_forall (fun _ h => importsNames_of_isKind h nofun) fun _ => ?_
  obtain ⟨clause?, hclause, hbinds⟩ :=
    ((AtMostOne.lacks_append (lacks_of_token hword) hwhat).append_lacks hattributes).append_lacks
      hending
  exact ⟨clause?, (filter_children_branch (fun _ => isClause_of_isComment) _ _).trans hclause,
    hbinds⟩

/-! ## Other statements -/

/-- What is gathered under another kind is no import statement. -/
theorem yields_construct {k : Kind} (hk : k ≠ .importStatement) (f : Forest) :
    Yields (fun f => ∀ t ∈ f, t.ImportsNames) (Pure.pure (construct k f)) :=
  .pure (construct_forall (fun _ h => importsNames_of_isKind h nofun)
    (importsNames_of_isKind (by simp) hk))

/-- A rule that reads no import statement, or one of the right shape. -/
abbrev ReadsImports (rule : Grammar Forest) : Prop :=
  Yields (fun f => ∀ t ∈ f, t.ImportsNames) rule

/-- A block is no import statement. -/
theorem block_reads (inExpression : Bool) : ReadsImports (block inExpression) :=
  .seq fun _ => .seq fun _ => .seq fun _ => .seq fun _ => yields_construct (by decide) _

/-- A declaration of variables is no import statement. -/
theorem variableDeclaration_reads (ending : Bool → Grammar Forest) :
    ReadsImports (variableDeclaration ending) := by
  have hkeyword : Yields (fun r => r.2 ≠ Kind.importStatement) variableKeyword := by
    refine .seq fun t => ?_
    split
    · exact .seq fun _ => .pure nofun
    · exact .seq fun _ => .pure nofun
    · exact .seq fun _ => .pure nofun
    · exact .failure
  exact .bind hkeyword fun (word, kind) hkind => .seq fun (names, valued) => .seq fun _ =>
    yields_construct hkind _

/-- A function declaration is no import statement. -/
theorem functionDeclaration_reads : ReadsImports functionDeclaration := by
  refine .seq fun _ => .seq fun _ => .seq fun star => .seq fun _ => .seq fun _ =>
    .seq fun braces => ?_
  split
  · refine .seq fun _ => yields_construct ?_ _
    split <;> exact nofun
  · refine .seq fun _ => ?_
    split
    · exact .seq fun _ => yields_construct (by decide) _
    · exact .failure

/-- A class declaration is no import statement. -/
theorem classDeclaration_reads : ReadsImports classDeclaration := by
  refine .seq fun _ => .seq fun isTyped => ?_
  -- What comes before the keyword decides only between the two kinds of classes.
  have hrest : ∀ decorators isAbstract : Forest, ReadsImports (do
      let word ← keyword "class"
      let name ← className
      let tail ← classTail
      let parts := decorators ++ isAbstract ++ word ++ inRole .name name ++ tail
      if isAbstract.isEmpty then
        let ending ← optional (lineEnd false false)
        return construct .classDeclaration (parts ++ ending)
      else return construct .abstractClassDeclaration parts) := fun decorators isAbstract => by
    refine .seq fun _ => .seq fun _ => .seq fun _ => ?_
    dsimp only
    split
    · exact .seq fun _ => yields_construct (by decide) _
    · exact yields_construct (by decide) _
  split
  · exact .seq fun _ => hrest _ _
  · exact hrest _ _

/-- A namespace or module declaration is no import statement. -/
theorem moduleDeclaration_reads : ReadsImports moduleDeclaration := by
  -- After the keyword the three forms are read alike.
  have hrest : ∀ r : Forest × Kind, r.2 ≠ .importStatement → ReadsImports (do
      let next ← look
      if next.lineBreak then failure
      let name ← string <|> nestedName
      let b ← if ← atPunct "\x7b" then body false else pure []
      return construct r.2 (r.1 ++ inRole .name name ++ b)) := fun r hr => by
    refine .seq fun next => ?_
    split
    · exact .stop
    · refine .seq fun _ => .seq fun braces => ?_
      split
      · exact .seq fun _ => yields_construct hr _
      · exact .seq fun _ => yields_construct hr _
  refine .seq fun t => ?_
  split
  · exact .seq fun _ => .bind (.pure nofun) hrest
  · exact .seq fun _ => .bind (.pure nofun) hrest
  · exact .stop

/-- A declaration under `declare` is no import statement. -/
theorem ambientDeclaration_reads (declaration : Grammar Forest) :
    ReadsImports (ambientDeclaration declaration) := by
  refine .seq fun _ => .seq fun next => ?_
  split
  · exact .stop
  · exact .seq fun _ => yields_construct (by decide) _

/-- The declarations that only typed dialects have are no import statements. -/
theorem typedDeclaration_reads (nested : Grammar Forest) :
    ReadsImports (typedDeclaration nested) := by
  refine .seq fun isTyped => ?_
  split
  · exact .stop
  refine .seq fun t => ?_
  -- One case for each word, in the order of the definition.
  split
  · exact .seq fun _ => .seq fun _ => .seq fun _ => .seq fun _ => .seq fun _ => .seq fun _ =>
      yields_construct (by decide) _
  · exact .seq fun _ => .seq fun _ => .seq fun _ => .seq fun _ => .seq fun _ =>
      yields_construct (by decide) _
  · exact moduleDeclaration_reads
  · exact moduleDeclaration_reads
  · exact ambientDeclaration_reads nested
  · exact .seq fun _ => .seq fun _ => .seq fun _ => .seq fun _ => .seq fun _ => .seq fun _ =>
      yields_construct (by decide) _
  · exact .seq fun _ => .seq fun _ => .seq fun _ => .seq fun _ => .seq fun _ => .seq fun _ =>
      yields_construct (by decide) _
  · exact classDeclaration_reads
  · exact .seq fun _ => .seq fun _ => .seq fun _ => .seq fun _ => .seq fun _ =>
      yields_construct (by decide) _
  · exact .failure

/-- A declaration is no import statement, however deep it nests. -/
theorem declarationFrom_reads (depth : Nat) : ReadsImports (declarationFrom depth) := by
  cases depth with
  | zero => exact .failure
  | succ depth =>
    -- The word in front decides which declaration is read.
    refine .seq fun t => .orElse (typedDeclaration_reads _) ?_
    split
    · exact variableDeclaration_reads _
    · exact variableDeclaration_reads _
    · exact variableDeclaration_reads _
    · exact functionDeclaration_reads
    · exact functionDeclaration_reads
    · exact classDeclaration_reads
    · exact classDeclaration_reads
    · exact .failure

/-- An export statement is no import statement. -/
theorem exportStatement_reads (declaration : Grammar Forest) :
    ReadsImports (exportStatement declaration) :=
  .seq fun _ => .seq fun _ => .seq fun _ => yields_construct (by decide) _

/-- A loop with a header is no import statement. -/
theorem forStatement_reads : ReadsImports forStatement := by
  have hheader : ∀ header : Grammar Forest, ∀ k : Kind, k ≠ .importStatement →
      Yields (fun r : Forest × Kind => r.2 ≠ .importStatement) (do
        let h ← enclosed header
        let closing ← punct ")"
        return (h ++ closing, k)) := fun _ k hk => .seq fun _ => .seq fun _ => .pure hk
  exact .seq fun _ => .seq fun _ => .seq fun _ => .bind
    (.orElse (hheader _ .forInStatement (by decide)) (hheader _ .forStatement (by decide)))
    fun r hr => .seq fun _ => yields_construct hr _

/-- A statement that starts with a word is an import statement only after `import`. -/
theorem wordStatement_reads (w : String) : ReadsImports (wordStatement w) := by
  have hexpression : ReadsImports expressionStatement :=
    .seq fun _ => .seq fun _ => yields_construct (by decide) _
  have hdeclaration : ReadsImports declaration := declarationFrom_reads 4
  unfold wordStatement
  -- One case for each word, in the order of the definition.
  split
  · exact .seq fun _ => .seq fun _ => .seq fun _ => .seq fun _ => yields_construct (by decide) _
  · exact .seq fun _ => .seq fun _ => .seq fun _ => .seq fun _ => .seq fun _ =>
      yields_construct (by decide) _
  · exact forStatement_reads
  · exact .seq fun _ => .seq fun _ => .seq fun _ => yields_construct (by decide) _
  · exact .seq fun _ => .seq fun _ => .seq fun _ => .seq fun _ => .seq fun _ =>
      yields_construct (by decide) _
  · exact .seq fun _ => .seq fun _ => .seq fun _ => yields_construct (by decide) _
  · exact .seq fun _ => .seq fun _ => .seq fun _ => .seq fun _ => yields_construct (by decide) _
  · exact .seq fun _ => .seq fun _ => yields_construct (by decide) _
  · exact .seq fun _ => .seq fun _ => yields_construct (by decide) _
  · exact .seq fun _ => .seq fun _ => yields_construct (by decide) _
  · exact .seq fun _ => .seq fun _ => yields_construct (by decide) _
  · exact .seq fun _ => .seq fun _ => yields_construct (by decide) _
  · exact .orElse importStatement_yields (.orElse hdeclaration hexpression)
  · exact exportStatement_reads _
  · exact .orElse hdeclaration (.orElse
      (.seq fun _ => .seq fun _ => .seq fun _ => yields_construct (by decide) _) hexpression)

/-- A statement is no import statement, or one of the right shape. -/
theorem statement_reads : ReadsImports statement := by
  refine .seq fun t => ?_
  split
  · exact wordStatement_reads _
  · exact block_reads false
  · exact .seq fun _ => yields_construct (by decide) _
  · exact .orElse (exportStatement_reads _) (declarationFrom_reads 4)
  · exact .failure
  · exact .failure
  · exact .seq fun _ => .seq fun _ => yields_construct (by decide) _

/-- What is read as a statement imports names in the way that its clause says. -/
theorem readFrom_statement {depth : Nat} {s : Surroundings} {c next : Cursor}
    (h : readFrom depth .statement s c = some (f, next)) : ∀ t ∈ f, t.ImportsNames := by
  cases depth with
  | zero => exact nomatch h
  | succ depth => exact statement_reads _ _ _ _ h

end Grammar

/-! ## Files -/

open ScriptGraph.Syntax.Tree

/-- What each statement satisfies, all of a file satisfy. -/
theorem statementsFrom_forall {read : Cursor → Option (Forest × Cursor)} {φ : Tree → Prop}
    (hread : ∀ c f next, read c = some (f, next) → ∀ t ∈ f, φ t) (count : Nat) (c : Cursor) :
    ∀ t ∈ (statementsFrom read count c).1, φ t := by
  induction count generalizing c with
  | zero => exact nofun
  | succ count ih =>
    unfold statementsFrom
    split
    · exact nofun
    · rename_i forest next hforest
      split
      · exact nofun
      · exact List.forall_mem_append.mpr ⟨hread _ _ _ hforest, ih next⟩

/-- The line for an interpreter imports nothing. -/
theorem hashBang_forall (c : Cursor) : ∀ t ∈ (hashBang c).1, t.ImportsNames := by
  unfold hashBang
  split
  · exact List.forall_mem_singleton.mpr nofun
  · exact nofun

/-- Whatever text the grammar reads, its import statements have the right shape. -/
theorem readProgram_imports (dialect : Dialect) (text : String) :
    ∀ t ∈ (readProgram dialect text).children, t.ImportsNames := by
  let start : Cursor := ⟨text.toList, 0⟩
  let read := Grammar.readFrom (nestingBound start.rest.length) .statement (.atTop dialect)
  let statements := statementsFrom read (start.rest.length + 1) (hashBang start).2
  -- What no statement accepts becomes one error at the end, which imports nothing.
  let trivia := statements.2.skipTrivia
  let rest : Forest := if trivia.here.rest.isEmpty then trivia.comments
    else trivia.comments ++ [leaf (.construct .error) trivia.here.offset text.utf8ByteSize]
  have hstatements : ∀ t ∈ statements.1, t.ImportsNames :=
    statementsFrom_forall (fun _ _ _ => Grammar.readFrom_statement) _ _
  have hcomments : ∀ t ∈ trivia.comments, t.ImportsNames := fun t ht =>
    Grammar.importsNames_of_isKind
      (Grammar.skipTriviaFrom_comments [] false _ _ nofun t ht : t.isKind .comment = true) nofun
  have hrest : ∀ t ∈ rest, t.ImportsNames := by
    unfold rest
    split
    · exact hcomments
    · exact List.forall_mem_append.mpr ⟨hcomments, List.forall_mem_singleton.mpr nofun⟩
  show ∀ t ∈ (hashBang start).1 ++ statements.1 ++ rest, t.ImportsNames
  exact List.forall_mem_append.mpr
    ⟨List.forall_mem_append.mpr ⟨hashBang_forall start, hstatements⟩, hrest⟩

end ScriptGraph.Syntax
