import ScriptGraph.Proofs.Syntax.Placement

/-!
# What rules read

A rule starts at a cursor and stops at a later one, and the trees that it reads stand one after the
other in between. This is shown of each rule from the rules that it is made of. Of the rules that
it calls by name it is assumed.

- `Grammar.Leads`: what holds of everything that a rule reads from a place
- `Grammar.Spans`: the trees that a rule reads stand between where it starts and where it stops
- `Token.At`: the token ahead
-/

namespace ScriptGraph.Syntax

variable {text : List Char} {first c next last : Cursor} {f g : Forest} {k : Kind}

/-! ## Between two cursors -/

/-- Trees stand one after the other between two cursors in a text. -/
structure Span (text : List Char) (c : Cursor) (f : Forest) (next : Cursor) : Prop where
  spread : Spread text c.offset next.offset f
  next : next.In text

namespace Span

/-- Reading nothing spans nothing. -/
theorem nil (h : c.In text) : Span text c [] c :=
  ⟨.nil (Nat.le_refl _), h⟩

/-- What is read next spans what follows. -/
theorem append (hf : Span text c f next) (hg : Span text next g last) :
    Span text c (f ++ g) last :=
  ⟨hf.spread.append hg.spread, hg.next⟩

/-- Giving a role leaves trees where they stand. -/
theorem inRole (h : Span text c f next) (r : Field) : Span text c (Grammar.inRole r f) next :=
  ⟨h.spread.inRole r, h.next⟩

/-- Changing the kind of a word leaves it where it stands. -/
theorem asKind (h : Span text c f next) (hk : k.isPlain = true) :
    Span text c (Grammar.asKind k f) next :=
  ⟨h.spread.asKind hk, h.next⟩

/-- Taking expressions for patterns leaves them where they stand. -/
theorem asPatterns (h : Span text c f next) :
    Span text c (f.map fun t => if t.isComment then t else t.asPattern) next :=
  ⟨h.spread.asPatterns, h.next⟩

/-- Leaving trees out leaves the others where they stand. -/
theorem sublist (h : Span text c f next) (hg : g.Sublist f) : Span text c g next :=
  ⟨h.spread.sublist hg, h.next⟩

/-- A construct stands where its parts stand, without the comments in front. -/
theorem construct (h : Span text c f next) (hk : k.isPlain = true) :
    Span text c (Grammar.construct k f) next :=
  ⟨h.spread.construct hk, h.next⟩

/-- A member of a class, or a decorator, has something in it. -/
theorem member (h : Span text c f next) (hk : k.isWrapper = false) (hf : Grammar.Solid f) :
    Span text c (Grammar.construct k f) next :=
  ⟨h.spread.gather (by simp [hk]) fun _ => hf, h.next⟩

/-- A statement around a declaration. -/
theorem wrap (h : Span text c f next) (hk : k.isSolid = false) (hf : Grammar.StartsWithHead f) :
    Span text c (Grammar.construct k f) next :=
  ⟨h.spread.gather (fun _ => hf) (by simp [hk]), h.next⟩

/-- A tree without parts from one place to a later one. -/
theorem leaf {label : Label} (hc : c.In text) (hnext : next.In text)
    (hle : c.offset ≤ next.offset) (hlabel : ∀ k, label = .construct k → k.isPlain = true) :
    Span text c [Tree.leaf label c.offset next.offset] next :=
  ⟨.leaf hle hc.boundary hnext.boundary hlabel, hnext⟩

/-- A plain token over so many characters. -/
theorem token (hc : c.In text) (spelling : String) (n : Nat) :
    Span text c [Tree.leaf (.token spelling) c.offset (c.advance n).offset] (c.advance n) :=
  .leaf hc (hc.advance n) (c.le_advance n) nofun

/-- A construct without parts over so many characters. -/
theorem leafAs (hc : c.In text) (hk : k.isPlain = true) (n : Nat) :
    Span text c [Tree.leaf (.construct k) c.offset (c.advance n).offset] (c.advance n) := by
  apply leaf hc (hc.advance n) (c.le_advance n)
  intro k' hk'
  cases hk'
  exact hk

/-- Characters in front that belong to no tree do not matter. -/
theorem after (h : Span text c f next) (hle : last.offset ≤ c.offset) : Span text last f next :=
  ⟨h.spread.widen hle (Nat.le_refl _), h.next⟩

/-- Comments that are skipped span what is skipped. -/
theorem skipTriviaFrom {seen : List Tree} (h : Span text c seen.reverse next) (lineBreak : Bool)
    (fuel : Nat) : Span text c (Cursor.skipTriviaFrom seen lineBreak fuel next).comments
      (Cursor.skipTriviaFrom seen lineBreak fuel next).here := by
  -- The comments that have been seen are kept in the opposite order.
  induction fuel generalizing seen lineBreak next with
  | zero => exact h
  | succ fuel ih =>
    have hspaces : Span text c seen.reverse next.skipSpaces :=
      ⟨h.spread.widen (Nat.le_refl _) (next.le_advance _), h.next.skipSpaces⟩
    unfold Cursor.skipTriviaFrom
    dsimp only
    split
    · exact hspaces
    · rename_i n _
      apply ih
      rw [List.reverse_cons]
      exact hspaces.append (leafAs h.next.skipSpaces rfl n)

/-- Skipping to the next token spans the comments in between. -/
theorem skipTrivia (h : c.In text) :
    Span text c c.skipTrivia.comments c.skipTrivia.here :=
  skipTriviaFrom (nil h) false _

end Span

/-- What the rules that are called by name read stands one after the other, and the name of a
property is not empty. -/
structure Rules.Sound (text : List Char) (rules : Rules) : Prop where
  reads : ∀ n s c f next, c.In text → rules.read n s c = some (f, next) → Span text c f next
  solid : ∀ s c f next, c.In text → rules.read .propertyName s c = some (f, next) →
    Grammar.Solid f

namespace Grammar

variable {α β : Type} {Q : α → Cursor → Prop} {R : β → Cursor → Prop} {rule : Grammar Forest}

/-- From a place in a text, whatever a rule reads has `Q`. -/
structure Leads (text : List Char) (rule : Grammar α) (c : Cursor) (Q : α → Cursor → Prop) :
    Prop where
  of_read : ∀ rules : Rules, rules.Sound text → c.In text →
    ∀ a next, rule rules c = some (a, next) → Q a next

/-- From every place in a text, a rule reads trees that stand between that place and where the rule
stops. -/
def Spans (text : List Char) (rule : Grammar Forest) : Prop :=
  ∀ c, Leads text rule c (Span text c)

/-- A rule that only looks ahead. -/
def Stays (rule : Grammar α) : Prop :=
  ∀ rules c a next, rule rules c = some (a, next) → next = c

namespace Leads

/-- A result leads to where the cursor is. -/
theorem pure {a : α} (h : Q a c) : Leads text (Pure.pure a) c Q := by
  constructor
  rintro rules hrules hc _ _ hread
  cases hread
  exact h

/-- Two rules lead to where the second one ends. -/
theorem bind {x : Grammar α} {k : α → Grammar β} (hx : Leads text x c Q)
    (hin : ∀ a next, Q a next → next.In text)
    (hk : ∀ a next, Q a next → Leads text (k a) next R) : Leads text (x >>= k) c R := by
  constructor
  intro rules hrules hc b last hread
  have hread : (x rules c).bind (fun r => k r.1 rules r.2) = some (b, last) := hread
  obtain ⟨⟨a, next⟩, ha, hb⟩ := Option.bind_eq_some_iff.mp hread
  have hnext := hx.of_read rules hrules hc a next ha
  exact (hk a next hnext).of_read rules hrules (hin a next hnext) b last hb

/-- What has been read first goes before what is read then. -/
theorem seq {x : Grammar Forest} {k : Forest → Grammar β} (hx : Leads text x c (Span text first))
    (hk : ∀ f next, Span text first f next → Leads text (k f) next R) :
    Leads text (x >>= k) c R :=
  hx.bind (fun _ _ h => h.next) hk

/-- Looking ahead changes nothing. -/
theorem ahead {x : Grammar α} {k : α → Grammar β} (hx : Stays x)
    (hk : ∀ a, Leads text (k a) c R) : Leads text (x >>= k) c R := by
  constructor
  intro rules hrules hc b last hread
  have hread : (x rules c).bind (fun r => k r.1 rules r.2) = some (b, last) := hread
  obtain ⟨⟨a, next⟩, ha, hb⟩ := Option.bind_eq_some_iff.mp hread
  cases hx rules c a next ha
  exact (hk a).of_read rules hrules hc b last hb

/-- The cursor at hand. -/
theorem get {k : Cursor → Grammar β} (hk : c.In text → Leads text (k c) c R) :
    Leads text (MonadState.get >>= k) c R :=
  ⟨fun rules hrules hc => (hk hc).of_read rules hrules hc⟩

/-- Setting the cursor leads to where it is set to. -/
theorem set {k : PUnit → Grammar β} (hnext : next.In text) (hk : Leads text (k ⟨⟩) next R) :
    Leads text (MonadStateOf.set next >>= k) c R :=
  ⟨fun rules hrules _ => hk.of_read rules hrules hnext⟩

/-- A rule that fails leads nowhere. -/
theorem failure : Leads text (Alternative.failure : Grammar α) c Q :=
  ⟨nofun⟩

/-- Nothing is read after a failure. -/
theorem stop {k : β → Grammar α} : Leads text ((Alternative.failure : Grammar β) >>= k) c Q :=
  ⟨nofun⟩

/-- A choice leads to where the rule ends that is chosen. -/
theorem orElse {x y : Grammar α} (hx : Leads text x c Q) (hy : Leads text y c Q) :
    Leads text (x <|> y) c Q := by
  constructor
  intro rules hrules hc a next hread
  have hread : ((x rules c) <|> (y rules c)) = some (a, next) := hread
  cases hfirst : x rules c with
  | none =>
    rw [hfirst] at hread
    exact hy.of_read rules hrules hc a next hread
  | some r =>
    rw [hfirst] at hread
    exact hx.of_read rules hrules hc a next (hfirst.trans hread)

/-- Changed surroundings do not move the cursor. -/
theorem within {change : Surroundings → Surroundings} {x : Grammar α} (h : Leads text x c Q) :
    Leads text (Grammar.within change x) c Q :=
  ⟨fun _ hrules => h.of_read _ ⟨fun n => hrules.reads n, hrules.solid⟩⟩

/-- What has been left out before does not matter. -/
theorem after {x : Grammar Forest} (h : Leads text x c (Span text c))
    (hfirst : first.offset ≤ c.offset) : Leads text x c (Span text first) :=
  ⟨fun rules hrules hc f next hread => (h.of_read rules hrules hc f next hread).after hfirst⟩

/-- What is known of all that a rule reads is known of what it reads from a place. -/
theorem and {P : α → Prop} {x : Grammar α} (h : Leads text x c Q) (hx : Yields P x) :
    Leads text x c fun a next => Q a next ∧ P a :=
  ⟨fun rules hrules hc a next hread => ⟨h.of_read rules hrules hc a next hread,
    hx rules c a next hread⟩⟩

/-- One rule or another. -/
theorem cases {p : Prop} [Decidable p] {x y : Grammar α} (hx : Leads text x c Q)
    (hy : Leads text y c Q) : Leads text (if p then x else y) c Q := by
  split
  · exact hx
  · exact hy

/-- What is read first may depend on something. -/
theorem either {p : Prop} [Decidable p] {x y : Grammar Forest} {k : Forest → Grammar β}
    (hx : Leads text x c (Span text first)) (hy : Leads text y c (Span text first))
    (hk : ∀ f next, Span text first f next → Leads text (k f) next R) :
    Leads text (if p then x >>= k else y >>= k) c R :=
  .cases (hx.seq hk) (hy.seq hk)

/-- Where something holds nothing is read. -/
theorem guard {p : Prop} [Decidable p] {k : β → Grammar α} {y : Grammar α}
    (hy : Leads text y c Q) : Leads text (if p then Alternative.failure >>= k else y) c Q :=
  .cases .stop hy

end Leads

namespace Spans

variable {Q : α → Cursor → Prop}

/-- What a rule spans is known to what follows it. -/
theorem seq {k : Forest → Grammar α} (h : Spans text rule)
    (hk : ∀ f next, Span text c f next → Leads text (k f) next Q) :
    Leads text (rule >>= k) c Q :=
  Leads.seq (h c) hk

/-- Nothing is read for a part that is missing. -/
theorem none : Spans text (Pure.pure []) :=
  fun _ => ⟨fun _ _ hc _ _ hread => by
    cases hread
    exact .nil hc⟩

/-- A choice spans what its rules span. -/
theorem orElse {x y : Grammar Forest} (hx : Spans text x) (hy : Spans text y) :
    Spans text (x <|> y) :=
  fun c => Leads.orElse (hx c) (hy c)

/-- An optional part spans what is read for it. -/
theorem optional (h : Spans text rule) : Spans text (Grammar.optional rule) :=
  h.orElse .none

/-- A rule spans the same in changed surroundings. -/
theorem within {change : Surroundings → Surroundings} (h : Spans text rule) :
    Spans text (Grammar.within change rule) :=
  fun c => Leads.within (h c)

/-- A rule in brackets spans the same. -/
theorem enclosed (h : Spans text rule) : Spans text (Grammar.enclosed rule) :=
  h.within

/-- A rule for statements spans the same. -/
theorem atStatements (h : Spans text rule) : Spans text (Grammar.atStatements rule) :=
  h.within

/-- A rule in a role spans the same. -/
theorem inRole (h : Spans text rule) (r : Field) :
    Spans text (rule >>= fun f => Pure.pure (Grammar.inRole r f)) :=
  fun _ => h.seq fun _ _ hf => .pure (hf.inRole r)

/-- A repetition with fuel spans all its items. -/
theorem manyFrom (h : Spans text rule) (fuel : Nat) : Spans text (Grammar.manyFrom rule fuel) := by
  -- By induction on the fuel; a repetition that goes nowhere ends.
  induction fuel with
  | zero => exact .none
  | succ fuel ih =>
    intro c
    constructor
    intro rules hrules hc a after hread
    unfold Grammar.manyFrom at hread
    split at hread
    · cases hread
      exact .nil hc
    · rename_i forest next hfirst
      have hforest := (h c).of_read rules hrules hc _ _ hfirst
      split at hread
      · cases hread
        exact .nil hc
      · split at hread
        · cases hread
          exact hforest
        · rename_i more last hmore
          cases hread
          exact hforest.append ((ih next).of_read rules hrules hforest.next _ _ hmore)

/-- A repetition spans all its items. -/
theorem many (h : Spans text rule) : Spans text (Grammar.many rule) :=
  fun c => .get fun _ => h.manyFrom _ c

end Spans

/-- What is read is taken over by another rule, as often as that applies. -/
theorem Leads.extendFrom {rule : Forest → Grammar Forest}
    (hrule : ∀ f next, Span text c f next → Leads text (rule f) next (Span text c)) (fuel : Nat)
    (hf : Span text c f next) : Leads text (Grammar.extendFrom rule f fuel) next (Span text c) := by
  -- By induction on the fuel, with more and more taken over.
  induction fuel generalizing f next with
  | zero => exact .pure hf
  | succ fuel ih =>
    constructor
    intro rules hrules hnext a last hread
    unfold Grammar.extendFrom at hread
    split at hread
    · cases hread
      exact hf
    · rename_i more after hmore
      have hspan := (hrule f next hf).of_read rules hrules hnext _ _ hmore
      split at hread
      · cases hread
        exact hf
      · exact (ih hspan).of_read rules hrules hspan.next _ _ hread

/-- A forest is extended by what is read after it. -/
theorem Leads.extend {rule : Forest → Grammar Forest} (hf : Span text c f next)
    (hrule : ∀ f next, Span text c f next → Leads text (rule f) next (Span text c)) :
    Leads text (Grammar.extend f rule) next (Span text c) :=
  .get fun _ => .extendFrom hrule _ hf

/-! ## Looking ahead -/

/-- A token ahead of a cursor: comments stand before it, and it is empty only at the end or where no
token can be told. -/
structure Token.At (text : List Char) (c : Cursor) (t : Token) : Prop where
  before : Span text c t.comments t.here
  le : t.here.offset ≤ t.after.offset
  after : t.after.In text
  solid : t.lexeme ≠ .ending → t.lexeme ≠ .unknown → t.here.offset < t.after.offset
  comments : ∀ u ∈ t.comments, u.isComment = true
  ahead : ∀ rules, Grammar.look rules c = some (t, c)

/-- A string literal is not empty. -/
theorem string_pos {cs : List Char} {n : Nat} (h : Scan.string cs = some n) : n ≠ 0 := by
  unfold Scan.string at h
  split at h
  · split at h
    · obtain ⟨m, -, rfl⟩ := Option.map_eq_some_iff.mp h
      exact Nat.succ_ne_zero m
    · exact nomatch h
  · exact nomatch h

/-- A punctuation mark is not empty. -/
theorem punct_ne_nil {cs p : List Char} (h : Scan.punct cs = some p) : p ≠ [] := by
  unfold Scan.punct at h
  split at h
  · split at h <;> (cases h; exact List.cons_ne_nil _ _)
  · have hnonempty : ∀ p ∈ Scan.punctuation, p ≠ [] := by decide
    exact hnonempty p (List.mem_of_find?_eq_some h)

/-- A token has characters unless the text ends or no token can be told. -/
theorem classify_solid (cs : List Char) : (classify cs).1 = .ending ∨ (classify cs).1 = .unknown ∨
    ((classify cs).2 ≠ 0 ∧ cs ≠ []) := by
  -- The classes of tokens in the order in which they are tried.
  cases cs with
  | nil => exact .inl rfl
  | cons c rest =>
    unfold classify
    dsimp only
    split
    · rename_i hword
      exact .inr (.inr ⟨by simpa using hword, List.cons_ne_nil c rest⟩)
    split
    · exact .inr (.inr ⟨Nat.succ_ne_zero _, List.cons_ne_nil c rest⟩)
    split
    · rename_i hnumber
      exact .inr (.inr ⟨by simpa using hnumber, List.cons_ne_nil c rest⟩)
    split
    · rename_i n hstring
      exact .inr (.inr ⟨string_pos hstring, List.cons_ne_nil c rest⟩)
    split
    · rename_i p hpunct
      exact .inr (.inr ⟨by simpa using punct_ne_nil hpunct, List.cons_ne_nil c rest⟩)
    · exact .inr (.inl rfl)

/-- Looking ahead finds the token at the cursor, and does not move it. -/
theorem Leads.look {k : Token → Grammar α}
    (hk : ∀ t, Token.At text c t → Leads text (k t) c Q) : Leads text (look >>= k) c Q := by
  constructor
  intro rules hrules hc
  refine (hk _ ?_).of_read rules hrules hc
  have hbefore := Span.skipTrivia hc
  refine ⟨hbefore, Cursor.le_advance _ _, hbefore.next.advance _, fun hending hunknown => ?_, ?_,
    fun _ => rfl⟩
  · rcases classify_solid c.skipTrivia.here.rest with h | h | ⟨hlength, hrest⟩
    · exact absurd h hending
    · exact absurd h hunknown
    · exact Cursor.lt_advance hlength hrest
  · exact skipTriviaFrom_comments [] false _ _ nofun

/-- Looking ahead stays where it is. -/
theorem look_stays : Stays look := by
  rintro rules c _ _ hread
  cases hread
  rfl

/-- Asking for the surroundings stays where it is. -/
theorem surroundings_stays : Stays surroundings := by
  rintro rules c _ _ hread
  cases hread
  rfl

/-- Asking for the dialect stays where it is. -/
theorem typed_stays : Stays typed := by
  rintro rules c _ _ hread
  cases hread
  rfl

/-- Testing for a punctuation mark stays where it is. -/
theorem atPunct_stays (spelling : String) : Stays (atPunct spelling) := by
  rintro rules c _ _ hread
  cases hread
  rfl

/-- Testing for a word stays where it is. -/
theorem atWord_stays (spelling : String) : Stays (atWord spelling) := by
  rintro rules c _ _ hread
  cases hread
  rfl

/-- What is left of trees behind the comments before a token once all comments are dropped. -/
theorem Token.At.filter_append {t : Token} (h : Token.At text c t) (g : Forest) :
    (t.comments ++ g).filter (fun p => !p.isComment) = g.filter fun p => !p.isComment := by
  have hcomments : t.comments.filter (fun p => !p.isComment) = [] :=
    List.filter_eq_nil_iff.mpr fun u hu => by simp [h.comments u hu]
  rw [List.filter_append, hcomments, List.nil_append]

/-! ## Tokens -/

/-- Trees that stand between two cursors and are not empty. -/
def Filled (text : List Char) (c : Cursor) (f : Forest) (next : Cursor) : Prop :=
  Span text c f next ∧ Solid f

/-- What is not empty has been read first. -/
theorem Leads.fill {x : Grammar Forest} {k : Forest → Grammar β}
    (hx : Leads text x c (Filled text first))
    (hk : ∀ f next, Span text first f next → Solid f → Leads text (k f) next R) :
    Leads text (x >>= k) c R :=
  hx.bind (fun _ _ h => h.1.next) fun f next h => hk f next h.1 h.2

/-- A token that is accepted under a plain label is read with the comments before it. -/
theorem Token.At.accept {t : Token} (h : Token.At text c t) {label : Label}
    (hlabel : ∀ k, label = .construct k → k.isPlain = true) :
    Leads text (accept t label) next (Span text c) := by
  constructor
  rintro rules hrules hc _ _ hread
  cases hread
  exact h.before.append (.leaf h.before.next h.after h.le hlabel)

/-- Unless no token can be told, it is not empty. -/
theorem Token.At.accept_filled {t : Token} (h : Token.At text c t) {label : Label}
    (hlabel : ∀ k, label = .construct k → k.isPlain = true) (hcomment : label ≠ .construct .comment)
    (hending : t.lexeme ≠ .ending) (hunknown : t.lexeme ≠ .unknown) :
    Leads text (Grammar.accept t label) next (Filled text c) := by
  constructor
  intro rules hrules hc f last hread
  refine ⟨(h.accept hlabel).of_read rules hrules hc f last hread, ?_⟩
  cases hread
  exact ⟨_, List.mem_append_right _ (List.mem_singleton_self _), beq_eq_false_iff_ne.mpr hcomment,
    h.solid hending hunknown⟩

/-- A token that is accepted as a construct spans its bytes. -/
theorem Token.At.acceptAs {t : Token} (h : Token.At text c t) (hk : k.isPlain = true) :
    Leads text (acceptAs t k) next (Span text c) := by
  apply h.accept
  intro k' hk'
  cases hk'
  exact hk

/-- A token that is accepted as a word spans its bytes. -/
theorem Token.At.acceptWord {t : Token} (h : Token.At text c t) (w : String) :
    Leads text (Grammar.accept t (.token w)) next (Span text c) :=
  h.accept nofun

/-- A punctuation mark spans what is read for it. -/
theorem punct_spans (spelling : String) : Spans text (punct spelling) := by
  intro c
  apply Leads.look
  intro t ht
  exact .cases (ht.acceptWord _) .failure

/-- A punctuation mark is read as at least one tree. -/
theorem punct_filled (spelling : String) : Leads text (punct spelling) c (Filled text c) := by
  apply Leads.look
  intro t ht
  split
  · rename_i hlexeme
    have hlexeme : t.lexeme = .punct spelling := eq_of_beq hlexeme
    exact ht.accept_filled nofun nofun (by simp [hlexeme]) (by simp [hlexeme])
  · exact .failure

/-- A keyword spans what is read for it. -/
theorem keyword_spans (spelling : String) : Spans text (keyword spelling) := by
  intro c
  apply Leads.look
  intro t ht
  exact .cases (ht.acceptWord _) .failure

/-- A string literal spans what is read for it. -/
theorem string_spans : Spans text string := by
  intro c
  apply Leads.look
  intro t ht
  exact .cases (ht.acceptAs rfl) .failure

/-- A number literal spans what is read for it. -/
theorem number_spans : Spans text number := by
  intro c
  apply Leads.look
  intro t ht
  exact .cases (ht.acceptAs rfl) .failure

/-- A word spans what is read for it. -/
theorem wordAs_spans (hk : k.isPlain = true) : Spans text (wordAs k) := by
  intro c
  apply Leads.look
  intro t ht
  split
  · exact ht.acceptAs hk
  · exact .failure

/-- A name spans what is read for it. -/
theorem nameAs_spans (hk : k.isPlain = true) : Spans text (nameAs k) := by
  intro c
  apply Leads.look
  intro t ht
  split
  · exact .cases .failure (ht.acceptAs hk)
  · exact .failure

/-- A name that is read after a look at it consists of the comments before it and of one tree. -/
theorem Token.At.nameAs {t : Token} (h : Token.At text c t) (hk : k.isPlain = true)
    (hcomment : k ≠ .comment) : Leads text (nameAs k) c fun f next =>
      ∃ name : Tree, f = t.comments ++ [name] ∧ name.isComment = false ∧
        Span text t.here [name] next := by
  have hlabel : ∀ k', Label.construct k = .construct k' → k'.isPlain = true := by
    intro k' hk'
    cases hk'
    exact hk
  have hname : ∀ start stop, (Tree.leaf (.construct k) start stop).isComment = false := by
    intro start stop
    rw [Tree.isComment, Tree.isKind_leaf_construct]
    exact decide_eq_false hcomment
  apply Leads.look
  intro u hu
  -- Looking twice at one place shows the same token.
  have hsame : u = t := by
    have hboth := (hu.ahead ⟨.atTop .ts, fun _ _ _ => none⟩).symm.trans (h.ahead _)
    simpa using hboth
  subst hsame
  split
  · apply Leads.cases .failure
    constructor
    rintro rules hrules hc _ _ hread
    cases hread
    exact ⟨_, rfl, hname _ _, .leaf h.before.next h.after h.le hlabel⟩
  · exact .failure

/-- An identifier spans what is read for it. -/
theorem identifier_spans : Spans text identifier :=
  nameAs_spans rfl

/-- A symbol spans what is read for it. -/
theorem symbol_spans (spelling : String) : Spans text (symbol spelling) := by
  intro c
  apply Leads.get
  intro hc
  have hbefore := Span.skipTrivia hc
  apply Leads.cases
  · apply Leads.set (hbefore.next.advance _)
    exact .pure (hbefore.append (.token hbefore.next _ _))
  · exact .failure

/-- A rule that is called spans what is read for it. -/
theorem call_spans (n : Nonterminal) : Spans text (call n) :=
  fun c => ⟨fun rules hrules hc f next => hrules.reads n rules.surroundings c f next hc⟩

/-- A rule that is called for a role spans what is read for it. -/
theorem field_spans (f : Field) (n : Nonterminal) : Spans text (field f n) :=
  (call_spans n).inRole f

/-- The name of a property is read as at least one tree. -/
theorem propertyName_filled : Leads text (call .propertyName) c (Filled text c) :=
  ⟨fun rules hrules hc f next hread => ⟨hrules.reads _ _ c f next hc hread,
    hrules.solid rules.surroundings c f next hc hread⟩⟩

/-- So it is in a role. -/
theorem fieldName_filled (r : Field) : Leads text (field r .propertyName) c (Filled text c) := by
  apply propertyName_filled.fill
  intro f next hf hsolid
  exact .pure ⟨hf.inRole r, hsolid.inRole r⟩

/-! ## Lists and line ends -/

/-- Items with separators span what is read for them. -/
theorem Spans.separated {separator : Grammar Forest} (hseparator : Spans text separator)
    (h : Spans text rule) : Spans text (Grammar.separated separator rule) := by
  intro c
  -- The first item, and then pairs of a separator and an item.
  apply h.seq
  intro first _ hfirst
  apply Spans.seq (.many _)
  · intro more _ hmore
    apply hseparator.optional.seq
    intro last _ hlast
    exact .pure ((hfirst.append hmore).append hlast)
  · intro c
    apply hseparator.seq
    intro s _ hs
    apply h.seq
    intro i _ hi
    exact .pure (hs.append hi)

/-- Items with commas between them span what is read for them. -/
theorem Spans.commaItems (h : Spans text rule) : Spans text (Grammar.commaItems rule) :=
  (Spans.separated (punct_spans _) h).optional

/-- Items that may be missing between commas span what is read for them. -/
theorem Spans.sparseItems (h : Spans text rule) : Spans text (Grammar.sparseItems rule) := by
  intro c
  apply h.optional.seq
  intro first _ hfirst
  apply Spans.seq (.many _)
  · intro more _ hmore
    exact .pure (hfirst.append hmore)
  · intro c
    apply (punct_spans _).seq
    intro s _ hs
    apply h.optional.seq
    intro i _ hi
    exact .pure (hs.append hi)

/-- The end of a line spans what is read for it. -/
theorem lineEndFrom_spans (operand signature : Bool) (fuel : Nat) :
    Spans text (lineEndFrom operand signature fuel) := by
  -- The fuel bounds the comments in front of the end.
  induction fuel with
  | zero => exact fun _ => .failure
  | succ fuel ih =>
    intro c
    apply Leads.get
    intro hc
    apply Leads.ahead surroundings_stays
    intro s
    apply Leads.cases
    · exact .pure (.nil hc)
    · dsimp only
      split
      · exact .failure
      · rename_i n _
        have hspaces := hc.skipSpaces
        have hcomment := Span.leafAs (k := .comment) hspaces rfl n
        apply Leads.set hcomment.next
        apply ih.seq
        intro more last hmore
        exact .pure ((hcomment.append hmore).after (c.le_advance _))

/-- The end of a line spans what is read for it. -/
theorem lineEnd_spans (operand signature : Bool) : Spans text (lineEnd operand signature) :=
  fun c => .get fun _ => lineEndFrom_spans operand signature _ c

/-- The end of a statement spans what is read for it. -/
theorem semicolon_spans (operand : Bool) : Spans text (semicolon operand) :=
  (lineEnd_spans _ _).orElse (punct_spans _)

end Grammar

end ScriptGraph.Syntax
