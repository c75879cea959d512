import ScriptGraph.Proofs.Syntax.Imports
import ScriptGraph.Proofs.Syntax.Names
import ScriptGraph.Proofs.Text.Offsets

/-!
# Where trees stand

Trees are read one after the other. So they stand between characters of the text, in the order in
which they have been read and inside the constructs that they are gathered in.

- `Boundary`, `Cursor.In`: offsets between the characters of a text, and cursors at such offsets
- `Placed`: how a tree stands in a text
- `Spread`: trees that stand one after the other between two offsets
- `Spread.construct`: gathered under a new construct they still do
- `preorderFrom_ordered`: preorder is the order of the text
-/

namespace ScriptGraph.Syntax

variable {text : List Char}

/-! ## Offsets -/

/-- No characters have no bytes. -/
@[simp] theorem byteLength_nil : byteLength [] = 0 :=
  rfl

/-- The bytes of two texts add up. -/
@[simp] theorem byteLength_append (cs ds : List Char) :
    byteLength (cs ++ ds) = byteLength cs + byteLength ds := by
  induction cs with
  | nil => simp
  | cons c rest ih =>
    rw [List.cons_append, byteLength, byteLength, ih]
    omega

/-- A text that is not empty has bytes. -/
theorem byteLength_pos {cs : List Char} (h : cs ≠ []) : 0 < byteLength cs := by
  cases cs with
  | nil => exact absurd rfl h
  | cons c rest => exact Nat.add_pos_left c.utf8Size_pos _

/-- The bytes are those of the encoding. -/
theorem byteLength_eq (cs : List Char) : byteLength cs = String.utf8Len cs := by
  induction cs with
  | nil => rfl
  | cons c rest ih =>
    rw [byteLength, ih, String.utf8Len_cons]
    omega

/-- The bytes of the characters of a string are those of the string. -/
theorem byteLength_toList (s : String) : byteLength s.toList = s.utf8ByteSize := by
  rw [byteLength_eq, ← String.utf8ByteSize_ofList, String.ofList_toList]

/-- A byte offset at which a character of a text starts or the text ends. -/
def Boundary (text : List Char) (bytes : Nat) : Prop :=
  ∃ before after, text = before ++ after ∧ byteLength before = bytes

/-- Between two places where characters start there are code units. -/
theorem Boundary.offset_lt {m n : Nat} (hm : Boundary text m) (hn : Boundary text n) (h : m < n) :
    Text.offset m text < Text.offset n text := by
  obtain ⟨pre, rest, htext, rfl⟩ := hm
  obtain ⟨longer, post, hlonger, rfl⟩ := hn
  rw [htext] at hlonger
  -- Both places part the text, so the one that is further away has more in front of it.
  rcases List.append_eq_append_iff.mp hlonger with ⟨part, hpart, hrest⟩ | ⟨part, hpart, -⟩
  · have hne : part ≠ [] := by
      rintro rfl
      simp [hpart] at h
    have hlt := Text.offset_lt pre post hne
    rw [htext, hpart, hrest, byteLength_eq, byteLength_eq, ← List.append_assoc]
    exact hlt
  · rw [hpart, byteLength_append] at h
    omega

/-- A cursor is at a place of a text, with the rest of the text before it. -/
def Cursor.In (c : Cursor) (text : List Char) : Prop :=
  ∃ before, text = before ++ c.rest ∧ byteLength before = c.offset

namespace Cursor

variable {c : Cursor} {n : Nat}

/-- A cursor in a text stands between two characters. -/
theorem In.boundary (h : c.In text) : Boundary text c.offset := by
  obtain ⟨before, htext, hlength⟩ := h
  exact ⟨before, c.rest, htext, hlength⟩

/-- A cursor that goes on stays in the text. -/
theorem In.advance (h : c.In text) (n : Nat) : (c.advance n).In text := by
  obtain ⟨before, htext, hlength⟩ := h
  refine ⟨before ++ c.rest.take n, ?_, ?_⟩
  · show text = before ++ c.rest.take n ++ c.rest.drop n
    rw [List.append_assoc, List.take_append_drop, htext]
  · rw [byteLength_append, hlength]
    rfl

/-- A cursor never goes back. -/
theorem le_advance (c : Cursor) (n : Nat) : c.offset ≤ (c.advance n).offset :=
  Nat.le_add_right _ _

/-- A cursor that takes a character goes on. -/
theorem lt_advance (hn : n ≠ 0) (hrest : c.rest ≠ []) : c.offset < (c.advance n).offset :=
  Nat.lt_add_of_pos_right (byteLength_pos (by simp [hn, hrest]))

/-- A cursor does not leave the text. -/
theorem In.offset_le (h : c.In text) : c.offset ≤ byteLength text := by
  obtain ⟨before, htext, hlength⟩ := h
  rw [htext, byteLength_append]
  omega

/-- A cursor stays in the text when it skips spaces. -/
theorem In.skipSpaces (h : c.In text) : c.skipSpaces.In text :=
  h.advance _

end Cursor

/-! ## Trees -/

namespace Tree

/-- A decorator, or one of the words `export` and `declare`. -/
def isHead (t : Tree) : Bool :=
  t.isKind .decorator || t.label == .token "export" || t.label == .token "declare"

/-- A construct starts with a decorator or a keyword. -/
def Headed (t : Tree) : Prop :=
  ∃ first ∈ t.children, first.start = t.start ∧ first.isHead = true

end Tree

/-- The statements that keywords of a declaration stand in. -/
def Kind.isWrapper : Kind → Bool
  | .exportStatement | .ambientDeclaration => true
  | _ => false

/-- Members of classes, and decorators. -/
def Kind.isSolid : Kind → Bool
  | .methodDefinition | .methodSignature | .abstractMethodSignature | .publicFieldDefinition
  | .fieldDefinition | .decorator => true
  | _ => false

/-- All other kinds. -/
def Kind.isPlain (k : Kind) : Bool :=
  !k.isWrapper && !k.isSolid

/-- How a tree stands in a text: between characters and around its children, which stand one after
the other. A statement around a declaration starts with a keyword or a decorator, and members and
decorators are not empty. -/
structure Placed (text : List Char) (t : Tree) : Prop where
  start_le_stop : t.start ≤ t.stop
  start : Boundary text t.start
  stop : Boundary text t.stop
  inOrder : t.children.Pairwise fun a b => a.stop ≤ b.start
  within : ∀ c ∈ t.children, t.start ≤ c.start ∧ c.stop ≤ t.stop
  headed : ∀ k, t.label = .construct k → k.isWrapper = true → t.Headed
  solid : ∀ k, t.label = .construct k → k.isSolid = true → t.start < t.stop

/-- Trees stand one after the other between two offsets. -/
structure Spread (text : List Char) (start stop : Nat) (f : Forest) : Prop where
  start_le_stop : start ≤ stop
  inOrder : f.Pairwise fun a b => a.stop ≤ b.start
  within : ∀ t ∈ f, start ≤ t.start ∧ t.stop ≤ stop
  placed : ∀ t ∈ f, t.Throughout (Placed text)

namespace Placed

variable {t u : Tree}

/-- A tree under another label, with other trees at the places of its children, stands as well as
before unless the label is one of those that more is known of. -/
theorem relabel (h : Placed text t) {g : Tree → Tree} (hstart : u.start = t.start)
    (hstop : u.stop = t.stop) (hchildren : u.children = t.children.map g)
    (hg : ∀ c, (g c).start = c.start ∧ (g c).stop = c.stop)
    (hplain : ∀ k, u.label = .construct k → k.isPlain = true) : Placed text u where
  start_le_stop := by
    rw [hstart, hstop]
    exact h.start_le_stop
  start := hstart ▸ h.start
  stop := hstop ▸ h.stop
  inOrder := by
    rw [hchildren, List.pairwise_map]
    exact h.inOrder.imp fun {a b} hab => by rw [(hg a).2, (hg b).1]; exact hab
  within := by
    rw [hchildren, hstart, hstop]
    intro c hc
    obtain ⟨d, hd, rfl⟩ := List.mem_map.mp hc
    rw [(hg d).1, (hg d).2]
    exact h.within d hd
  headed k hk hwrapper := by
    have hplain := hplain k hk
    rw [Kind.isPlain, hwrapper] at hplain
    exact nomatch hplain
  -- What more is known of concerns other kinds only.
  solid k hk hsolid := by
    have hplain := hplain k hk
    rw [Kind.isPlain, hsolid, Bool.and_comm] at hplain
    exact nomatch hplain

/-- A role does not matter. -/
theorem withRole (h : Placed text t) (r : Field) : Placed text (t.withRole r) := by
  cases t
  exact ⟨h.start_le_stop, h.start, h.stop, h.inOrder, h.within, h.headed, h.solid⟩

end Placed

namespace Tree

/-- A role does not change where a tree starts. -/
@[simp] theorem start_withRole (r : Field) (t : Tree) : (t.withRole r).start = t.start := by
  cases t
  rfl

/-- A role does not change where a tree ends. -/
@[simp] theorem stop_withRole (r : Field) (t : Tree) : (t.withRole r).stop = t.stop := by
  cases t
  rfl

/-- The kind does not change where a tree starts. -/
@[simp] theorem start_withKind (k : Kind) (t : Tree) : (t.withKind k).start = t.start := by
  cases t
  rfl

/-- The kind does not change where a tree ends. -/
@[simp] theorem stop_withKind (k : Kind) (t : Tree) : (t.withKind k).stop = t.stop := by
  cases t
  rfl

/-- A pattern starts where its expression does. -/
theorem start_asPattern (t : Tree) : t.asPattern.start = t.start := by
  cases t
  unfold asPattern
  repeat' split
  all_goals rfl

/-- A pattern ends where its expression does. -/
theorem stop_asPattern (t : Tree) : t.asPattern.stop = t.stop := by
  cases t
  unfold asPattern
  repeat' split
  all_goals rfl

/-- Taking a forest for patterns takes each tree for one. -/
theorem allAsPatterns_eq (ts : List Tree) : asPattern.allAsPatterns ts = ts.map asPattern := by
  induction ts with
  | nil => rfl
  | cons t rest ih => rw [asPattern.allAsPatterns, ih, List.map_cons]

/-- The part of a pair as that of a pattern. -/
def partAsPattern (t : Tree) : Tree :=
  if t.role == some .value then t.asPattern else t

/-- Taking the values of an object for patterns takes each part for one. -/
theorem valuesAsPatterns_eq (ts : List Tree) :
    asPattern.valuesAsPatterns ts = ts.map partAsPattern := by
  induction ts with
  | nil => rfl
  | cons t rest ih =>
    rw [asPattern.valuesAsPatterns, ih]
    rfl

namespace Throughout

variable {t u : Tree}

/-- A role leaves a tree placed. -/
theorem withRole (h : t.Throughout (Placed text)) (r : Field) :
    (t.withRole r).Throughout (Placed text) := by
  apply Throughout.intro (h.here.withRole r)
  cases t
  exact h.parts

/-- Another plain kind leaves a tree placed. -/
theorem withKind (h : t.Throughout (Placed text)) {k : Kind} (hk : k.isPlain = true) :
    (t.withKind k).Throughout (Placed text) := by
  -- The tree is taken apart only to see that its children stay.
  have hchildren : (t.withKind k).children = t.children := by
    cases t
    rfl
  have hlabel : (t.withKind k).label = .construct k := by
    cases t
    rfl
  apply Throughout.intro
  · refine h.here.relabel (start_withKind k t) (stop_withKind k t) (by simp [hchildren])
      (fun c => ⟨rfl, rfl⟩ : ∀ c : Tree, (id c).start = c.start ∧ (id c).stop = c.stop)
      fun k' hk' => ?_
    rw [hlabel] at hk'
    cases hk'
    exact hk
  · rw [hchildren]
    exact h.parts

/-- A tree stands as well under a plain kind, with its parts turned into patterns. -/
theorem relabel (h : t.Throughout (Placed text)) {g : Tree → Tree} {k : Kind}
    (hk : k.isPlain = true) (hg : ∀ c, (g c).start = c.start ∧ (g c).stop = c.stop)
    (hparts : ∀ c ∈ t.children, (g c).Throughout (Placed text)) :
    (Tree.node (.construct k) t.role t.start t.stop (t.children.map g)).Throughout
      (Placed text) := by
  apply Throughout.intro
  · refine h.here.relabel rfl rfl rfl hg fun k' hk' => ?_
    cases hk'
    exact hk
  · intro c hc
    obtain ⟨d, hd, rfl⟩ := List.mem_map.mp hc
    exact hparts d hd

/-- A pattern is placed like its expression. -/
theorem asPattern (h : t.Throughout (Placed text)) : t.asPattern.Throughout (Placed text) := by
  induction h with
  | @intro t here parts ih =>
    have ht : t.Throughout (Placed text) := .intro here parts
    -- A pattern starts and ends where its expression did, and so do the parts.
    have hall : ∀ c : Tree, c.asPattern.start = c.start ∧ c.asPattern.stop = c.stop :=
      fun c => ⟨start_asPattern c, stop_asPattern c⟩
    have hpart : ∀ c : Tree, c.partAsPattern.start = c.start ∧ c.partAsPattern.stop = c.stop := by
      intro c
      unfold partAsPattern
      split
      · exact hall c
      · exact ⟨rfl, rfl⟩
    have hparts : ∀ c ∈ t.children, c.partAsPattern.Throughout (Placed text) := by
      intro c hc
      unfold partAsPattern
      split
      · exact ih c hc
      · exact parts c hc
    obtain ⟨l, r, s, e, cs⟩ := t
    unfold Tree.asPattern
    rw [allAsPatterns_eq, valuesAsPatterns_eq]
    -- One case for each kind that has a pattern of its own.
    split
    · exact ht.relabel rfl hall ih
    split
    · exact ht.relabel rfl hall ih
    split
    · exact ht.relabel rfl hpart hparts
    split
    · exact ht.relabel rfl hall ih
    split
    · exact ht.withKind rfl
    split
    · exact ht.withKind rfl
    · exact ht

end Throughout

end Tree

namespace Spread

variable {f g : Forest} {start middle stop a b : Nat}

/-- Nothing is spread anywhere. -/
theorem nil (h : start ≤ stop) : Spread text start stop [] :=
  ⟨h, .nil, nofun, nofun⟩

/-- What is spread in a range is spread in a wider one. -/
theorem widen (h : Spread text start stop f) (ha : a ≤ start) (hb : stop ≤ b) :
    Spread text a b f where
  start_le_stop := by
    have := h.start_le_stop
    omega
  inOrder := h.inOrder
  within t ht := by
    have := h.within t ht
    omega
  placed := h.placed

/-- Two ranges next to each other may be spread together. -/
theorem append (hf : Spread text start middle f) (hg : Spread text middle stop g) :
    Spread text start stop (f ++ g) where
  start_le_stop := hf.start_le_stop.trans hg.start_le_stop
  inOrder := List.pairwise_append.mpr ⟨hf.inOrder, hg.inOrder,
    fun t ht u hu => (hf.within t ht).2.trans (hg.within u hu).1⟩
  within t ht := by
    rcases List.mem_append.mp ht with ht | ht
    · exact ⟨(hf.within t ht).1, (hf.within t ht).2.trans hg.start_le_stop⟩
    · exact ⟨hf.start_le_stop.trans (hg.within t ht).1, (hg.within t ht).2⟩
  placed t ht := by
    rcases List.mem_append.mp ht with ht | ht
    · exact hf.placed t ht
    · exact hg.placed t ht

/-- Leaving trees out leaves the others spread. -/
theorem sublist (h : Spread text start stop f) (hg : g.Sublist f) : Spread text start stop g :=
  ⟨h.start_le_stop, h.inOrder.sublist hg, fun t ht => h.within t (hg.subset ht),
    fun t ht => h.placed t (hg.subset ht)⟩

/-- Other trees at the same places stand one after the other, too. -/
theorem map (h : Spread text start stop f) {g : Tree → Tree}
    (hg : ∀ t, (g t).start = t.start ∧ (g t).stop = t.stop)
    (hplaced : ∀ t ∈ f, (g t).Throughout (Placed text)) : Spread text start stop (f.map g) where
  start_le_stop := h.start_le_stop
  inOrder := by
    rw [List.pairwise_map]
    exact h.inOrder.imp fun {a b} hab => by rw [(hg a).2, (hg b).1]; exact hab
  within t ht := by
    obtain ⟨u, hu, rfl⟩ := List.mem_map.mp ht
    rw [(hg u).1, (hg u).2]
    exact h.within u hu
  placed t ht := by
    obtain ⟨u, hu, rfl⟩ := List.mem_map.mp ht
    exact hplaced u hu

/-- A placed tree is spread where it stands. -/
theorem singleton {t : Tree} (ht : t.Throughout (Placed text)) (hstart : start ≤ t.start)
    (hstop : t.stop ≤ stop) : Spread text start stop [t] where
  start_le_stop := hstart.trans (ht.here.start_le_stop.trans hstop)
  inOrder := List.pairwise_singleton _ _
  within := List.forall_mem_singleton.mpr ⟨hstart, hstop⟩
  placed := List.forall_mem_singleton.mpr ht

/-- A tree without parts stands between any two boundaries. -/
theorem leaf {label : Label} (h : start ≤ stop) (hstart : Boundary text start)
    (hstop : Boundary text stop) (hlabel : ∀ k, label = .construct k → k.isPlain = true) :
    Spread text start stop [Tree.leaf label start stop] := by
  refine singleton (.intro ⟨h, hstart, hstop, .nil, nofun, fun k hk hwrapper => ?_,
    fun k hk hsolid => ?_⟩ nofun) (Nat.le_refl _) (Nat.le_refl _)
  · have hplain := hlabel k hk
    rw [Kind.isPlain, hwrapper] at hplain
    exact nomatch hplain
  · have hplain := hlabel k hk
    rw [Kind.isPlain, hsolid, Bool.and_comm] at hplain
    exact nomatch hplain

/-- Roles leave a forest spread. -/
theorem inRole (h : Spread text start stop f) (r : Field) :
    Spread text start stop (Grammar.inRole r f) := by
  apply h.map
  · intro t
    split <;> simp
  · intro t ht
    split
    · exact h.placed t ht
    · exact (h.placed t ht).withRole r

/-- Plain kinds leave a forest spread. -/
theorem asKind (h : Spread text start stop f) {k : Kind} (hk : k.isPlain = true) :
    Spread text start stop (Grammar.asKind k f) := by
  apply h.map
  · intro t
    split <;> simp
  · intro t ht
    split
    · exact h.placed t ht
    · exact (h.placed t ht).withKind hk

/-- Patterns are spread like their expressions. -/
theorem asPatterns (h : Spread text start stop f) :
    Spread text start stop (f.map fun t => if t.isComment then t else t.asPattern) := by
  apply h.map
  · intro t
    split
    · exact ⟨rfl, rfl⟩
    · exact ⟨t.start_asPattern, t.stop_asPattern⟩
  · intro t ht
    split
    · exact h.placed t ht
    · exact (h.placed t ht).asPattern

/-- Trees that stand one after the other can be parted anywhere. -/
theorem parts (h : Spread text start stop (f ++ g)) :
    ∃ middle, Spread text start middle f ∧ Spread text middle stop g := by
  obtain ⟨hf, hg, hfg⟩ := List.pairwise_append.mp h.inOrder
  cases g with
  | nil => exact ⟨stop, by simpa using h, .nil (Nat.le_refl _)⟩
  | cons first rest =>
    have hfirst := h.within first (by simp)
    have hplaced : ∀ t ∈ first :: rest, t.Throughout (Placed text) :=
      fun t ht => h.placed t (List.mem_append_right f ht)
    -- The middle is where the second part starts.
    have hle := (hplaced first List.mem_cons_self).here.start_le_stop
    refine ⟨first.start, ⟨hfirst.1, hf, fun t ht => ?_, fun t ht => ?_⟩, hle.trans hfirst.2, hg,
      List.forall_mem_cons.mpr ⟨⟨Nat.le_refl _, hfirst.2⟩, fun t ht => ?_⟩, hplaced⟩
    · exact ⟨(h.within t (List.mem_append_left _ ht)).1, hfg t ht first List.mem_cons_self⟩
    · exact h.placed t (List.mem_append_left _ ht)
    · exact ⟨hle.trans ((List.pairwise_cons.mp hg).1 t ht),
        (h.within t (List.mem_append_right _ (List.mem_cons_of_mem _ ht))).2⟩

/-! ### Gathering -/

variable {first : Tree} {rest : List Tree} {k : Kind}

/-- The first tree starts before all others. -/
theorem start_le (h : Spread text start stop (first :: rest)) :
    ∀ t ∈ first :: rest, first.start ≤ t.start := by
  refine List.forall_mem_cons.mpr ⟨Nat.le_refl _, fun t ht => ?_⟩
  have hfirst := (h.placed first List.mem_cons_self).here.start_le_stop
  exact hfirst.trans ((List.pairwise_cons.mp h.inOrder).1 t ht)

/-- The last tree stops after all others. -/
theorem le_stop (h : Spread text start stop (first :: rest)) :
    rest.getLastD first ∈ first :: rest ∧
      ∀ t ∈ first :: rest, t.stop ≤ (rest.getLastD first).stop := by
  induction rest generalizing first start with
  | nil => exact ⟨List.mem_singleton_self _, List.forall_mem_singleton.mpr (Nat.le_refl _)⟩
  | cons second rest ih =>
    obtain ⟨hlast, hrest⟩ := ih (h.sublist (List.sublist_cons_self _ _))
    rw [List.getLastD_cons]
    refine ⟨List.mem_cons_of_mem _ hlast, List.forall_mem_cons.mpr ⟨?_, hrest⟩⟩
    have hsecond := (List.pairwise_cons.mp h.inOrder).1 second List.mem_cons_self
    have hle := (h.placed second (List.mem_cons_of_mem _ List.mem_cons_self)).here.start_le_stop
    exact hsecond.trans (hle.trans (hrest second List.mem_cons_self))

/-- A construct around something that is not empty is not empty. -/
theorem branch_lt (h : Spread text start stop (first :: rest))
    (hsolid : ∃ t ∈ first :: rest, t.start < t.stop) :
    (Tree.branch k (first :: rest)).start < (Tree.branch k (first :: rest)).stop := by
  obtain ⟨t, ht, hlt⟩ := hsolid
  exact Nat.lt_of_le_of_lt (h.start_le t ht) (Nat.lt_of_lt_of_le hlt (h.le_stop.2 t ht))

/-- A construct around trees that stand one after the other. -/
theorem branch (h : Spread text start stop (first :: rest))
    (hheaded : k.isWrapper = true → first.isHead = true)
    (hsolid : k.isSolid = true → ∃ t ∈ first :: rest, t.start < t.stop) :
    Spread text start stop [Tree.branch k (first :: rest)] := by
  obtain ⟨hlast, hstop⟩ := h.le_stop
  have hstart := h.start_le
  -- The new node takes its ends from the first and the last tree.
  refine singleton (.intro ⟨?le, ?start, ?stop, h.inOrder, ?within, ?headed, ?solid⟩ h.placed)
    (h.within first List.mem_cons_self).1 (h.within _ hlast).2
  case le =>
    exact (hstart _ hlast).trans (h.placed _ hlast).here.start_le_stop
  case start => exact (h.placed first List.mem_cons_self).here.start
  case stop => exact (h.placed _ hlast).here.stop
  case within => exact fun c hc => ⟨hstart c hc, hstop c hc⟩
  case headed =>
    intro k' hk' hwrapper
    cases hk'
    exact ⟨first, List.mem_cons_self, rfl, hheaded hwrapper⟩
  case solid =>
    intro k' hk' hsolid'
    cases hk'
    exact h.branch_lt (hsolid hsolid')

end Spread

namespace Grammar

variable {f g : Forest} {start stop : Nat} {k : Kind}

/-- Trees among which there is a token that is not empty. -/
def Solid (f : Forest) : Prop :=
  ∃ t ∈ f, t.isComment = false ∧ t.start < t.stop

/-- Trees may follow one that is no comment. -/
theorem Solid.append_left (h : Solid f) (g : Forest) : Solid (f ++ g) := by
  obtain ⟨t, ht, hsolid⟩ := h
  exact ⟨t, List.mem_append_left g ht, hsolid⟩

/-- Trees may come before one that is no comment. -/
theorem Solid.append_right (f : Forest) (h : Solid g) : Solid (f ++ g) := by
  obtain ⟨t, ht, hsolid⟩ := h
  exact ⟨t, List.mem_append_right f ht, hsolid⟩

/-- A role leaves a tree that is no comment. -/
theorem Solid.inRole (h : Solid f) (r : Field) : Solid (inRole r f) := by
  obtain ⟨t, ht, hcomment, hlt⟩ := h
  refine ⟨t.withRole r, List.mem_map.mpr ⟨t, ht, by rw [hcomment]; rfl⟩, ?_, by simpa using hlt⟩
  rw [Tree.isComment, Tree.isKind_withRole]
  exact hcomment

/-- Trees the first of which, apart from comments, is a decorator or a keyword. -/
def StartsWithHead (f : Forest) : Prop :=
  ∀ first ∈ f.find? (fun t => !t.isComment), first.isHead = true

end Grammar

namespace Spread

open Grammar

variable {f : Forest} {start stop : Nat} {k : Kind}

/-- Trees gathered under a new construct stand where they have stood. -/
theorem gather (h : Spread text start stop f) (hheaded : k.isWrapper = true → StartsWithHead f)
    (hsolid : k.isSolid = true → Solid f) : Spread text start stop (construct k f) := by
  have hsplit := List.takeWhile_append_dropWhile (p := Tree.isComment) (l := f)
  cases hbody : f.dropWhile Tree.isComment with
  | nil =>
    rw [construct, hbody]
    exact h
  | cons first rest =>
    -- The comments in front stay outside of the construct.
    have hconstruct : construct k f =
        f.takeWhile Tree.isComment ++ [Tree.branch k (first :: rest)] := by
      rw [construct, hbody]
    rw [hbody] at hsplit
    have hparts : f.Pairwise fun a b => a.stop ≤ b.start := h.inOrder
    rw [← hsplit, List.pairwise_append] at hparts
    have hrest : Spread text start stop (first :: rest) :=
      h.sublist (hbody ▸ List.dropWhile_sublist _)
    have hfirst : f.find? (fun t => !t.isComment) = some first := by
      rw [List.find?_not_eq_head?_dropWhile, hbody]
      rfl
    have hbranch : Spread text start stop [Tree.branch k (first :: rest)] := by
      apply hrest.branch
      · exact fun hwrapper => hheaded hwrapper first hfirst
      · intro hk
        obtain ⟨t, ht, hcomment, hlt⟩ := hsolid hk
        exact ⟨t, hbody ▸ mem_dropWhile_of_not ht hcomment, hlt⟩
    have hcomments : Spread text start stop (f.takeWhile Tree.isComment) :=
      h.sublist (List.takeWhile_sublist _)
    rw [hconstruct]
    -- The comments come before the first of the other trees, and so before the construct.
    refine ⟨h.start_le_stop, ?_, ?_, ?_⟩
    · refine List.pairwise_append.mpr ⟨hparts.1, List.pairwise_singleton _ _, fun c hc t ht => ?_⟩
      rw [List.mem_singleton.mp ht]
      exact hparts.2.2 c hc first List.mem_cons_self
    · exact List.forall_mem_append.mpr ⟨hcomments.within, hbranch.within⟩
    · exact List.forall_mem_append.mpr ⟨hcomments.placed, hbranch.placed⟩

/-- What has a token in it is a token again once it is gathered. -/
theorem solid_construct (h : Spread text start stop f) (hf : Solid f) (hk : k ≠ .comment) :
    Solid (Grammar.construct k f) := by
  obtain ⟨t, ht, hcomment, hlt⟩ := hf
  -- The token is no comment, so it is among the trees that are gathered.
  have hmem := mem_dropWhile_of_not ht hcomment
  cases hbody : f.dropWhile Tree.isComment with
  | nil =>
    rw [hbody] at hmem
    exact absurd hmem List.not_mem_nil
  | cons first rest =>
    have hrest : Spread text start stop (first :: rest) :=
      h.sublist (hbody ▸ List.dropWhile_sublist _)
    rw [Grammar.construct, hbody]
    refine ⟨Tree.branch k (first :: rest), List.mem_append_right _ (List.mem_singleton_self _), ?_,
      hrest.branch_lt ⟨t, hbody ▸ hmem, hlt⟩⟩
    rw [Tree.isComment, Tree.isKind_branch]
    exact decide_eq_false hk

/-- A construct stands where its parts are spread. -/
theorem construct (h : Spread text start stop f) (hk : k.isPlain = true) :
    Spread text start stop (construct k f) := by
  rw [Kind.isPlain, Bool.and_eq_true, Bool.not_eq_true', Bool.not_eq_true'] at hk
  apply h.gather
  · intro hwrapper
    rw [hwrapper] at hk
    exact nomatch hk.1
  · intro hsolid
    rw [hsolid] at hk
    exact nomatch hk.2

end Spread

/-! ## Preorder -/

/-- The children of a placed tree are spread inside it. -/
theorem Tree.Throughout.spread {t : Tree} (h : t.Throughout (Placed text)) :
    Spread text t.start t.stop t.children :=
  ⟨h.here.start_le_stop, h.here.inOrder, h.here.within, h.parts⟩

mutual

/-- A tree that stands in a text has its nodes in preorder in the order of the text. -/
theorem preorderFrom_ordered {source : Source} {trail : List Crumb} {t : Tree}
    (h : t.Throughout (Placed text)) :
    (preorderFrom source trail t).Pairwise (fun a b => a.start ≤ b.start) ∧
      ∀ n ∈ preorderFrom source trail t, t.start ≤ n.start ∧ n.start ≤ t.stop := by
  match t with
  | .node l r start stop cs =>
    rw [preorderFrom]
    obtain ⟨horder, hbounds⟩ := preorderAll_ordered h.spread
    have hself : start ≤ start ∧ start ≤ stop := ⟨Nat.le_refl _, h.here.start_le_stop⟩
    exact ⟨List.pairwise_cons.mpr ⟨fun n hn => (hbounds n hn).1, horder⟩,
      List.forall_mem_cons.mpr ⟨hself, hbounds⟩⟩

/-- Nodes in preorder start in order. -/
theorem preorderAll_ordered {source : Source} {parent : Tree} {trail : List Crumb} {index : Nat}
    {start stop : Nat} {ts : List Tree} (h : Spread text start stop ts) :
    (preorderAll source parent trail index ts).Pairwise (fun a b => a.start ≤ b.start) ∧
      ∀ n ∈ preorderAll source parent trail index ts, start ≤ n.start ∧ n.start ≤ stop := by
  match ts with
  | [] => exact ⟨.nil, nofun⟩
  | t :: ts =>
    rw [preorderAll]
    obtain ⟨hfirst, hlast⟩ := h.within t List.mem_cons_self
    -- The first tree and the rest share a place between them.
    obtain ⟨middle, hbefore, hafter⟩ :=
      Spread.parts (show Spread text start stop ([t] ++ ts) from h)
    have hmiddle := (hbefore.within t (List.mem_singleton_self t)).2
    obtain ⟨horder, hbounds⟩ := preorderFrom_ordered (h.placed t List.mem_cons_self)
    obtain ⟨hrest, hrestBounds⟩ := preorderAll_ordered hafter
    constructor
    · refine List.pairwise_append.mpr ⟨horder, hrest, fun m hm n hn => ?_⟩
      exact (hbounds m hm).2.trans (hmiddle.trans (hrestBounds n hn).1)
    · refine List.forall_mem_append.mpr ⟨fun n hn => ?_, fun n hn => ?_⟩
      · exact ⟨hfirst.trans (hbounds n hn).1, (hbounds n hn).2.trans hlast⟩
      · have hstart := hbefore.start_le_stop
        exact ⟨hstart.trans (hrestBounds n hn).1, (hrestBounds n hn).2⟩

end

end ScriptGraph.Syntax
