import Mathlib.Algebra.GroupWithZero.Nat
import ScriptGraph.Binding.Walk
import ScriptGraph.Proofs.Ensures

/-!
# The number of scopes

A construct opens at most one scope, and the constructs that it leaves to be bound are different
parts of it. So a file opens no more scopes than its tree has nodes.

- `weight`: the number of nodes in some parts of a tree
- `Bind.Room`: a bound on the scopes that are there and those that may still be opened
- `bind_scopes_le`: binding a file
-/

namespace ScriptGraph.Binding

open Syntax

/-! ## Parts of trees -/

/-- A tree has at least one node. -/
theorem Tree.size_pos (t : Tree) : 0 < t.size := by
  cases t
  exact Nat.succ_pos _

/-- The number of nodes at some nodes and below them. -/
def weight (nodes : List Node) : Nat :=
  (nodes.map fun n => n.tree.size).sum

/-- No nodes have no weight. -/
@[simp] theorem weight_nil : weight [] = 0 := rfl

/-- A node adds the size of its tree. -/
@[simp] theorem weight_cons (n : Node) (rest : List Node) :
    weight (n :: rest) = n.tree.size + weight rest :=
  List.sum_cons

/-- Weights add up. -/
@[simp] theorem weight_append (l l' : List Node) : weight (l ++ l') = weight l + weight l' := by
  rw [weight, List.map_append, List.sum_append, weight, weight]

/-- Leaving nodes out makes nothing heavier. -/
theorem weight_filter_le (l : List Node) (test : Node → Bool) :
    weight (l.filter test) ≤ weight l := by
  induction l with
  | nil => exact Nat.le_refl _
  | cons n rest ih =>
    rw [List.filter_cons]
    split
    · rw [weight_cons, weight_cons]
      exact Nat.add_le_add_left ih _
    · rw [weight_cons]
      exact Nat.le_add_left_of_le ih

/-- A node is no heavier than a list that it is in. -/
theorem size_le_weight {l : List Node} {n : Node} (h : n ∈ l) : n.tree.size ≤ weight l := by
  induction l with
  | nil => exact nomatch h
  | cons m rest ih =>
    rw [weight_cons]
    rcases List.mem_cons.mp h with rfl | h
    · exact Nat.le_add_right _ _
    · exact Nat.le_add_left_of_le (ih h)

/-- A node that is found and one that is found by another test do not count twice. -/
theorem weight_find?_add_le (l : List Node) {p q : Node → Bool} (hpq : ∀ n, p n → q n = false) :
    weight (l.find? p).toList + weight (l.find? q).toList ≤ weight l := by
  induction l with
  | nil => exact Nat.le_refl _
  | cons n rest ih =>
    -- Where one test finds the head, the other test finds a node of the rest.
    have hfind : ∀ r : Node → Bool, weight (rest.find? r).toList ≤ weight rest := fun r => by
      cases hr : rest.find? r with
      | none => exact Nat.zero_le _
      | some m => exact size_le_weight (List.mem_of_find?_eq_some hr)
    rw [List.find?_cons, List.find?_cons, weight_cons]
    cases hp : p n with
    | true =>
      rw [hpq n hp]
      exact Nat.add_le_add_left (hfind q) _
    | false =>
      cases q n with
      | true =>
        rw [Nat.add_comm]
        exact Nat.add_le_add_left (hfind p) _
      | false => exact Nat.le_add_left_of_le ih

end ScriptGraph.Binding

namespace ScriptGraph.Syntax.Node

open Binding

/-- A node is one larger than its children together. -/
theorem weight_children (n : Node) : weight n.children + 1 = n.tree.size := by
  have hzip : ∀ (ts : List Tree) (i : Nat) (f : Tree × Nat → Node), (∀ e, (f e).tree = e.1) →
      weight ((ts.zipIdx i).map f) = Tree.sizeAll ts := fun ts i f hf => by
    induction ts generalizing i with
    | nil => rfl
    | cons t ts ih => rw [List.zipIdx_cons, List.map_cons, weight_cons, ih, hf, Tree.sizeAll]
  obtain ⟨source, ⟨l, r, s, e, cs⟩, trail⟩ := n
  show weight (cs.zipIdx.map _) + 1 = Tree.sizeAll cs + 1
  rw [hzip cs 0 _ fun _ => rfl]

/-- The constructs in a node weigh less than the node. -/
theorem weight_constructs_lt (n : Node) : weight n.constructs < n.tree.size := by
  rw [← weight_children]
  exact Nat.lt_succ_of_le (weight_filter_le _ _)

/-- The named children of a node weigh less than the node. -/
theorem weight_namedChildren_lt (n : Node) : weight n.namedChildren < n.tree.size := by
  rw [← weight_children]
  exact Nat.lt_succ_of_le (weight_filter_le _ _)

/-- A child is smaller than its parent. -/
theorem size_lt_of_mem_children {n c : Node} (h : c ∈ n.children) : c.tree.size < n.tree.size := by
  rw [← weight_children n]
  exact Nat.lt_succ_of_le (size_le_weight h)

/-- A part in a role is smaller than the whole. -/
theorem size_lt_of_child? {n c : Node} {f : Field} (h : n.child? f = some c) :
    c.tree.size < n.tree.size :=
  size_lt_of_mem_children (List.mem_of_find?_eq_some h)

/-- A construct inside a node is smaller than the node. -/
theorem size_lt_of_mem_constructs {n c : Node} (h : c ∈ n.constructs) :
    c.tree.size < n.tree.size :=
  size_lt_of_mem_children (List.mem_filter.mp h).1

/-- The parts in two roles are different ones. -/
theorem weight_child?_add_lt (n : Node) {f g : Field} (hfg : f ≠ g) :
    weight (n.child? f).toList + weight (n.child? g).toList < n.tree.size := by
  rw [← weight_children]
  refine Nat.lt_succ_of_le (weight_find?_add_le _ fun c hc => ?_)
  rw [eq_of_beq hc]
  exact beq_eq_false_iff_ne.mpr fun h => hfg (Option.some.inj h)

/-- The part in a role weighs less than the whole, if there is one. -/
theorem weight_child?_lt (n : Node) (f : Field) : weight (n.child? f).toList < n.tree.size := by
  cases h : n.child? f with
  | none => exact Tree.size_pos _
  | some c => exact size_lt_of_child? h

/-- The constructs within a part are fewer than the nodes of the part. -/
theorem weight_constructsIn_le (n : Node) (f : Field) :
    weight (n.constructsIn f) ≤ weight (n.child? f).toList := by
  unfold constructsIn
  cases n.child? f with
  | none => exact Nat.le_refl _
  | some c => exact Nat.le_of_lt (weight_constructs_lt c)

end ScriptGraph.Syntax.Node

namespace ScriptGraph.Binding

open Syntax

namespace Bind

/-! ## Actions that open no scope -/

/-- With the scopes that may still be opened there are at most `total`. -/
def Room (total left : Nat) (p : Progress) : Prop :=
  p.store.scopes.size + left ≤ total

variable {total left : Nat}

/-- Where there is room for more, there is room for less. -/
theorem Room.mono {less : Nat} {p : Progress} (h : Room total left p) (hle : less ≤ left) :
    Room total less p :=
  Nat.le_trans (Nat.add_le_add_left hle _) h

/-- Opening a scope takes the room of one scope. -/
theorem openScope_room {kind : ScopeKind} {node : Node} {parent : ScopeId} :
    Ensures (Room total (left + 1)) (openScope kind node parent) fun _ => Room total left := by
  intro p hp
  show (p.store.scopes.push _).size + left ≤ total
  rw [Array.size_push, Nat.add_right_comm]
  exact hp

/-- A scope may be opened as soon as there is room for it and for all that is to be left. -/
theorem openScope_leaves (left : Nat) {enough : Nat} (h : left < enough) {kind : ScopeKind}
    {node : Node} {parent : ScopeId} :
    Ensures (Room total enough) (openScope kind node parent) fun _ => Room total left :=
  .of_imp openScope_room fun _ hp => hp.mono h

/-- An action leaves as much room as it finds. -/
abbrev KeepsRoom {α : Type} (x : Bind α) : Prop :=
  ∀ {total left : Nat}, Ensures (Room total left) x fun _ => Room total left

/-- A change of the store opens no scope. -/
theorem modifyStore_room {f : Store → Store} (hf : ∀ s, (f s).scopes.size = s.scopes.size) :
    KeepsRoom (modifyStore f) := by
  intro total left p hp
  show (f p.store).scopes.size + left ≤ total
  rw [hf]
  exact hp

/-- Adding a symbol opens no scope. -/
theorem addSymbol_room {symbol : Symbol} : KeepsRoom (onStore (·.addSymbol symbol)) :=
  fun _ hp => hp

/-- A change of a scope opens no scope. -/
theorem modifyScope_room {id : ScopeId} {f : Scope → Scope} :
    KeepsRoom (modifyStore (·.modifyScope id f)) :=
  modifyStore_room fun _ => Array.size_modify

/-- A change of a symbol opens no scope. -/
theorem modifySymbol_room {id : SymbolId} {f : Symbol → Symbol} :
    KeepsRoom (modifyStore (·.modifySymbol id f)) :=
  modifyStore_room fun _ => rfl

/-- Attaching a declaration to a symbol opens no scope. -/
theorem attach_room {symbol : SymbolId} {d : DeclarationId} :
    KeepsRoom (modifyStore (·.attach symbol d)) :=
  modifyStore_room fun _ => rfl

/-- Recording a declaration opens no scope. -/
theorem record_room {d : Declaration} : KeepsRoom (record d) :=
  fun _ hp => hp

/-- Entering a symbol in a scope opens no scope. -/
theorem enter_room {scope : ScopeId} {name : String} {symbol : SymbolId} :
    KeepsRoom (enter scope name symbol) := by
  refine modifyStore_room fun s => ?_
  unfold Store.putSymbol
  split
  · exact Array.size_modify
  · rfl

/-- Attaching a declaration in a scope opens no scope. -/
theorem attachIn_room {scope : ScopeId} {name : String} {d : DeclarationId} :
    KeepsRoom (attachIn scope name d) := by
  intro total left
  have hattach : ∀ symbol, Ensures (Room total left)
      (do modifyStore (·.attach symbol d); return symbol) fun _ => Room total left := fun _ =>
    .bind attach_room fun _ => .pure fun _ hp => hp
  refine .get fun now => .of_imp (P := Room total left) ?_ fun _ hp => hp.1
  cases (now.store.symbolsOf scope).find? name with
  | some symbol => exact hattach symbol
  | none => exact .bind addSymbol_room fun symbol => .bind enter_room fun _ => hattach symbol

/-- Declaring a name in a scope opens no scope. -/
theorem declare_room {scope : ScopeId} {d : Declaration} : KeepsRoom (declare scope d) :=
  .bind record_room fun _ => attachIn_room

/-- Declaring a member opens no scope. -/
theorem declareMember_room {owner : SymbolId} {d : Declaration} :
    KeepsRoom (declareMember owner d) := by
  refine .bind record_room fun id => .get fun now => .of_imp (P := Room _ _) ?_ fun _ hp => hp.1
  dsimp only
  split
  · exact attach_room
  · exact .bind addSymbol_room fun _ => .bind modifySymbol_room fun _ => attach_room

/-- Adding a construct signature opens no scope. -/
theorem addConstructSignature_room {owner : SymbolId} {d : Declaration} :
    KeepsRoom (addConstructSignature owner d) :=
  .bind record_room fun _ => modifySymbol_room

/-- Adding a call signature opens no scope. -/
theorem addCallSignature_room {owner : SymbolId} {d : Declaration} :
    KeepsRoom (addCallSignature owner d) :=
  .bind record_room fun _ => modifySymbol_room

/-- Declaring type parameters opens no scope. -/
theorem declareTypeParameters_room {node : Node} {scope : ScopeId} {owner : Option SymbolId} :
    KeepsRoom (declareTypeParameters node scope owner) := by
  refine .forM fun param _ => ?_
  split
  · exact .pure fun _ hp => hp
  · refine .bind declare_room fun _ => ?_
    split
    · exact .pure fun _ hp => hp
    · exact modifySymbol_room

/-! ## Members -/

/-- Declaring the properties among the parameters of a constructor opens no scope. -/
theorem declareParameterProperties_room {owner : SymbolId} {ctor : Node} :
    KeepsRoom (declareParameterProperties owner ctor) := by
  refine .forM fun param _ => ?_
  split
  · split
    · split
      · exact declareMember_room
      · exact .pure fun _ hp => hp
    · exact .pure fun _ hp => hp
  · exact .pure fun _ hp => hp

/-- Declaring a member of a class opens no scope. -/
theorem declareClassMember_room {owner : SymbolId} {member : Node} :
    KeepsRoom (declareClassMember owner member) := by
  intro total left
  unfold declareClassMember
  split
  -- A constructor declares its parameter properties as well; what has no name is passed over.
  · unfold declareMethod
    dsimp only
    split
    · exact .pure fun _ hp => hp
    · split
      · exact .bind addConstructSignature_room fun _ => declareParameterProperties_room
      · exact declareMember_room
  · split
    · unfold declareField
      dsimp only
      split
      · exact .pure fun _ hp => hp
      · exact declareMember_room
    · exact .pure fun _ hp => hp

/-- A member with type parameters opens a scope for them. -/
theorem declareTypeMember_room {owner : SymbolId} {scope : ScopeId} {member : Node} :
    Ensures (Room total (left + 1)) (declareTypeMember owner scope member)
      fun _ => Room total left := by
  have hless : ∀ p, Room total (left + 1) p → Room total left p := fun _ hp =>
    hp.mono (Nat.le_succ _)
  -- Only type parameters need a scope of their own.
  have hown : Ensures (Room total (left + 1))
      (if (member.child? .typeParameters).isSome then do
          let inner ← openScope .function member scope
          declareTypeParameters member inner none
        else pure ()) fun _ => Room total left := by
    split
    · exact .bind openScope_room fun _ => declareTypeParameters_room
    · exact .pure hless
  unfold declareTypeMember
  dsimp only
  split
  · exact .bind declareMember_room fun _ => hown
  · exact .bind declareMember_room fun _ => hown
  · exact .bind addConstructSignature_room fun _ => hown
  · exact .bind addCallSignature_room fun _ => hown
  · exact .pure hless

/-- Actions in a row share the room for all of them. -/
theorem forM_room {β : Type} {l : List β} {f : β → Bind Unit} {cost : β → Nat}
    (h : ∀ b, ∀ left, Ensures (Room total (cost b + left)) (f b) fun _ => Room total left) :
    Ensures (Room total ((l.map cost).sum + left)) (l.forM f) fun _ => Room total left := by
  induction l with
  | nil => exact .pure fun _ hp => hp.mono (Nat.le_add_left _ _)
  | cons b rest ih =>
    refine .bind (.of_imp (h b ((rest.map cost).sum + left)) fun _ hp =>
      hp.mono (Nat.le_of_eq ?_)) fun _ => ih
    rw [List.map_cons, List.sum_cons, Nat.add_assoc]

/-- Declaring the parts of an object type takes at most the room of its nodes. -/
theorem declareTypeMembers_room {owner : SymbolId} {scope : ScopeId} {members : List Node} :
    Ensures (Room total (weight members + left)) (members.forM (declareTypeMember owner scope))
      fun _ => Room total left :=
  forM_room fun member left => .of_imp declareTypeMember_room fun _ hp =>
    hp.mono (by rw [Nat.add_comm]; exact Nat.add_le_add_right (Tree.size_pos member.tree) left)

/-- Declaring a member of an enumeration opens no scope. -/
theorem declareEnumMember_room {owner : SymbolId} {member : Node} :
    KeepsRoom (declareEnumMember owner member) := by
  intro total left
  unfold declareEnumMember
  generalize (if member.is .enumAssignment then member.child? .name else some member) = nameNode
  dsimp only
  split
  · exact .pure fun _ hp => hp
  · exact declareMember_room

/-! ## Imports and exports -/

/-- Declaring an imported name opens no scope. -/
theorem declareAlias_room {scope : ScopeId} {specifier imported name : String}
    {node nameNode : Node} :
    KeepsRoom (declareAlias scope specifier imported name node nameNode) :=
  .bind declare_room fun _ => .pure fun _ hp => hp

/-- Binding a part of an import clause opens no scope. -/
theorem bindImportPart_room {scope : ScopeId} {specifier : String} {part : Node} :
    KeepsRoom (bindImportPart scope specifier part) := by
  intro total left
  unfold bindImportPart
  split
  · exact declareAlias_room
  · split
    · exact declareAlias_room
    · exact .pure fun _ hp => hp
  -- Each name in braces is an alias of its own.
  · refine .forM fun item _ => ?_
    split
    · dsimp only
      split
      · exact declareAlias_room
      · exact .pure fun _ hp => hp
    · exact .pure fun _ hp => hp
  · exact .pure fun _ hp => hp

/-- Binding an import statement opens no scope. -/
theorem bindImport_room {scope : ScopeId} {node : Node} : KeepsRoom (bindImport scope node) := by
  refine .forM fun child _ => ?_
  split
  · exact .forM fun _ _ => bindImportPart_room
  · split
    · exact declareAlias_room
    · exact .pure fun _ hp => hp
  · exact .pure fun _ hp => hp

/-- Exposing what is declared opens no scope. -/
theorem exposeDeclared_room {module : ScopeId} {isDefault : Bool} {declaration : Node} :
    KeepsRoom (exposeDeclared module isDefault declaration) := by
  intro total left
  unfold exposeDeclared
  split
  · split
    · exact modifyScope_room
    · exact .pure fun _ hp => hp
  · exact .forM fun _ _ => modifyScope_room

/-- Exposing a value opens no scope. -/
theorem exposeValue_room {module : ScopeId} {name : String} {value : Node} :
    KeepsRoom (exposeValue module name value) := by
  intro total left
  unfold exposeValue
  split
  · exact modifyScope_room
  · exact .bind addSymbol_room fun _ => .bind record_room fun _ => .bind attach_room fun _ =>
      modifyScope_room

/-- Exposing the names of a list opens no scope. -/
theorem exposeNames_room {module : ScopeId} {node : Node} :
    KeepsRoom (exposeNames module node) := by
  intro total left
  unfold exposeNames
  dsimp only
  split
  -- A specifier exposes the name behind `as`, or else its own.
  · refine .forM fun item _ => ?_
    unfold exposeSpecifier
    split
    · dsimp only
      split
      · split
        · exact modifyScope_room
        · exact modifyScope_room
      · exact .pure fun _ hp => hp
    · exact .pure fun _ hp => hp
  · split
    · split
      · exact modifyScope_room
      · exact .pure fun _ hp => hp
    · exact .pure fun _ hp => hp
    · split
      · exact modifyScope_room
      · exact .pure fun _ hp => hp
    · exact .pure fun _ hp => hp

/-- The part of an export that is still to be bound is smaller than the export. -/
theorem bindExport_room {scope : ScopeId} {node : Node} :
    Ensures (Room total (node.tree.size + left)) (bindExport scope node)
      fun rest => Room total (weight rest + left) := by
  -- What is left to bind is nothing or a proper part of the export.
  have hrest : ∀ rest : List Node, weight rest ≤ node.tree.size →
      Ensures (Room total (node.tree.size + left)) (pure rest)
        fun rest => Room total (weight rest + left) := fun rest hle =>
    .pure fun _ hp => hp.mono (Nat.add_le_add_right hle _)
  have hone : ∀ c : Node, c.tree.size < node.tree.size → weight [c] ≤ node.tree.size :=
    fun c hc => by
    rw [weight_cons, weight_nil]
    exact Nat.le_of_lt hc
  refine .get fun now => .of_imp (P := Room total (node.tree.size + left)) ?_ fun _ hp => hp.1
  dsimp only
  split
  · rename_i declaration hd
    exact .bind exposeDeclared_room fun _ => hrest _ (hone _ (Node.size_lt_of_child? hd))
  · split
    · split
      · rename_i value hv
        refine .bind exposeValue_room fun _ => hrest _ (hone _ ?_)
        rcases Option.or_eq_some_iff.mp hv with hv | ⟨-, hv⟩
        · exact Node.size_lt_of_child? hv
        · exact Node.size_lt_of_mem_constructs (List.mem_of_getLast? hv)
      · exact hrest [] (Nat.zero_le _)
    · exact .bind exposeNames_room fun _ => hrest [] (Nat.zero_le _)

/-! ## The walk -/

/-- The number of nodes in what is still to be bound. -/
def taskWeight (tasks : List Task) : Nat :=
  (tasks.map fun t => t.node.tree.size).sum

/-- Tasks weigh as much as their nodes. -/
@[simp] theorem taskWeight_tasks (scope enclosing : ScopeId) (nodes : List Node) :
    taskWeight (tasks scope enclosing nodes) = weight nodes := by
  rw [taskWeight, tasks, List.map_map]
  rfl

/-- What binding a construct does with the room for all nodes of it: it leaves enough for the
constructs that are still to be bound. -/
def SharesRoom (t : Task) (x : Bind (List Task)) : Prop :=
  ∀ total left, Ensures (Room total (t.node.tree.size + left)) x
    fun rest => Room total (taskWeight rest + left)

/-- An action may leave constructs that have no more nodes than there is room for. -/
theorem tasks_room {scope enclosing : ScopeId} {nodes : List Node} {size : Nat}
    (h : weight nodes ≤ size) :
    Ensures (Room total (size + left)) (pure (tasks scope enclosing nodes) : Bind (List Task))
      fun rest => Room total (taskWeight rest + left) :=
  .pure fun _ hp => hp.mono (by rw [taskWeight_tasks]; exact Nat.add_le_add_right h _)

/-- The scope of a construct takes the room of its topmost node. -/
theorem openScope_shares {t : Task} {kind : ScopeKind} {f : ScopeId → Bind (List Task)}
    (h : ∀ inner total left, Ensures (Room total (t.node.tree.size - 1 + left)) (f inner)
      fun rest => Room total (taskWeight rest + left)) :
    SharesRoom t (openScope kind t.node t.scope >>= f) := fun total left => by
  have hpos := Tree.size_pos t.node.tree
  exact .bind (openScope_leaves _ (by omega)) fun inner => h inner total left

/-- Declaring parameters opens no scope. -/
theorem declareParameters_room {inner : ScopeId} {node : Node} :
    KeepsRoom (declareParameters inner node) := by
  intro total left
  have hmany : Ensures (Room total left)
      ((node.constructsIn .parameters).forM fun param => (boundNames param).forM fun name => do
        let _ ← declare inner
          { kind := .parameter, name := name.text, node := param, nameNode := some name })
      fun _ => Room total left :=
    .forM fun _ _ => .forM fun _ _ => .bind declare_room fun _ => .pure fun _ hp => hp
  unfold declareParameters
  split
  · exact .bind declare_room fun _ => hmany
  · exact hmany

/-- Declaring variables opens no scope. -/
theorem declareVariables_room {scope : ScopeId} {node : Node} {names : List Node} :
    KeepsRoom (declareVariables scope node names) :=
  .forM fun _ _ => .bind declare_room fun _ => .pure fun _ hp => hp

/-- Recording a function opens no scope. -/
theorem recordFunction_room {t : Task} : KeepsRoom (recordFunction t) := by
  intro total left
  unfold recordFunction
  dsimp only
  split
  · split
    · exact .bind declare_room fun _ => .pure fun _ hp => hp
    · exact .pure fun _ hp => hp
  · split
    · exact .map record_room
    · split
      · exact .bind record_room fun _ => .pure fun _ hp => hp
      · exact .pure fun _ hp => hp

/-- Binding a function leaves room for what remains to be bound inside. -/
theorem bindFunction_room (t : Task) : SharesRoom t (bindFunction t) := by
  intro total left
  refine .bind recordFunction_room fun expression =>
    openScope_shares (fun inner total left => ?_) total left
  -- The parameters and the body are different parts of the function.
  have hparts : weight (t.node.constructsIn .parameters ++ (t.node.child? .body).toList) ≤
      t.node.tree.size - 1 := by
    have hparameters := t.node.weight_constructsIn_le .parameters
    have hboth := t.node.weight_child?_add_lt (f := .parameters) (g := .body) (by decide)
    rw [weight_append]
    omega
  have hinside : Ensures (Room total (t.node.tree.size - 1 + left)) (do
      declareTypeParameters t.node inner none
      declareParameters inner t.node
      return tasks inner inner (t.node.constructsIn .parameters ++ (t.node.child? .body).toList))
      fun rest => Room total (taskWeight rest + left) :=
    .bind declareTypeParameters_room fun _ => .bind declareParameters_room fun _ =>
      tasks_room hparts
  dsimp only
  split
  · exact .bind attachIn_room fun _ => hinside
  · exact hinside

/-- Declaring a class opens no scope. -/
theorem declareClass_room {t : Task} : KeepsRoom (declareClass t) := by
  intro total left
  unfold declareClass
  split
  dsimp only
  split
  · exact declare_room
  · exact .bind addSymbol_room fun _ => .bind record_room fun _ => .bind attach_room fun _ =>
      .pure fun _ hp => hp

/-- Binding a class leaves room for what remains to be bound inside. -/
theorem bindClass_room (t : Task) : SharesRoom t (bindClass t) := by
  intro total left
  refine .bind declareClass_room fun symbol =>
    openScope_shares (fun inner total left => ?_) total left
  -- The scope of the name, if there is one, is opened inside that of the class.
  have hrest : Ensures (Room total (t.node.tree.size - 1 + left)) (do
      declareTypeParameters t.node inner symbol
      (t.node.constructsIn .body).forM (declareClassMember symbol)
      return tasks inner t.enclosing t.node.namedChildren)
      fun rest => Room total (taskWeight rest + left) :=
    .bind declareTypeParameters_room fun _ => .bind
      (.forM fun _ _ => declareClassMember_room) fun _ =>
        tasks_room (Nat.le_sub_one_of_lt t.node.weight_namedChildren_lt)
  dsimp only
  split
  · exact .bind enter_room fun _ => hrest
  · exact hrest

/-- A construct that leaves nothing to be bound takes room for all nodes of it at most. -/
def TakesRoom (t : Task) (x : Bind Unit) : Prop :=
  ∀ total left, Ensures (Room total (t.node.tree.size + left)) x fun _ => Room total left

/-- The scope of a type and those of its members take the room of different nodes. -/
theorem typeScope_room {t : Task} {owner : SymbolId} {members : List Node}
    (h : weight members < t.node.tree.size) :
    TakesRoom t (do
      let inner ← openScope .class t.node t.scope
      declareTypeParameters t.node inner owner
      members.forM (declareTypeMember owner inner)) := fun total left => by
  exact .bind (openScope_leaves (weight members + left) (by omega)) fun inner =>
    .bind declareTypeParameters_room fun _ => declareTypeMembers_room

/-- Binding an interface opens at most as many scopes as its construct has nodes. -/
theorem bindInterface_room (t : Task) : TakesRoom t (bindInterface t) := by
  intro total left
  unfold bindInterface
  split
  · exact .pure fun _ hp => hp.mono (Nat.le_add_left _ _)
  · exact .bind declare_room fun symbol => typeScope_room (Nat.lt_of_le_of_lt
      (t.node.weight_constructsIn_le .body) (t.node.weight_child?_lt .body)) total left

/-- Binding a type alias opens at most as many scopes as its construct has nodes. -/
theorem bindTypeAlias_room (t : Task) : TakesRoom t (bindTypeAlias t) := by
  intro total left
  unfold bindTypeAlias
  split
  · exact .pure fun _ hp => hp.mono (Nat.le_add_left _ _)
  · refine .bind declare_room fun symbol => ?_
    -- The alias itself pays for the scope of its type parameters.
    have hnone : TakesRoom t (do
        let inner ← openScope .class t.node t.scope
        declareTypeParameters t.node inner symbol) := fun total left => by
      have hpos := Tree.size_pos t.node.tree
      exact .bind (openScope_leaves left (by omega)) fun inner => declareTypeParameters_room
    cases hvalue : t.node.child? .value with
    | none => exact hnone total left
    | some value =>
      dsimp only
      split
      · exact typeScope_room
          (Nat.lt_trans value.weight_constructs_lt (Node.size_lt_of_child? hvalue))
          total left
      · exact hnone total left

/-- Binding an enumeration opens at most as many scopes as its construct has nodes. -/
theorem bindEnum_room (t : Task) : TakesRoom t (bindEnum t) := by
  intro total left
  unfold bindEnum
  split
  · exact .pure fun _ hp => hp.mono (Nat.le_add_left _ _)
  · exact .bind declare_room fun symbol => .weaken (.forM fun _ _ => declareEnumMember_room)
      fun _ _ hp => hp.mono (Nat.le_add_left _ _)

/-- Binding variables leaves room for what remains to be bound inside. -/
theorem bindVariables_room (t : Task) : SharesRoom t (bindVariables t) := by
  intro total left
  refine .bind (.forM fun _ _ => declareVariables_room) fun _ => tasks_room ?_
  -- Each value is a part of its declarator.
  have hvalues : ∀ l : List Node, weight (l.filterMap (·.child? .value)) ≤ weight l := fun l => by
    induction l with
    | nil => exact Nat.le_refl _
    | cons d rest ih =>
      rw [List.filterMap_cons, weight_cons]
      split
      · exact Nat.le_add_left_of_le ih
      · rename_i value hvalue
        rw [weight_cons]
        exact Nat.add_le_add (Nat.le_of_lt (Node.size_lt_of_child? hvalue)) ih
  exact Nat.le_trans (hvalues _) (Nat.le_trans (weight_filter_le _ _)
    (Nat.le_of_lt t.node.weight_constructs_lt))

/-- Binding a loop over items leaves room for what remains to be bound inside. -/
theorem bindIteration_room (t : Task) : SharesRoom t (bindIteration t) := by
  refine openScope_shares fun inner total left => ?_
  have hparts : weight ((t.node.child? .right).toList ++ (t.node.child? .body).toList) ≤
      t.node.tree.size - 1 := by
    rw [weight_append]
    exact Nat.le_sub_one_of_lt (t.node.weight_child?_add_lt (by decide))
  dsimp only
  split
  · exact .bind declareVariables_room fun _ => tasks_room hparts
  · exact tasks_room hparts

/-- Binding a handler of exceptions leaves room for what remains to be bound inside. -/
theorem bindHandler_room (t : Task) : SharesRoom t (bindHandler t) :=
  openScope_shares fun _ _ _ => .bind declareVariables_room fun _ =>
    tasks_room (Nat.le_sub_one_of_lt (t.node.weight_child?_lt .body))

/-- The children of a construct weigh less than the construct. -/
theorem children_room (t : Task) {scope enclosing : ScopeId} :
    SharesRoom t (pure (tasks scope enclosing t.node.children)) := fun _ _ =>
  tasks_room (by have := t.node.weight_children; omega)

/-- Binding an ambient declaration leaves room for what remains to be bound inside. -/
theorem bindAmbient_room (t : Task) : SharesRoom t (bindAmbient t) := by
  intro total left
  unfold bindAmbient
  split
  · refine .get fun now => .of_imp (P := Room total (t.node.tree.size + left)) ?_ fun _ hp => hp.1
    dsimp only
    split
    · rename_i block hblock
      refine tasks_room ?_
      -- The block is inside the declaration, so its statements weigh less than the declaration
      -- does.
      have hsize := Node.size_lt_of_mem_constructs (List.mem_of_find?_eq_some hblock)
      have hchildren := block.weight_children
      omega
    · exact .pure fun _ hp => hp.mono (Nat.add_le_add_right (Nat.zero_le _) _)
  · exact children_room t total left

/-- Binding a namespace or a module leaves room for what remains to be bound inside. -/
theorem bindModule_room (t : Task) : SharesRoom t (bindModule t) := by
  intro total left
  unfold bindModule
  split
  · exact .pure fun _ hp => hp.mono (Nat.add_le_add_right (Nat.zero_le _) _)
  refine openScope_shares (fun inner total left => ?_) total left
  -- Without a body there is nothing to bind.
  have hbody : weight ((t.node.child? .body).toList.flatMap Node.children) ≤
      t.node.tree.size - 1 := by
    cases hb : t.node.child? .body with
    | none => exact Nat.zero_le _
    | some body =>
      have hsize := Node.size_lt_of_child? hb
      have hchildren := body.weight_children
      rw [Option.toList_some, List.flatMap_singleton]
      omega
  dsimp only
  split
  · exact .bind modifyScope_room fun _ => .bind (R := fun _ => Room total _) (fun _ hp => hp)
      fun _ => tasks_room hbody
  · exact .bind declare_room fun symbol => .bind modifyScope_room fun _ => tasks_room hbody

/-- Binding one construct leaves room for what remains to be bound inside. -/
theorem bindTask_room (t : Task) : SharesRoom t (bindTask t) := by
  have hblock : SharesRoom t (do
      let inner ← openScope .block t.node t.scope
      return tasks inner t.enclosing t.node.children) :=
    openScope_shares fun _ _ _ => tasks_room (by have := t.node.weight_children; omega)
  -- Some constructs leave nothing to be bound inside them.
  have hnone : ∀ {action : Bind Unit}, TakesRoom t action →
      SharesRoom t (do action; return []) := fun h total left =>
    .bind (h total left) fun _ => .pure fun _ hp => hp.mono (Nat.le_of_eq (Nat.zero_add _))
  have himport : TakesRoom t (bindImport t.scope t.node) := fun total left =>
    .weaken bindImport_room fun _ _ hp => hp.mono (Nat.le_add_left _ _)
  -- One case for each kind of construct, in the order of the definition.
  unfold bindTask
  split
  · exact bindFunction_room t
  · exact bindFunction_room t
  · exact bindFunction_room t
  · exact bindFunction_room t
  · exact bindFunction_room t
  · exact bindFunction_room t
  · exact bindFunction_room t
  · exact bindClass_room t
  · exact bindClass_room t
  · exact bindClass_room t
  · exact hnone (bindInterface_room t)
  · exact hnone (bindTypeAlias_room t)
  · exact hnone (bindEnum_room t)
  · exact bindVariables_room t
  · exact bindVariables_room t
  · exact hnone himport
  · exact fun total left => .bind bindExport_room fun rest => .pure fun _ hp =>
      hp.mono (Nat.le_of_eq (by rw [taskWeight_tasks]))
  · exact bindAmbient_room t
  · exact bindModule_room t
  · exact bindModule_room t
  · exact hblock
  · exact hblock
  · exact bindIteration_room t
  · exact bindHandler_room t
  · exact children_room t

/-- Binding a construct with all that it contains opens at most as many scopes as its construct has
nodes. -/
theorem bindFrom_room (depth : Nat) (t : Task) :
    TakesRoom t (bindFrom depth t) := by
  -- What a construct leaves has room for all its nodes, so the walk can go on.
  induction depth generalizing t with
  | zero => exact fun _ _ => .pure fun _ hp => hp.mono (Nat.le_add_left _ _)
  | succ depth ih =>
    exact fun total left => .bind (bindTask_room t total left) fun rest =>
      forM_room fun inside left => ih inside total left

end Bind

/-- A file opens no more scopes than its tree has nodes. -/
theorem bind_scopes_le (file : Source) (base : Store) :
    (bind file base).2.scopes.size ≤ base.scopes.size + file.tree.size := by
  let module : Scope := { kind := .module, node := file.root, parent := none }
  let start : Progress := ⟨(base.addScope module).2,
    { source := file, moduleScope := (base.addScope module).1
      scopes := Table.empty.put file.root.key (base.addScope module).1 }⟩
  have hsize : (base.addScope module).2.scopes.size = base.scopes.size + 1 := Array.size_push _
  have hchildren : weight file.root.children + 1 = file.tree.size := file.root.weight_children
  -- The scope of the module takes the room of the root.
  have hwalk : Ensures
    (Bind.Room (base.scopes.size + file.tree.size) (weight file.root.children + 0))
      ((tasks (base.addScope module).1 (base.addScope module).1 file.root.children).forM
        (Bind.bindFrom file.tree.size))
      fun _ => Bind.Room (base.scopes.size + file.tree.size) 0 := by
    rw [← Bind.taskWeight_tasks (base.addScope module).1 (base.addScope module).1]
    exact Bind.forM_room fun t left => Bind.bindFrom_room _ t _ left
  refine hwalk start ?_
  show (base.addScope module).2.scopes.size + _ ≤ _
  rw [hsize]
  omega

end ScriptGraph.Binding
