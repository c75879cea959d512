import Mathlib.Logic.Relation
import ScriptGraph.Binding.Walk
import ScriptGraph.Proofs.Syntax.Kinds

/-!
# The steps of binding

However many handlers binding has, there are few things that they do: a scope is opened, a
declaration is recorded and attached to the symbol of its name, a signature is listed, a name is
exposed. `Bind.Step` lists them, and every action of binding is a sequence of such steps whose
declarations are of constructs of its own. So what each step keeps is kept by binding a file.

- `Bind.Step`: one step, for declarations of constructs with `φ`
- `Bind.Takes`: an action that is a sequence of steps
- `Bind.bindTask_takes`, `Bind.bindFrom_takes`: binding one construct, and all that is inside it
-/

namespace ScriptGraph.Binding

open Syntax

/-- A property of nodes that passes on to the nodes below. -/
def PassesDown (φ : Node → Prop) : Prop :=
  ∀ n, φ n → ∀ c ∈ n.children, φ c

namespace PassesDown

variable {φ : Node → Prop} {n c : Node} {f : Field}

/-- What passes down holds of the constructs inside. -/
theorem of_mem_constructs (h : PassesDown φ) (hn : φ n) (hc : c ∈ n.constructs) : φ c :=
  h n hn c (List.mem_filter.mp hc).1

/-- What passes down holds of the part in a role. -/
theorem of_child? (h : PassesDown φ) (hn : φ n) (hc : n.child? f = some c) : φ c :=
  h n hn c (List.mem_of_find?_eq_some hc)

/-- What passes down holds of the constructs in a role. -/
theorem of_mem_constructsIn (h : PassesDown φ) (hn : φ n) (hc : c ∈ n.constructsIn f) : φ c := by
  unfold Node.constructsIn at hc
  split at hc
  · rename_i part hpart
    exact h.of_mem_constructs (h.of_child? hn hpart) hc
  · exact absurd hc List.not_mem_nil

end PassesDown

namespace Bind

/-- Records a declaration, and adds the symbol that it is attached to. No scope knows the symbol. -/
def introduce (d : Declaration) : Bind SymbolId := do
  let symbol ← onStore (·.addSymbol { name := d.name })
  let id ← record d
  modifyStore (·.attach symbol id)
  return symbol

/-- Records a declaration whose name is known only in a scope that its own construct opens. -/
def declareWithin (scope : ScopeId) (d : Declaration) : Bind ScopeId := do
  let id ← record d
  let inner ← openScope .function d.node scope
  let _ ← attachIn inner d.name id
  return inner

/-- The same of a declaration whose symbol is added first. -/
def introduceWithin (scope : ScopeId) (d : Declaration) : Bind (SymbolId × ScopeId) := do
  let symbol ← introduce d
  let inner ← openScope .class d.node scope
  enter inner d.name symbol
  return (symbol, inner)

/-- One step of binding. What is declared in it are constructs with `φ`. -/
inductive Step (φ : Node → Prop) (p : Progress) : Progress → Prop
  | scope (kind : ScopeKind) (node : Node) (parent : ScopeId) :
      Step φ p ((openScope kind node parent).run p).2
  | declare (scope : ScopeId) (d : Declaration) (hd : d.symbol = none) (hφ : φ d.node) :
      Step φ p ((Bind.declare scope d).run p).2
  | within (scope : ScopeId) (d : Declaration) (hd : d.symbol = none) (hφ : φ d.node) :
      Step φ p ((declareWithin scope d).run p).2
  | introduced (d : Declaration) (hd : d.symbol = none) (hφ : φ d.node) :
      Step φ p ((introduce d).run p).2
  | introducedWithin (scope : ScopeId) (d : Declaration) (hd : d.symbol = none) (hφ : φ d.node) :
      Step φ p ((introduceWithin scope d).run p).2
  | unattached (d : Declaration) (hd : d.symbol = none) (hφ : φ d.node) :
      Step φ p ((record d).run p).2
  | member (owner : SymbolId) (d : Declaration) (hd : d.symbol = none) (hφ : φ d.node) :
      Step φ p ((declareMember owner d).run p).2
  | constructs (owner : SymbolId) (d : Declaration) (hφ : φ d.node) :
      Step φ p ((addConstructSignature owner d).run p).2
  | calls (owner : SymbolId) (d : Declaration) (hφ : φ d.node) :
      Step φ p ((addCallSignature owner d).run p).2
  | typeParameter (owner : SymbolId) (name : String) :
      Step φ p ((modifyStore (·.modifySymbol owner fun o =>
        if o.typeParameters.contains name then o
        else { o with typeParameters := o.typeParameters ++ [name] })).run p).2
  | exposed (module : ScopeId) (name : String) (entry : ExportEntry) :
      Step φ p ((expose module name entry).run p).2
  | star (module : ScopeId) (specifier : String) :
      Step φ p ((modifyStore (·.modifyScope module fun sc =>
        { sc with starExports := sc.starExports ++ [specifier] })).run p).2
  | ambient (module : ScopeId) :
      Step φ p ((modifyStore (·.modifyScope module fun sc =>
        { sc with exportsAll := true })).run p).2
  | block (module : ScopeId) (symbol : SymbolId) :
      Step φ p ((modifyStore (·.modifyScope module fun sc =>
        { sc with table := .staticsOf symbol, exportsAll := true })).run p).2
  | quoted (specifier : String) (module : ScopeId) :
      Step φ p ((modifyBinding fun b =>
        { b with ambientModules := b.ambientModules.putNew specifier module }).run p).2

/-- Binding goes on, in any number of steps. -/
abbrev Steps (φ : Node → Prop) : Progress → Progress → Prop :=
  Relation.ReflTransGen (Step φ)

variable {α β : Type} {φ : Node → Prop} {R : α → Prop}

/-- An action that is a sequence of steps, with a result that has `R`. -/
def Takes (φ : Node → Prop) (R : α → Prop) (x : Bind α) : Prop :=
  ∀ p, Steps φ p (x.run p).2 ∧ R (x.run p).1

/-- An action that is a sequence of steps, whatever its result is. -/
abbrev Goes (φ : Node → Prop) (x : Bind α) : Prop :=
  Takes φ (fun _ => True) x

/-- What is left to be bound are constructs with `φ`. -/
abbrev Leaving (φ : Node → Prop) (x : Bind (List Task)) : Prop :=
  Takes φ (fun rest => ∀ t ∈ rest, φ t.node) x

namespace Takes

/-- A result takes no step. -/
theorem pure {a : α} (h : R a) : Takes φ R (Pure.pure a) :=
  fun _ => ⟨.refl, h⟩

/-- An action that does nothing takes no step. -/
theorem done {a : α} : Goes φ (Pure.pure a) :=
  pure trivial

/-- Two parts take their steps one after the other. -/
theorem bind {x : Bind β} {f : β → Bind α} {S : β → Prop} (hx : Takes φ S x)
    (hf : ∀ b, S b → Takes φ R (f b)) : Takes φ R (x >>= f) := fun p =>
  have hrest := hf _ (hx p).2 _
  ⟨(hx p).1.trans hrest.1, hrest.2⟩

/-- The first of two actions may have any result. -/
theorem seq {x : Bind β} {f : β → Bind α} (hx : Goes φ x) (hf : ∀ b, Takes φ R (f b)) :
    Takes φ R (x >>= f) :=
  hx.bind fun b _ => hf b

/-- A function of a result takes no further step. -/
theorem map {x : Bind β} {f : β → α} (hx : Goes φ x) : Goes φ (f <$> x) :=
  hx

/-- Looking at the progress takes no step. -/
theorem get {f : Progress → Bind α} (hf : ∀ p, Takes φ R (f p)) :
    Takes φ R (MonadState.get >>= f) :=
  fun p => hf p p

/-- The actions for a list take their steps one after the other. -/
theorem forM {l : List β} {f : β → Bind Unit} (h : ∀ b ∈ l, Goes φ (f b)) :
    Goes φ (l.forM f) := by
  induction l with
  | nil => exact done
  | cons b rest ih =>
    exact seq (h b List.mem_cons_self) fun _ => ih fun c hc => h c (List.mem_cons_of_mem _ hc)

/-- An action may be one step. -/
theorem step {x : Bind α} (h : ∀ p, Step φ p (x.run p).2) : Goes φ x :=
  fun p => ⟨.single (h p), trivial⟩

end Takes

/-! ## Scopes, declarations and members -/

/-- Opening a scope is done in steps. -/
theorem openScope_goes {kind : ScopeKind} {node : Node} {parent : ScopeId} :
    Goes φ (openScope kind node parent) :=
  .step fun _ => .scope kind node parent

/-- Declaring a name in a scope is done in steps. -/
theorem declare_goes {scope : ScopeId} {d : Declaration} (hd : d.symbol = none) (hφ : φ d.node) :
    Goes φ (declare scope d) :=
  .step fun _ => .declare scope d hd hφ

/-- Recording a declaration is done in steps. -/
theorem record_goes {d : Declaration} (hd : d.symbol = none) (hφ : φ d.node) :
    Goes φ (record d) :=
  .step fun _ => .unattached d hd hφ

/-- Declaring a member is done in steps. -/
theorem declareMember_goes {owner : SymbolId} {d : Declaration} (hd : d.symbol = none)
    (hφ : φ d.node) : Goes φ (declareMember owner d) :=
  .step fun _ => .member owner d hd hφ

/-- Adding a construct signature is done in steps. -/
theorem addConstructSignature_goes {owner : SymbolId} {d : Declaration} (hφ : φ d.node) :
    Goes φ (addConstructSignature owner d) :=
  .step fun _ => .constructs owner d hφ

/-- Adding a call signature is done in steps. -/
theorem addCallSignature_goes {owner : SymbolId} {d : Declaration} (hφ : φ d.node) :
    Goes φ (addCallSignature owner d) :=
  .step fun _ => .calls owner d hφ

/-- Exposing a name is done in steps. -/
theorem expose_goes {module : ScopeId} {name : String} {entry : ExportEntry} :
    Goes φ (expose module name entry) :=
  .step fun _ => .exposed module name entry

variable (hφ : PassesDown φ)
include hφ

/-- Declaring type parameters is done in steps. -/
theorem declareTypeParameters_goes {node : Node} {scope : ScopeId} {owner : Option SymbolId}
    (hnode : φ node) : Goes φ (declareTypeParameters node scope owner) := by
  refine .forM fun param hparam => ?_
  split
  · exact .done
  · refine .seq (declare_goes rfl (hφ.of_mem_constructsIn hnode hparam)) fun _ => ?_
    split
    · exact .done
    · exact .step fun _ => .typeParameter _ _

/-! ## Classes, types and enumerations -/

/-- Declaring the properties among the parameters of a constructor is done in steps. -/
theorem declareParameterProperties_goes {owner : SymbolId} {ctor : Node} (hctor : φ ctor) :
    Goes φ (declareParameterProperties owner ctor) := by
  refine .forM fun param hparam => ?_
  split
  · split
    · split
      · exact declareMember_goes rfl (hφ.of_mem_constructsIn hctor hparam)
      · exact .done
    · exact .done
  · exact .done

/-- Declaring a method is done in steps. -/
theorem declareMethod_goes {owner : SymbolId} {member : Node} (hmember : φ member) :
    Goes φ (declareMethod owner member) := by
  unfold declareMethod
  dsimp only
  split
  · exact .done
  · split
    · exact .seq (addConstructSignature_goes hmember) fun _ =>
        declareParameterProperties_goes hφ hmember
    · exact declareMember_goes rfl hmember

/-- Declaring a member of a class is done in steps. -/
theorem declareClassMember_goes {owner : SymbolId} {member : Node} (hmember : φ member) :
    Goes φ (declareClassMember owner member) := by
  unfold declareClassMember
  split
  · exact declareMethod_goes hφ hmember
  · split
    · unfold declareField
      dsimp only
      split
      · exact .done
      · exact declareMember_goes rfl hmember
    · exact .done

/-- Declaring a part of an object type is done in steps. -/
theorem declareTypeMember_goes {owner : SymbolId} {scope : ScopeId} {member : Node}
    (hmember : φ member) : Goes φ (declareTypeMember owner scope member) := by
  -- Type parameters of the part get a scope of their own.
  have hown : Goes φ (if (member.child? .typeParameters).isSome then do
      let inner ← openScope .function member scope
      declareTypeParameters member inner none
    else Pure.pure ()) := by
    split
    · exact .seq openScope_goes fun _ => declareTypeParameters_goes hφ hmember
    · exact .done
  unfold declareTypeMember
  dsimp only
  split
  · exact .seq (declareMember_goes rfl hmember) fun _ => hown
  · exact .seq (declareMember_goes rfl hmember) fun _ => hown
  · exact .seq (addConstructSignature_goes hmember) fun _ => hown
  · exact .seq (addCallSignature_goes hmember) fun _ => hown
  · exact .done

omit hφ in
/-- Declaring a member of an enumeration is done in steps. -/
theorem declareEnumMember_goes {owner : SymbolId} {member : Node} (hmember : φ member) :
    Goes φ (declareEnumMember owner member) := by
  unfold declareEnumMember
  -- Which construct the name is does not matter.
  generalize (if member.is .enumAssignment then member.child? .name else some member) = nameNode
  dsimp only
  split
  · exact .done
  · exact declareMember_goes rfl hmember

/-! ## Imports and exports -/

omit hφ in
/-- Declaring an imported name is done in steps. -/
theorem declareAlias_goes {scope : ScopeId} {specifier imported name : String}
    {node nameNode : Node} (hnode : φ node) :
    Goes φ (declareAlias scope specifier imported name node nameNode) :=
  .seq (declare_goes rfl hnode) fun _ => .done

/-- Binding a part of an import clause is done in steps. -/
theorem bindImportPart_goes {scope : ScopeId} {specifier : String} {part : Node}
    (hpart : φ part) : Goes φ (bindImportPart scope specifier part) := by
  unfold bindImportPart
  split
  -- The whole module, its default export, a list of names.
  · exact declareAlias_goes hpart
  · split
    · exact declareAlias_goes hpart
    · exact .done
  · refine .forM fun item hitem => ?_
    split
    · dsimp only
      split
      · exact declareAlias_goes (hφ.of_mem_constructs hpart hitem)
      · exact .done
    · exact .done
  · exact .done

/-- Binding an import statement is done in steps. -/
theorem bindImport_goes {scope : ScopeId} {node : Node} (hnode : φ node) :
    Goes φ (bindImport scope node) := by
  refine .forM fun child hchild => ?_
  have hchild := hφ.of_mem_constructs hnode hchild
  split
  · exact .forM fun part hpart => bindImportPart_goes hφ (hφ.of_mem_constructs hchild hpart)
  · split
    · exact declareAlias_goes hchild
    · exact .done
  · exact .done

omit hφ in
/-- Exposing what is declared is done in steps. -/
theorem exposeDeclared_goes {module : ScopeId} {isDefault : Bool} {declaration : Node} :
    Goes φ (exposeDeclared module isDefault declaration) := by
  unfold exposeDeclared
  split
  · split
    · exact expose_goes
    · exact .done
  · exact .forM fun _ _ => expose_goes

omit hφ in
/-- Exposing a value is done in steps. -/
theorem exposeValue_goes {module : ScopeId} {name : String} {value : Node} (hvalue : φ value) :
    Goes φ (exposeValue module name value) := by
  unfold exposeValue
  split
  · exact expose_goes
  · exact .seq (x := introduce { kind := .exportValue, name, node := value })
      (.step fun _ => .introduced _ rfl hvalue) fun _ => expose_goes

omit hφ in
/-- Exposing the name of a specifier is done in steps. -/
theorem exposeSpecifier_goes {module : ScopeId} {specifier : Option String} {item : Node} :
    Goes φ (exposeSpecifier module specifier item) := by
  unfold exposeSpecifier
  split
  · dsimp only
    split
    · split
      · exact expose_goes
      · exact expose_goes
    · exact .done
  · exact .done

omit hφ in
/-- Exposing the names of a list is done in steps. -/
theorem exposeNames_goes {module : ScopeId} {node : Node} :
    Goes φ (exposeNames module node) := by
  unfold exposeNames
  dsimp only
  split
  -- A list of names, a star under a name, a plain star.
  · exact .forM fun _ _ => exposeSpecifier_goes
  · split
    · split
      · exact expose_goes
      · exact .done
    · exact .done
    · split
      · exact .step fun _ => .star module _
      · exact .done
    · exact .done

/-- Binding an export statement is done in steps, and leaves constructs with what is handed down. -/
theorem bindExport_takes {scope : ScopeId} {node : Node} (hnode : φ node) :
    Takes φ (fun rest => ∀ c ∈ rest, φ c) (bindExport scope node) := by
  have hone : ∀ c : Node, φ c → ∀ d ∈ [c], φ d := fun _ hc _ hd => List.mem_singleton.mp hd ▸ hc
  refine .get fun now => ?_
  dsimp only
  split
  · rename_i declaration hd
    exact .seq exposeDeclared_goes fun _ => .pure (hone _ (hφ.of_child? hnode hd))
  · split
    · split
      · rename_i value hv
        -- The value of a default export has a field in some grammars, and is the last construct in
        -- others.
        have hvalue : φ value := by
          rcases Option.or_eq_some_iff.mp hv with hv | ⟨-, hv⟩
          · exact hφ.of_child? hnode hv
          · exact hφ.of_mem_constructs hnode (List.mem_of_getLast? hv)
        exact .seq (exposeValue_goes hvalue) fun _ => .pure (hone _ hvalue)
      · exact .pure nofun
    · exact .seq exposeNames_goes fun _ => .pure nofun

/-! ## Functions and classes -/

/-- Declaring parameters is done in steps. -/
theorem declareParameters_goes {inner : ScopeId} {node : Node} (hnode : φ node) :
    Goes φ (declareParameters inner node) := by
  have hmany : Goes φ ((node.constructsIn .parameters).forM fun param =>
      (boundNames param).forM fun name => do
        let _ ← declare inner
          { kind := .parameter, name := name.text, node := param, nameNode := some name }) :=
    .forM fun _ hparam => .forM fun _ _ =>
      .seq (declare_goes rfl (hφ.of_mem_constructsIn hnode hparam)) fun _ => .done
  unfold declareParameters
  split
  · rename_i single hsingle
    exact .seq (declare_goes rfl (hφ.of_child? hnode hsingle)) fun _ => hmany
  · exact hmany

omit hφ in
/-- The tasks that a construct leaves have what is handed down. -/
theorem leaving_tasks {scope enclosing : ScopeId} {nodes : List Node} (h : ∀ c ∈ nodes, φ c) :
    Leaving φ (Pure.pure (tasks scope enclosing nodes)) := by
  refine .pure fun t ht => ?_
  obtain ⟨c, hc, rfl⟩ := List.mem_map.mp ht
  exact h c hc

/-- The parts in two roles have what is handed down. -/
theorem forall_parts {node : Node} (hnode : φ node) (f g : Field) :
    ∀ c ∈ (node.child? f).toList ++ (node.child? g).toList, φ c := fun _ hc =>
  (List.mem_append.mp hc).elim (fun hc => hφ.of_child? hnode (Option.mem_toList.mp hc))
    fun hc => hφ.of_child? hnode (Option.mem_toList.mp hc)

omit hφ in
/-- A function is declared in the scope around it, or recorded, unless it is an expression with a
name of its own. -/
theorem recordFunction_takes {t : Task} (ht : φ t.node)
    (hnamed : ¬(isFunctionExpression t.node = true ∧ (t.node.child? .name).isSome = true)) :
    Takes φ (fun expression => expression.isSome → t.node.child? .name = none)
      (recordFunction t) := by
  unfold recordFunction
  dsimp only
  split
  · split
    · exact .seq (declare_goes rfl ht) fun _ => .pure nofun
    · exact .pure nofun
  · split
    · rename_i hexpression
      -- An expression that has a name has been excluded.
      have hname : t.node.child? .name = none := by simpa [hexpression] using hnamed
      exact .bind (record_goes rfl ht) fun _ _ => .pure fun _ => hname
    · split
      · exact .seq (record_goes rfl ht) fun _ => .pure nofun
      · exact .pure nofun

omit hφ in
/-- The name of a function expression is declared inside it. -/
theorem bindFunction_eq {t : Task} (hexpression : isFunctionExpression t.node = true)
    {name : Node} (hname : t.node.child? .name = some name) :
    bindFunction t = (do
      let inner ← declareWithin t.scope
        { kind := .functionExpression, name := functionName t.node, node := t.node
          nameNode := some name }
      declareTypeParameters t.node inner none
      declareParameters inner t.node
      return tasks inner inner
        (t.node.constructsIn .parameters ++ (t.node.child? .body).toList)) := by
  -- A function expression is none of the kinds that are declared in the scope around them.
  have hother : t.node.isOneOf
      [.functionDeclaration, .generatorFunctionDeclaration, .functionSignature] = false := by
    obtain ⟨k, hk, hkind⟩ := List.any_eq_true.mp hexpression
    simp only [List.mem_cons, List.not_mem_nil, or_false] at hk
    rcases hk with rfl | rfl | rfl <;> simp [Node.isOneOf, Node.is_eq_false hkind]
  unfold bindFunction recordFunction
  simp only [hother, hexpression, hname]
  rfl

/-- Binding a function is done in steps, and leaves constructs with what is handed down. -/
theorem bindFunction_takes {t : Task} (ht : φ t.node) : Leaving φ (bindFunction t) := by
  -- The type parameters and the parameters are declared first, then defaults and body are left.
  have hinside : ∀ inner : ScopeId, Leaving φ (do
      declareTypeParameters t.node inner none
      declareParameters inner t.node
      return tasks inner inner
        (t.node.constructsIn .parameters ++ (t.node.child? .body).toList)) := fun inner =>
    .seq (declareTypeParameters_goes hφ ht) fun _ => .seq (declareParameters_goes hφ ht) fun _ =>
      leaving_tasks fun _ hc => (List.mem_append.mp hc).elim (hφ.of_mem_constructsIn ht)
        fun hc => hφ.of_child? ht (Option.mem_toList.mp hc)
  by_cases hnamed : isFunctionExpression t.node = true ∧ (t.node.child? .name).isSome = true
  · obtain ⟨hexpression, hname⟩ := hnamed
    obtain ⟨name, hname⟩ := Option.isSome_iff_exists.mp hname
    rw [bindFunction_eq hexpression hname]
    exact .seq (.step fun _ => .within t.scope _ rfl ht) hinside
  · refine .bind (recordFunction_takes ht hnamed) fun expression hexpression =>
      .seq openScope_goes fun inner => ?_
    split
    -- The name of an expression is declared inside, which is the other case.
    · rename_i d name hname
      exact absurd (hexpression rfl) (by simp [hname])
    · exact hinside inner

omit hφ in
/-- The declaration of a class. -/
def classDeclared (node : Node) : Declaration :=
  { kind := .class, name := (classNameOf node).1, node, nameNode := (classNameOf node).2 }

omit hφ in
/-- The name of a class expression is declared inside it. -/
theorem bindClass_eq {t : Task} (hexpression : t.node.is .classExpression = true)
    (hname : (classNameOf t.node).2.isSome = true) :
    bindClass t = (do
      let (symbol, inner) ← introduceWithin t.scope (classDeclared t.node)
      declareTypeParameters t.node inner symbol
      (t.node.constructsIn .body).forM (declareClassMember symbol)
      return tasks inner t.enclosing t.node.namedChildren) := by
  have hother : isClassDeclaration t.node = false := by
    simp [isClassDeclaration, Node.isOneOf, Node.is_eq_false hexpression]
  unfold bindClass declareClass
  simp only [hother, hexpression, hname]
  rfl

/-- A class that has a symbol and a scope declares its type parameters and members. -/
theorem classInside_takes {t : Task} (ht : φ t.node) (symbol : SymbolId) (inner : ScopeId) :
    Leaving φ (do
      declareTypeParameters t.node inner symbol
      (t.node.constructsIn .body).forM (declareClassMember symbol)
      return tasks inner t.enclosing t.node.namedChildren) :=
  .seq (declareTypeParameters_goes hφ ht) fun _ =>
    .seq (.forM fun _ hmember =>
      declareClassMember_goes hφ (hφ.of_mem_constructsIn ht hmember)) fun _ =>
        leaving_tasks fun c hc => hφ _ ht c (List.mem_filter.mp hc).1

/-- Binding a class is done in steps, and leaves constructs with what is handed down. -/
theorem bindClass_takes {t : Task} (ht : φ t.node) : Leaving φ (bindClass t) := by
  have hinside := classInside_takes hφ ht
  by_cases hnamed : t.node.is .classExpression = true ∧ (classNameOf t.node).2.isSome = true
  · rw [bindClass_eq hnamed.1 hnamed.2]
    exact .seq (.step fun _ => .introducedWithin t.scope (classDeclared t.node) rfl ht)
      fun (symbol, inner) => hinside symbol inner
  · have hdeclare : Goes φ (declareClass t) := by
      unfold declareClass
      dsimp only
      split
      · exact declare_goes rfl ht
      · exact .step fun _ => .introduced (classDeclared t.node) rfl ht
    -- The condition on the name says which of the two scopes the members go into.
    refine .seq hdeclare fun symbol => .seq openScope_goes fun inner => ?_
    dsimp only
    rw [if_neg (by simpa using hnamed)]
    exact hinside symbol inner

/-! ## Other constructs -/

/-- Binding an interface is done in steps. -/
theorem bindInterface_goes {t : Task} (ht : φ t.node) : Goes φ (bindInterface t) := by
  unfold bindInterface
  split
  · exact .done
  · exact .seq (declare_goes rfl ht) fun _ => .seq openScope_goes fun _ =>
      .seq (declareTypeParameters_goes hφ ht) fun _ => .forM fun _ hmember =>
        declareTypeMember_goes hφ (hφ.of_mem_constructsIn ht hmember)

/-- Binding a type alias is done in steps. -/
theorem bindTypeAlias_goes {t : Task} (ht : φ t.node) : Goes φ (bindTypeAlias t) := by
  unfold bindTypeAlias
  split
  · exact .done
  · refine .seq (declare_goes rfl ht) fun _ => .seq openScope_goes fun _ =>
      .seq (declareTypeParameters_goes hφ ht) fun _ => ?_
    split
    · rename_i value hvalue
      split
      · exact .forM fun _ hmember =>
          declareTypeMember_goes hφ (hφ.of_mem_constructs (hφ.of_child? ht hvalue) hmember)
      · exact .done
    · exact .done

/-- Binding an enumeration is done in steps. -/
theorem bindEnum_goes {t : Task} (ht : φ t.node) : Goes φ (bindEnum t) := by
  unfold bindEnum
  split
  · exact .done
  · exact .seq (declare_goes rfl ht) fun _ => .forM fun _ hmember =>
      declareEnumMember_goes (hφ.of_mem_constructsIn ht hmember)

omit hφ in
/-- Declaring variables is done in steps. -/
theorem declareVariables_goes {scope : ScopeId} {node : Node} {names : List Node}
    (hnode : φ node) : Goes φ (declareVariables scope node names) :=
  .forM fun _ _ => .seq (declare_goes rfl hnode) fun _ => .done

/-- Binding variables is done in steps, and leaves constructs with what is handed down. -/
theorem bindVariables_takes {t : Task} (ht : φ t.node) : Leaving φ (bindVariables t) := by
  refine .seq (.forM fun _ hd => declareVariables_goes
    (hφ.of_mem_constructs ht (List.mem_filter.mp hd).1)) fun _ => leaving_tasks fun c hc => ?_
  obtain ⟨d, hd, hc⟩ := List.mem_filterMap.mp hc
  exact hφ.of_child? (hφ.of_mem_constructs ht (List.mem_filter.mp hd).1) hc

/-- Binding a loop over items is done in steps, and leaves constructs with what is handed down. -/
theorem bindIteration_takes {t : Task} (ht : φ t.node) : Leaving φ (bindIteration t) := by
  have hrest : ∀ inner, Leaving φ (Pure.pure (tasks inner t.enclosing
      ((t.node.child? .right).toList ++ (t.node.child? .body).toList))) := fun _ =>
    leaving_tasks (forall_parts hφ ht .right .body)
  refine .seq openScope_goes fun inner => ?_
  dsimp only
  split
  · exact .seq (declareVariables_goes ht) fun _ => hrest inner
  · exact hrest inner

/-- Binding a handler of exceptions is done in steps, and leaves constructs with what is handed
down. -/
theorem bindHandler_takes {t : Task} (ht : φ t.node) : Leaving φ (bindHandler t) :=
  .seq openScope_goes fun _ => .seq (declareVariables_goes ht) fun _ =>
    leaving_tasks fun _ hc => hφ.of_child? ht (Option.mem_toList.mp hc)

/-- Binding an ambient declaration is done in steps, and leaves constructs with what is handed
down. -/
theorem bindAmbient_takes {t : Task} (ht : φ t.node) : Leaving φ (bindAmbient t) := by
  unfold bindAmbient
  split
  · refine .get fun now => ?_
    dsimp only
    split
    · rename_i block hblock
      have hφblock := hφ.of_mem_constructs ht (List.mem_of_find?_eq_some hblock)
      exact leaving_tasks (hφ _ hφblock)
    · exact .pure nofun
  · exact leaving_tasks (hφ _ ht)

/-- Binding a namespace or a module is done in steps, and leaves constructs with what is handed
down. -/
theorem bindModule_takes {t : Task} (ht : φ t.node) : Leaving φ (bindModule t) := by
  unfold bindModule
  split
  · exact .pure nofun
  refine .seq openScope_goes fun inner => ?_
  -- What is left are the statements of the body, if there is one.
  have hbody : Leaving φ (Pure.pure (tasks inner inner
      ((t.node.child? .body).toList.flatMap Node.children))) := leaving_tasks fun c hc => by
    obtain ⟨body, hbody, hc⟩ := List.mem_flatMap.mp hc
    exact hφ _ (hφ.of_child? ht (Option.mem_toList.mp hbody)) c hc
  dsimp only
  split
  · exact .seq (.step fun _ => .ambient inner) fun _ =>
      .seq (.step fun _ => .quoted _ inner) fun _ => hbody
  · exact .seq (declare_goes rfl ht) fun symbol =>
      .seq (.step fun _ => .block inner symbol) fun _ => hbody

/-! ## The walk -/

/-- Binding one construct takes steps for what it declares, and leaves parts of it. -/
theorem bindTask_takes {t : Task} (ht : φ t.node) : Leaving φ (bindTask t) := by
  have hchildren : ∀ {scope enclosing : ScopeId},
      Leaving φ (Pure.pure (tasks scope enclosing t.node.children)) := leaving_tasks (hφ _ ht)
  have hblock : Leaving φ (do
      let inner ← openScope .block t.node t.scope
      return tasks inner t.enclosing t.node.children) := .seq openScope_goes fun _ => hchildren
  -- Some constructs leave nothing to be bound inside them.
  have hnone : ∀ {action : Bind Unit}, Goes φ action → Leaving φ (do action; return []) :=
    fun h => .seq h fun _ => .pure nofun
  -- One case for each kind of construct, in the order of the definition.
  unfold bindTask
  split
  · exact bindFunction_takes hφ ht
  · exact bindFunction_takes hφ ht
  · exact bindFunction_takes hφ ht
  · exact bindFunction_takes hφ ht
  · exact bindFunction_takes hφ ht
  · exact bindFunction_takes hφ ht
  · exact bindFunction_takes hφ ht
  · exact bindClass_takes hφ ht
  · exact bindClass_takes hφ ht
  · exact bindClass_takes hφ ht
  · exact hnone (bindInterface_goes hφ ht)
  · exact hnone (bindTypeAlias_goes hφ ht)
  · exact hnone (bindEnum_goes hφ ht)
  · exact bindVariables_takes hφ ht
  · exact bindVariables_takes hφ ht
  · exact hnone (bindImport_goes hφ ht)
  · exact .bind (bindExport_takes hφ ht) fun _ hrest => leaving_tasks hrest
  · exact bindAmbient_takes hφ ht
  · exact bindModule_takes hφ ht
  · exact bindModule_takes hφ ht
  · exact hblock
  · exact hblock
  · exact bindIteration_takes hφ ht
  · exact bindHandler_takes hφ ht
  · exact hchildren

/-- Binding a construct and all that is inside it takes steps for what is declared there. -/
theorem bindFrom_goes (depth : Nat) {t : Task} (ht : φ t.node) : Goes φ (bindFrom depth t) := by
  induction depth generalizing t with
  | zero => exact .done
  | succ depth ih =>
    exact .bind (bindTask_takes hφ ht) fun _ hrest => .forM fun inside hinside =>
      ih (hrest inside hinside)

end Bind

end ScriptGraph.Binding
