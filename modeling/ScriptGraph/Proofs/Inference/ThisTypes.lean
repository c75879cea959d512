import ScriptGraph.Proofs.Inference.Consultations

/-!
# What `this` stands for in a class

The way up from `this` ends at the first construct that says what `this` means: a member of a class,
a class itself, or a function that is no arrow function. In a member of a class it is an instance of
the class, or the static side if the member is static. The class is found by the declaration at its
construct. A class that is exported as a value is declared twice there, and `this` goes by the
declaration that comes first.

- `thisOwner?`: the construct that says what `this` means
- `thisTypeFrom_eq`: what `this` stands for goes by this construct
- `this_types`: `this` in the members of a class, and the members of `this`
- `exists_this_without_members`: `this` in a class that is exported as a value
-/

namespace ScriptGraph.Inference

open Binding Syntax

/-! ## The way up from `this` -/

/-- Whether a construct is a class. -/
def isClassConstruct (n : Node) : Bool :=
  isClassDeclaration n || n.is .classExpression

/-- Whether a construct is a function with a `this` of its own. -/
def isOwnFunction (n : Node) : Bool :=
  n.isOneOf [.functionDeclaration, .generatorFunctionDeclaration, .functionExpression,
    .generatorFunction]

/-- Whether a construct is a method of an object literal. -/
def isObjectMethod (n : Node) : Bool :=
  n.is .methodDefinition && (n.parent.map (·.is .object)).getD false

/-- Whether a construct is a method, a constructor or a field of a class. -/
def isClassMember (n : Node) : Bool :=
  n.is .methodDefinition && !(n.parent.map (·.is .object)).getD false || isField n

/-- Whether a construct says what `this` means inside it. -/
def ownsThis (n : Node) : Bool :=
  isClassConstruct n || isOwnFunction n || n.is .methodDefinition || isField n

/-- The first construct on a way up that says what `this` means. -/
def thisOwnerFrom (source : Source) : List Crumb → Option Node
  | [] => none
  | c :: up =>
    let current : Node := ⟨source, c.parent, up⟩
    if ownsThis current then some current else thisOwnerFrom source up

/-- The innermost construct around a node that says what `this` means there. -/
def thisOwner? (n : Node) : Option Node :=
  thisOwnerFrom n.source n.trail

/-- The type of `this` that a class gives it. -/
def thisOfClass (b : FileBinding) (isStatic : Bool) (c : Node) : Inquiry Ty := do
  match b.declarationAt? c with
  | none => return .any
  | some d =>
    match (← declarationOf d).symbol with
    | none => return .any
    | some symbol => if isStatic then staticOf symbol else instanceOf symbol []

/-- What a construct that says what `this` means makes of it. -/
def thisIn (b : FileBinding) (isStatic : Bool) (current : Node) : Inquiry Ty :=
  if isClassConstruct current then thisOfClass b isStatic current
  else if isOwnFunction current then return .any
  else if isObjectMethod current then return .any
  else thisTypeFrom b current.source (current.hasToken "static") current.trail

/-- One step of the way up, with what is found further out. -/
def thisStep (b : FileBinding) (isStatic : Bool) (current : Node) (further : Inquiry Ty) :
    Inquiry Ty :=
  if isClassConstruct current then thisOfClass b isStatic current
  else if isOwnFunction current then return .any
  else if current.is .methodDefinition then
    if (current.parent.map (·.is .object)).getD false then return .any
    else thisTypeFrom b current.source (current.hasToken "static") current.trail
  else if isField current then
    thisTypeFrom b current.source (current.hasToken "static") current.trail
  else further

/-- The way up ends where a construct says what `this` means. -/
theorem thisStep_eq (b : FileBinding) (isStatic : Bool) (current : Node) (further : Inquiry Ty) :
    thisStep b isStatic current further =
      if ownsThis current then thisIn b isStatic current else further := by
  unfold thisStep thisIn ownsThis isObjectMethod
  cases hclass : isClassConstruct current with
  | true => rfl
  | false =>
    cases hfunction : isOwnFunction current with
    | true => rfl
    | false =>
      cases hmethod : current.is .methodDefinition with
      | true => rfl
      | false => cases isField current <;> rfl

/-- What `this` stands for goes by the first construct on the way up that says what it means. -/
theorem thisTypeFrom_eq (b : FileBinding) (source : Source) (isStatic : Bool) (trail : List Crumb) :
    thisTypeFrom b source isStatic trail =
      (thisOwnerFrom source trail).elim (return .any) (thisIn b isStatic) := by
  induction trail with
  | nil => rfl
  | cons c up ih =>
    have hfrom : thisTypeFrom b source isStatic (c :: up) =
        thisStep b isStatic ⟨source, c.parent, up⟩ (thisTypeFrom b source isStatic up) := rfl
    rw [hfrom, thisStep_eq, thisOwnerFrom]
    split
    · rfl
    · exact ih

/-- In a member of a class, `this` goes by the member and by what is around it. -/
theorem thisIn_member {m : Node} (hm : isClassMember m = true) (b : FileBinding) (isStatic : Bool) :
    thisIn b isStatic m =
      (thisOwner? m).elim (return .any) (thisIn b (m.hasToken "static")) := by
  -- A member is of one kind, so it is neither a class nor a function nor a method of an object.
  have hkinds : isClassConstruct m = false ∧ isOwnFunction m = false ∧
    isObjectMethod m = false := by
    rcases Bool.or_eq_true_iff.mp hm with hmethod | hfield
    · obtain ⟨hmethod, hobject⟩ := Bool.and_eq_true_iff.mp hmethod
      have hother : ∀ k' : Kind, k' ≠ .methodDefinition → m.is k' = false := fun k' hne =>
        Node.is_eq_false hmethod hne.symm
      simp only [Bool.not_eq_true'] at hobject
      simp [isClassConstruct, isClassDeclaration, isOwnFunction, isObjectMethod, Node.isOneOf,
        hother, hobject]
    · simp only [isField, Node.isOneOf, List.any_cons, List.any_nil, Bool.or_false,
        Bool.or_eq_true] at hfield
      rcases hfield with hfield | hfield <;>
        simp [isClassConstruct, isClassDeclaration, isOwnFunction, isObjectMethod, Node.isOneOf,
          Node.is_eq_of_kind? (Node.kind?_of_is hfield)]
  obtain ⟨hclass, hfunction, hobject⟩ := hkinds
  rw [thisIn, hclass, hfunction, hobject]
  exact thisTypeFrom_eq b m.source (m.hasToken "static") m.trail

/-! ## Classes -/

variable {oracle : Oracle} {k : Knowledge} {b : FileBinding} {n c : Node} {s : SymbolId}
  {name : String} {member : SymbolId}

/-- The declaration at a class is the one of the class, and belongs to a symbol. -/
structure DeclaresClass (st : Store) (b : FileBinding) (c : Node) (s : SymbolId) : Prop where
  construct : isClassConstruct c = true
  declared : ∃ d, b.declarationAt? c = some d ∧ (st.declaration d).kind = .class ∧
    (st.declaration d).symbol = some s

/-- A symbol as the types in a store refer to it. -/
def entityIn (st : Store) (s : SymbolId) : Entity :=
  ⟨s, (st.symbol s).name, (st.symbol s).typeParameters⟩

/-- What `this` stands for goes by the construct that owns it. -/
theorem run_thisType (hb : k.workspace.bound? n.source = some b) :
    ((thisType n).perform oracle).run k =
      (((thisOwner? n).elim (return .any) (thisIn b false)).perform oracle).run k := by
  unfold thisType
  rw [(Knowledge.knows_bindingOf oracle hb).run_bind (.refl k), thisTypeFrom_eq, thisOwner?]

/-- In a class it is the static side or an instance. -/
theorem run_thisOfClass (hc : DeclaresClass k.store b c s) (isStatic : Bool) :
    ((thisOfClass b isStatic c).perform oracle).run k =
      (if isStatic then .static (entityIn k.store s) else .object (entityIn k.store s) [], k) := by
  obtain ⟨d, hd, -, hsymbol⟩ := hc.declared
  -- The table leads to the declaration, whose symbol decides.
  have hrun : ((thisOfClass b isStatic c).perform oracle).run k =
      (((match (k.store.declaration d).symbol with
        | none => return .any
        | some symbol => if isStatic then staticOf symbol else instanceOf symbol []
        : Inquiry Ty)).perform oracle).run k := by
    unfold thisOfClass
    rw [hd]
    rfl
  rw [hrun, hsymbol]
  cases isStatic <;> rfl

/-- What stands in the table of a symbol is found there, whatever is looked at otherwise. -/
theorem run_lookup (table : Symbol → Table String SymbolId) {otherwise : Inquiry (Option SymbolId)}
    (h : (table (k.store.symbol s)).find? name = some member) :
    (Inquiry.perform oracle (do
      match (table ((← store).symbol s)).find? name with
      | some member => return some member
      | none => otherwise)).run k = (some member, k) := by
  have hrun : (Inquiry.perform oracle (do
      match (table ((← store).symbol s)).find? name with
      | some member => return some member
      | none => otherwise)).run k =
        (Inquiry.perform oracle (match (table (k.store.symbol s)).find? name with
          | some member => return some member
          | none => otherwise)).run k := rfl
  rw [hrun, h]
  rfl

/-- A member of its own comes before those that a class inherits. -/
theorem run_memberOf_instance (h : (k.store.symbol s).members.find? name = some member) :
    ((memberOf (.object (entityIn k.store s) []) name).perform oracle).run k = (some member, k) :=
  run_lookup Symbol.members h

/-- A static member of the class itself is found at once. -/
theorem run_staticMember (h : (k.store.symbol s).statics.find? name = some member) (steps : Nat) :
    ((staticMember steps s name).perform oracle).run k = (some member, k) := by
  unfold staticMember
  exact run_lookup Symbol.statics h

/-- So does a static of its own. -/
theorem run_memberOf_static (h : (k.store.symbol s).statics.find? name = some member) :
    ((memberOf (.static (entityIn k.store s)) name).perform oracle).run k = (some member, k) := by
  have hrun : ((memberOf (.static (entityIn k.store s)) name).perform oracle).run k =
      (Inquiry.perform oracle (do
        match ← staticMember memberSteps s name with
        | some member => return some member
        | none => globalMemberFrom 8 "Function" name)).run k := rfl
  rw [hrun, Inquiry.run_bind, run_staticMember h]
  rfl

/-- When the type of an expression is asked for first, it is worked out by its rule. -/
theorem run_typeOf (hempty : k.inProgress = [])
    (hnew : k.answers.find? (.expression n.key) = none) :
    ∃ oracle, ((typeOf n).conduct.run k).1 =
      (((expressionType n).perform oracle).run (k.asking (.expression n.key))).1 := by
  obtain ⟨depth, hdepth⟩ : ∃ depth, depthBound k.workspace = depth + 1 :=
    Nat.exists_eq_add_one.mpr (by unfold depthBound; omega)
  have hconduct : (typeOf n).conduct.run k = (answer (depth + 1) (.expression n)).run k := by
    unfold Inquiry.conduct
    rw [StateT.run_bind, StateT.run_get, pure_bind, hdepth]
    rfl
  refine ⟨answer depth, ?_⟩
  rw [hconduct, answer, answerBy, run_guarded, hnew, hempty]
  rfl

/-- In a member of a class, `this` is an instance of the class or its static side, as the member
says. Directly in the class it is an instance. -/
theorem typeOf_this (hempty : k.inProgress = []) (hb : k.workspace.bound? n.source = some b)
    (hthis : n.is .thisExpression = true) (hnew : k.answers.find? (.expression n.key) = none)
    (hclass : DeclaresClass k.store b c s) :
    let this := ((typeOf n).conduct.run k).1
    let e := entityIn k.store s
    (∀ m, thisOwner? n = some m → isClassMember m = true → thisOwner? m = some c →
      this = if m.hasToken "static" then .static e else .object e []) ∧
    (thisOwner? n = some c → this = .object e []) := by
  intro this e
  obtain ⟨oracle, htype⟩ := run_typeOf hempty hnew
  have hrule : expressionType n = thisType n := by
    unfold expressionType
    rw [Node.kind?_of_is hthis]
  -- While the type is being worked out, the store and the bindings are the same.
  let asking := k.asking (.expression n.key)
  have hasked : asking.workspace.bound? n.source = some b := hb
  have hstored : DeclaresClass asking.store b c s := hclass
  have hfound : this =
      ((((thisOwner? n).elim (return .any) (thisIn b false)).perform oracle).run asking).1 := by
    rw [← run_thisType hasked, ← hrule]
    exact htype
  -- Once the class is reached, the side is the one that has been carried along.
  have hgives : ∀ isStatic, (((thisIn b isStatic c).perform oracle).run asking).1 =
      if isStatic then .static e else .object e [] := fun isStatic => by
    rw [thisIn, if_pos hclass.construct, run_thisOfClass hstored]
    rfl
  refine ⟨fun m hm hmember hc => ?_, fun hc => ?_⟩
  · rw [hfound, hm, Option.elim, thisIn_member hmember, hc]
    exact hgives _
  · rw [hfound, hc]
    exact hgives false

/-- The way up from `this` ends at a member of a class, with the class around it, or at the class
itself. If the declaration at the class is its own, `this` is an instance of the class in a member
that is not static, and the static side in a static member. Outside of the members, as in a static
block, it is an instance as well. In either case `this` has the members of the class. -/
theorem this_types {k : Knowledge} (hempty : k.inProgress = []) {n c : Node} {b : FileBinding}
    {s : SymbolId} (hb : k.workspace.bound? n.source = some b) (hthis : n.is .thisExpression = true)
    (hnew : k.answers.find? (.expression n.key) = none) (hclass : DeclaresClass k.store b c s) :
    let this := ((typeOf n).conduct.run k).1
    let e := entityIn k.store s
    (∀ m, thisOwner? n = some m → isClassMember m = true → thisOwner? m = some c →
      this = if m.hasToken "static" then .static e else .object e []) ∧
    (thisOwner? n = some c → this = .object e []) ∧
    ∀ name member,
      ((k.store.symbol s).members.find? name = some member →
        ((memberOf (.object e []) name).conduct.run k).1 = some member) ∧
      ((k.store.symbol s).statics.find? name = some member →
        ((memberOf (.static e) name).conduct.run k).1 = some member) := by
  intro this e
  obtain ⟨hmembers, hdirectly⟩ := typeOf_this hempty hb hthis hnew hclass
  -- The two look-ups find the member in the table at once, whatever the oracle answers.
  obtain ⟨answers, hconduct⟩ : ∃ answers : Oracle, ∀ {α : Type} (x : Inquiry α),
      x.conduct.run k = (x.perform answers).run k := by
    obtain ⟨answers, -, hconduct⟩ := exists_oracle anyFile k
    exact ⟨answers, fun x => hconduct x k (.refl k)⟩
  refine ⟨hmembers, hdirectly, fun name member => ⟨fun h => ?_, fun h => ?_⟩⟩
  · rw [hconduct, run_memberOf_instance h]
  · rw [hconduct, run_memberOf_static h]

/-- A class with a static method. -/
def staticMethodSource : Source :=
  .ofText "/a.ts" "class A{static m(){()=>this}}" .ts

/-- In an arrow function of that method `this` is the static side of the class. -/
theorem this_types_in_static_method :
    let start := Knowledge.start {} {} default staticMethodSource
    ∃ n ∈ staticMethodSource.root.preorder, ∃ s,
      n.is .thisExpression = true ∧ (start.store.symbol s).name = "A" ∧
        ((typeOf n).conduct.run start).1 = .static (entityIn start.store s) := by
  intro start
  let b := (Binding.bind staticMethodSource (Library.ofSource default).store).1
  have hmember : ∃ n ∈ staticMethodSource.root.preorder, n.is .thisExpression = true ∧
      ∃ m ∈ thisOwner? n, isClassMember m = true ∧ m.hasToken "static" = true ∧
        ∃ c ∈ thisOwner? m, isClassConstruct c = true ∧
          ∃ d ∈ b.declarationAt? c, (start.store.declaration d).kind = .class ∧
            ∃ s ∈ (start.store.declaration d).symbol, (start.store.symbol s).name = "A" := by
    decide +kernel
  obtain ⟨n, hn, hthis, m, hm, hmember, hstatic, c, hc, hconstruct, d, hd, hkind, s, hs, hname⟩ :=
    hmember
  -- Only the file under analysis is looked at, so its binding is the one that was made at the
  -- start.
  have hb : start.workspace.bound? n.source = some b := by
    rw [source_of_mem_preorder hn]
    exact (if_neg (by decide)).trans
      (Workspace.bindings_ofSource {} {} (.ofSource default) staticMethodSource)
  obtain ⟨hstatically, -⟩ := this_types rfl hb hthis rfl ⟨hconstruct, d, hd, hkind, hs⟩
  refine ⟨n, hn, s, hthis, hname, ?_⟩
  rw [hstatically m hm hmember hc, hstatic]
  rfl

/-- A class that is exported as a value. -/
def exportedClassSource : Source :=
  .ofText "/a.ts" "export default class{m(){this}}" .ts

/-- The declaration at that class is that of the exported value. It comes before the one of the
class, whose members `this` does not have. -/
theorem exists_this_without_members :
    let start := Knowledge.start {} {} default exportedClassSource
    ∃ n ∈ exportedClassSource.root.preorder, ∃ m ∈ thisOwner? n, ∃ c ∈ thisOwner? m,
      n.is .thisExpression = true ∧ isClassMember m = true ∧ isClassConstruct c = true ∧
        ∃ d ∈ List.range start.store.declarations.size,
          (start.store.declaration ⟨d⟩).kind = .class ∧ (start.store.declaration ⟨d⟩).node.same c ∧
            ∃ s ∈ (start.store.declaration ⟨d⟩).symbol,
              ((start.store.symbol s).members.find? "m").isSome ∧
                ((memberOf ((typeOf n).conduct.run start).1 "m").conduct.run start).1 = none := by
  decide +kernel

/-- A class with a static block. -/
def staticBlockSource : Source :=
  .ofText "/a.ts" "class A{static m(){}static{this}}" .ts

/-- There `this` does not have the static members of the class. -/
theorem exists_this_without_statics :
    let start := Knowledge.start {} {} default staticBlockSource
    ∃ n ∈ staticBlockSource.root.preorder, ∃ c ∈ thisOwner? n,
      n.is .thisExpression = true ∧ isClassConstruct c = true ∧
        ∃ d ∈ (Binding.bind staticBlockSource (Library.ofSource default).store).1.declarationAt? c,
          ∃ s ∈ (start.store.declaration d).symbol,
            ((start.store.symbol s).statics.find? "m").isSome ∧
              ((memberOf ((typeOf n).conduct.run start).1 "m").conduct.run start).1 = none := by
  decide +kernel

end ScriptGraph.Inference
