import ScriptGraph.Proofs.Inference.Requests
import ScriptGraph.Proofs.Syntax.Kinds

/-!
# The parts of a value that patterns take

A pattern takes a value apart step by step: an object pattern goes to the member under a key, an
array pattern to the element at a position. Each name that a pattern binds is reached by such
steps. The type of the name is found by one step only, from the type of the whole value: to the
elements if the name stands directly in an array pattern, otherwise to the member that is called
like the name. So it is the type along the steps if there is just this one step.

- `patternTargets`: the names that a pattern binds, with the steps to each of them
- `typeAlong`: the type that is reached along some steps
- `destructured_types`: names that are reached by one step have the type along it
- `exists_name_of_other_member`: names that are reached under another name, or by several steps, may
  have the type of another member
-/

namespace ScriptGraph.Inference

open Binding Syntax

/-! ## The steps to the names of a pattern -/

/-- A step from a value to one of its parts. -/
inductive PatternStep
  | member (key : String)
  | element (position : Nat)
deriving DecidableEq, Repr

/-- The steps to a part of a pattern, given the steps to the pattern. -/
def stepsInto (pattern : Node) (position : Nat) (steps : List PatternStep) : List PatternStep :=
  match pattern.kind? with
  | some .pairPattern => steps ++ [.member (memberName (pattern.child? .key))]
  | some .arrayPattern => steps ++ [.element position]
  | _ => steps

mutual

/-- The names that a pattern binds, with the steps to each of them. -/
def targetsFrom (source : Source) (trail : List Crumb) (steps : List PatternStep) :
    Tree → List (Node × List PatternStep)
  | .node (.token _) _ _ _ _ => []
  | .node (.construct k) r s e cs =>
    let n : Node := ⟨source, .node (.construct k) r s e cs, trail⟩
    if k == .identifier then [(n, steps)]
    else if k == .shorthandPropertyIdentifierPattern then [(n, steps ++ [.member n.text])]
    -- A rest gathers several parts, and is no single one of them.
    else if k == .restPattern then []
    else targetsAmong n (patternParts k) steps 0 0 cs

/-- The names that the parts of a pattern bind. Elements of arrays are counted by the commas. -/
def targetsAmong (pattern : Node) (parts : PatternParts) (steps : List PatternStep)
    (index position : Nat) : List Tree → List (Node × List PatternStep)
  | [] => []
  | t :: ts =>
    (if parts.includes t then
      targetsFrom pattern.source (⟨pattern.tree, index⟩ :: pattern.trail)
        (stepsInto pattern position steps) t
    else []) ++
      targetsAmong pattern parts steps (index + 1)
        (if t.label == .token "," then position + 1 else position) ts

end

/-- The names that a pattern binds, with the steps to each of them. -/
def patternTargets (pattern : Node) : List (Node × List PatternStep) :=
  targetsFrom pattern.source pattern.trail [] pattern.tree

mutual

/-- Apart from rests, the steps are told of the names that a pattern binds, in the same order. -/
theorem targetsFrom_sublist (source : Source) (trail : List Crumb) (steps : List PatternStep) :
    ∀ t : Tree,
      ((targetsFrom source trail steps t).map (·.1)).Sublist (boundNamesFrom source trail t)
  | .node (.token _) _ _ _ _ => .refl _
  | .node (.construct k) r s e cs => by
    rw [targetsFrom, boundNamesFrom]
    -- A name is both a bound name and a target, without steps of its own.
    by_cases hname : k = .identifier ∨ k = .shorthandPropertyIdentifierPattern
    · rcases hname with rfl | rfl <;> exact .refl _
    · obtain ⟨hidentifier, hshorthand⟩ := not_or.mp hname
      rw [beq_eq_false_iff_ne.mpr hidentifier, beq_eq_false_iff_ne.mpr hshorthand, Bool.or_self,
        if_neg Bool.false_ne_true, if_neg Bool.false_ne_true, if_neg Bool.false_ne_true]
      split
      · exact List.nil_sublist _
      · exact targetsAmong_sublist ⟨source, .node (.construct k) r s e cs, trail⟩ (patternParts k)
          steps 0 0 cs

/-- The targets of a pattern come in the order of its parts. -/
theorem targetsAmong_sublist (pattern : Node) (parts : PatternParts) (steps : List PatternStep)
    (index position : Nat) : ∀ ts : List Tree,
      ((targetsAmong pattern parts steps index position ts).map (·.1)).Sublist
        (boundNamesAll pattern.source pattern.tree pattern.trail parts index ts)
  | [] => .refl _
  | t :: ts => by
    rw [targetsAmong, boundNamesAll, List.map_append]
    refine .append ?_ (targetsAmong_sublist pattern parts steps _ _ ts)
    split
    · exact targetsFrom_sublist _ _ _ t
    · exact .refl _

end

/-- Whether a name stands directly in an array pattern. -/
def isElement (n : Node) : Bool :=
  (n.parent.map (·.is .arrayPattern)).getD false

/-- What is found is a name, and one that stands directly in an array pattern is reached by a step
to an element. -/
structure IsTarget (x : Node × List PatternStep) : Prop where
  name : x.1.is .identifier = true ∨ x.1.is .shorthandPropertyIdentifierPattern = true
  element : isElement x.1 = true → ∃ i, .element i ∈ x.2

mutual

/-- What is found in a part of a pattern is a name. -/
theorem isTarget_of_mem_targetsFrom {source : Source} {trail : List Crumb}
    {steps : List PatternStep}
    {x : Node × List PatternStep} : ∀ t : Tree,
      (isElement ⟨source, t, trail⟩ = true → ∃ i, .element i ∈ steps) →
        x ∈ targetsFrom source trail steps t → IsTarget x
  | .node (.token _) _ _ _ _, _, hx => absurd hx List.not_mem_nil
  | .node (.construct k) r s e cs, here, hx => by
    rw [targetsFrom] at hx
    -- A name, a shorthand in an object pattern, or a pattern with parts.
    split at hx
    · rename_i hk
      rw [List.mem_singleton.mp hx]
      exact ⟨.inl (beq_iff_eq.mpr (congrArg Label.construct (eq_of_beq hk))), here⟩
    · split at hx
      · rename_i hk
        rw [List.mem_singleton.mp hx]
        refine ⟨.inr (beq_iff_eq.mpr (congrArg Label.construct (eq_of_beq hk))), fun helement => ?_⟩
        obtain ⟨i, hi⟩ := here helement
        exact ⟨i, List.mem_append_left _ hi⟩
      · split at hx
        · exact absurd hx List.not_mem_nil
        · exact isTarget_of_mem_targetsAmong cs hx

/-- So it is among several parts. -/
theorem isTarget_of_mem_targetsAmong {pattern : Node} {parts : PatternParts}
    {steps : List PatternStep} {index position : Nat} {x : Node × List PatternStep} :
    ∀ ts : List Tree, x ∈ targetsAmong pattern parts steps index position ts → IsTarget x
  | [], hx => absurd hx List.not_mem_nil
  | t :: ts, hx => by
    rw [targetsAmong] at hx
    rcases List.mem_append.mp hx with hx | hx
    · split at hx
      · -- An array pattern is entered by a step to an element.
        refine isTarget_of_mem_targetsFrom t (fun harray => ?_) hx
        have hkind : pattern.kind? = some .arrayPattern := Node.kind?_of_is harray
        exact ⟨position, by simp [stepsInto, hkind]⟩
      · exact absurd hx List.not_mem_nil
    · exact isTarget_of_mem_targetsAmong ts hx

end

/-- What is found in a pattern is a name. -/
theorem isTarget_of_mem {pattern : Node} {x : Node × List PatternStep}
    (hpattern : isElement pattern = false) (hx : x ∈ patternTargets pattern) : IsTarget x :=
  isTarget_of_mem_targetsFrom pattern.tree
    (fun helement => absurd (hpattern.symm.trans helement) Bool.false_ne_true) hx

/-! ## Types along steps -/

/-- The type that is reached from the type of a value along some steps. -/
def typeAlong : List PatternStep → Ty → Inquiry Ty
  | [], t => return t
  | .member key :: rest, t => do
    match ← memberOf t key with
    | some member => typeAlong rest (← memberType t member)
    | none => return .any
  | .element position :: rest, t =>
    match t with
    | .array element _ => typeAlong rest element
    | .tuple elements _ => typeAlong rest (elements.getD position .any)
    | _ => return .any

/-- The parent of a part in a role is the whole. -/
theorem parent_of_child? {n c : Node} {f : Field} (h : n.child? f = some c) :
    c.parent = some n := by
  obtain ⟨e, -, rfl⟩ := List.mem_map.mp (List.mem_of_find?_eq_some h)
  rfl

/-- A pattern that takes a value apart is of no other kind. -/
theorem is_eq_false_of_pattern {pattern : Node} {k : Kind}
    (h : pattern.isOneOf [.objectPattern, .arrayPattern] = true)
    (hk : k ∉ [Kind.objectPattern, Kind.arrayPattern]) : pattern.is k = false := by
  obtain ⟨kind, hmem, hkind⟩ := List.any_eq_true.mp h
  exact Node.is_eq_false hkind fun he => hk (he ▸ hmem)

/-- A pattern that takes a value apart is none of the names that it binds. -/
theorem not_same_of_target {pattern name : Node} {steps : List PatternStep}
    (hkind : pattern.isOneOf [.objectPattern, .arrayPattern] = true) (h : IsTarget (name, steps)) :
    pattern.same name = false := by
  refine eq_false_of_ne_true fun hsame => ?_
  have hlabel : pattern.label = name.label := congrArg NodeKey.label (eq_of_beq hsame)
  have his : ∀ k, name.is k = pattern.is k := fun k => congrArg (· == Label.construct k) hlabel.symm
  rcases h.name with hname | hname
  · exact Bool.false_ne_true ((is_eq_false_of_pattern hkind (by decide)).symm.trans
      ((his .identifier).symm.trans hname))
  · exact Bool.false_ne_true ((is_eq_false_of_pattern hkind (by decide)).symm.trans
      ((his .shorthandPropertyIdentifierPattern).symm.trans hname))

/-- A name is reached by one step: from an object to the member that is called like the name, or
directly in an array pattern to an element, and the value is no tuple. -/
def TakesDirectly (name : Node) (steps : List PatternStep) (whole : Ty) : Prop :=
  steps = [.member name.text] ∨ ∃ position, steps = [.element position] ∧ isElement name = true ∧
    ∀ elements entity, whole ≠ .tuple elements entity

variable {d : Declaration} {pattern name : Node} {steps : List PatternStep} {whole : Ty}

/-- The part that a name takes goes by one step, whatever the pattern is. It is the part that the
pattern leads to if the name is reached by this step. -/
theorem patternPartType_eq (hpattern : isElement pattern = false)
    (hmem : (name, steps) ∈ patternTargets pattern) (hname : d.nameNode = some name)
    (htext : d.name = name.text) (hdirect : TakesDirectly name steps whole) :
    patternPartType whole d = typeAlong steps whole := by
  have htarget := isTarget_of_mem hpattern hmem
  have hparent : ((d.nameNode.bind Node.parent).map (·.is .arrayPattern)).getD false =
      isElement name := by
    rw [hname]
    rfl
  unfold patternPartType
  rw [hparent, htext]
  rcases hdirect with rfl | ⟨position, rfl, helement, hwhole⟩
  -- A name that goes by a member is no element of an array pattern.
  · have hmember : isElement name = false := eq_false_of_ne_true fun helement => by
      obtain ⟨i, hi⟩ := htarget.element helement
      exact nomatch List.mem_singleton.mp hi
    rw [hmember, if_neg Bool.false_ne_true]
    unfold typeAlong
    refine congrArg (memberOf whole name.text >>= ·) (funext fun found => ?_)
    cases found with
    | some member => exact (bind_pure (memberType whole member)).symm
    | none => rfl
  -- An element of anything but a tuple has one type, whatever the position.
  · rw [helement, if_pos rfl]
    cases whole with
    | tuple elements entity => exact absurd rfl (hwhole elements entity)
    | _ => rfl

/-- The value that a declarator takes apart: that of its annotation, or else of its initial
value. -/
def declaredValue (n : Node) : Inquiry Ty :=
  match n.child? .type with
  | some ascription => typeOfAscription ascription
  | none => typeOf? (n.child? .value)

/-- A name in the pattern of a declarator or of a parameter that is reached by one step has the type
along this step, from the type of the value that is taken apart. A loop over an array takes nothing
apart: each name in its pattern has the type of the elements. -/
theorem destructured_types {n : Node} (hnode : d.node = n)
    (hmem : (name, steps) ∈ patternTargets pattern)
    (hkind : pattern.isOneOf [.objectPattern, .arrayPattern] = true)
    (hname : d.nameNode = some name) (htext : d.name = name.text) (oracle : Oracle)
    (k : Knowledge) :
    (n.is .variableDeclarator = true → n.child? .name = some pattern →
      let value := ((declaredValue n).perform oracle).run k
      TakesDirectly name steps value.1 →
        ((variableType d).perform oracle).run k =
          ((typeAlong steps value.1).perform oracle).run value.2) ∧
    (isParameter n = true → n.child? .pattern = some pattern →
      let value := ((parameterType n).perform oracle).run k
      TakesDirectly name steps value.1 →
        ((parameterBindingType d).perform oracle).run k =
          ((typeAlong steps value.1).perform oracle).run value.2) ∧
    (n.is .forInStatement = true → n.hasToken "in" = false →
      let iterated := ((typeOf? (n.child? .right)).perform oracle).run k
      ∀ element entity, iterated.1 = .array element entity →
        ((variableType d).perform oracle).run k = (element, iterated.2)) := by
  -- The pattern stands in a declarator or a parameter, and not in an array pattern.
  have hin : ∀ f, n.child? f = some pattern → n.is .arrayPattern = false →
      isElement pattern = false := fun f hchild hn => by
    rw [isElement, parent_of_child? hchild, Option.map_some, hn]
    rfl
  refine ⟨?_, ?_, ?_⟩
  · intro hdeclarator hpattern value hdirect
    have hidentifier : pattern.is .identifier = false := is_eq_false_of_pattern hkind (by decide)
    have hvariable : variableType d = declaredValue n >>= fun whole => patternPartType whole d := by
      unfold variableType
      rw [hnode]
      dsimp only
      rw [hdeclarator, if_pos rfl, hpattern, Option.map_some, Option.getD_some, hidentifier]
      unfold declaredValue
      cases n.child? .type <;> rfl
    -- Without a type annotation or with one, the whole value is the declared one.
    rw [hvariable, Inquiry.run_bind, patternPartType_eq (hin .name hpattern
      (Node.is_eq_false hdeclarator (by decide))) hmem hname htext hdirect]
  · intro hparameter hpattern value hdirect
    have harray : n.is .arrayPattern = false := by
      simp only [isParameter, Node.isOneOf, List.any_cons, List.any_nil, Bool.or_false,
        Bool.or_eq_true] at hparameter
      rcases hparameter with h | h <;> exact Node.is_eq_false h (by decide)
    -- The pattern is not the name itself, and gathers no rest, so its part is asked for.
    have hsame : pattern.same name = false := not_same_of_target hkind
      (isTarget_of_mem (hin .pattern hpattern harray) hmem)
    have hrest : pattern.is .restPattern = false := is_eq_false_of_pattern hkind (by decide)
    have hbinding :
        parameterBindingType d = parameterType n >>= fun whole => patternPartType whole d := by
      unfold parameterBindingType
      rw [hnode, hname]
      dsimp only
      rw [hparameter, hpattern]
      simp only [hsame, hrest]
      rfl
    rw [hbinding, Inquiry.run_bind,
      patternPartType_eq (hin .pattern hpattern harray) hmem hname htext hdirect]
  -- The loop takes the elements of what it goes over, whatever stands on its left.
  · intro hloop hof iterated element entity harray
    have hvariable : variableType d = loopVariableType n := by
      unfold variableType
      rw [hnode]
      dsimp only
      rw [Node.is_eq_false hloop (by decide), hloop]
      rfl
    rw [hvariable]
    unfold loopVariableType
    rw [Inquiry.run_bind, hof, if_neg Bool.false_ne_true, harray]
    rfl

/-- A variable with a member, and a pattern that takes the member. -/
def memberPatternSource : Source :=
  .ofText "/a.ts" "let o:{a:0},{a}=o" .ts

/-- The name in the pattern has the type of the member. -/
theorem destructured_types_member :
    let start := Knowledge.start {} {} default memberPatternSource
    ∃ n ∈ memberPatternSource.root.preorder, ∃ d : Declaration, ∃ steps,
      d.node = n ∧ ((variableType d).conduct.run start).1.isIntrinsic .number = true ∧
        ((variableType d).conduct.run start).1 =
          ((Inquiry.conduct (do typeAlong steps (← declaredValue n))).run start).1 := by
  intro start
  have hfound : ∃ n ∈ memberPatternSource.root.preorder, n.is .variableDeclarator = true ∧
      ∃ pattern ∈ n.child? .name, pattern.isOneOf [.objectPattern, .arrayPattern] = true ∧
        ∃ x ∈ patternTargets pattern, x.2 = [.member x.1.text] ∧
          let d : Declaration :=
            { kind := .variable, name := x.1.text, node := n, nameNode := some x.1 }
          ((variableType d).conduct.run start).1.isIntrinsic .number = true := by
    decide +kernel
  -- The name goes by one member, so the type is the one that the pattern leads to.
  obtain ⟨n, hn, hdeclarator, pattern, hpattern, hkind, x, hx, hsteps, hnumber⟩ := hfound
  obtain ⟨oracle, -, hconduct⟩ := exists_oracle anyFile start
  let d : Declaration := { kind := .variable, name := x.1.text, node := n, nameNode := some x.1 }
  have hnode : d.node = n := rfl
  have hname : d.nameNode = some x.1 := rfl
  have htext : d.name = x.1.text := rfl
  obtain ⟨hvariable, -⟩ := destructured_types hnode hx hkind hname htext oracle start
  refine ⟨n, hn, d, x.2, hnode, hnumber, ?_⟩
  rw [hconduct _ start (.refl start), hconduct _ start (.refl start),
    hvariable hdeclarator hpattern (.inl hsteps), Inquiry.run_bind]

/-- A variable with two members, and a pattern that takes one of them under the name of the
other. -/
def renamingSource : Source :=
  .ofText "/a.ts" "let o:{a:0,b:string},{a:b}=o" .ts

/-- The name in the pattern has the type of the other member. -/
theorem exists_name_of_other_member :
    let start := Knowledge.start {} {} default renamingSource
    let b := (Binding.bind renamingSource (Library.ofSource default).store).1
    ∃ n ∈ renamingSource.root.preorder, n.is .variableDeclarator = true ∧
      ∃ pattern ∈ n.child? .name, ∃ x ∈ patternTargets pattern, x.2 = [.member "a"] ∧
        ∃ id ∈ b.declarationNamed? x.1,
          ((typeOfDeclaration id).conduct.run start).1.isIntrinsic .string = true ∧
            ((Inquiry.conduct (do typeAlong x.2 (← declaredValue n))).run start).1.isIntrinsic
              .number = true := by
  decide +kernel

/-- A variable with a member that has a member, and a pattern that takes the inner one. -/
def nestedSource : Source :=
  .ofText "/a.ts" "let o:{a:{b:0},b:string},{a:{b}}=o" .ts

/-- The name in the pattern has the type of the outer member of this name. -/
theorem exists_name_of_outer_member :
    let start := Knowledge.start {} {} default nestedSource
    let b := (Binding.bind nestedSource (Library.ofSource default).store).1
    ∃ n ∈ nestedSource.root.preorder, n.is .variableDeclarator = true ∧
      ∃ pattern ∈ n.child? .name, ∃ x ∈ patternTargets pattern, x.2 = [.member "a", .member "b"] ∧
        ∃ id ∈ b.declarationNamed? x.1,
          ((typeOfDeclaration id).conduct.run start).1.isIntrinsic .string = true ∧
            ((Inquiry.conduct (do typeAlong x.2 (← declaredValue n))).run start).1.isIntrinsic
              .number = true := by
  decide +kernel

end ScriptGraph.Inference
