import ScriptGraph.Proofs.Inference.Growth

/-!
# What a parameter list says

How many arguments a callable takes can be read off its construct: which of its parameters may be
left out, and whether one of them gathers the rest. The types of the parameters do not matter for
it, so whatever is known and however questions are answered, parameters come in the same forms.

- `parameterForms`: the forms of the parameters of a callable construct
- `Takes`: whether a callable construct takes a number of arguments
- `parametersOf_yields`: the parameters of a callable have the forms that its construct tells
- `accepts_eq`: a signature with parameters of these forms accepts what the construct takes
-/

namespace ScriptGraph.Inference

open Binding Syntax

/-! ## Forms of parameters -/

/-- Which parameters may be left out, and which gather the rest of the arguments. -/
def formsOf (parameters : List Parameter) : List (Bool × Bool) :=
  parameters.map fun p => (p.optional, p.rest)

/-- The form of what a construct in a typed parameter list stands for. A parameter named `this`
takes no argument. -/
def typedForm? (n : Node) : Option (Bool × Bool) :=
  match n.child? .pattern with
  | none => none
  | some pattern =>
    if pattern.is .thisExpression then none
    else some (n.is .optionalParameter || (n.child? .value).isSome, pattern.is .restPattern)

/-- The form of what a construct in a parameter list stands for. Constructs of other kinds stand for
no parameter; one of them is the name `undefined`. -/
def form? (n : Node) : Option (Bool × Bool) :=
  if isParameter n then typedForm? n
  else match n.kind? with
    | some .identifier | some .objectPattern | some .arrayPattern => some (false, false)
    | some .assignmentPattern => some (true, false)
    | some .restPattern => some (false, true)
    | _ => none

/-- The forms of the parameters of a callable construct. -/
def parameterForms (n : Node) : List (Bool × Bool) :=
  match n.child? .parameter, n.child? .parameters with
  | some _, _ => [(false, false)]
  | none, some list => list.constructs.filterMap form?
  | none, none => []

/-- A parameter in a typed list has the form of its construct. -/
theorem typedParameter_yields (n : Node) :
    (typedParameter n).Yields fun parameters => formsOf parameters = (typedForm? n).toList := by
  unfold typedParameter typedForm?
  cases n.child? .pattern with
  | none => exact .pure rfl
  | some pattern =>
    dsimp only
    by_cases hthis : pattern.is .thisExpression = true
    · rw [if_pos hthis, if_pos hthis]
      exact .pure rfl
    · rw [if_neg hthis, if_neg hthis]
      exact .bind (.something _) fun _ _ => .pure rfl

/-- The parameter that a construct stands for has the form of the construct. -/
theorem parameterOf_yields (n : Node) :
    (parameterOf n).Yields fun parameters => formsOf parameters = (form? n).toList := by
  unfold parameterOf form?
  by_cases htyped : isParameter n = true
  · rw [if_pos htyped, if_pos htyped]
    exact typedParameter_yields n
  · rw [if_neg htyped, if_neg htyped]
    generalize n.kind? = kind
    split
    · exact .pure rfl
    · exact .pure rfl
    · exact .pure rfl
    · exact .bind (.something _) fun _ _ => .pure rfl
    · exact .bind (.something _) fun _ _ => .pure rfl
    -- The kinds that stand for a parameter have been dealt with.
    · refine .pure ?_
      simp_all [formsOf]

/-- The parameters that the constructs of a list stand for, one after the other. -/
theorem listedParameters_yields (constructs : List Node) :
    Inquiry.Yields (do return (← constructs.mapM parameterOf).flatten)
      fun parameters => formsOf parameters = constructs.filterMap form? := by
  refine .bind (ψ := fun lists => formsOf lists.flatten = constructs.filterMap form?) ?_
    fun _ hforms => .pure hforms
  induction constructs with
  | nil => exact .pure rfl
  | cons n rest ih =>
    rw [List.mapM_cons]
    refine .bind (parameterOf_yields n) fun parameters hn => .bind ih fun lists hrest => .pure ?_
    -- Forms are taken parameter by parameter.
    have happend : formsOf (parameters :: lists).flatten =
        formsOf parameters ++ formsOf lists.flatten := List.map_append
    rw [happend, hn, hrest]
    cases hform : form? n with
    | none => rw [List.filterMap_cons_none hform]; rfl
    | some form => rw [List.filterMap_cons_some hform]; rfl

/-- The parameters of a callable have the forms that its construct tells. -/
theorem parametersOf_yields (n : Node) :
    (parametersOf n).Yields fun parameters => formsOf parameters = parameterForms n := by
  unfold parametersOf parameterForms
  cases n.child? .parameter with
  | some single => exact .pure rfl
  | none =>
    cases n.child? .parameters with
    | some list => exact listedParameters_yields list.constructs
    | none => exact .pure rfl

/-! ## Numbers of arguments -/

/-- Whether a callable construct takes a number of arguments: those that must be given, and no more
than there are parameters unless one of them gathers the rest. -/
def Takes (n : Node) (count : Nat) : Prop :=
  (parameterForms n).countP (fun form => !form.1 && !form.2) ≤ count ∧
    (count ≤ (parameterForms n).length ∨ (parameterForms n).any (·.2) = true)

instance (n : Node) (count : Nat) : Decidable (Takes n count) :=
  inferInstanceAs (Decidable (_ ∧ _))

/-- A signature with parameters of the forms that a construct tells accepts what the construct
takes. -/
theorem accepts_eq {s : Signature} {n : Node} (h : formsOf s.parameters = parameterForms n)
    (count : Nat) : s.accepts count = decide (Takes n count) := by
  have hrequired : s.minArguments =
      (parameterForms n).countP fun form => !form.1 && !form.2 := by
    rw [← h, formsOf, List.countP_map, List.countP_eq_length_filter]
    rfl
  have hlength : s.parameters.length = (parameterForms n).length := by
    rw [← h, formsOf, List.length_map]
  have hrest : s.parameters.any (·.rest) = (parameterForms n).any (·.2) := by
    rw [← h, formsOf, List.any_map]
    rfl
  rw [Signature.accepts, hrequired, hlength, hrest, Bool.eq_iff_iff]
  simp [Takes]

end ScriptGraph.Inference
