import ScriptGraph.Syntax.Node

/-!
# Kinds of constructs

A construct is of one kind only, so what its kind is decides every question of this sort.
-/

namespace ScriptGraph.Syntax.Node

variable {n : Node} {k k' : Kind}

/-- A node of a kind is labelled with it. -/
theorem label_of_is (h : n.is k = true) : n.label = .construct k :=
  eq_of_beq h

/-- A node of a kind has the kind. -/
theorem kind?_of_is (h : n.is k = true) : n.kind? = some k := by
  unfold kind?
  rw [label_of_is h]

/-- A node that has a kind is labelled with it. -/
theorem label_of_kind? (h : n.kind? = some k) : n.label = .construct k := by
  unfold kind? at h
  split at h
  · rename_i hlabel
    rw [hlabel, Option.some.inj h]
  · exact nomatch h

/-- A node that has a kind is of no other one. -/
theorem is_eq_of_kind? (h : n.kind? = some k) (k' : Kind) : n.is k' = decide (k = k') := by
  have hlabel : n.is k' = (Label.construct k == .construct k') :=
    congrArg (· == _) (label_of_kind? h)
  rw [hlabel, Bool.beq_eq_decide_eq]
  simp

/-- A node that has a kind is of this kind. -/
theorem is_of_kind? (h : n.kind? = some k) : n.is k = true := by
  simp [is_eq_of_kind? h]

/-- A node of one kind is not of another. -/
theorem is_eq_false (h : n.is k = true) (hne : k ≠ k') : n.is k' = false := by
  simp [is_eq_of_kind? (kind?_of_is h), hne]

end ScriptGraph.Syntax.Node
