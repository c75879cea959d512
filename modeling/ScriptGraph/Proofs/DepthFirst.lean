import Mathlib.Data.List.Nodup
import Mathlib.Logic.Relation

/-!
# Depth-first walks

A depth-first walk visits what it can reach, each thing once, and goes on from a thing before it
turns to the rest. It ends when nothing is left or when it has visited too much.

- `depthFirst_append`: walking along a list in two parts
- `reaches_of_mem_depthFirst`: everything visited can be reached
- `mem_depthFirst_of_reaches`: a walk that ends early has visited everything that can be reached
-/

namespace ScriptGraph

variable {α : Type} [DecidableEq α]

/-- What a depth-first walk along `todo` has visited, the last one first, when it starts with what
has been `seen` already and visits nothing more once it has seen `limit` things. -/
def depthFirst (next : α → List α) (limit : Nat) (todo seen : List α) : List α :=
  match todo with
  | [] => seen
  | a :: rest =>
    if a ∈ seen ∨ limit ≤ seen.length then depthFirst next limit rest seen
    else depthFirst next limit (next a ++ rest) (a :: seen)
termination_by (limit - seen.length, todo.length)
decreasing_by
  · exact Prod.Lex.right _ (Nat.lt_succ_self _)
  · rename_i h
    exact Prod.Lex.left _ _ (by simp only [List.length_cons]; omega)

variable {next : α → List α} {limit : Nat} {todo seen : List α}

/-- With nothing to do, nothing is visited. -/
@[simp] theorem depthFirst_nil : depthFirst next limit [] seen = seen := by
  rw [depthFirst]

/-- Nothing happens at a thing that has been seen, or when too much has been. -/
theorem depthFirst_cons_of_stop {a : α} (h : a ∈ seen ∨ limit ≤ seen.length) :
    depthFirst next limit (a :: todo) seen = depthFirst next limit todo seen := by
  rw [depthFirst, if_pos h]

/-- The walk goes on from a new thing before it turns to the rest. -/
theorem depthFirst_cons_of_new {a : α} (h : ¬ (a ∈ seen ∨ limit ≤ seen.length)) :
    depthFirst next limit (a :: todo) seen =
      depthFirst next limit (next a ++ todo) (a :: seen) := by
  rw [depthFirst, if_neg h]

/-- Walking along two lists is walking along one after the other. -/
theorem depthFirst_append (rest : List α) :
    depthFirst next limit (todo ++ rest) seen =
      depthFirst next limit rest (depthFirst next limit todo seen) := by
  -- The walk along the first list is the same with more behind it.
  fun_induction depthFirst next limit todo seen with
  | case1 seen => rfl
  | case2 seen a todo h ih => rw [List.cons_append, depthFirst_cons_of_stop h, ih]
  | case3 seen a todo h ih =>
    rw [List.cons_append, depthFirst_cons_of_new h, ← List.append_assoc, ih]

/-- What was seen before is seen afterwards. -/
theorem suffix_depthFirst : seen <:+ depthFirst next limit todo seen := by
  fun_induction depthFirst next limit todo seen with
  | case1 seen => exact List.suffix_rfl
  | case2 seen a todo h ih => exact ih
  | case3 seen a todo h ih => exact (List.suffix_cons _ _).trans ih

/-- Nothing is visited twice. -/
theorem nodup_depthFirst (h : seen.Nodup) : (depthFirst next limit todo seen).Nodup := by
  fun_induction depthFirst next limit todo seen with
  | case1 seen => exact h
  | case2 seen a todo _ ih => exact ih h
  | case3 seen a todo hnew ih => exact ih (List.nodup_cons.mpr ⟨fun ha => hnew (.inl ha), h⟩)

/-- No more is visited than the limit allows. -/
theorem length_depthFirst_le (h : seen.length ≤ limit) :
    (depthFirst next limit todo seen).length ≤ limit := by
  fun_induction depthFirst next limit todo seen with
  | case1 seen => exact h
  | case2 seen a todo _ ih => exact ih h
  | case3 seen a todo hnew ih => exact ih (Nat.not_le.mp fun hle => hnew (.inr hle))

/-- Whatever a walk along a list visits can be reached from the list. -/
theorem reaches_of_mem_depthFirst {a : α} (h : a ∈ depthFirst next limit todo seen) :
    a ∈ seen ∨ ∃ b ∈ todo, Relation.ReflTransGen (fun p q => q ∈ next p) b a := by
  fun_induction depthFirst next limit todo seen with
  | case1 seen => exact .inl h
  | case2 seen b todo _ ih =>
    exact (ih h).imp_right fun ⟨c, hc, hreach⟩ => ⟨c, List.mem_cons_of_mem _ hc, hreach⟩
  | case3 seen b todo _ ih =>
    rcases ih h with ha | ⟨c, hc, hreach⟩
    · rcases List.mem_cons.mp ha with rfl | ha
      · exact .inr ⟨a, List.mem_cons_self, .refl⟩
      · exact .inl ha
    -- What is next to `b` is reached from `b`; the rest of the list was there before.
    · rcases List.mem_append.mp hc with hc | hc
      · exact .inr ⟨b, List.mem_cons_self, .head hc hreach⟩
      · exact .inr ⟨c, List.mem_cons_of_mem _ hc, hreach⟩

/-- A walk that ends before it has visited too much has been to the whole list, and to whatever
comes next to the things that it has visited. -/
theorem depthFirst_closed (h : (depthFirst next limit todo seen).length < limit) :
    (∀ a ∈ todo, a ∈ depthFirst next limit todo seen) ∧
    ∀ a ∈ depthFirst next limit todo seen, a ∈ seen ∨
      ∀ b ∈ next a, b ∈ depthFirst next limit todo seen := by
  fun_induction depthFirst next limit todo seen with
  | case1 seen => exact ⟨nofun, fun _ ha => .inl ha⟩
  | case2 seen a todo hstop ih =>
    obtain ⟨htodo, hnext⟩ := ih h
    have hle : seen.length ≤ (depthFirst next limit todo seen).length := suffix_depthFirst.length_le
    -- A walk that ends early has not stopped for its length.
    have ha := hstop.resolve_right (by omega)
    exact ⟨List.forall_mem_cons.mpr ⟨suffix_depthFirst.subset ha, htodo⟩, hnext⟩
  | case3 seen a todo _ ih =>
    obtain ⟨htodo, hnext⟩ := ih h
    obtain ⟨hafter, hrest⟩ := List.forall_mem_append.mp htodo
    refine ⟨List.forall_mem_cons.mpr ⟨suffix_depthFirst.subset List.mem_cons_self, hrest⟩,
      fun b hb => ?_⟩
    -- What comes next to `a` stands before the rest of the list.
    rcases hnext b hb with hb | hb
    · rcases List.mem_cons.mp hb with rfl | hb
      · exact .inr hafter
      · exact .inl hb
    · exact .inr hb

/-- A walk from one thing that ends early has visited everything that can be reached. -/
theorem mem_depthFirst_of_reaches {start a : α}
    (hlt : (depthFirst next limit [start] []).length < limit)
    (h : Relation.ReflTransGen (fun p q => q ∈ next p) start a) :
    a ∈ depthFirst next limit [start] [] := by
  -- What has been visited is closed under `next`, so no path leads out of it.
  obtain ⟨hstart, hnext⟩ := depthFirst_closed hlt
  induction h with
  | refl => exact hstart start List.mem_cons_self
  | tail _ hlast ih => exact (hnext _ ih).elim nofun fun hall => hall _ hlast

end ScriptGraph
