import Mathlib.Data.List.Induction
import ScriptGraph.Proofs.Inference.NormalForm
import ScriptGraph.Proofs.Types.Legibility

/-!
# What unions lose

A union keeps the first of the types that are shown by one text. So it loses nothing among types
that can be read back from their texts, but it does where a text does not tell everything: the
symbol behind a name, what is nested too deep, or where the result of a function ends.

- `firstShown_append`: a type is left out if one with its text has been kept before, and only then
- `unions_keep`: what the union of a list of types keeps of it
- `exists_alternatives_lost`: types that differ are lost
-/

namespace ScriptGraph.Inference

open Ty

/-! ## The first types of each text -/

/-- Dropping repetitions from two lists goes through one after the other. -/
theorem loop_append (shown later kept : List (Ty × String)) :
    List.eraseDupsBy.loop (fun a b => a.2 == b.2) (shown ++ later) kept =
      List.eraseDupsBy.loop (fun a b => a.2 == b.2) later
        (List.eraseDupsBy.loop (fun a b => a.2 == b.2) shown kept).reverse := by
  induction shown generalizing kept with
  | nil => rw [List.eraseDupsBy.loop, List.reverse_reverse, List.nil_append]
  | cons p rest ih => rw [List.cons_append, loop_cons, loop_cons, ih]

/-- One more type is left out if one with its text has been kept, and kept otherwise. -/
theorem firstShown_append (shown : List (Ty × String)) (p : Ty × String) :
    firstShown (shown ++ [p]) =
      if p.2 ∈ (firstShown shown).map (·.2) then firstShown shown else firstShown shown ++ [p] := by
  have hnew : (firstShown shown).reverse.any (p.2 == ·.2) =
      decide (p.2 ∈ (firstShown shown).map (·.2)) := by
    rw [List.any_reverse, ← contains_texts, List.contains_eq_mem]
  rw [firstShown, List.eraseDupsBy, loop_append]
  show List.eraseDupsBy.loop _ [p] (firstShown shown).reverse = _
  rw [loop_cons, hnew, List.eraseDupsBy.loop]
  by_cases h : p.2 ∈ (firstShown shown).map (·.2) <;> simp [h]

/-- What has been kept stays kept. -/
theorem firstShown_prefix (shown later : List (Ty × String)) :
    firstShown shown <+: firstShown (shown ++ later) := by
  induction later using List.reverseRecOn with
  | nil => simp
  | append_singleton later p ih =>
    rw [← List.append_assoc, firstShown_append]
    split
    · exact ih
    · exact ih.trans (List.prefix_append _ _)

/-! ## Texts that can be read back -/

variable {oracle : Oracle} {k : Knowledge} {v : Vocabulary}

/-- A legible type is read back from whatever it is shown by. -/
theorem readable_of_shows {t : Ty} {text : String} (ht : Legible v shownLevels t)
    (hshown : k.Shows oracle t text) : Readable v t text := by
  obtain ⟨own, hown, hread⟩ := ht.readable (demand : Demand Inquiry)
  have hrun : ((textOf t).perform oracle).run k = (own, k) := by
    rw [textOf, Ty.display, hown]
    rfl
  have hsame : own = text := congrArg Prod.fst (hrun.symm.trans hshown.run)
  exact hsame ▸ hread

/-- Among legible types the one that has been kept for a text is the only one that has it. -/
theorem mem_of_text_mem {shown : List (Ty × String)} (hshown : k.ShowsAll oracle shown)
    (hlegible : ∀ p ∈ shown, Legible v shownLevels p.1) {p : Ty × String} (hp : p ∈ shown)
    {kept : List (Ty × String)} (hkept : kept ⊆ shown) (htext : p.2 ∈ kept.map (·.2)) :
    p ∈ kept := by
  obtain ⟨q, hq, hqtext⟩ := List.mem_map.mp htext
  have hread := readable_of_shows (hlegible p hp) (hshown p hp)
  have hread' := readable_of_shows (hlegible q (hkept hq)) (hshown q (hkept hq))
  rw [hqtext] at hread'
  exact Prod.ext (hread.unique hread') hqtext.symm ▸ hq

/-- The union of types none of whose alternatives is `any` goes through their alternatives and
keeps what it has kept: one of them is left out if one that is shown by the same text has been kept
before, and only then. If all of them can be read back from their texts in the words of a
vocabulary, then one is left out only if it has been kept before itself. -/
theorem unions_keep (depth : Nat) (k : Knowledge) (types : List Ty)
    (hany : .any ∉ types.flatMap unionParts) :
    let made := (unionOf types).found depth k
    ∃ shown : List (Ty × String), shown.map (·.1) = types.flatMap unionParts ∧
      made.2.ShowsAll (answer depth) shown ∧
      made.1 = ofAlternatives ((firstShown shown).map (·.1)) ∧
      ∀ before part later, shown = before ++ part :: later →
        firstShown before <+: firstShown shown ∧
        (part.2 ∉ (firstShown before).map (·.2) →
          firstShown before ++ [part] <+: firstShown shown) ∧
        (part.2 ∈ (firstShown before).map (·.2) →
          firstShown (before ++ [part]) = firstShown before) ∧
        ∀ v, (∀ t ∈ types.flatMap unionParts, Legible v shownLevels t) →
          firstShown (before ++ [part]) = firstShown before → part ∈ firstShown before := by
  intro made
  obtain ⟨shown, htypes, hshown, hresult⟩ := run_unionOf (answer_recollects depth) hany k
  refine ⟨shown, htypes, hshown, hresult, fun before part later hsplit => ?_⟩
  -- What is kept goes on growing at its end, by one alternative at most at a time.
  have hstep := firstShown_append before part
  have hsplit' : shown = before ++ [part] ++ later := by
    rw [hsplit, List.append_assoc, List.singleton_append]
  refine ⟨?_, fun hnew => ?_, fun hold => ?_, fun v hlegible hsame => ?_⟩
  · exact hsplit ▸ firstShown_prefix before _
  · rw [if_neg hnew] at hstep
    rw [← hstep, hsplit']
    exact firstShown_prefix _ later
  · rw [hstep, if_pos hold]
  -- One that is left out without being new has its text among those kept, and legible texts tell
  -- their types.
  · have hold : part.2 ∈ (firstShown before).map (·.2) := by
      by_contra hnew
      rw [if_neg hnew, hsame] at hstep
      exact absurd (congrArg List.length hstep) (by simp)
    have hmem : ∀ p ∈ shown, Legible v shownLevels p.1 := fun p hp =>
      hlegible p.1 (htypes ▸ List.mem_map_of_mem hp)
    have hbefore : firstShown before ⊆ shown := fun p hp =>
      hsplit ▸ List.mem_append_left _ (mem_of_mem_firstShown hp)
    exact mem_of_text_mem hshown hmem (hsplit ▸ by simp) hbefore hold

/-- The names of built-in types, each for its type, and no others. -/
def intrinsicNames : Vocabulary where
  bare name := ((Intrinsic.ofName? name).map Ty.intrinsic).getD .unspecified
  generic _ := default
  side _ := default
  arrays := none
  tuples := none

/-- An alternative that comes again is left out, since it has been kept. -/
theorem unions_keep_number :
    let types : List Ty :=
      [.intrinsic .number, .array (.intrinsic .string) none, .intrinsic .number]
    .any ∉ types.flatMap unionParts ∧ ∃ shown : List (Ty × String), shown.map (·.1) = types ∧
      ((unionOf types).found 1 default).1 = ofAlternatives ((firstShown shown).map (·.1)) ∧
      ∀ before part later, shown = before ++ part :: later →
        firstShown (before ++ [part]) = firstShown before → part ∈ firstShown before := by
  intro types
  have hany : .any ∉ types.flatMap unionParts := by
    simp [types, unionParts, any]
  -- The names of intrinsic types are the whole vocabulary that is needed.
  have hnumber : Legible intrinsicNames shownLevels (.intrinsic .number) :=
    .bare ⟨by decide, List.all_eq_true.mp (by decide), by decide⟩ rfl rfl
  have hstring : Legible intrinsicNames 4 (.intrinsic .string) :=
    .bare ⟨by decide, List.all_eq_true.mp (by decide), by decide⟩ rfl rfl
  have hlegible : ∀ t ∈ types.flatMap unionParts, Legible intrinsicNames shownLevels t := by
    have harray : Legible intrinsicNames shownLevels (.array (.intrinsic .string) none) :=
      .array hstring
    simp [types, unionParts, hnumber, harray]
  obtain ⟨shown, htypes, -, hresult, hkeep⟩ := unions_keep 1 default types hany
  exact ⟨hany, shown, htypes, hresult, fun before part later h =>
    (hkeep before part later h).2.2.2 _ hlegible⟩

/-- A function type without parameters. -/
def functionTo (cell : Nat) (result : Ty) : Ty :=
  .function [{ declaration := none, parameters := [], result := .given result, cell }] none

/-- Of arrays nested too deep, and of classes of one name, a union keeps the first only. So it does
of a function to a union with a function in it and of one to a function to a union: no parentheses
are written around a function in a union, so both are shown alike. -/
theorem exists_alternatives_lost :
    let number : Ty := .intrinsic .number
    let string : Ty := .intrinsic .string
    let nested (t : Ty) : Ty :=
      .array (.array (.array (.array (.array t none) none) none) none) none
    let here : Ty := .object ⟨⟨0⟩, "C", []⟩ []
    let there : Ty := .object ⟨⟨1⟩, "C", []⟩ []
    let toUnion := functionTo 0 (.union [functionTo 1 number, string])
    let toFunction := functionTo 2 (functionTo 3 (.union [number, string]))
    (nested number ≠ nested string ∧
        ((unionOf [nested number, nested string]).found 3 default).1 = nested number) ∧
      (here ≠ there ∧ ((unionOf [here, there]).found 3 default).1 = here) ∧
      (toUnion ≠ toFunction ∧ ((unionOf [toUnion, toFunction]).found 3 default).1 = toUnion) := by
  -- The unions are worked out; that the types differ is seen from their constructors.
  refine ⟨⟨?_, rfl⟩, ⟨?_, rfl⟩, ⟨?_, rfl⟩⟩
  · simp
  · simp
  · simp [functionTo]

end ScriptGraph.Inference
