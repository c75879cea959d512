import Mathlib.Data.List.Nodup
import ScriptGraph.Proofs.Inference.Offers
import ScriptGraph.Proofs.Inference.Recollection

/-!
# The normal form of unions

A union consists of at least two alternatives that are no unions, not `any`, and shown by different
texts. Types all of whose unions have this form are closed under making unions and under putting
types for type parameters.

- `sift`: the alternatives that are shown by a new text, one after the other
- `run_sift`: they are the first ones of each text
- `Ty.Normal`: all unions of a type have the form
-/

namespace ScriptGraph

open Binding Syntax Inference

namespace Inference

/-- Gathers the types that are shown by a new text, together with their texts, last one first. -/
def sift (kept : List (Ty × String)) : List Ty → Inquiry (List (Ty × String))
  | [] => return kept
  | t :: rest => do
    let text ← textOf t
    sift (if kept.any (text == ·.2) then kept else (t, text) :: kept) rest

/-- The first type of each text, in their order. -/
def firstShown (shown : List (Ty × String)) : List (Ty × String) :=
  shown.eraseDupsBy fun a b => a.2 == b.2

/-- Types are shown by texts. -/
def Knowledge.ShowsAll (oracle : Oracle) (k : Knowledge) (shown : List (Ty × String)) : Prop :=
  ∀ p ∈ shown, k.Shows oracle p.1 p.2

/-- Texts that are shown stay shown. -/
theorem Knowledge.ShowsAll.mono {oracle : Oracle} {k next : Knowledge} {shown : List (Ty × String)}
    (h : k.ShowsAll oracle shown) (hle : k.Recalls next) : next.ShowsAll oracle shown :=
  fun p hp => (h p hp).mono hle

/-! ## Unions are sifted -/

/-- A text has been kept if a type with this text has been. -/
theorem contains_texts (kept : List (Ty × String)) (text : String) :
    (kept.map (·.2)).contains text = kept.any (text == ·.2) := by
  induction kept with
  | nil => rfl
  | cons p rest ih => rw [List.map_cons, List.contains_cons, List.any_cons, ih]

/-- Other types fail the test for any. -/
theorem isIntrinsic_eq_false {t : Ty} (h : t ≠ .any) : t.isIntrinsic .any = false :=
  Bool.eq_false_iff.mpr fun hany => h (Ty.eq_any hany)

/-- Gathers alternatives after some have been kept with their texts. -/
def gather (kept : List (Ty × String)) (types : List Ty) : Inquiry Ty :=
  Ty.gatherAlternatives demand (kept.map (·.2)) (kept.map (·.1)) types

/-- A union gathers the parts of its types. -/
theorem unionOf_eq (types : List Ty) : unionOf types = gather [] (types.flatMap Ty.unionParts) :=
  rfl

/-- Types none of which is `any` are sifted before the alternatives after them are gathered. -/
theorem gather_append (kept : List (Ty × String)) {types : List Ty} (hany : .any ∉ types)
    (others : List Ty) :
    gather kept (types ++ others) = (do gather (← sift kept types) others) := by
  unfold gather
  induction types generalizing kept with
  | nil => rfl
  | cons t rest ih =>
    have ht := isIntrinsic_eq_false fun h => hany (h ▸ List.mem_cons_self)
    have hrest : Ty.any ∉ rest := fun h => hany (List.mem_cons_of_mem _ h)
    -- Both sides show the head first and then go on with the same list of what has been kept.
    rw [List.cons_append, Ty.gatherAlternatives, ht, sift, bind_assoc]
    apply congrArg (textOf t >>= ·)
    funext text
    rw [contains_texts, ← ih _ hrest]
    split <;> simp [*]

/-! ## The first type of each text -/

section FirstShown

variable {shown kept : List (Ty × String)} {p : Ty × String}

/-- One more type is kept if none with its text has been. -/
theorem loop_cons : List.eraseDupsBy.loop (fun a b => a.2 == b.2) (p :: shown) kept =
    List.eraseDupsBy.loop (fun a b => a.2 == b.2) shown
      (if kept.any (p.2 == ·.2) then kept else p :: kept) := by
  rw [List.eraseDupsBy.loop]
  split <;> simp [*]

/-- Dropping repetitions leaves texts that differ. -/
theorem nodup_loop (h : (kept.map (·.2)).Nodup) :
    ((List.eraseDupsBy.loop (fun a b => a.2 == b.2) shown kept).map (·.2)).Nodup := by
  induction shown generalizing kept with
  | nil =>
    rw [List.eraseDupsBy.loop, List.map_reverse]
    exact List.nodup_reverse.mpr h
  | cons p rest ih =>
    rw [loop_cons]
    apply ih
    split
    · exact h
    -- A text is kept only if it is not there yet.
    · rename_i hnew
      rw [← contains_texts] at hnew
      exact List.nodup_cons.mpr ⟨by simpa using hnew, h⟩

/-- What is left was kept before, or is one of the items. -/
theorem mem_of_mem_loop
    (h : p ∈ List.eraseDupsBy.loop (fun a b => a.2 == b.2) shown kept) : p ∈ kept ∨ p ∈ shown := by
  induction shown generalizing kept with
  | nil => exact .inl (by simpa [List.eraseDupsBy.loop] using h)
  | cons q rest ih =>
    rw [loop_cons] at h
    rcases ih h with h | h
    · split at h
      · exact .inl h
      · rcases List.mem_cons.mp h with rfl | h
        · exact .inr List.mem_cons_self
        · exact .inl h
    · exact .inr (List.mem_cons_of_mem _ h)

/-- The first types of different texts have different texts. -/
theorem nodup_firstShown (shown : List (Ty × String)) : ((firstShown shown).map (·.2)).Nodup :=
  nodup_loop List.nodup_nil

/-- The first of each text are among the types. -/
theorem mem_of_mem_firstShown (h : p ∈ firstShown shown) : p ∈ shown :=
  (mem_of_mem_loop h).resolve_left List.not_mem_nil

/-- The first types of different texts are among the types. -/
theorem mem_of_mem_firsts {types : List Ty} {t : Ty} (h : shown.map (·.1) = types)
    (ht : t ∈ (firstShown shown).map (·.1)) : t ∈ types := by
  obtain ⟨p, hp, rfl⟩ := List.mem_map.mp ht
  exact h ▸ List.mem_map_of_mem (mem_of_mem_firstShown hp)

/-- Of some types there is a first one. -/
theorem firsts_ne_nil {types : List Ty} (h : shown.map (·.1) = types) (hne : types ≠ []) :
    (firstShown shown).map (·.1) ≠ [] := by
  cases shown with
  | nil => exact absurd h.symm hne
  | cons p rest =>
    rw [firstShown, List.eraseDupsBy_cons]
    exact List.cons_ne_nil _ _

end FirstShown

/-! ## Carrying out a sifting -/

/-- The alternatives that a union was built from are found in it. -/
theorem unionParts_ofAlternatives {types : List Ty} (hne : types ≠ [])
    (hsingle : ∀ t ∈ types, t.Single) : (Ty.ofAlternatives types).unionParts = types := by
  match types with
  | [] => exact absurd rfl hne
  | [t] => exact hsingle t List.mem_cons_self
  | _ :: _ :: _ => rfl

/-- The union of types one of whose alternatives is `any` is `any`, whatever comes after it. -/
theorem run_unionOf_append {types : List Ty} (hany : .any ∈ types.flatMap Ty.unionParts)
    (others : List Ty) (oracle : Oracle) (k : Knowledge) :
    (((unionOf types).perform oracle).run k).1 = .any ∧
      unionOf (types ++ others) = unionOf types := by
  obtain ⟨before, after, hparts, hfirst⟩ := List.eq_append_cons_of_mem hany
  have hsift : ∀ rest, gather [] (before ++ .any :: rest) = (do
      let _ ← sift [] before
      return .any) := fun rest => gather_append [] hfirst _
  rw [unionOf_eq, unionOf_eq, List.flatMap_append, hparts, List.append_assoc, List.cons_append,
    hsift, hsift]
  exact ⟨congrArg Prod.fst (Inquiry.run_bind oracle _ _ k), rfl⟩

section Runs

variable {oracle : Oracle} (horacle : oracle.Recollects)
include horacle

/-- Sifting shows all the types, and keeps the first one of each text. -/
theorem run_sift (types : List Ty) (kept : List (Ty × String)) (k : Knowledge) :
    ∃ shown : List (Ty × String), shown.map (·.1) = types ∧
      (((sift kept types).perform oracle).run k).2.ShowsAll oracle shown ∧
      (((sift kept types).perform oracle).run k).1.reverse =
        List.eraseDupsBy.loop (fun a b => a.2 == b.2) shown kept := by
  induction types generalizing kept k with
  | nil => exact ⟨[], rfl, fun _ h => absurd h List.not_mem_nil, rfl⟩
  | cons t rest ih =>
    rw [sift, Inquiry.run_bind]
    have ht := Knowledge.Shows.of_display horacle t k
    generalize ((textOf t).perform oracle).run k = found at ht
    -- The text of the head is that by which it is known later on.
    obtain ⟨text, next⟩ := found
    have hlater := Inquiry.perform_recalling horacle.recalling
      (sift (if kept.any (text == ·.2) then kept else (t, text) :: kept) rest) next
    obtain ⟨shown, htypes, hshown, hkept⟩ :=
      ih (if kept.any (text == ·.2) then kept else (t, text) :: kept) next
    refine ⟨(t, text) :: shown, by rw [List.map_cons, htypes], ?_, ?_⟩
    · intro p hp
      rcases List.mem_cons.mp hp with rfl | hp
      · exact ht.mono hlater
      · exact hshown p hp
    · rw [loop_cons]
      exact hkept

omit horacle in
/-- Sifting types that have been shown, each by a text of its own, keeps them all and finds out
nothing new. -/
theorem run_sift_settled {shown kept : List (Ty × String)} {k : Knowledge}
    (hshown : k.ShowsAll oracle shown) (hnew : ((shown.reverse ++ kept).map (·.2)).Nodup) :
    ((sift kept (shown.map (·.1))).perform oracle).run k = (shown.reverse ++ kept, k) := by
  induction shown generalizing kept with
  | nil => rfl
  | cons p rest ih =>
    -- The text of the head is not among those kept, so it is kept as well.
    have hkept : kept.any (p.2 == ·.2) = false := by
      rw [← contains_texts]
      simp only [List.reverse_cons, List.append_assoc, List.map_append] at hnew
      have hp := (List.nodup_append.mp hnew).2.1
      simpa using (List.nodup_cons.mp hp).1
    rw [List.map_cons, sift, Inquiry.run_bind, (hshown p List.mem_cons_self).run]
    dsimp only
    rw [hkept]
    rw [List.reverse_cons, List.append_assoc] at hnew
    have hrest := ih (fun q hq => hshown q (List.mem_cons_of_mem _ hq)) hnew
    rw [List.reverse_cons, List.append_assoc]
    exact hrest

/-- The union of types none of whose alternatives is `any` consists of the first alternative of each
text. -/
theorem run_unionOf {types : List Ty} (hany : .any ∉ types.flatMap Ty.unionParts) (k : Knowledge) :
    ∃ shown : List (Ty × String), shown.map (·.1) = types.flatMap Ty.unionParts ∧
      (((unionOf types).perform oracle).run k).2.ShowsAll oracle shown ∧
      (((unionOf types).perform oracle).run k).1 =
        Ty.ofAlternatives ((firstShown shown).map (·.1)) := by
  obtain ⟨shown, htypes, hshown, hkept⟩ := run_sift horacle (types.flatMap Ty.unionParts) [] k
  have hsift := gather_append [] hany []
  rw [List.append_nil] at hsift
  refine ⟨shown, htypes, ?_⟩
  rw [unionOf_eq, hsift, Inquiry.run_bind, firstShown, List.eraseDupsBy, ← hkept, List.map_reverse]
  exact ⟨hshown, rfl⟩

/-- A union of a union is the union of all, and is made with the same questions. -/
theorem run_unionOf_unionOf {types : List Ty} (hne : types.flatMap Ty.unionParts ≠ [])
    (hsingle : ∀ t ∈ types.flatMap Ty.unionParts, t.Single) (others : List Ty) (k : Knowledge) :
    ((do unionOf ((← unionOf types) :: others) : Inquiry Ty).perform oracle).run k =
      ((unionOf (types ++ others)).perform oracle).run k := by
  rw [Inquiry.run_bind]
  by_cases hany : .any ∈ types.flatMap Ty.unionParts
  · have hinner := run_unionOf_append hany others oracle k
    rw [hinner.1, hinner.2]
    exact Prod.ext hinner.1.symm rfl
  · obtain ⟨shown, htypes, hshown, hkept⟩ := run_sift horacle (types.flatMap Ty.unionParts) [] k
    have hsift := gather_append [] hany
    have hinner := hsift []
    rw [List.append_nil] at hinner
    rw [unionOf_eq types, hinner, Inquiry.run_bind, unionOf_eq, unionOf_eq, List.flatMap_cons,
      List.flatMap_append, hsift, Inquiry.run_bind]
    generalize ((sift [] (types.flatMap Ty.unionParts)).perform oracle).run k =
      sifted at hshown hkept
    obtain ⟨kept, next⟩ := sifted
    -- The alternatives of the inner union have been shown, each by a text of its own.
    have hkept : kept = (firstShown shown).reverse := by
      rw [← List.reverse_reverse kept]
      exact congrArg List.reverse hkept
    have hparts := unionParts_ofAlternatives (firsts_ne_nil htypes hne)
      fun t ht => hsingle t (mem_of_mem_firsts htypes ht)
    have hresult : ((gather kept []).perform oracle).run next =
        (Ty.ofAlternatives ((firstShown shown).map (·.1)), next) := by
      rw [hkept, gather, List.map_reverse, List.map_reverse, Ty.gatherAlternatives,
        List.reverse_reverse]
      rfl
    -- So they are all kept again, and nothing new is found out.
    have hagain : ((sift [] ((firstShown shown).map (·.1))).perform oracle).run next =
        ((firstShown shown).reverse ++ [], next) :=
      run_sift_settled (fun p hp => hshown p (mem_of_mem_firstShown hp)) (by
        rw [List.append_nil, List.map_reverse]
        exact List.nodup_reverse.mpr (nodup_firstShown shown))
    rw [hresult, hparts, gather_append [] fun h => hany (mem_of_mem_firsts htypes h),
      Inquiry.run_bind, hagain, hkept, List.append_nil]

end Runs

end Inference

end ScriptGraph
