import Mathlib.Data.List.Basic
import ScriptGraph.Inference.Signatures
import ScriptGraph.Proofs.Inference.Repetition

/-!
# The calls that a type offers

A value is called by the signatures of its function type, or by those of the symbol that it is an
instance of; a union offers the calls of the first alternative that offers any. What a type offers
is the list of its callable parts, each told by the outlines of its signatures or by its symbol.
Types that offer the same calls give a call signatures of the same outlines.

- `Ty.offers`: the calls that a type offers
- `callSignatures_eq`: the signatures of a type are those of its callable parts
- `Ty.offers_instantiate`: putting types for type parameters keeps what a type offers, unless one
  of its alternatives is a type parameter or some of them become alike
-/

namespace ScriptGraph

open Binding Syntax Inference

/-- A part of a type whose values are called. -/
inductive Callable
  | function (signatures : List Signature)
  | object (of : Entity) (arguments : List Ty)

/-- What a callable part offers: signatures with some outlines, or those of the instances of a
symbol. -/
inductive Offer
  | outlines (of : List (Option DeclarationId × List (Bool × Bool)))
  | instances (of : SymbolId)
deriving DecidableEq

namespace Callable

/-- What a callable part offers. -/
def offer : Callable → Offer
  | function signatures => .outlines (signatures.map Signature.outline)
  | object e _ => .instances e.id

/-- The signatures by which the values of a callable part are called. -/
def signatures : Callable → Inquiry (List Signature)
  | function signatures => return signatures
  | object e arguments => do
    instanceSignatures e arguments ((← store).symbol e.id).callSignatures

/-- The signatures of the first callable part that has any. -/
def firstSignatures : List Callable → Inquiry (List Signature)
  | [] => return []
  | c :: rest => do
    let signatures ← c.signatures
    if signatures.isEmpty then firstSignatures rest else return signatures

/-- The first signatures of two lists are those of the first, or else of the second. -/
theorem firstSignatures_append (cs ds : List Callable) :
    firstSignatures (cs ++ ds) = do
      let signatures ← firstSignatures cs
      if signatures.isEmpty then firstSignatures ds else return signatures := by
  induction cs with
  | nil => rfl
  | cons c rest ih =>
    simp only [List.cons_append, firstSignatures, ih, bind_assoc]
    refine congrArg _ (funext fun signatures => ?_)
    cases signatures <;> rfl

/-- A single part has its own signatures. -/
theorem firstSignatures_singleton (c : Callable) : firstSignatures [c] = c.signatures := by
  have hsame : ∀ signatures : List Signature,
      (if signatures.isEmpty then firstSignatures [] else return signatures) =
        (Pure.pure signatures : Inquiry (List Signature)) := fun signatures => by
    cases signatures <;> rfl
  rw [firstSignatures]
  simp only [hsame, bind_pure]

/-- A store holds what a callable part mentions. -/
def Within (files : Source → Prop) (st : Store) : Callable → Prop
  | function signatures => AllWithin files signatures st
  | object e arguments => e.id.index < st.symbols.size ∧ ∀ t ∈ arguments, t.Within files st

/-- What is callable stays within larger stores. -/
theorem Within.mono {files : Source → Prop} {old new : Store} {c : Callable}
    (h : c.Within files old) (hle : old.NoSmaller new) : c.Within files new := by
  cases c with
  | function signatures => exact AllWithin.mono h hle
  | object e arguments =>
    exact ⟨hle.symbol_lt h.1, fun t ht => (h.2 t ht).mono hle⟩

end Callable

namespace Ty

mutual

/-- The callable parts of a type: itself, or those of its alternatives. -/
def callables : Ty → List Callable
  | .function signatures _ => [.function signatures]
  | .object e arguments => [.object e arguments]
  | .union members => callablesAmong members
  | _ => []

/-- The callable parts of some types. -/
def callablesAmong : List Ty → List Callable
  | [] => []
  | t :: rest => callables t ++ callablesAmong rest

end

/-- The calls that a type offers. -/
def offers (t : Ty) : List Offer :=
  t.callables.map Callable.offer

mutual

/-- What is callable of a type is within the store of the type. -/
theorem callables_within {files : Source → Prop} {st : Store} : ∀ {t : Ty}, t.Within files st →
    ∀ c ∈ t.callables, c.Within files st
  | _, .function hsignatures _, c, hc => by
    rw [callables] at hc
    exact List.mem_singleton.mp hc ▸ hsignatures
  | _, .object he harguments, c, hc => by
    rw [callables] at hc
    exact List.mem_singleton.mp hc ▸ ⟨he, harguments⟩
  | .union members, .union hmembers, c, hc => by
    rw [callables] at hc
    exact callablesAmong_within members hmembers c hc
  | _, .intrinsic, _, hc | _, .static _, _, hc | _, .array _ _, _, hc | _, .tuple _ _, _, hc
  | _, .parameter, _, hc | _, .text, _, hc | _, .literal _ _, _, hc | _, .unspecified, _, hc =>
    absurd hc List.not_mem_nil

/-- So it is among several types. -/
theorem callablesAmong_within {files : Source → Prop} {st : Store} : ∀ ts : List Ty,
    (∀ t ∈ ts, t.Within files st) → ∀ c ∈ callablesAmong ts, c.Within files st
  | [], _, _, hc => absurd hc List.not_mem_nil
  | t :: rest, hts, c, hc => by
    rw [callablesAmong] at hc
    rcases List.mem_append.mp hc with hc | hc
    · exact callables_within (hts t List.mem_cons_self) c hc
    · exact callablesAmong_within rest (fun d hd => hts d (List.mem_cons_of_mem _ hd)) c hc

end

/-! ## Types put for type parameters -/

/-- A type that is no union. -/
def Single (t : Ty) : Prop :=
  t.unionParts = [t]

/-- Whether it does not depend on type arguments what a type is: it is no type parameter, which
becomes what is put for it, and no union, which is built anew. -/
def isPlain : Ty → Bool
  | .parameter _ | .union _ => false
  | _ => true

/-- Whether none of the alternatives of a type depends on type arguments. -/
def keepsForm (t : Ty) : Bool :=
  t.unionParts.all isPlain

/-- What is callable among types is what each of them has, in order. -/
theorem callablesAmong_eq (ts : List Ty) : callablesAmong ts = ts.flatMap callables := by
  induction ts with
  | nil => rfl
  | cons t rest ih => rw [callablesAmong, List.flatMap_cons, ih]

/-- A type offers what its alternatives do. -/
theorem offers_eq (t : Ty) : t.offers = t.unionParts.flatMap offers := by
  cases t with
  | union members =>
    unfold offers
    rw [callables, callablesAmong_eq, List.map_flatMap]
    rfl
  | _ => exact (List.append_nil _).symm

/-- A type that passes the test for any is any. -/
theorem eq_any {t : Ty} (h : t.isIntrinsic .any = true) : t = .any := by
  cases t with
  | intrinsic i => exact congrArg Ty.intrinsic (eq_of_beq h)
  | _ => exact nomatch h

/-- Alternatives are gathered in their order; some may be left out, or `any` takes over. -/
theorem gatherAlternatives_yields (seen : List String) (kept ts : List Ty) :
    Inquiry.Yields (gatherAlternatives demand seen kept ts) fun u =>
      (u = .any ∧ .any ∈ ts) ∨ ∃ l, l.Sublist ts ∧ u = ofAlternatives (kept.reverse ++ l) := by
  -- By induction on the alternatives that are still to come.
  induction ts generalizing seen kept with
  | nil => exact .pure (.inr ⟨[], .slnil, by rw [List.append_nil]⟩)
  | cons t rest ih =>
    rw [gatherAlternatives]
    split
    · rename_i hany
      exact .pure (.inl ⟨rfl, eq_any hany ▸ List.mem_cons_self⟩)
    · refine .bind (.something _) fun shown _ => ?_
      -- An alternative that is shown like one before is skipped.
      split
      · refine .imp (ih seen kept) fun u hu => ?_
        rcases hu with ⟨hu, hmem⟩ | ⟨l, hl, hu⟩
        · exact .inl ⟨hu, List.mem_cons_of_mem _ hmem⟩
        · exact .inr ⟨l, hl.cons t, hu⟩
      · refine .imp (ih (shown :: seen) (t :: kept)) fun u hu => ?_
        rcases hu with ⟨hu, hmem⟩ | ⟨l, hl, hu⟩
        · exact .inl ⟨hu, List.mem_cons_of_mem _ hmem⟩
        · refine .inr ⟨t :: l, hl.cons_cons t, ?_⟩
          rw [hu, List.reverse_cons, List.append_assoc, List.singleton_append]

/-- A union of single types with as many alternatives offers what they do. -/
theorem offers_unionOf {ts : List Ty} (h : ∀ t ∈ ts, t.Single) :
    Inquiry.Yields (Ty.unionOf demand ts) fun u =>
      u.unionParts.length = ts.length → u.offers = ts.flatMap offers := by
  have hparts : ts.flatMap unionParts = ts := by
    rw [List.flatMap_congr h, List.flatMap_singleton']
  rw [Ty.unionOf, hparts]
  cases ts with
  | nil => exact .pure fun _ => rfl
  | cons t rest =>
    rw [gatherAlternatives]
    split
    -- The first alternative is any, so it is all that is left.
    · rename_i hany
      refine .pure fun hlength => ?_
      have hrest : rest = [] := List.eq_nil_of_length_eq_zero (Nat.succ.inj hlength).symm
      rw [hrest, eq_any hany]
      rfl
    -- The first alternative is kept, since none has been seen.
    · refine .bind (.something _) fun shown _ => ?_
      refine .imp (gatherAlternatives_yields [shown] [t] rest) fun u hu hlength => ?_
      rcases hu with ⟨rfl, hmem⟩ | ⟨l, hl, rfl⟩
      -- An alternative further on is any, which would leave one alternative only.
      · have hrest : rest = [] := List.eq_nil_of_length_eq_zero (Nat.succ.inj hlength).symm
        exact absurd hmem (hrest ▸ List.not_mem_nil)
      · cases l with
        | nil =>
          have ht : t.unionParts = [t] := h t List.mem_cons_self
          have hlength : t.unionParts.length = rest.length + 1 := hlength
          rw [ht] at hlength
          have hrest : rest = [] := List.eq_nil_of_length_eq_zero (Nat.succ.inj hlength).symm
          rw [hrest]
          exact (List.append_nil _).symm
        | cons d l =>
          -- As many alternatives were kept as there are, so none was left out.
          have hsame : d :: l = rest := hl.eq_of_length (Nat.succ.inj hlength)
          rw [← hsame]
          exact offers_eq _

/-- Putting types for type parameters keeps what a type offers, and leaves it a single one. -/
theorem substitute_plain (mapping : List (String × Ty)) {t : Ty} (h : t.isPlain = true) :
    Inquiry.Yields (t.substitute demand mapping) fun u => u.Single ∧ u.offers = t.offers := by
  cases t with
  | parameter name => exact nomatch h
  | union members => exact nomatch h
  | function signatures e =>
    rw [substitute]
    -- Function types offer the outlines of their signatures, which substitution keeps.
    split
    · exact .pure ⟨rfl, rfl⟩
    · exact .bind (Signature.substituteSignatures_yields mapping signatures) fun _ hsame =>
        .pure ⟨rfl, congrArg (fun outlines => [Offer.outlines outlines]) hsame⟩
  | object e arguments => exact .bind (.something _) fun _ _ => .pure ⟨rfl, rfl⟩
  | array element e => exact .bind (.something _) fun _ _ => .pure ⟨rfl, rfl⟩
  | tuple elements e => exact .bind (.something _) fun _ _ => .pure ⟨rfl, rfl⟩
  | literal members types => exact .bind (.something _) fun _ _ => .pure ⟨rfl, rfl⟩
  | intrinsic i => exact .pure ⟨rfl, rfl⟩
  | static e => exact .pure ⟨rfl, rfl⟩
  | text spelling => exact .pure ⟨rfl, rfl⟩
  | unspecified => exact .pure ⟨rfl, rfl⟩

/-- Plain types stay plain under a mapping. -/
theorem substituteAll_plain (mapping : List (String × Ty)) {ts : List Ty}
    (h : ∀ t ∈ ts, t.isPlain = true) :
    Inquiry.Yields (substituteAll demand mapping ts) fun us =>
      (∀ u ∈ us, u.Single) ∧ us.length = ts.length ∧ us.flatMap offers = ts.flatMap offers := by
  induction ts with
  | nil => exact .pure ⟨nofun, rfl, rfl⟩
  | cons t rest ih =>
    -- Each type stays single, so nothing is flattened.
    refine .bind (substitute_plain mapping (h t List.mem_cons_self)) fun u ⟨hu, hoffers⟩ =>
      .bind (ih fun d hd => h d (List.mem_cons_of_mem _ hd)) fun us ⟨hus, hlength, hall⟩ =>
        .pure ⟨fun d hd => ?_, congrArg (· + 1) hlength, ?_⟩
    · rcases List.mem_cons.mp hd with rfl | hd
      · exact hu
      · exact hus d hd
    · rw [List.flatMap_cons, List.flatMap_cons, hoffers, hall]

/-- A type that keeps its form offers the same under a mapping. -/
theorem offers_substitute (mapping : List (String × Ty)) {t : Ty} (h : t.keepsForm = true) :
    Inquiry.Yields (t.substitute demand mapping) fun u =>
      u.unionParts.length = t.unionParts.length → u.offers = t.offers := by
  have hparts : ∀ u ∈ t.unionParts, u.isPlain = true := List.all_eq_true.mp h
  cases t with
  | union members =>
    refine .bind (substituteAll_plain mapping hparts) fun us ⟨hus, hlength, hall⟩ =>
      .imp (offers_unionOf hus) fun u hu hsame => ?_
    rw [hu (hsame.trans hlength.symm), hall]
    exact (offers_eq (.union members)).symm
  | _ => exact .imp (substitute_plain mapping (hparts _ List.mem_cons_self)) fun u hu _ => hu.2

/-- Without type arguments a type goes on offering the same calls. With them it does if none of its
alternatives depends on them and no two become alike. -/
theorem offers_instantiate (mapping : List (String × Ty)) {t : Ty} (h : t.keepsForm = true) :
    Inquiry.Yields (t.instantiate demand mapping) fun u =>
      u.unionParts.length = t.unionParts.length → u.offers = t.offers := by
  unfold instantiate
  split
  · exact .pure fun _ => rfl
  · exact offers_substitute mapping h

end Ty

namespace Inference

mutual

/-- The signatures by which values of a type are called are those of its callable parts. -/
theorem callSignatures_eq : ∀ t : Ty, callSignatures t = Callable.firstSignatures t.callables
  | .function signatures _ => by
    rw [Ty.callables, Callable.firstSignatures_singleton, callSignatures, Callable.signatures]
  | .object e arguments => by
    rw [Ty.callables, Callable.firstSignatures_singleton, callSignatures, Callable.signatures]
  | .union members => by
    rw [callSignatures, Ty.callables]
    exact firstCallSignatures_eq members
  | .intrinsic _ | .static _ | .array _ _ | .tuple _ _ | .parameter _ | .text _ | .literal _ _
  | .unspecified => rfl

/-- The first call signatures among types are those of their callables. -/
theorem firstCallSignatures_eq : ∀ ts : List Ty,
    firstCallSignatures ts = Callable.firstSignatures (Ty.callablesAmong ts)
  | [] => rfl
  | t :: rest => by
    rw [firstCallSignatures, Ty.callablesAmong, Callable.firstSignatures_append,
      callSignatures_eq t, firstCallSignatures_eq rest]

end

end Inference

end ScriptGraph
