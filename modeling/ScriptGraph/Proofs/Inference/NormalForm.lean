import ScriptGraph.Proofs.Inference.Unions

/-!
# The normal form of unions

A union in normal form consists of at least two alternatives that are no unions, none of them
`any`, each shown by a text of its own. Unions are made in normal form, and a type all of whose
unions have it keeps it when types are put for type parameters.

- `Ty.Normal`: all unions of a type are in normal form
- `unionOf_normal`, `substitute_normal`: what is made is in normal form
- `Ty.unions_normal`: the laws of unions
-/

namespace ScriptGraph

open Binding Syntax Inference

/-- Types are shown by different texts. -/
def Inference.Knowledge.ShowsApart (oracle : Oracle) (k : Knowledge) (types : List Ty) : Prop :=
  ∃ shown : List (Ty × String), shown.map (·.1) = types ∧ k.ShowsAll oracle shown ∧
    (shown.map (·.2)).Nodup

/-- Types that are shown apart stay so. -/
theorem Inference.Knowledge.ShowsApart.mono {oracle : Oracle} {k next : Knowledge}
    {types : List Ty} (h : k.ShowsApart oracle types) (hle : k.Recalls next) :
    next.ShowsApart oracle types := by
  obtain ⟨shown, htypes, hshown, hnodup⟩ := h
  exact ⟨shown, htypes, hshown.mono hle, hnodup⟩

mutual

/-- All unions in a type consist of at least two alternatives, none of them a union or `any`, that
are shown by different texts. -/
inductive Ty.Normal (oracle : Oracle) (k : Knowledge) : Ty → Prop
  | intrinsic {i : Intrinsic} : Ty.Normal oracle k (.intrinsic i)
  | object {e : Entity} {arguments : List Ty}
      (harguments : ∀ t ∈ arguments, Ty.Normal oracle k t) :
      Ty.Normal oracle k (.object e arguments)
  | static {e : Entity} : Ty.Normal oracle k (.static e)
  | array {element : Ty} {entity : Option Entity} (helement : Ty.Normal oracle k element) :
      Ty.Normal oracle k (.array element entity)
  | tuple {elements : List Ty} {entity : Option Entity}
      (helements : ∀ t ∈ elements, Ty.Normal oracle k t) :
      Ty.Normal oracle k (.tuple elements entity)
  | union {members : List Ty} (htwo : 2 ≤ members.length) (hsingle : ∀ t ∈ members, t.Single)
      (hany : .any ∉ members) (happart : k.ShowsApart oracle members)
      (hmembers : ∀ t ∈ members, Ty.Normal oracle k t) : Ty.Normal oracle k (.union members)
  | parameter {name : String} : Ty.Normal oracle k (.parameter name)
  | text {spelling : String} : Ty.Normal oracle k (.text spelling)
  | literal {members : List (String × SymbolId)} {types : List (String × Ty)}
      (htypes : ∀ e ∈ types, Ty.Normal oracle k e.2) : Ty.Normal oracle k (.literal members types)
  | function {signatures : List Signature} {entity : Option Entity}
      (hsignatures : ∀ s ∈ signatures, Signature.Normal oracle k s) :
      Ty.Normal oracle k (.function signatures entity)
  | unspecified : Ty.Normal oracle k .unspecified

/-- So do all unions in a signature: in its parameters, in its result if that is given, and in what
has been put for type parameters. -/
inductive Signature.Normal (oracle : Oracle) (k : Knowledge) : Signature → Prop
  | mk {s : Signature} (hparameters : ∀ p ∈ s.parameters, Ty.Normal oracle k p.type)
      (hgiven : ∀ t, s.result = .given t → Ty.Normal oracle k t)
      (hmapping : ∀ e ∈ s.mapping, Ty.Normal oracle k e.2) : Signature.Normal oracle k s

end

variable {oracle : Oracle} {k next : Knowledge}

mutual

/-- A type in normal form stays in it. -/
theorem Ty.Normal.mono (hle : k.Recalls next) :
    ∀ {t : Ty}, t.Normal oracle k → t.Normal oracle next
  | _, .intrinsic => .intrinsic
  | _, .object harguments => .object fun t ht => (harguments t ht).mono hle
  | _, .static => .static
  | _, .array helement => .array (helement.mono hle)
  | _, .tuple helements => .tuple fun t ht => (helements t ht).mono hle
  | _, .union htwo hsingle hany happart hmembers =>
    .union htwo hsingle hany (happart.mono hle) fun t ht => (hmembers t ht).mono hle
  | _, .parameter => .parameter
  | _, .text => .text
  | _, .literal htypes => .literal fun e he => (htypes e he).mono hle
  | _, .function hsignatures => .function fun s hs => (hsignatures s hs).mono hle
  | _, .unspecified => .unspecified

/-- A signature in normal form stays in it. -/
theorem Signature.Normal.mono (hle : k.Recalls next) :
    ∀ {s : Signature}, s.Normal oracle k → s.Normal oracle next
  | _, .mk hparameters hgiven hmapping =>
    .mk (fun p hp => (hparameters p hp).mono hle) (fun t ht => (hgiven t ht).mono hle)
      fun e he => (hmapping e he).mono hle

end

namespace Ty

/-- The alternatives of a type in normal form are no unions, and in normal form themselves. -/
theorem Normal.unionParts {t : Ty} (h : t.Normal oracle k) :
    t.unionParts ≠ [] ∧ ∀ part ∈ t.unionParts, part.Single ∧ part.Normal oracle k := by
  cases h with
  | @union members htwo hsingle hany happart hmembers =>
    refine ⟨fun hnil => ?_, fun part hpart => ⟨hsingle part hpart, hmembers part hpart⟩⟩
    have hnil : members = [] := hnil
    rw [hnil] at htwo
    exact absurd htwo (by decide)
  | _ =>
    refine ⟨List.cons_ne_nil _ _, fun part hpart => ?_⟩
    obtain rfl := List.mem_singleton.mp hpart
    exact ⟨rfl, by constructor <;> assumption⟩

/-- The alternatives of types in normal form. -/
theorem Normal.flatMap_unionParts {types : List Ty} (h : ∀ t ∈ types, t.Normal oracle k) :
    ∀ part ∈ types.flatMap Ty.unionParts, part.Single ∧ part.Normal oracle k := by
  intro part hpart
  obtain ⟨t, ht, hpart⟩ := List.mem_flatMap.mp hpart
  exact (h t ht).unionParts.2 part hpart

/-- Different alternatives in normal form make a type in normal form. -/
theorem ofAlternatives_normal {types : List Ty} (hany : .any ∉ types)
    (happart : k.ShowsApart oracle types) (h : ∀ t ∈ types, t.Single ∧ t.Normal oracle k) :
    (ofAlternatives types).Normal oracle k := by
  match types with
  | [] => exact .intrinsic
  | [t] => exact (h t List.mem_cons_self).2
  | a :: b :: rest =>
    apply Normal.union _ (fun t ht => (h t ht).1) hany happart fun t ht => (h t ht).2
    simp

end Ty

/-! ## What is made from types in normal form -/

namespace Inference

/-- From what is known, an inquiry finds something with `φ`, of what is known then. -/
def Makes (oracle : Oracle) (k : Knowledge) {α : Type} (x : Inquiry α) (φ : α → Knowledge → Prop) :
    Prop :=
  φ ((x.perform oracle).run k).1 ((x.perform oracle).run k).2

/-- A result is made at once. -/
theorem Makes.pure {α : Type} {a : α} {φ : α → Knowledge → Prop} (h : φ a k) :
    Makes oracle k (Pure.pure a) φ :=
  h

section Makes

variable (horacle : oracle.Recollects)
include horacle

/-- Two parts make what the second one does after the first. -/
theorem Makes.bind {α β : Type} {x : Inquiry β} {f : β → Inquiry α} {φ : α → Knowledge → Prop}
    {ψ : β → Knowledge → Prop} (hx : Makes oracle k x ψ)
    (hf : ∀ b next, k.Recalls next → ψ b next → Makes oracle next (f b) φ) :
    Makes oracle k (x >>= f) φ := by
  unfold Makes
  rw [Inquiry.run_bind]
  exact hf _ _ (Inquiry.perform_recalling horacle.recalling x k) hx

/-- A union of types in normal form is in normal form. -/
theorem unionOf_normal {types : List Ty} (h : ∀ t ∈ types, t.Normal oracle k) :
    Makes oracle k (unionOf types) fun u next => u.Normal oracle next := by
  have hparts := Ty.Normal.flatMap_unionParts h
  -- Either the union is `any`, or its alternatives are the first ones of each text.
  by_cases hany : .any ∈ types.flatMap Ty.unionParts
  · unfold Makes
    rw [(run_unionOf_append hany [] oracle k).1]
    exact .intrinsic
  · obtain ⟨shown, htypes, hshown, hresult⟩ := run_unionOf horacle hany k
    have hlater := Inquiry.perform_recalling horacle.recalling (unionOf types) k
    unfold Makes
    rw [hresult]
    apply Ty.ofAlternatives_normal fun h => hany (mem_of_mem_firsts htypes h)
    · exact ⟨firstShown shown, rfl, fun p hp => hshown p (mem_of_mem_firstShown hp),
        nodup_firstShown shown⟩
    · intro t ht
      obtain ⟨hsingle, hnormal⟩ := hparts t (mem_of_mem_firsts htypes ht)
      exact ⟨hsingle, hnormal.mono hlater⟩

end Makes

/-- The values of a mapping stay in normal form. -/
theorem mapping_mono {mapping : List (String × Ty)} (hle : k.Recalls next)
    (h : ∀ e ∈ mapping, e.2.Normal oracle k) : ∀ e ∈ mapping, e.2.Normal oracle next :=
  fun e he => (h e he).mono hle

mutual

/-- Types in normal form put for the type parameters of a type in normal form make one in normal
form. -/
theorem substitute_normal (horacle : oracle.Recollects) {mapping : List (String × Ty)} :
    ∀ {k : Knowledge}, (∀ e ∈ mapping, e.2.Normal oracle k) → ∀ t : Ty, t.Normal oracle k →
      Makes oracle k (t.substitute demand mapping) fun t next => t.Normal oracle next
  | k, hm, .object e arguments, ht => by
    cases ht with
    | object harguments =>
      exact .bind horacle (substituteAll_normal horacle hm arguments harguments)
        fun _ _ _ hall => .pure (.object hall)
  | k, hm, .array element e, ht => by
    cases ht with
    | array helement =>
      exact .bind horacle (substitute_normal horacle hm element helement)
        fun _ _ _ helement => .pure (.array helement)
  | k, hm, .tuple elements e, ht => by
    cases ht with
    | tuple helements =>
      exact .bind horacle (substituteAll_normal horacle hm elements helements)
        fun _ _ _ hall => .pure (.tuple hall)
  | k, hm, .union members, ht => by
    cases ht with
    | union _ _ _ _ hmembers =>
      -- The union is made anew, whatever has become of its alternatives.
      exact .bind horacle (substituteAll_normal horacle hm members hmembers)
        fun _ _ _ hall => unionOf_normal horacle hall
  | k, hm, .parameter name, _ => .pure (Ty.forall_lookup hm (fun _ => .parameter) name)
  | k, hm, .literal members types, ht => by
    cases ht with
    | literal htypes =>
      exact .bind horacle (substituteNamed_normal horacle hm types htypes)
        fun _ _ _ hall => .pure (.literal hall)
  | k, hm, .function signatures e, ht => by
    rw [Ty.substitute]
    split
    · exact .pure ht
    · cases ht with
      | function hsignatures =>
        exact .bind horacle (substituteSignatures_normal horacle hm signatures hsignatures)
          fun _ _ _ hall => .pure (.function hall)
  -- The other types have no parts that a substitution reaches.
  | _, _, .intrinsic _, ht => .pure ht
  | _, _, .static _, ht => .pure ht
  | _, _, .text _, ht => .pure ht
  | _, _, .unspecified, ht => .pure ht

/-- Types in normal form stay so under a mapping. -/
theorem substituteAll_normal (horacle : oracle.Recollects) {mapping : List (String × Ty)} :
    ∀ {k : Knowledge}, (∀ e ∈ mapping, e.2.Normal oracle k) → ∀ ts : List Ty,
      (∀ t ∈ ts, t.Normal oracle k) →
        Makes oracle k (Ty.substituteAll demand mapping ts)
          fun ts next => ∀ t ∈ ts, t.Normal oracle next
  | _, _, [], _ => .pure fun _ ht => absurd ht List.not_mem_nil
  | k, hm, t :: ts, hts => by
    obtain ⟨ht, hts⟩ := List.forall_mem_cons.mp hts
    refine .bind horacle (substitute_normal horacle hm t ht) fun first now hnow hfirst => ?_
    refine .bind horacle (substituteAll_normal horacle (mapping_mono hnow hm) ts
      fun d hd => (hts d hd).mono hnow) fun rest next hnext hrest => ?_
    exact .pure (List.forall_mem_cons.mpr ⟨hfirst.mono hnext, hrest⟩)

/-- So do named types. -/
theorem substituteNamed_normal (horacle : oracle.Recollects) {mapping : List (String × Ty)} :
    ∀ {k : Knowledge}, (∀ e ∈ mapping, e.2.Normal oracle k) → ∀ ts : List (String × Ty),
      (∀ e ∈ ts, e.2.Normal oracle k) →
        Makes oracle k (Ty.substituteNamed demand mapping ts)
          fun ts next => ∀ e ∈ ts, e.2.Normal oracle next
  | _, _, [], _ => .pure fun _ ht => absurd ht List.not_mem_nil
  | k, hm, (name, t) :: ts, hts => by
    obtain ⟨ht, hts⟩ := List.forall_mem_cons.mp hts
    refine .bind horacle (substitute_normal horacle hm t ht) fun first now hnow hfirst => ?_
    refine .bind horacle (substituteNamed_normal horacle (mapping_mono hnow hm) ts
      fun d hd => (hts d hd).mono hnow) fun rest next hnext hrest => ?_
    exact .pure (List.forall_mem_cons.mpr ⟨hfirst.mono hnext, hrest⟩)

/-- So do parameters. -/
theorem substituteParameters_normal (horacle : oracle.Recollects)
    {mapping : List (String × Ty)} :
    ∀ {k : Knowledge}, (∀ e ∈ mapping, e.2.Normal oracle k) → ∀ ps : List (ParameterOf Ty),
      (∀ p ∈ ps, p.type.Normal oracle k) →
        Makes oracle k (Ty.substituteParameters demand mapping ps)
          fun ps next => ∀ p ∈ ps, p.type.Normal oracle next
  | _, _, [], _ => .pure fun _ ht => absurd ht List.not_mem_nil
  | k, hm, ⟨name, t, optional, gathers⟩ :: ps, hps => by
    obtain ⟨ht, hps⟩ := List.forall_mem_cons.mp hps
    refine .bind horacle (substitute_normal horacle hm t ht) fun first now hnow hfirst => ?_
    refine .bind horacle (substituteParameters_normal horacle (mapping_mono hnow hm) ps
      fun d hd => (hps d hd).mono hnow) fun others next hnext hothers => ?_
    exact .pure (List.forall_mem_cons.mpr ⟨hfirst.mono hnext, hothers⟩)

/-- So do signatures. -/
theorem substituteSignatures_normal (horacle : oracle.Recollects)
    {mapping : List (String × Ty)} :
    ∀ {k : Knowledge}, (∀ e ∈ mapping, e.2.Normal oracle k) → ∀ ss : List (SignatureOf Ty),
      (∀ s ∈ ss, Signature.Normal oracle k s) →
        Makes oracle k (Ty.substituteSignatures demand mapping ss)
          fun ss next => ∀ s ∈ ss, Signature.Normal oracle next s
  | _, _, [], _ => .pure fun _ ht => absurd ht List.not_mem_nil
  | k, hm, ⟨declaration, parameters, result, old, cell⟩ :: ss, hss => by
    obtain ⟨⟨hparameters, hgiven, hmapping⟩, hss⟩ := List.forall_mem_cons.mp hss
    refine .bind horacle (substituteParameters_normal horacle hm parameters hparameters)
      fun parameters' now hnow hparameters' => ?_
    -- A new number under which to remember the result changes nothing that is remembered.
    refine .bind horacle (ψ := fun _ next => now.Recalls next)
      (Step.perform_recalling horacle.recalling .newCell now) fun cell' later hlater _ => ?_
    have hle := hnow.trans hlater
    refine .bind horacle (substituteSignatures_normal horacle (mapping_mono hle hm) ss
      fun d hd => (hss d hd).mono hle) fun others next hnext hothers => ?_
    have hall := hle.trans hnext
    refine .pure (List.forall_mem_cons.mpr ⟨.mk ?_ ?_ ?_, hothers⟩)
    · exact fun p hp => (hparameters' p hp).mono (hlater.trans hnext)
    · exact fun t ht => (hgiven t ht).mono hall
    · exact Ty.forall_mergeMappings (mapping_mono hall hmapping) (mapping_mono hall hm)

end

/-- What an inquiry finds when its questions are answered by the rules, and what is known then. -/
def Inquiry.found {α : Type} (depth : Nat) (x : Inquiry α) (k : Knowledge) : α × Knowledge :=
  (x.perform (answer depth)).run k

/-- A type made of alternatives is `any` only if one of them is. -/
theorem any_mem_of_ofAlternatives {types : List Ty} (h : Ty.ofAlternatives types = .any) :
    .any ∈ types := by
  match types with
  | [] => exact nomatch h
  | [t] => exact h ▸ List.mem_cons_self
  | _ :: _ :: _ => exact nomatch h

end Inference

end ScriptGraph
