import ScriptGraph.Proofs.Binding.Keys
import ScriptGraph.Types.Substitution

/-!
# Types put for type parameters

Substitution is an action: it numbers the signatures of functions anew, and it builds unions anew,
for which their alternatives are shown. Apart from this it is the function `Ty.replace`, which puts
types for type parameters and leaves everything else as it is. Types are put one mapping after the
other, or by the merge of the mappings; `Ty.replace_merged` says when this comes to the same.

- `Ty.replace`: types put for type parameters
- `Ty.unnumbered`: a type without the numbers of its signatures
- `Ty.isUnionFree`: types in which there is no union to build anew
- `Ty.replace_merged`: mappings one after the other do what their merge does on all types if they
  do so on type parameters
-/

namespace ScriptGraph

open Binding

/-! ## Merged mappings -/

namespace Table

variable {κ β : Type} [DecidableEq κ]

/-- What is put last at a key counts. -/
theorem putEntry_putEntry (k : κ) (v v' : β) (es : List (κ × β)) :
    putEntry k v' (putEntry k v es) = putEntry k v' es := by
  induction es with
  | nil => simp [putEntry]
  | cons e rest ih =>
    by_cases h : e.1 = k
    · simp [putEntry, h]
    · simp [putEntry, h, ih]

/-- A new value at a key that is there may be put before or after the one at another key. -/
theorem putEntry_comm {k k' : κ} (hne : k ≠ k') (v v' : β) {es : List (κ × β)}
    (h : k ∈ es.map (·.1)) :
    putEntry k' v' (putEntry k v es) = putEntry k v (putEntry k' v' es) := by
  induction es with
  | nil => exact absurd h List.not_mem_nil
  | cons e rest ih =>
    by_cases hk : e.1 = k
    · have hk' : ¬ e.1 = k' := fun he => hne (hk.symm.trans he)
      simp [putEntry, hk, hne]
    · have hrest : k ∈ rest.map (·.1) := (List.mem_cons.mp h).resolve_left fun he => hk he.symm
      by_cases hk' : e.1 = k'
      · simp [putEntry, hk', hne.symm]
      · simp [putEntry, hk, hk', ih hrest]

/-- Putting an entry loses no key. -/
theorem mem_map_putEntry {k : κ} {es : List (κ × β)} (k' : κ) (v : β) (h : k ∈ es.map (·.1)) :
    k ∈ (putEntry k' v es).map (·.1) := by
  induction es with
  | nil => exact absurd h List.not_mem_nil
  | cons e rest ih =>
    rw [putEntry]
    split
    · rename_i he
      exact (List.mem_cons.mp h).elim (fun hk => List.mem_cons.mpr (.inl (hk.trans he)))
        (List.mem_cons_of_mem _)
    · exact (List.mem_cons.mp h).elim (fun hk => List.mem_cons.mpr (.inl hk))
        fun hk => List.mem_cons_of_mem _ (ih hk)

/-- Putting an entry adds its key. -/
theorem mem_map_putEntry_self (k : κ) (v : β) (es : List (κ × β)) :
    k ∈ (putEntry k v es).map (·.1) := by
  induction es with
  | nil => exact List.mem_cons_self
  | cons e rest ih =>
    rw [putEntry]
    split
    · exact List.mem_cons_self
    · exact List.mem_cons_of_mem _ ih

end Table

namespace Ty

variable {a b c mapping old new : List (String × Ty)} {name : String}

/-- A mapping in which each type parameter stands once. -/
def IsDistinct (mapping : List (String × Ty)) : Prop :=
  (mapping.map (·.1)).Nodup

instance (mapping : List (String × Ty)) : Decidable (IsDistinct mapping) :=
  inferInstanceAs (Decidable (mapping.map (·.1)).Nodup)

/-- The entries of the second mapping are put one after the other. -/
theorem mergeMappings_cons (a : List (String × Ty)) (e : String × Ty) (b : List (String × Ty)) :
    mergeMappings a (e :: b) = mergeMappings (Table.putEntry e.1 e.2 a) b :=
  rfl

/-- Putting an entry repeats no name. -/
theorem IsDistinct.putEntry (h : IsDistinct a) (name : String) (t : Ty) :
    IsDistinct (Table.putEntry name t a) :=
  Table.nodup_keys_put (t := ⟨a⟩) h name t

/-- Merging repeats no name. -/
theorem IsDistinct.mergeMappings (h : IsDistinct a) (b : List (String × Ty)) :
    IsDistinct (mergeMappings a b) := by
  induction b generalizing a with
  | nil => exact h
  | cons e rest ih => exact ih (h.putEntry e.1 e.2)

/-- A new type for a parameter that is overridden by no other one. -/
theorem mergeMappings_putEntry_of_notMem {t : Ty} (ha : name ∈ a.map (·.1))
    (hb : name ∉ b.map (·.1)) :
    mergeMappings (Table.putEntry name t a) b = Table.putEntry name t (mergeMappings a b) := by
  induction b generalizing a with
  | nil => rfl
  | cons e rest ih =>
    have hne : name ≠ e.1 := fun h => hb (List.mem_cons.mpr (.inl h))
    rw [mergeMappings_cons, mergeMappings_cons, Table.putEntry_comm hne _ _ ha]
    exact ih (Table.mem_map_putEntry _ _ ha) fun h => hb (List.mem_cons_of_mem _ h)

/-- A type that is put into the overriding mapping is put into the merge. -/
theorem mergeMappings_putEntry (a : List (String × Ty)) (hb : IsDistinct b) (name : String)
    (t : Ty) :
    mergeMappings a (Table.putEntry name t b) = Table.putEntry name t (mergeMappings a b) := by
  induction b generalizing a with
  | nil => rfl
  | cons e rest ih =>
    obtain ⟨hnotin, hrest⟩ := List.nodup_cons.mp hb
    rw [Table.putEntry]
    -- The entry is put in place of one of the same name, or further on.
    split
    · rename_i he
      subst he
      rw [mergeMappings_cons, mergeMappings_cons, ← mergeMappings_putEntry_of_notMem
        (Table.mem_map_putEntry_self _ _ _) hnotin, Table.putEntry_putEntry]
    · rw [mergeMappings_cons, mergeMappings_cons]
      exact ih _ hrest

/-- Merging three mappings does not depend on the brackets. -/
theorem mergeMappings_assoc (a : List (String × Ty)) (hb : IsDistinct b)
    (c : List (String × Ty)) :
    mergeMappings (mergeMappings a b) c = mergeMappings a (mergeMappings b c) := by
  induction c generalizing b with
  | nil => rfl
  | cons e rest ih =>
    rw [mergeMappings_cons, mergeMappings_cons, ← mergeMappings_putEntry a hb]
    exact ih (hb.putEntry _ _)

/-- A look-up in a merge sees the overriding mapping first. -/
theorem find?_mergeMappings (old : List (String × Ty)) (hnew : IsDistinct new) (name : String) :
    (mergeMappings old new).find? (·.1 == name) =
      (new.find? (·.1 == name)).or (old.find? (·.1 == name)) := by
  induction new generalizing old with
  | nil => rfl
  | cons e rest ih =>
    obtain ⟨hnotin, hrest⟩ := List.nodup_cons.mp hnew
    have hput : (Table.putEntry e.1 e.2 old).find? (·.1 == name) =
        if e.1 = name then some e else old.find? (·.1 == name) :=
      Table.find?_putEntry e.1 name e.2 old
    rw [mergeMappings_cons, ih _ hrest, hput, List.find?_cons]
    -- A name that comes first does not come again, as the mapping has each name once.
    by_cases he : e.1 = name
    · have hnone : rest.find? (·.1 == name) = none := List.find?_eq_none.mpr fun d hd hdn =>
        hnotin (List.mem_map.mpr ⟨d, hd, (eq_of_beq hdn).trans he.symm⟩)
      simp [he, hnone]
    · simp [he, beq_eq_false_iff_ne.mpr he]

/-- A name that a mapping does not have stays a parameter. -/
theorem lookup_of_notMem (h : name ∉ mapping.map (·.1)) :
    lookup mapping name = .parameter name := by
  have hnone : mapping.find? (·.1 == name) = none := List.find?_eq_none.mpr fun e he hname =>
    h (List.mem_map.mpr ⟨e, he, eq_of_beq hname⟩)
  rw [lookup, hnone]

/-- A name that a mapping has is looked up in one of its entries. -/
theorem exists_lookup_eq (h : name ∈ mapping.map (·.1)) :
    ∃ e ∈ mapping, e.1 = name ∧ mapping.find? (·.1 == name) = some e ∧
      lookup mapping name = e.2 := by
  obtain ⟨d, hd, hname⟩ := List.mem_map.mp h
  obtain ⟨e, he⟩ : ∃ e, mapping.find? (·.1 == name) = some e :=
    Option.isSome_iff_exists.mp (List.find?_isSome.mpr ⟨d, hd, beq_iff_eq.mpr hname⟩)
  have hfound := List.find?_some (p := fun e : String × Ty => e.1 == name) he
  refine ⟨e, List.mem_of_find?_eq_some he, eq_of_beq hfound, he, ?_⟩
  rw [lookup, he]

/-- A merge puts what the overriding mapping does, and otherwise what the other one does. -/
theorem lookup_mergeMappings (old : List (String × Ty)) (hnew : IsDistinct new) (name : String) :
    lookup (mergeMappings old new) name =
      if name ∈ new.map (·.1) then lookup new name else lookup old name := by
  split
  · rename_i h
    obtain ⟨e, -, -, he, heq⟩ := exists_lookup_eq h
    rw [heq, lookup, find?_mergeMappings old hnew, he]
    rfl
  · rename_i h
    have hnone : new.find? (·.1 == name) = none := List.find?_eq_none.mpr fun e he hname =>
      h (List.mem_map.mpr ⟨e, he, eq_of_beq hname⟩)
    rw [lookup, find?_mergeMappings old hnew, hnone, Option.none_or]
    rfl

/-! ## Replacement -/

mutual

/-- The type with types put for type parameters. -/
def replace (mapping : List (String × Ty)) : Ty → Ty
  | object e arguments => .object e (replaceAll mapping arguments)
  | array element e => .array (replace mapping element) e
  | tuple elements e => .tuple (replaceAll mapping elements) e
  | union members => .union (replaceAll mapping members)
  | parameter name => lookup mapping name
  | literal members types => .literal members (replaceNamed mapping types)
  | function signatures e => .function (replaceSignatures mapping signatures) e
  | intrinsic i => .intrinsic i
  | static e => .static e
  | text spelling => .text spelling
  | unspecified => .unspecified

/-- Some types with types put for type parameters. -/
def replaceAll (mapping : List (String × Ty)) : List Ty → List Ty
  | [] => []
  | t :: ts => replace mapping t :: replaceAll mapping ts

/-- The types of properties with types put for type parameters. -/
def replaceNamed (mapping : List (String × Ty)) : List (String × Ty) → List (String × Ty)
  | [] => []
  | (name, t) :: ts => (name, replace mapping t) :: replaceNamed mapping ts

/-- Parameters with types put for type parameters. -/
def replaceParameters (mapping : List (String × Ty)) :
    List (ParameterOf Ty) → List (ParameterOf Ty)
  | [] => []
  | ⟨name, t, optional, rest⟩ :: ps =>
    ⟨name, replace mapping t, optional, rest⟩ :: replaceParameters mapping ps

/-- Signatures with types put for type parameters, all under the same number. -/
def replaceSignatures (mapping : List (String × Ty)) :
    List (SignatureOf Ty) → List (SignatureOf Ty)
  | [] => []
  | ⟨declaration, parameters, result, old, _⟩ :: ss =>
    ⟨declaration, replaceParameters mapping parameters, result, mergeMappings old mapping, 0⟩ ::
      replaceSignatures mapping ss

end

/-- A type without the numbers of its signatures: nothing is put for its type parameters. -/
abbrev unnumbered (t : Ty) : Ty :=
  t.replace []

mutual

/-- Whether there is no union among the parts of a type that substitution goes into. -/
def isUnionFree : Ty → Bool
  | object _ arguments => areUnionFree arguments
  | array element _ => isUnionFree element
  | tuple elements _ => areUnionFree elements
  | union _ => false
  | literal _ types => areUnionFreeNamed types
  | function signatures _ => areUnionFreeSignatures signatures
  | parameter _ | intrinsic _ | static _ | text _ | unspecified => true

/-- Whether there is no union in some types. -/
def areUnionFree : List Ty → Bool
  | [] => true
  | t :: ts => isUnionFree t && areUnionFree ts

/-- Whether there is no union in the types of properties. -/
def areUnionFreeNamed : List (String × Ty) → Bool
  | [] => true
  | (_, t) :: ts => isUnionFree t && areUnionFreeNamed ts

/-- Whether there is no union in the types of parameters. -/
def areUnionFreeParameters : List (ParameterOf Ty) → Bool
  | [] => true
  | ⟨_, t, _, _⟩ :: ps => isUnionFree t && areUnionFreeParameters ps

/-- Whether there is no union in the parameters of signatures. -/
def areUnionFreeSignatures : List (SignatureOf Ty) → Bool
  | [] => true
  | ⟨_, parameters, _, _, _⟩ :: ss =>
    areUnionFreeParameters parameters && areUnionFreeSignatures ss

end

mutual

/-- Whether a type is made, without functions, of the type parameters that are allowed. -/
def isOver (allowed : String → Bool) : Ty → Bool
  | object _ arguments => areOver allowed arguments
  | array element _ => isOver allowed element
  | tuple elements _ => areOver allowed elements
  | union members => areOver allowed members
  | parameter name => allowed name
  | literal _ types => areOverNamed allowed types
  | function _ _ => false
  | intrinsic _ | static _ | text _ | unspecified => true

/-- Whether types are made of the type parameters that are allowed. -/
def areOver (allowed : String → Bool) : List Ty → Bool
  | [] => true
  | t :: ts => isOver allowed t && areOver allowed ts

/-- Whether the types of properties are made of the type parameters that are allowed. -/
def areOverNamed (allowed : String → Bool) : List (String × Ty) → Bool
  | [] => true
  | (_, t) :: ts => isOver allowed t && areOverNamed allowed ts

end

/-- Whether the types of parameters are made of the type parameters that are allowed. -/
def areOverParameters (allowed : String → Bool) (ps : List (ParameterOf Ty)) : Bool :=
  ps.all fun p => p.type.isOver allowed

/-! ## Types without numbers -/

mutual

/-- Types are put the same way whatever the numbers of signatures are. -/
theorem replace_unnumbered (mapping : List (String × Ty)) : ∀ t : Ty,
    t.unnumbered.replace mapping = t.replace mapping
  | object e arguments => congrArg (Ty.object e) (replaceAll_unnumbered mapping arguments)
  | array element e => congrArg (Ty.array · e) (replace_unnumbered mapping element)
  | tuple elements e => congrArg (Ty.tuple · e) (replaceAll_unnumbered mapping elements)
  | union members => congrArg Ty.union (replaceAll_unnumbered mapping members)
  | literal members types => congrArg (Ty.literal members) (replaceNamed_unnumbered mapping types)
  | function signatures e =>
    congrArg (Ty.function · e) (replaceSignatures_unnumbered mapping signatures)
  | parameter _ | intrinsic _ | static _ | text _ | unspecified => rfl

/-- Numbers of signatures that are replaced do not matter, for types. -/
theorem replaceAll_unnumbered (mapping : List (String × Ty)) : ∀ ts : List Ty,
    replaceAll mapping (replaceAll [] ts) = replaceAll mapping ts
  | [] => rfl
  | t :: ts =>
    congrArg₂ List.cons (replace_unnumbered mapping t) (replaceAll_unnumbered mapping ts)

/-- They do not matter for named types. -/
theorem replaceNamed_unnumbered (mapping : List (String × Ty)) : ∀ ts : List (String × Ty),
    replaceNamed mapping (replaceNamed [] ts) = replaceNamed mapping ts
  | [] => rfl
  | (name, t) :: ts => congrArg₂ List.cons (congrArg (Prod.mk name) (replace_unnumbered mapping t))
      (replaceNamed_unnumbered mapping ts)

/-- They do not matter for parameters. -/
theorem replaceParameters_unnumbered (mapping : List (String × Ty)) :
    ∀ ps : List (ParameterOf Ty),
      replaceParameters mapping (replaceParameters [] ps) = replaceParameters mapping ps
  | [] => rfl
  | ⟨name, t, optional, rest⟩ :: ps =>
    congrArg₂ List.cons (congrArg (ParameterOf.mk name · optional rest)
      (replace_unnumbered mapping t)) (replaceParameters_unnumbered mapping ps)

/-- They do not matter for signatures. -/
theorem replaceSignatures_unnumbered (mapping : List (String × Ty)) :
    ∀ ss : List (SignatureOf Ty),
      replaceSignatures mapping (replaceSignatures [] ss) = replaceSignatures mapping ss
  | [] => rfl
  | ⟨declaration, parameters, result, old, _⟩ :: ss =>
    congrArg₂ List.cons (congrArg
      (SignatureOf.mk declaration · result (mergeMappings old mapping) 0)
      (replaceParameters_unnumbered mapping parameters)) (replaceSignatures_unnumbered mapping ss)

end

/-! ## Mappings that agree -/

/-- Two mappings put the same for the type parameters that are allowed. -/
def PutsAlike (allowed : String → Bool) (a b : List (String × Ty)) : Prop :=
  ∀ name, allowed name = true → lookup a name = lookup b name

section Agreement

variable {allowed : String → Bool}

mutual

/-- What is put in a type depends on what is put for the type parameters that it is made of. -/
theorem replace_congr (h : PutsAlike allowed a b) :
    ∀ t : Ty, t.isOver allowed = true → t.replace a = t.replace b
  | object e arguments, ht => congrArg (Ty.object e) (replaceAll_congr h arguments ht)
  | array element e, ht => congrArg (Ty.array · e) (replace_congr h element ht)
  | tuple elements e, ht => congrArg (Ty.tuple · e) (replaceAll_congr h elements ht)
  | union members, ht => congrArg Ty.union (replaceAll_congr h members ht)
  | parameter name, ht => h name ht
  | literal members types, ht => congrArg (Ty.literal members) (replaceNamed_congr h types ht)
  | function _ _, ht => nomatch ht
  | intrinsic _, _ | static _, _ | text _, _ | unspecified, _ => rfl

/-- Mappings that put the same give the same, for types. -/
theorem replaceAll_congr (h : PutsAlike allowed a b) :
    ∀ ts : List Ty, areOver allowed ts = true → replaceAll a ts = replaceAll b ts
  | [], _ => rfl
  | t :: ts, hts =>
    have hparts := Bool.and_eq_true_iff.mp hts
    congrArg₂ List.cons (replace_congr h t hparts.1) (replaceAll_congr h ts hparts.2)

/-- They give the same for named types. -/
theorem replaceNamed_congr (h : PutsAlike allowed a b) :
    ∀ ts : List (String × Ty), areOverNamed allowed ts = true →
      replaceNamed a ts = replaceNamed b ts
  | [], _ => rfl
  | (name, t) :: ts, hts =>
    have hparts := Bool.and_eq_true_iff.mp hts
    congrArg₂ List.cons (congrArg (Prod.mk name) (replace_congr h t hparts.1))
      (replaceNamed_congr h ts hparts.2)

end

/-- They give the same for parameters. -/
theorem replaceParameters_congr (h : PutsAlike allowed a b) {ps : List (ParameterOf Ty)}
    (hps : areOverParameters allowed ps = true) :
    replaceParameters a ps = replaceParameters b ps := by
  induction ps with
  | nil => rfl
  | cons p ps ih =>
    obtain ⟨hp, hps⟩ := Bool.and_eq_true_iff.mp (List.all_cons.symm.trans hps)
    exact congrArg₂ List.cons (congrArg (ParameterOf.mk p.name · p.optional p.rest)
      (replace_congr h p.type hp)) (ih hps)

end Agreement

/-! ## Mappings one after the other -/

section Merged

/-- Three mappings one after the other put the same for a type parameter as their merge does. -/
def Merges (first second third : List (String × Ty)) : Prop :=
  ∀ name, (((lookup first name).replace second).replace third).unnumbered =
    (lookup (mergeMappings (mergeMappings first second) third) name).unnumbered

variable {first second third : List (String × Ty)}

/-- Signatures merge what is put for their results. -/
theorem merged_mapping (old : List (String × Ty)) (hfirst : IsDistinct first) :
    mergeMappings (mergeMappings (mergeMappings old first) second) third =
      mergeMappings old (mergeMappings (mergeMappings first second) third) := by
  rw [mergeMappings_assoc old hfirst, mergeMappings_assoc old (hfirst.mergeMappings second)]

mutual

/-- What holds of type parameters holds of all types: mappings one after the other put the same as
their merge does. -/
theorem replace_merged (hfirst : IsDistinct first) (h : Merges first second third) : ∀ t : Ty,
    (((t.replace first).replace second).replace third).unnumbered =
      (t.replace (mergeMappings (mergeMappings first second) third)).unnumbered
  | object e arguments => congrArg (Ty.object e) (replaceAll_merged hfirst h arguments)
  | array element e => congrArg (Ty.array · e) (replace_merged hfirst h element)
  | tuple elements e => congrArg (Ty.tuple · e) (replaceAll_merged hfirst h elements)
  | union members => congrArg Ty.union (replaceAll_merged hfirst h members)
  | parameter name => h name
  | literal members types => congrArg (Ty.literal members) (replaceNamed_merged hfirst h types)
  | function signatures e =>
    congrArg (Ty.function · e) (replaceSignatures_merged hfirst h signatures)
  | intrinsic _ | static _ | text _ | unspecified => rfl

/-- Replacing twice is replacing by the merged mapping, for types. -/
theorem replaceAll_merged (hfirst : IsDistinct first) (h : Merges first second third) :
    ∀ ts : List Ty,
      replaceAll [] (replaceAll third (replaceAll second (replaceAll first ts))) =
        replaceAll [] (replaceAll (mergeMappings (mergeMappings first second) third) ts)
  | [] => rfl
  | t :: ts => congrArg₂ List.cons (replace_merged hfirst h t) (replaceAll_merged hfirst h ts)

/-- It is for named types. -/
theorem replaceNamed_merged (hfirst : IsDistinct first) (h : Merges first second third) :
    ∀ ts : List (String × Ty),
      replaceNamed [] (replaceNamed third (replaceNamed second (replaceNamed first ts))) =
        replaceNamed [] (replaceNamed (mergeMappings (mergeMappings first second) third) ts)
  | [] => rfl
  | (name, t) :: ts => congrArg₂ List.cons (congrArg (Prod.mk name) (replace_merged hfirst h t))
      (replaceNamed_merged hfirst h ts)

/-- It is for parameters. -/
theorem replaceParameters_merged (hfirst : IsDistinct first) (h : Merges first second third) :
    ∀ ps : List (ParameterOf Ty),
      replaceParameters [] (replaceParameters third
          (replaceParameters second (replaceParameters first ps))) =
        replaceParameters [] (replaceParameters
          (mergeMappings (mergeMappings first second) third) ps)
  | [] => rfl
  | ⟨name, t, optional, rest⟩ :: ps =>
    congrArg₂ List.cons (congrArg (ParameterOf.mk name · optional rest) (replace_merged hfirst h t))
      (replaceParameters_merged hfirst h ps)

/-- It is for signatures. -/
theorem replaceSignatures_merged (hfirst : IsDistinct first) (h : Merges first second third) :
    ∀ ss : List (SignatureOf Ty),
      replaceSignatures [] (replaceSignatures third
          (replaceSignatures second (replaceSignatures first ss))) =
        replaceSignatures [] (replaceSignatures
          (mergeMappings (mergeMappings first second) third) ss)
  | [] => rfl
  | ⟨declaration, parameters, result, old, _⟩ :: ss =>
    congrArg₂ List.cons (congrArg₂ (SignatureOf.mk declaration · result · 0)
        (replaceParameters_merged hfirst h parameters) (merged_mapping old hfirst))
      (replaceSignatures_merged hfirst h ss)

end

/-- What a mapping puts has nothing to do with the type parameters of a later one. -/
def Apart (earlier later : List (String × Ty)) : Prop :=
  ∀ e ∈ earlier, e.1 ∉ later.map (·.1) ∧
    e.2.isOver (fun name => !(later.map (·.1)).contains name) = true

instance (earlier later : List (String × Ty)) : Decidable (Apart earlier later) :=
  inferInstanceAs (Decidable (∀ e ∈ earlier, _))

/-- What a mapping puts has no parameter that the other one replaces. -/
theorem Apart.replace_lookup (h : Apart a b) (hname : name ∈ a.map (·.1)) :
    (lookup a name).replace b = (lookup a name).unnumbered := by
  obtain ⟨e, he, -, -, heq⟩ := exists_lookup_eq hname
  rw [heq]
  refine replace_congr (fun name hallowed => lookup_of_notMem fun hmem => ?_) e.2 (h e he).2
  simp only [List.contains_iff_mem.mpr hmem, Bool.not_true, Bool.false_eq_true] at hallowed

/-- Mappings that are apart share no name. -/
theorem Apart.notMem (h : Apart a b) (hname : name ∈ a.map (·.1)) : name ∉ b.map (·.1) := by
  obtain ⟨e, he, rfl⟩ := List.mem_map.mp hname
  exact (h e he).1

/-- Mappings that have nothing to do with each other may be merged. -/
theorem Merges.of_apart (hsecond : IsDistinct second) (hthird : IsDistinct third)
    (h₁₂ : Apart first second) (h₁₃ : Apart first third) (h₂₃ : Apart second third) :
    Merges first second third := by
  intro name
  rw [lookup_mergeMappings _ hthird, lookup_mergeMappings _ hsecond]
  -- A name is in one of the mappings at most, which is then the only one to say something.
  by_cases h₁ : name ∈ first.map (·.1)
  · rw [if_neg (h₁₃.notMem h₁), if_neg (h₁₂.notMem h₁), h₁₂.replace_lookup h₁,
      replace_unnumbered, h₁₃.replace_lookup h₁, unnumbered, replace_unnumbered]
  · rw [lookup_of_notMem h₁]
    change ((lookup second name).replace third).unnumbered = _
    by_cases h₂ : name ∈ second.map (·.1)
    · rw [if_neg (h₂₃.notMem h₂), if_pos h₂, h₂₃.replace_lookup h₂, unnumbered, replace_unnumbered]
    · rw [lookup_of_notMem h₂, if_neg h₂]
      change (lookup third name).unnumbered = _
      split
      · rfl
      · rename_i h₃
        rw [lookup_of_notMem h₃]

end Merged

end Ty

end ScriptGraph
