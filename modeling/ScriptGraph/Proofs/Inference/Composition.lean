import ScriptGraph.Inference.Answers
import ScriptGraph.Proofs.Inference.Repetition
import ScriptGraph.Proofs.Types.Replacement

/-!
# Substitutions one after the other

A signature may be instantiated more than once: an alias puts types for its own parameters, and the
member whose type it is puts others for those of its owner. The parameters of the signature are
then substituted one mapping after the other. Its result is not known yet; the mappings are merged,
and what is put for the result is put all at once. So the result may be behind the parameters: what
the first mapping puts is not substituted by the second one.

- `substitute_yields`: substitution puts types for type parameters
- `Signature.instantiateTwice`: instantiating a signature by two mappings
- `results_composed_iff`: when the result keeps up with the parameters
- `exists_result_behind`: when it does not
- `exists_union_apart`: why unions are left out
-/

namespace ScriptGraph

open Binding Inference

namespace Ty

variable {mapping : List (String × Ty)}

/-- Whatever is put for type parameters is free of unions. -/
def PutsUnionFree (mapping : List (String × Ty)) : Prop :=
  ∀ e ∈ mapping, e.2.isUnionFree = true

instance (mapping : List (String × Ty)) : Decidable (PutsUnionFree mapping) :=
  inferInstanceAs (Decidable (∀ e ∈ mapping, _))

/-- What a mapping without unions puts for a name is no union. -/
theorem PutsUnionFree.lookup (h : PutsUnionFree mapping) (name : String) :
    (Ty.lookup mapping name).isUnionFree = true := by
  unfold Ty.lookup
  split
  · rename_i t hfound
    exact h _ (List.mem_of_find?_eq_some hfound)
  · rfl

mutual

/-- Substitution puts types for type parameters where there is no union to build anew. -/
theorem substitute_yields (hm : mapping ≠ []) : ∀ t : Ty, t.isUnionFree = true →
    Inquiry.Yields (t.substitute demand mapping) fun u =>
      u.unnumbered = (t.replace mapping).unnumbered ∧
        (PutsUnionFree mapping → u.isUnionFree = true)
  | object e arguments, ht =>
    .bind (substituteAll_yields hm arguments ht) fun _ hall =>
      .pure ⟨congrArg (Ty.object e) hall.1, hall.2⟩
  | array element e, ht =>
    .bind (substitute_yields hm element ht) fun _ helement =>
      .pure ⟨congrArg (Ty.array · e) helement.1, helement.2⟩
  | tuple elements e, ht =>
    .bind (substituteAll_yields hm elements ht) fun _ hall =>
      .pure ⟨congrArg (Ty.tuple · e) hall.1, hall.2⟩
  | union _, ht => nomatch ht
  | parameter name, _ => .pure ⟨rfl, fun h => h.lookup name⟩
  | literal members types, ht =>
    .bind (substituteNamed_yields hm types ht) fun _ hall =>
      .pure ⟨congrArg (Ty.literal members) hall.1, hall.2⟩
  | function signatures e, ht => by
    unfold substitute
    rw [if_neg (by rwa [List.isEmpty_iff])]
    exact .bind (substituteSignatures_yields hm signatures ht) fun _ hall =>
      .pure ⟨congrArg (Ty.function · e) hall.1, hall.2⟩
  | intrinsic _, _ | static _, _ | text _, _ | unspecified, _ => .pure ⟨rfl, fun _ => rfl⟩

/-- Types without unions are replaced one by one. -/
theorem substituteAll_yields (hm : mapping ≠ []) : ∀ ts : List Ty, areUnionFree ts = true →
    Inquiry.Yields (substituteAll demand mapping ts) fun us =>
      replaceAll [] us = replaceAll [] (replaceAll mapping ts) ∧
        (PutsUnionFree mapping → areUnionFree us = true)
  | [], _ => .pure ⟨rfl, fun _ => rfl⟩
  | t :: ts, hts =>
    have hparts := Bool.and_eq_true_iff.mp hts
    .bind (substitute_yields hm t hparts.1) fun _ ht =>
      .bind (substituteAll_yields hm ts hparts.2) fun _ hall =>
        .pure ⟨congrArg₂ List.cons ht.1 hall.1, fun h =>
          Bool.and_eq_true_iff.mpr ⟨ht.2 h, hall.2 h⟩⟩

/-- So are named types. -/
theorem substituteNamed_yields (hm : mapping ≠ []) : ∀ ts : List (String × Ty),
    areUnionFreeNamed ts = true →
      Inquiry.Yields (substituteNamed demand mapping ts) fun us =>
        replaceNamed [] us = replaceNamed [] (replaceNamed mapping ts) ∧
          (PutsUnionFree mapping → areUnionFreeNamed us = true)
  | [], _ => .pure ⟨rfl, fun _ => rfl⟩
  | (name, t) :: ts, hts =>
    have hparts := Bool.and_eq_true_iff.mp hts
    .bind (substitute_yields hm t hparts.1) fun _ ht =>
      .bind (substituteNamed_yields hm ts hparts.2) fun _ hall =>
        .pure ⟨congrArg₂ List.cons (congrArg (Prod.mk name) ht.1) hall.1, fun h =>
          Bool.and_eq_true_iff.mpr ⟨ht.2 h, hall.2 h⟩⟩

/-- So are parameters. -/
theorem substituteParameters_yields (hm : mapping ≠ []) : ∀ ps : List (ParameterOf Ty),
    areUnionFreeParameters ps = true →
      Inquiry.Yields (substituteParameters demand mapping ps) fun qs =>
        replaceParameters [] qs = replaceParameters [] (replaceParameters mapping ps) ∧
          (PutsUnionFree mapping → areUnionFreeParameters qs = true)
  | [], _ => .pure ⟨rfl, fun _ => rfl⟩
  | ⟨name, t, optional, rest⟩ :: ps, hps =>
    have hparts := Bool.and_eq_true_iff.mp hps
    .bind (substitute_yields hm t hparts.1) fun _ ht =>
      .bind (substituteParameters_yields hm ps hparts.2) fun _ hall =>
        .pure ⟨congrArg₂ List.cons (congrArg (ParameterOf.mk name · optional rest) ht.1) hall.1,
          fun h => Bool.and_eq_true_iff.mpr ⟨ht.2 h, hall.2 h⟩⟩

/-- So are signatures. -/
theorem substituteSignatures_yields (hm : mapping ≠ []) : ∀ ss : List (SignatureOf Ty),
    areUnionFreeSignatures ss = true →
      Inquiry.Yields (substituteSignatures demand mapping ss) fun us =>
        replaceSignatures [] us = replaceSignatures [] (replaceSignatures mapping ss) ∧
          (PutsUnionFree mapping → areUnionFreeSignatures us = true)
  | [], _ => .pure ⟨rfl, fun _ => rfl⟩
  | ⟨declaration, parameters, result, old, _⟩ :: ss, hss =>
    have hparts := Bool.and_eq_true_iff.mp hss
    .bind (substituteParameters_yields hm parameters hparts.1) fun _ hps =>
      .bind (.something _) fun _ _ => .bind (substituteSignatures_yields hm ss hparts.2)
        fun _ hall => .pure ⟨congrArg₂ List.cons
          (congrArg (SignatureOf.mk declaration · result (mergeMappings old mapping) 0) hps.1)
          hall.1, fun h => Bool.and_eq_true_iff.mpr ⟨hps.2 h, hall.2 h⟩⟩

end

/-- The same if there may be nothing to put. -/
theorem instantiate_yields (mapping : List (String × Ty)) {t : Ty} (ht : t.isUnionFree = true) :
    Inquiry.Yields (t.instantiate demand mapping) fun u =>
      u.unnumbered = (t.replace mapping).unnumbered ∧
        (PutsUnionFree mapping → u.isUnionFree = true) := by
  unfold instantiate
  split
  · rename_i hempty
    rw [List.isEmpty_iff.mp hempty]
    exact .pure ⟨(replace_unnumbered [] t).symm, fun _ => ht⟩
  · rename_i hempty
    exact substitute_yields (by rwa [List.isEmpty_iff] at hempty) t ht

/-- Types that are the same without numbers are so after a substitution. -/
theorem unnumbered_replace_congr {t u : Ty} (h : t.unnumbered = u.unnumbered)
    (mapping : List (String × Ty)) :
    (t.replace mapping).unnumbered = (u.replace mapping).unnumbered := by
  rw [← replace_unnumbered mapping t, h, replace_unnumbered]

/-- Types are put one mapping after the other. -/
theorem substituteTwice_yields {first second : List (String × Ty)} (hfirst : first ≠ [])
    (hsecond : second ≠ []) (hputs : PutsUnionFree first) {t : Ty} (ht : t.isUnionFree = true) :
    Inquiry.Yields (do (← t.substitute demand first).substitute demand second) fun u =>
      u.unnumbered = ((t.replace first).replace second).unnumbered :=
  .bind (substitute_yields hfirst t ht) fun v hv =>
    .imp (substitute_yields hsecond v (hv.2 hputs)) fun _ hu =>
      hu.1.trans (unnumbered_replace_congr hv.1 second)

end Ty

namespace Signature

variable {first second : List (String × Ty)} {s : Signature}

/-- A signature with types put for its type parameters by one mapping, then by another one. -/
def instantiateTwice (first second : List (String × Ty)) (s : Signature) : Inquiry Signature := do
  (← s.instantiate demand first).instantiate demand second

/-- The result type of a signature, with types put for its type parameters by one mapping, then by
another one. -/
def resultSubstitutedTwice (first second : List (String × Ty)) (s : Signature) : Inquiry Ty := do
  (← (← fullResult s).substitute demand first).substitute demand second

/-- A signature that is instantiated keeps the source of its result, and its mapping grows. Its
parameters are substituted right away. -/
theorem instantiate_substitutes (hm : first ≠ [])
    (hs : Ty.areUnionFreeParameters s.parameters = true) :
    Inquiry.Yields (s.instantiate demand first) fun t =>
      (t.result = s.result ∧ t.mapping = Ty.mergeMappings s.mapping first) ∧
        Ty.replaceParameters [] t.parameters =
          Ty.replaceParameters [] (Ty.replaceParameters first s.parameters) ∧
        (Ty.PutsUnionFree first → Ty.areUnionFreeParameters t.parameters = true) := by
  unfold instantiate
  rw [if_neg (by rwa [List.isEmpty_iff])]
  exact .bind (Ty.substituteParameters_yields hm _ hs) fun _ hps =>
    .bind (.something _) fun _ _ => .pure ⟨⟨rfl, rfl⟩, hps⟩

/-- The source of the result and the mapping of an instance, whatever its parameters are. -/
theorem instantiate_source (hm : first ≠ []) (s : Signature) :
    Inquiry.Yields (s.instantiate demand first) fun t =>
      t.result = s.result ∧ t.mapping = Ty.mergeMappings s.mapping first := by
  unfold instantiate
  rw [if_neg (by rwa [List.isEmpty_iff])]
  exact .bind (.something _) fun _ _ => .bind (.something _) fun _ _ => .pure ⟨rfl, rfl⟩

/-- The own result goes by the source of the result. -/
theorem ownResult_eq {s t : Signature} (h : t.result = s.result) : ownResult t = ownResult s := by
  unfold ownResult
  rw [h]

/-- What a signature comes to have as result is what its own result becomes by its mapping. -/
theorem fullResult_eq {oracle : Oracle} {now : Knowledge} (s : Signature)
    (hown : (((ownResult s).perform oracle).run now).1.isUnionFree = true) :
    (((fullResult s).perform oracle).run now).1.unnumbered =
        ((((ownResult s).perform oracle).run now).1.replace s.mapping).unnumbered ∧
      (Ty.PutsUnionFree s.mapping →
        (((fullResult s).perform oracle).run now).1.isUnionFree = true) := by
  unfold fullResult
  rw [Inquiry.run_bind]
  exact Ty.instantiate_yields s.mapping hown oracle _

/-- The parameters of a signature that is instantiated twice are substituted twice. -/
def ParametersKeepUp (first second : List (String × Ty)) (s : Signature) : Prop :=
  Inquiry.Yields (s.instantiateTwice first second) fun t =>
    Ty.replaceParameters [] t.parameters =
      Ty.replaceParameters []
        (Ty.replaceParameters second (Ty.replaceParameters first s.parameters))

/-- So is its result, wherever it is asked for and its own result is free of unions. -/
def ResultKeepsUp (first second : List (String × Ty)) (s : Signature) : Prop :=
  Inquiry.Yields (s.instantiateTwice first second) fun t => ∀ oracle now,
    (((ownResult s).perform oracle).run now).1.isUnionFree = true →
      (((fullResult t).perform oracle).run now).1.unnumbered =
        (((s.resultSubstitutedTwice first second).perform oracle).run now).1.unnumbered

/-- Without unions, parameters keep up with two mappings. -/
theorem parameters_keepUp (hfirst : first ≠ []) (hsecond : second ≠ [])
    (hputs : Ty.PutsUnionFree first) (hs : Ty.areUnionFreeParameters s.parameters = true) :
    s.ParametersKeepUp first second := by
  refine .bind (instantiate_substitutes hfirst hs) fun t ht =>
    .imp (instantiate_substitutes hsecond (ht.2.2 hputs)) fun u hu => hu.2.1.trans ?_
  rw [← Ty.replaceParameters_unnumbered second t.parameters, ht.2.1,
    Ty.replaceParameters_unnumbered]

/-- Two mappings leave the source of the result and are merged. -/
theorem instantiateTwice_source (hfirst : first ≠ []) (hsecond : second ≠ []) (s : Signature) :
    Inquiry.Yields (s.instantiateTwice first second) fun t => t.result = s.result ∧
      t.mapping = Ty.mergeMappings (Ty.mergeMappings s.mapping first) second :=
  .bind (instantiate_source hfirst s) fun _ ht =>
    .imp (instantiate_source hsecond _) fun _ hu =>
      ⟨hu.1.trans ht.1, by rw [hu.2, ht.2]⟩

/-- Substituted twice, the result of a signature is its own result with types put for type
parameters by three mappings one after the other. -/
theorem resultSubstitutedTwice_eq (hfirst : first ≠ []) (hsecond : second ≠ [])
    (hputs : Ty.PutsUnionFree s.mapping) (hputs' : Ty.PutsUnionFree first) {oracle : Oracle}
    {now : Knowledge} (hown : (((ownResult s).perform oracle).run now).1.isUnionFree = true) :
    (((s.resultSubstitutedTwice first second).perform oracle).run now).1.unnumbered =
      ((((((ownResult s).perform oracle).run now).1.replace s.mapping).replace first).replace
        second).unnumbered := by
  obtain ⟨hfull, hfree⟩ := fullResult_eq s hown
  unfold resultSubstitutedTwice
  rw [Inquiry.run_bind]
  exact (Ty.substituteTwice_yields hfirst hsecond hputs' (hfree hputs) oracle _).trans
    (Ty.unnumbered_replace_congr (Ty.unnumbered_replace_congr hfull first) second)

/-- Instantiated twice, the result of a signature is its own result with types put for type
parameters by the merge of three mappings. -/
theorem fullResult_instantiateTwice (hfirst : first ≠ []) (hsecond : second ≠ []) (s : Signature) :
    Inquiry.Yields (s.instantiateTwice first second) fun t => ∀ oracle now,
      (((ownResult s).perform oracle).run now).1.isUnionFree = true →
        (((fullResult t).perform oracle).run now).1.unnumbered =
          ((((ownResult s).perform oracle).run now).1.replace
            (Ty.mergeMappings (Ty.mergeMappings s.mapping first) second)).unnumbered :=
  .imp (instantiateTwice_source hfirst hsecond s) fun t ht oracle now hown => by
    rw [← ownResult_eq ht.1] at hown ⊢
    rw [(fullResult_eq t hown).1, ht.2]

/-- When types are put for the type parameters of a signature twice, its parameters are substituted
one mapping after the other. Its result is substituted by the merge of the mappings, together with
the mapping that the signature had before. For all signatures with that mapping this is the same as
one mapping after the other exactly if it is for type parameters. -/
theorem results_composed_iff {old first second : List (String × Ty)} (hold : Ty.IsDistinct old)
    (hputs : Ty.PutsUnionFree old) (hputs' : Ty.PutsUnionFree first) (hfirst : first ≠ [])
    (hsecond : second ≠ []) :
    (∀ s : Signature, Ty.areUnionFreeParameters s.parameters = true →
      s.ParametersKeepUp first second) ∧
      ((∀ s : Signature, s.mapping = old → s.ResultKeepsUp first second) ↔
        Ty.Merges old first second) := by
  refine ⟨fun s hs => parameters_keepUp hfirst hsecond hputs' hs,
    fun h name => ?_, fun h s hs => ?_⟩
  · -- A signature whose result is the type parameter shows what is put for it.
    let s : Signature :=
      { declaration := none, parameters := [], result := .given (.parameter name)
        mapping := old }
    have hmerged := fullResult_instantiateTwice hfirst hsecond s (answer 0) (.ofWorkspace default)
      (answer 0) (.ofWorkspace default) rfl
    have hkept := h s rfl (answer 0) (.ofWorkspace default) (answer 0) (.ofWorkspace default) rfl
    rw [resultSubstitutedTwice_eq hfirst hsecond hputs hputs' rfl] at hkept
    exact hkept.symm.trans hmerged
  -- The other way round, both results are computed by mappings that agree.
  · refine .imp (fullResult_instantiateTwice hfirst hsecond s) fun t ht oracle now hown => ?_
    rw [ht oracle now hown, resultSubstitutedTwice_eq hfirst hsecond (hs ▸ hputs) hputs' hown, hs,
      Ty.replace_merged hold h]

/-- Arrays of another type parameter are put for a type parameter, and numbers for a third one. -/
theorem results_composed_at_arrays :
    let first := [("T", Ty.array (.parameter "U") none)]
    let second := [("V", Ty.intrinsic .number)]
    (∀ s : Signature, Ty.areUnionFreeParameters s.parameters = true →
      s.ParametersKeepUp first second) ∧
      ∀ s : Signature, s.mapping = [] → s.ResultKeepsUp first second := by
  -- No name that is put occurs in what is put, so the order does not matter.
  intro first second
  have hmerges : Ty.Merges [] first second :=
    .of_apart (by decide) (by decide) (by decide) (by decide) (by decide)
  have hold : Ty.IsDistinct [] := List.nodup_nil
  have hfirst : first ≠ [] := nofun
  have hsecond : second ≠ [] := nofun
  obtain ⟨hparameters, hresult⟩ := results_composed_iff hold (by decide) (by decide) hfirst hsecond
  exact ⟨hparameters, hresult.mpr hmerges⟩

/-- The type parameter of a function that returns its argument becomes another one, and this one
`number`: the parameter of the function is then a `number`, but its result the other type parameter
still. -/
theorem exists_result_behind :
    let s : Signature := { declaration := none, parameters := [⟨"x", .parameter "T", false, false⟩],
                           result := .given (.parameter "T") }
    let first := [("T", Ty.parameter "U")]
    let second := [("U", Ty.intrinsic .number)]
    let (t, k) := (s.instantiateTwice first second).conduct.run (.ofWorkspace default)
    t.parameters.map (·.type) = [.intrinsic .number] ∧
      ((fullResult t).conduct.run k).1 = .parameter "U" ∧
      ((s.resultSubstitutedTwice first second).conduct.run k).1 = .intrinsic .number :=
  ⟨rfl, rfl, rfl⟩

/-- With a union for a result there is more to it, though the mappings agree on every type
parameter. A class by the name of a type parameter is put next to it first, and the union keeps one
of the two, since they are shown alike. Merged, the mappings put something else for the type
parameter at the same time, and both stay. -/
theorem exists_union_apart :
    let sameName := Ty.object ⟨⟨0⟩, "V", []⟩ []
    let s : Signature := { declaration := none, parameters := []
                           result := .given (.union [.parameter "V", .parameter "T"]) }
    let first := [("T", sameName)]
    let second := [("V", Ty.intrinsic .number)]
    Ty.Merges [] first second ∧
      let (t, k) := (s.instantiateTwice first second).conduct.run (.ofWorkspace default)
      ((fullResult t).conduct.run k).1 = .union [.intrinsic .number, sameName] ∧
        ((s.resultSubstitutedTwice first second).conduct.run k).1 = .intrinsic .number :=
  ⟨.of_apart (by decide) (by decide) (by decide) (by decide) (by decide), rfl, rfl⟩

end Signature

end ScriptGraph
