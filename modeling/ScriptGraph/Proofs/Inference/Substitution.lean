import ScriptGraph.Proofs.Inference.Learning

/-!
# Showing and substituting types keeps what is known

Types are shown, united and substituted with results that are found on the way, by asking for
them. All of this keeps what is known, and the types that come out mention what is there.
-/

namespace ScriptGraph.Inference

open Binding Syntax

variable {files : Source → Prop} {again : Prop} {oracle : Oracle} {base : Knowledge}

namespace Learns

/-- Texts mention nothing. -/
theorem texts {α : Type} {f : α → Inquiry String} {l : List α}
    (h : ∀ now, base.Later now → ∀ a ∈ l, Learns files again oracle now (f a) fun _ _ => True) :
    Learns files again oracle base (l.mapM f) fun _ _ => True :=
  .weaken (.mapM (fun _ _ _ _ _ => trivial) h) fun _ _ _ _ => trivial

end Learns

/-- What a store holds of a mapping, a later one holds. -/
theorem mapping_later {now : Knowledge} {mapping : List (String × Ty)} (h : base.Later now)
    (hm : ∀ e ∈ mapping, e.2.Within files base.store) : ∀ e ∈ mapping, e.2.Within files now.store :=
  fun e he => (hm e he).mono h.noSmaller

/-- What a store holds of an entity, a later one holds. -/
theorem entity_later {now : Knowledge} {entity : Option Entity} (h : base.Later now)
    (he : ∀ e, entity = some e → e.id.index < base.store.symbols.size) :
    ∀ e, entity = some e → e.id.index < now.store.symbols.size :=
  fun e hs => h.symbol_lt (he e hs)

/-! ## Texts -/

/-- The text of parameters lasts if the texts of their types do. -/
theorem parametersText_learns {typeText : Ty → Inquiry String} {s : Signature}
    (hs : s.Within files base.store)
    (h : ∀ now (t : Ty), base.Later now → t.Within files now.store →
      Learns files again oracle now (typeText t) fun _ _ => True) :
    Learns files again oracle base (Ty.parametersText typeText s) fun _ _ => True :=
  .map (.texts fun now hnow p hp => .map
    (h now p.type hnow ((hs.parameters p hp).mono hnow.noSmaller)))

section Texts

variable (horacle : oracle.Learns files)
include horacle

/-- Showing a type lasts as the results in it do. -/
theorem textFrom_learns (levels : Nat) {t : Ty} (ht : t.Within files base.store) :
    Learns files again oracle base (t.textFrom demand levels) fun _ _ => True := by
  -- The parts of a type are shown with one level less.
  induction levels generalizing base t with
  | zero => exact .pure fun _ _ => trivial
  | succ levels ih =>
    have hall : ∀ ts : List Ty, (∀ t ∈ ts, t.Within files base.store) →
        Learns files again oracle base (ts.mapM (Ty.textFrom demand levels)) fun _ _ => True :=
      fun ts hts => .texts fun now hnow t ht => ih ((hts t ht).mono hnow.noSmaller)
    -- A signature is shown with its parameters and its result.
    have hsignature : ∀ now : Knowledge, ∀ s : Signature, s.Within files now.store →
        ∀ shown : String → String → String, Learns files again oracle now (do
          let parameters ← Ty.parametersText (Ty.textFrom demand levels) s
          let result ← Ty.textFrom demand levels (← resultOf s)
          return shown parameters result) fun _ _ => True :=
      fun now s hs shown => .bind (parametersText_learns hs fun _ _ _ ht => ih ht)
        fun _ next hnext _ => .bind (resultOf_learns horacle (hs.mono hnext.noSmaller))
          fun _ _ _ ht => .map (ih ht)
    cases ht with
    | intrinsic => exact .pure fun _ _ => trivial
    | @object e arguments _ harguments =>
      cases arguments with
      | nil => exact .pure fun _ _ => trivial
      | cons a rest => exact .map (hall _ harguments)
    | static =>
      rw [Ty.textFrom]
      split <;> exact .pure fun _ _ => trivial
    | array helement =>
      refine .bind (ih helement) fun _ _ _ _ => ?_
      split <;> exact .pure fun _ _ => trivial
    | tuple helements => exact .map (hall _ helements)
    | union hmembers => exact .map (hall _ hmembers)
    | parameter => exact .pure fun _ _ => trivial
    | text => exact .pure fun _ _ => trivial
    | @literal _ types _ htypes =>
      cases types with
      | nil => exact .pure fun _ _ => trivial
      | cons a rest =>
        exact .map (.texts fun now hnow p hp => .map (ih ((htypes p hp).mono hnow.noSmaller)))
    | @function signatures _ hsignatures =>
      have hlist := fun now (hnow : base.Later now) s hs =>
        hsignature now s ((hsignatures s hs).mono hnow.noSmaller)
          fun parameters result => "(" ++ parameters ++ "): " ++ result ++ ";"
      -- A single signature is shown with an arrow.
      rcases signatures with _ | ⟨s, _ | ⟨s', rest⟩⟩
      · exact .map (.texts hlist)
      · exact hsignature base s (hsignatures s List.mem_cons_self) _
      · exact .map (.texts hlist)
    | unspecified => exact .pure fun _ _ => trivial

/-- The text of a type lasts. -/
theorem display_learns {t : Ty} (ht : t.Within files base.store) :
    Learns files again oracle base (t.display demand) fun _ _ => True :=
  textFrom_learns horacle _ ht

/-- The text of a signature lasts. -/
theorem signature_display_learns {s : Signature} (hs : s.Within files base.store) :
    Learns files again oracle base (s.display demand) fun _ _ => True :=
  .bind (parametersText_learns hs fun _ _ _ ht => textFrom_learns horacle _ ht)
    fun _ _ hnow _ => .bind (resultOf_learns horacle (hs.mono hnow.noSmaller))
      fun _ _ _ ht => .map (textFrom_learns horacle _ ht)

/-! ## Unions -/

/-- The alternatives that are kept are within the files. -/
theorem gatherAlternatives_learns (seen : List String) {kept types : List Ty}
    (hkept : ∀ t ∈ kept, t.Within files base.store)
    (htypes : ∀ t ∈ types, t.Within files base.store) :
    Learns files again oracle base (Ty.gatherAlternatives demand seen kept types)
      fun t st => t.Within files st := by
  -- By induction on what is left, with what is known and what is kept growing along the way.
  induction types generalizing base seen kept with
  | nil =>
    exact .pure fun now hnow => Ty.ofAlternatives_within fun t ht =>
      (hkept t (List.mem_reverse.mp ht)).mono hnow.noSmaller
  | cons t rest ih =>
    rw [Ty.gatherAlternatives]
    split
    · exact .pure fun _ _ => Ty.any_within
    refine .bind (display_learns horacle (htypes t List.mem_cons_self)) fun shown now hnow _ => ?_
    have hkept' : ∀ d ∈ kept, d.Within files now.store :=
      fun d hd => (hkept d hd).mono hnow.noSmaller
    have hrest : ∀ d ∈ rest, d.Within files now.store := fun d hd =>
      (htypes d (List.mem_cons_of_mem _ hd)).mono hnow.noSmaller
    split
    · exact ih seen hkept' hrest
    · refine ih (shown :: seen) (fun d hd => ?_) hrest
      rcases List.mem_cons.mp hd with rfl | hd
      · exact (htypes d List.mem_cons_self).mono hnow.noSmaller
      · exact hkept' d hd

/-- The union of types is within the files, and lasts. -/
theorem unionOf_learns {types : List Ty} (h : ∀ t ∈ types, t.Within files base.store) :
    Learns files again oracle base (unionOf types) fun t st => t.Within files st := by
  refine gatherAlternatives_learns horacle [] nofun fun t ht => ?_
  obtain ⟨whole, hwhole, hpart⟩ := List.mem_flatMap.mp ht
  exact (h whole hwhole).unionParts t hpart

end Texts

/-! ## Substitution -/

mutual

/-- A type under a mapping is within the files. -/
theorem substitute_learns (horacle : oracle.Learns files) {mapping : List (String × Ty)} :
    ∀ {base : Knowledge}, (∀ e ∈ mapping, e.2.Within files base.store) →
      ∀ t : Ty, t.Within files base.store →
      Learns files False oracle base (t.substitute demand mapping) fun t st => t.Within files st
  | base, hm, .object e arguments, ht => by
    cases ht with
    | object he harguments =>
      exact .bind (substituteAll_learns horacle hm arguments harguments) fun _ _ hnow hall =>
        .type (.object (hnow.symbol_lt he) hall)
  | base, hm, .array element e, ht => by
    cases ht with
    | array helement hentity =>
      exact .bind (substitute_learns horacle hm element helement) fun _ _ hnow helement' =>
        .type (.array helement' (entity_later hnow hentity))
  | base, hm, .tuple elements e, ht => by
    cases ht with
    | tuple helements hentity =>
      exact .bind (substituteAll_learns horacle hm elements helements) fun _ _ hnow hall =>
        .type (.tuple hall (entity_later hnow hentity))
  | base, hm, .union members, ht => by
    cases ht with
    | union hmembers =>
      exact .bind (substituteAll_learns horacle hm members hmembers) fun _ _ _ hall =>
        unionOf_learns horacle hall
  | base, hm, .parameter name, _ => .type (Ty.lookup_within hm name)
  | base, hm, .literal members types, ht => by
    cases ht with
    | literal hmembers htypes =>
      exact .bind (substituteNamed_learns horacle hm types htypes) fun _ _ hnow hall =>
        .type (.literal (fun e he => hnow.symbol_lt (hmembers e he))
          hall)
  | base, hm, .function signatures e, ht => by
    -- With nothing to put, a function type is left as it is.
    rw [Ty.substitute]
    split
    · exact .type ht
    · cases ht with
      | function hsignatures hentity =>
        exact .bind (substituteSignatures_learns horacle hm signatures hsignatures)
          fun _ _ hnow hall => .type (.function hall (entity_later hnow hentity))
  -- The other types speak of no type parameter.
  | _, _, .intrinsic _, ht => .type ht
  | _, _, .static _, ht => .type ht
  | _, _, .text _, ht => .type ht
  | _, _, .unspecified, ht => .type ht

/-- So are types under a mapping. -/
theorem substituteAll_learns (horacle : oracle.Learns files) {mapping : List (String × Ty)} :
    ∀ {base : Knowledge}, (∀ e ∈ mapping, e.2.Within files base.store) →
      ∀ ts : List Ty, (∀ t ∈ ts, t.Within files base.store) →
      Learns files False oracle base (Ty.substituteAll demand mapping ts)
        fun ts st => ∀ t ∈ ts, t.Within files st
  | _, _, [], _ => .types fun _ ht => absurd ht List.not_mem_nil
  | base, hm, t :: ts, hts => by
    refine .bind (substitute_learns horacle hm t (hts t List.mem_cons_self))
      fun first now hnow hfirst =>
        .bind (substituteAll_learns horacle (mapping_later hnow hm) ts fun d hd =>
        (hts d (List.mem_cons_of_mem _ hd)).mono hnow.noSmaller) fun rest next hnext hrest =>
        .types fun d hd => ?_
    rcases List.mem_cons.mp hd with rfl | hd
    · exact hfirst.mono hnext.noSmaller
    · exact hrest d hd

/-- So are named types. -/
theorem substituteNamed_learns (horacle : oracle.Learns files) {mapping : List (String × Ty)} :
    ∀ {base : Knowledge}, (∀ e ∈ mapping, e.2.Within files base.store) → ∀ ts : List (String × Ty),
      (∀ e ∈ ts, e.2.Within files base.store) →
        Learns files False oracle base (Ty.substituteNamed demand mapping ts)
          fun ts st => ∀ e ∈ ts, e.2.Within files st
  | _, _, [], _ => .pure fun _ _ _ h => absurd h List.not_mem_nil
  | base, hm, (name, t) :: ts, hts => by
    refine .bind (substitute_learns horacle hm t (hts _ List.mem_cons_self))
      fun first now hnow hfirst =>
        .bind (substituteNamed_learns horacle (mapping_later hnow hm) ts fun d hd =>
        (hts d (List.mem_cons_of_mem _ hd)).mono hnow.noSmaller) fun rest next hnext hrest =>
        .pure fun last hlast d hd => ?_
    rcases List.mem_cons.mp hd with rfl | hd
    · exact hfirst.mono (hnext.trans hlast).noSmaller
    · exact (hrest d hd).mono hlast.noSmaller

/-- So are parameters. -/
theorem substituteParameters_learns (horacle : oracle.Learns files) {mapping : List (String × Ty)} :
    ∀ {base : Knowledge}, (∀ e ∈ mapping, e.2.Within files base.store) →
      ∀ ps : List (ParameterOf Ty),
      (∀ p ∈ ps, p.type.Within files base.store) →
        Learns files False oracle base (Ty.substituteParameters demand mapping ps)
          fun ps st => ∀ p ∈ ps, p.type.Within files st
  | _, _, [], _ => .pure fun _ _ _ h => absurd h List.not_mem_nil
  | base, hm, ⟨name, t, optional, gathers⟩ :: ps, hps => by
    -- Each parameter is substituted before the ones after it, and keeps what it knows meanwhile.
    refine .bind (substitute_learns horacle hm t (hps _ List.mem_cons_self))
      fun first now hnow hfirst =>
        .bind (substituteParameters_learns horacle (mapping_later hnow hm) ps fun d hd =>
        (hps d (List.mem_cons_of_mem _ hd)).mono hnow.noSmaller) fun others next hnext hothers =>
        .pure fun last hlast d hd => ?_
    rcases List.mem_cons.mp hd with rfl | hd
    · exact hfirst.mono (hnext.trans hlast).noSmaller
    · exact (hothers d hd).mono hlast.noSmaller

/-- So are signatures. -/
theorem substituteSignatures_learns (horacle : oracle.Learns files) {mapping : List (String × Ty)} :
    ∀ {base : Knowledge}, (∀ e ∈ mapping, e.2.Within files base.store) →
      ∀ ss : List (SignatureOf Ty),
      (∀ s ∈ ss, Signature.Within files base.store s) →
        Learns files False oracle base (Ty.substituteSignatures demand mapping ss)
          fun ss st => ∀ s ∈ ss, Signature.Within files st s
  | _, _, [], _ => .pure fun _ _ _ h => absurd h List.not_mem_nil
  | base, hm, ⟨declaration, parameters, result, old, cell⟩ :: ss, hss => by
    have hs := hss _ List.mem_cons_self
    refine .bind (substituteParameters_learns horacle hm parameters hs.parameters)
      fun parameters' now hnow hparameters => .bind newCell_learns fun cell' next hnext _ =>
        .bind (substituteSignatures_learns horacle
          (mapping_later (hnow.trans hnext) hm) ss fun d hd =>
          (hss d (List.mem_cons_of_mem _ hd)).mono (hnow.trans hnext).noSmaller)
        fun others last hlast hothers => .pure fun final hfinal d hd => ?_
    -- The new signature keeps its declaration and its result, and gets the mapping on top of its
    -- own.
    have hle := (((hnow.trans hnext).trans hlast).trans hfinal).noSmaller
    rcases List.mem_cons.mp hd with rfl | hd
    · have hs := hs.mono hle
      exact .mk hs.declaration
        (fun p hp => (hparameters p hp).mono ((hnext.trans hlast).trans hfinal).noSmaller)
        hs.given hs.declared hs.written
        (Ty.mergeMappings_within hs.mapping fun e he => (hm e he).mono hle)
    · exact (hothers d hd).mono hfinal.noSmaller

end

section Instances

variable (horacle : oracle.Learns files) {mapping : List (String × Ty)}
  (hm : ∀ e ∈ mapping, e.2.Within files base.store)
include horacle hm

/-- A type that is instantiated is within the files. -/
theorem instantiate_learns {t : Ty} (ht : t.Within files base.store) :
    Learns files False oracle base (t.instantiate demand mapping) fun t st =>
      t.Within files st := by
  unfold Ty.instantiate
  split
  · exact .type ht
  · exact substitute_learns horacle hm t ht

/-- A signature that is instantiated is within the files. -/
theorem signature_instantiate_learns {s : Signature} (hs : s.Within files base.store) :
    Learns files False oracle base (s.instantiate demand mapping) fun s st =>
      s.Within files st := by
  unfold Signature.instantiate
  split
  · exact .pure fun _ hnow => hs.mono (Knowledge.Later.noSmaller hnow)
  · refine .bind (substituteParameters_learns horacle hm s.parameters hs.parameters)
      fun parameters now hnow hparameters => .bind newCell_learns fun cell next hnext _ =>
        .pure fun last hlast => ?_
    have hle := ((hnow.trans hnext).trans hlast).noSmaller
    have hs := hs.mono hle
    exact .mk hs.declaration
      (fun p hp => (hparameters p hp).mono (hnext.trans hlast).noSmaller) hs.given
        hs.declared hs.written
      (Ty.mergeMappings_within hs.mapping fun e he => (hm e he).mono hle)

end Instances

end ScriptGraph.Inference
