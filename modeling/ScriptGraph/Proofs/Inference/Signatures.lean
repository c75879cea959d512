import ScriptGraph.Proofs.Inference.Members
import ScriptGraph.Proofs.Inference.Offers
import ScriptGraph.Proofs.Syntax.Kinds

/-!
# Finding signatures keeps what is known

The rules for parameters, signatures, `this` and `super`. The signature of a declaration is made
once and remembered under the construct that declares it; from then on it is the same one. The
signatures of a type may be instances that are made anew each time, but their outlines are the
same.

- `signatureOf_learns`: the signature of a declaration lasts
- `thisType_learns`, `superType_learns`: so do the types of `this` and `super`
- `callSignatures_alike`: types that offer the same calls have signatures of the same outlines
- `callSignatures_repeats`, `constructSignatures_repeats`
- `resolvedSignature_repeats`, `resolvedConstructSignature_repeats`
-/

namespace ScriptGraph.Inference

open Binding Syntax

variable {files : Source → Prop} {again : Prop} {oracle : Oracle} {base : Knowledge}

/-- A store holds what the types of parameters mention. -/
def ParametersWithin (files : Source → Prop) (parameters : List Parameter) (st : Store) : Prop :=
  ∀ p ∈ parameters, p.type.Within files st

/-- Parameters within a store are within larger ones. -/
theorem ParametersWithin.mono {parameters : List Parameter} {old new : Store}
    (h : ParametersWithin files parameters old) (hle : old.NoSmaller new) :
    ParametersWithin files parameters new :=
  fun p hp => (h p hp).mono hle

/-- One parameter is within a store if its type is. -/
theorem parametersWithin_single {p : Parameter} {st : Store} (h : p.type.Within files st) :
    ParametersWithin files [p] st :=
  fun _ hq => List.mem_singleton.mp hq ▸ h

namespace Learns

/-- Parameters that are known are learnt at once. -/
theorem parameters {parameters : List Parameter}
    (h : ParametersWithin files parameters base.store) :
    Learns files again oracle base (Pure.pure parameters) (ParametersWithin files) :=
  .pure fun _ hnow => h.mono (Knowledge.Later.noSmaller hnow)

end Learns

section Oracles

variable (horacle : oracle.Learns files)
include horacle

/-! ## Parameters -/

/-- The type that is ascribed at a construct lasts. -/
theorem typeOfAscription_learns {n : Node} (hn : n.From files) :
    Learns files again oracle base (typeOfAscription n) fun t st => t.Within files st := by
  unfold typeOfAscription
  split
  · exact .type .intrinsic
  · exact .type .intrinsic
  · exact typeOfSyntax?_learns horacle fun _ => from_firstConstruct hn
  · exact typeOfSyntax?_learns horacle fun _ => from_firstConstruct hn
  · exact typeOfSyntax?_learns horacle fun _ => from_firstConstruct hn
  · exact typeOfSyntax_learns horacle hn

/-- The type of a parameter lasts. -/
theorem parameterType_learns {n : Node} (hn : n.From files) :
    Learns files again oracle base (parameterType n) fun t st => t.Within files st := by
  unfold parameterType
  -- A parameter that is written with its type or its value, then one that is named only.
  split
  · split
    · rename_i htype
      exact typeOfAscription_learns horacle (hn.child? htype)
    · rename_i _ hvalue
      exact typeOf_learns horacle (hn.child? hvalue)
    · split
      · exact arrayOf_learns Ty.any_within
      · exact .type Ty.any_within
  · split
    · exact typeOf?_learns horacle fun _ => hn.child?
    · split
      · exact arrayOf_learns Ty.any_within
      · exact .type Ty.any_within

/-- A parameter in a typed list lasts. -/
theorem typedParameter_learns {n : Node} (hn : n.From files) :
    Learns files again oracle base (typedParameter n) (ParametersWithin files) := by
  unfold typedParameter
  split
  · exact .parameters nofun
  · split
    · exact .parameters nofun
    · exact .bind (parameterType_learns horacle hn) fun _ _ _ ht =>
        .parameters (parametersWithin_single ht)

/-- The parameter that a construct stands for lasts. -/
theorem parameterOf_learns {n : Node} (hn : n.From files) :
    Learns files again oracle base (parameterOf n) (ParametersWithin files) := by
  -- The forms of parameters, in the order of the rule.
  unfold parameterOf
  split
  · exact typedParameter_learns horacle hn
  · split
    · exact .parameters (parametersWithin_single Ty.any_within)
    · exact .parameters (parametersWithin_single Ty.any_within)
    · exact .parameters (parametersWithin_single Ty.any_within)
    · exact .bind (parameterType_learns horacle hn) fun _ _ _ ht =>
        .parameters (parametersWithin_single ht)
    · exact .bind (arrayOf_learns Ty.any_within) fun _ _ _ ht =>
        .parameters (parametersWithin_single ht)
    · exact .parameters nofun

/-- The parameters of a function last. -/
theorem parametersOf_learns {n : Node} (hn : n.From files) :
    Learns files again oracle base (parametersOf n) (ParametersWithin files) := by
  unfold parametersOf
  split
  · exact .parameters (parametersWithin_single Ty.any_within)
  · rename_i hlist
    exact .flatten (fun (p : Parameter) st => p.type.Within files st)
      (fun _ _ _ hle hp => hp.mono hle)
      fun _ _ _ hm => parameterOf_learns horacle ((hn.child? hlist).constructs hm)
  · exact .parameters nofun

/-! ## Signatures of declarations -/

omit horacle in
/-- A signature that has been made is found again without any change. -/
theorem run_signatureOf {id : DeclarationId} {s : Signature} {k : Knowledge}
    (h : k.signatures.find? (k.store.declaration id).key = some s) :
    ((signatureOf id).perform oracle).run k = (s, k) := by
  have hd : ((declarationOf id).perform oracle).run k = (k.store.declaration id, k) := rfl
  have hknown : ((Inquiry.ofStep (.knownSignature (k.store.declaration id).key)).perform
      oracle).run k = (some s, k) :=
    congrArg (·, k) h
  rw [signatureOf, Inquiry.run_bind, hd, Inquiry.run_bind, hknown]
  rfl

omit horacle in
/-- The construct of a declaration does not change. -/
theorem node_later {id : DeclarationId} {old new : Knowledge} (h : old.Later new)
    (hid : id.index < old.store.declarations.size) :
    (new.store.declaration id).node = (old.store.declaration id).node :=
  (h.workspace.store.declaration_became id hid).node_eq

omit horacle in
/-- Where a declaration stands does not change. -/
theorem key_later {id : DeclarationId} {old new : Knowledge} (h : old.Later new)
    (hid : id.index < old.store.declarations.size) :
    (new.store.declaration id).key = (old.store.declaration id).key :=
  congrArg Node.key (node_later h hid)

omit horacle in
/-- A signature of a construct that had none is remembered without harm to the others. -/
theorem record_signature {start k : Knowledge} (hk : start.Later k ∧ k.Sound files) {key : NodeKey}
    (hnone : start.signatures.find? key = none) {s : Signature} (hs : s.Within files k.store)
    (hdeclared : DeclaredAt k.store key s) :
    start.Later { k with signatures := k.signatures.record key s } ∧
      Knowledge.Sound files { k with signatures := k.signatures.record key s } := by
  refine ⟨{ hk.1 with signatures := fun other known h => ?_ },
    { hk.2 with signatures := fun e he => ?_, declared := fun e he => ?_ }⟩
  -- There was none for this construct, so those that were known are known still.
  · rw [Memo.find?_record, if_neg fun he => ?_, hk.1.signatures other known h]
    rw [← he, hnone] at h
    exact nomatch h
  · rcases List.mem_cons.mp he with rfl | he
    · exact hs
    · exact hk.2.signatures e he
  · rcases List.mem_cons.mp he with rfl | he
    · exact hdeclared
    · exact hk.2.declared e he

/-- The signature that is found of a declaration is that of one at the same construct, and it is
found again. -/
theorem signatureOf_declares {id : DeclarationId} (hid : id.index < base.store.declarations.size) :
    Learns files again oracle base (signatureOf id) fun s st =>
      s.Within files st ∧ DeclaredAt st (base.store.declaration id).key s := by
  intro start hbase hsound
  rw [← key_later hbase hid]
  have hid := Knowledge.Later.declaration_lt hbase hid
  have hstart : start.Later start ∧ start.Sound files := ⟨.refl start, hsound⟩
  cases hknown : start.signatures.find? (start.store.declaration id).key with
  -- A signature of this construct is remembered already.
  | some s =>
    rw [run_signatureOf hknown]
    have hmem := Memo.mem_entries_of_find? hknown
    refine ⟨hstart.1, hstart.2, ⟨hsound.signatures _ hmem, hsound.declared _ hmem⟩,
      fun _ next hnext => run_signatureOf ?_⟩
    rw [key_later hnext hid]
    exact hnext.signatures _ _ hknown
  | none =>
    -- A new signature: its parameters, a cell for its result, and a record of both.
    have hmade : Ensures (· = start) ((signatureOf id).perform oracle)
        fun s k => (start.Later k ∧ k.Sound files) ∧ s.Within files k.store ∧
          k.signatures.find? (start.store.declaration id).key = some s := by
      unfold signatureOf
      refine ensures_bind (R := fun d k => k = start ∧ d = start.store.declaration id)
        (by rintro k rfl; exact ⟨rfl, rfl⟩) fun d => .of_fact ?_
      rintro rfl
      refine ensures_bind (R := fun found k => (start.Later k ∧ k.Sound files) ∧ found = none)
        (by rintro k rfl; exact ⟨hstart, hknown⟩) fun found => .of_fact ?_
      rintro rfl
      have hn := hsound.declares.source id hid
      refine ensures_bind (Learns.ensures fun _ _ =>
          (parametersOf_learns horacle hn).yields (parametersOf_yields _))
        fun parameters => ensures_bind (R := fun _ k => (start.Later k ∧ k.Sound files) ∧
          ParametersWithin files parameters k.store ∧
            formsOf parameters = parameterForms (start.store.declaration id).node)
          (fun k hk => ?_) fun cell k hk => ?_
      · obtain ⟨hlater, hsound, -⟩ := @newCell_learns files oracle k k (.refl k) hk.1.2
        exact ⟨⟨hk.1.1.trans hlater, hsound⟩, hk.2.1.mono hlater.noSmaller, hk.2.2⟩
      · have hid' := hk.1.1.declaration_lt hid
        have hs : Signature.Within files k.store
            { declaration := some id, parameters, result := .declared id, cell } :=
          .mk (fun _ hd => Option.some.inj hd ▸ hid') hk.2.1 nofun
            (fun d hd => by cases hd; exact hid') nofun nofun
        have hforms := hk.2.2
        -- The node of the declaration has not changed, so the forms are those that it had.
        rw [← node_later hk.1.1 hid] at hforms
        exact ⟨record_signature hk.1 hknown hs ⟨id, rfl, hid', key_later hk.1.1 hid, hforms⟩, hs,
          (Memo.find?_record _ _ _ _).trans (if_pos rfl)⟩
    obtain ⟨hlater, hwithin, hfound⟩ := hmade start rfl
    refine ⟨hlater.1, hlater.2,
      ⟨hwithin, hlater.2.declared _ (Memo.mem_entries_of_find? hfound)⟩,
      fun _ next hnext => run_signatureOf ?_⟩
    rw [key_later (hlater.1.trans hnext) hid]
    exact hnext.signatures _ _ hfound

/-- The signature of a declaration lasts. -/
theorem signatureOf_learns {id : DeclarationId} (hid : id.index < base.store.declarations.size) :
    Learns files again oracle base (signatureOf id) fun s st => s.Within files st :=
  .weaken (signatureOf_declares horacle hid) fun _ _ _ h => h.1

omit horacle in
/-- Overloads are declarations of the symbol. -/
theorem mem_of_mem_overloads {st : Store} {ids : List DeclarationId} {d : DeclarationId}
    (h : d ∈ overloads st ids) : d ∈ ids := by
  unfold overloads at h
  dsimp only at h
  split at h
  · exact h
  · rw [List.partition_eq_filter_filter] at h
    exact (List.mem_filter.mp h).1

omit horacle in
/-- Which declarations are overloads does not change. -/
theorem overloads_later {old new : Knowledge} (h : old.Later new) {ids : List DeclarationId}
    (hids : ∀ d ∈ ids, d.index < old.store.declarations.size) :
    overloads new.store ids = overloads old.store ids := by
  -- Whether a declaration has a body is seen from its node.
  have hbody : ids.partition (fun d => (new.store.declaration d).hasBody) =
      ids.partition fun d => (old.store.declaration d).hasBody := by
    rw [List.partition_eq_filter_filter, List.partition_eq_filter_filter]
    have heq : ∀ d ∈ ids,
        (new.store.declaration d).hasBody = (old.store.declaration d).hasBody := fun d hd => by
      rw [Declaration.hasBody, Declaration.hasBody,
        (h.workspace.store.declaration_became d (hids d hd)).node_eq]
    exact Prod.ext (List.filter_congr heq)
      (List.filter_congr fun d hd => congrArg not (heq d hd))
  unfold overloads
  rw [hbody]

omit horacle in
/-- What a later knowledge has of the declaration of a signature. -/
theorem DeclaredAt.later {old new : Knowledge} {key : NodeKey} {s : Signature}
    (h : DeclaredAt old.store key s) (hlater : old.Later new) : DeclaredAt new.store key s :=
  h.mono hlater.noSmaller fun _ hid => node_later hlater hid

omit horacle in
/-- It goes by the outline of a signature where its declaration stands. -/
theorem DeclaredAt.of_outline {st : Store} {key : NodeKey} {s t : Signature}
    (h : DeclaredAt st key s) (hsame : t.outline = s.outline) : DeclaredAt st key t := by
  obtain ⟨d, hd, hlt, hkey, hforms⟩ := h
  exact ⟨d, (congrArg Prod.fst hsame).trans hd, hlt, hkey, (congrArg Prod.snd hsame).trans hforms⟩

/-- Signatures of the overloads among some declarations, one for each of them. -/
def SignaturesFor (st : Store) (ids : List DeclarationId) (signatures : List Signature) : Prop :=
  List.Forall₂ (fun id s => DeclaredAt st (st.declaration id).key s) (overloads st ids) signatures

omit horacle in
/-- Signatures that belong to declarations belong to them later on. -/
theorem SignaturesFor.later {old new : Knowledge} {ids : List DeclarationId}
    {signatures : List Signature} (h : SignaturesFor old.store ids signatures)
    (hlater : old.Later new) (hids : ∀ d ∈ ids, d.index < old.store.declarations.size) :
    SignaturesFor new.store ids signatures := by
  have hlt : ∀ d ∈ overloads old.store ids, d.index < old.store.declarations.size :=
    fun d hd => hids d (mem_of_mem_overloads hd)
  unfold SignaturesFor
  rw [overloads_later hlater hids]
  refine ((List.forall₂_and_left _ _).mpr ⟨hlt, h⟩).imp fun id s ⟨hid, hs⟩ => ?_
  rw [key_later hlater hid]
  exact hs.later hlater

omit horacle in
/-- Signatures of the same outlines are signatures of the same declarations. -/
theorem SignaturesFor.of_outlines {st : Store} {ids : List DeclarationId}
    {first later : List Signature} (h : SignaturesFor st ids first)
    (hsame : SameOutlines later first) : SignaturesFor st ids later := by
  unfold SignaturesFor at h ⊢
  unfold SameOutlines at hsame
  generalize overloads st ids = candidates at h ⊢
  -- The lists are gone through side by side.
  induction h generalizing later with
  | nil =>
    rw [List.map_eq_nil_iff.mp hsame]
    exact .nil
  | cons hs _ ih =>
    cases later with
    | nil => exact nomatch hsame
    | cons t ts =>
      obtain ⟨hhead, htail⟩ := List.cons.inj hsame
      exact .cons (hs.of_outline hhead) (ih htail)

/-- Each overload gives a signature of its own. -/
theorem signaturesOf_declares {ids : List DeclarationId}
    (hids : ∀ d ∈ ids, d.index < base.store.declarations.size) :
    Learns files again oracle base (signaturesOf ids) fun signatures st =>
      AllWithin files signatures st ∧ SignaturesFor st ids signatures := by
  have hlater : ∀ now, base.Later now → ∀ d ∈ ids, d.index < now.store.declarations.size :=
    fun now hnow d hd => hnow.declaration_lt (hids d hd)
  -- The overloads are chosen once, and are the same ones from then on.
  refine .store (fun _ old new hold _ hnew => by
    rw [overloads_later hnew (hlater old hold)]) fun now hnow _ => ?_
  have hlt : ∀ d ∈ overloads now.store ids, d.index < now.store.declarations.size :=
    fun d hd => hlater now hnow d (mem_of_mem_overloads hd)
  have hall : Learns files again oracle now ((overloads now.store ids).mapM signatureOf)
      fun signatures st => List.Forall₂ (fun id s =>
        s.Within files st ∧ DeclaredAt st (now.store.declaration id).key s)
          (overloads now.store ids) signatures := by
    refine .mapM_forall₂ (fun _ _ _ _ hnext hs => ⟨hs.1.mono hnext.noSmaller, hs.2.later hnext⟩)
      fun next hnext d hd => ?_
    rw [← key_later hnext (hlt d hd)]
    exact signatureOf_declares horacle (hnext.declaration_lt (hlt d hd))
  refine hall.weaken fun signatures next hnext hfound =>
    ⟨forall_mem_right hfound fun _ _ hs => hs.1, ?_⟩
  unfold SignaturesFor
  rw [overloads_later hnext (hlater now hnow)]
  refine ((List.forall₂_and_left _ _).mpr ⟨hlt, hfound⟩).imp fun id s ⟨hid, _, hs⟩ => ?_
  rwa [key_later hnext hid]

/-- The signatures of declarations last. -/
theorem signaturesOf_learns {ids : List DeclarationId}
    (hids : ∀ d ∈ ids, d.index < base.store.declarations.size) :
    Learns files again oracle base (signaturesOf ids) (AllWithin files) :=
  .weaken (signaturesOf_declares horacle hids) fun _ _ _ h => h.1

/-- The signatures of a symbol last. -/
theorem symbolSignatures_learns (symbol : SymbolId) :
    Learns files False oracle base (symbolSignatures symbol) (AllWithin files) :=
  .store nofun fun _ _ hsound => signaturesOf_learns horacle fun d hd =>
    (hsound.workspace.store.symbol symbol).declarations d (List.mem_filter.mp hd).1

/-- The signature of a declaration, seen from an instance. -/
theorem instanceSignature_learns {mapping : List (String × Ty)}
    (hm : ∀ e ∈ mapping, e.2.Within files base.store) {d : DeclarationId}
    (hd : d.index < base.store.declarations.size) :
    Learns files False oracle base (do (← signatureOf d).instantiate demand mapping)
      fun s st => s.Within files st :=
  .bind (signatureOf_learns horacle hd) fun _ _ hnow hs =>
    signature_instantiate_learns horacle (mapping_later hnow hm) hs

/-- Seen from different instances, the signature of a declaration has one outline. -/
theorem instanceSignature_alike (hempty : base.inProgress = [])
    {mapping mapping' : List (String × Ty)}
    (hm : ∀ e ∈ mapping, e.2.Within files base.store) {d : DeclarationId}
    (hd : d.index < base.store.declarations.size) :
    FindsAlike files oracle base (do (← signatureOf d).instantiate demand mapping)
      (do (← signatureOf d).instantiate demand mapping') fun s t => s.outline = t.outline :=
  .bind (signatureOf_learns horacle hd) (signatureOf_learns horacle hd)
    (.of_lasts (signatureOf_learns horacle hd) hempty)
    (fun _ _ hnow hs => signature_instantiate_learns horacle (mapping_later hnow hm) hs)
    fun s _ _ _ _ hst => hst ▸ .of_yields (s.instantiate_yields mapping)
      (s.instantiate_yields mapping') fun _ _ hfirst hlater => hfirst.trans hlater.symm

section Instances

variable (e : Entity) {arguments : List Ty} {ids : List DeclarationId}
  (harguments : ∀ t ∈ arguments, t.Within files base.store)
  (hids : ∀ d ∈ ids, d.index < base.store.declarations.size)
include harguments hids

/-- The signatures that an instance declares for itself last. -/
theorem instanceSignatures_learns :
    Learns files False oracle base (instanceSignatures e arguments ids) (AllWithin files) :=
  .store nofun fun _ hnow _ => .signatures fun _ hnext d hd => instanceSignature_learns horacle
    (mapping_later (hnow.trans hnext) (Ty.mappingOf_within harguments e))
    ((hnow.trans hnext).declaration_lt (hids d (mem_of_mem_overloads hd)))

/-- Seen from different instances, declarations give signatures of the same outlines. -/
theorem instanceSignatures_alike (hempty : base.inProgress = []) (e' : Entity)
    {arguments' : List Ty} (harguments' : ∀ t ∈ arguments', t.Within files base.store) :
    FindsAlike files oracle base (instanceSignatures e arguments ids)
      (instanceSignatures e' arguments' ids) SameOutlines := by
  have hlater : ∀ now, base.Later now → ∀ d ∈ ids, d.index < now.store.declarations.size :=
    fun now hnow d hd => hnow.declaration_lt (hids d hd)
  -- Both mappings stay within the files, however much is learned in between.
  have hmapping : ∀ now, base.Later now → ∀ p ∈ Ty.mappingOf e arguments,
      p.2.Within files now.store := fun now hnow =>
    mapping_later hnow (Ty.mappingOf_within harguments e)
  have hmapping' : ∀ now, base.Later now → ∀ p ∈ Ty.mappingOf e' arguments',
      p.2.Within files now.store := fun now hnow =>
    mapping_later hnow (Ty.mappingOf_within harguments' e')
  refine .store (φ := AllWithin files) (fun old new hold _ hnew => ?_) (fun now hnow _ => ?_)
    fun now hnow _ => ?_
  -- Neither list of overloads depends on when it is looked at.
  · rw [overloads_later hnew (hlater old hold)]
  · exact .signatures fun next hnext d hd => instanceSignature_learns horacle
      (hmapping next (hnow.trans hnext))
      (hlater next (hnow.trans hnext) d (mem_of_mem_overloads hd))
  · have hboth : ∀ next, now.Later next → ∀ d ∈ overloads now.store ids,
        d.index < next.store.declarations.size := fun next hnext d hd =>
      hlater next (hnow.trans hnext) d (mem_of_mem_overloads hd)
    exact .mapM
      (fun next hnext d hd => instanceSignature_learns horacle (hmapping next (hnow.trans hnext))
        (hboth next hnext d hd))
      (fun next hnext d hd => instanceSignature_learns horacle (hmapping' next (hnow.trans hnext))
        (hboth next hnext d hd))
      fun next hnext d hd => instanceSignature_alike horacle
        ((hnow.trans hnext).inProgress_eq.trans hempty) (hmapping next (hnow.trans hnext))
        (hboth next hnext d hd)

/-- Asked for again, they have the same outlines. -/
theorem instanceSignatures_repeats :
    Repeats files oracle base (instanceSignatures e arguments ids) (AllWithin files) SameOutlines :=
  ⟨instanceSignatures_learns horacle e harguments hids, fun hempty =>
    instanceSignatures_alike horacle e harguments hids hempty e harguments⟩

end Instances

/-! ## Signatures of types -/

/-- The signatures of what is callable last. -/
theorem callable_learns {c : Callable} (hc : c.Within files base.store) :
    Learns files False oracle base c.signatures (AllWithin files) := by
  cases c with
  | function signatures => exact (Repeats.signatures hc).1
  | object e arguments =>
    exact .store nofun fun now hnow hsound => instanceSignatures_learns horacle e
      (fun t ht => (hc.2 t ht).mono hnow.noSmaller)
      (hsound.workspace.store.symbol e.id).callSignatures

/-- Callable parts that offer the same give signatures of the same outlines. -/
theorem callable_alike (hempty : base.inProgress = []) {c d : Callable}
    (hc : c.Within files base.store) (hd : d.Within files base.store) (h : c.offer = d.offer) :
    FindsAlike files oracle base c.signatures d.signatures SameOutlines := by
  -- What is offered tells functions from instances.
  cases c with
  | function signatures =>
    cases d with
    | function signatures' => exact .pure (Offer.outlines.inj h)
    | object e' arguments' => exact nomatch h
  | object e arguments =>
    cases d with
    | function signatures' => exact nomatch h
    | object e' arguments' =>
      -- The instances are of one symbol; their arguments may differ.
      have hsame : e.id = e'.id := Offer.instances.inj h
      refine .store (φ := AllWithin files) (fun old new hold _ hnew => ?_)
        (fun now hnow hsound => ?_)
        fun now hnow hsound => ?_
      · rw [hnew.workspace.store.symbol_eq _ (hold.symbol_lt hd.1)]
      · exact instanceSignatures_learns horacle e (fun t ht => (hc.2 t ht).mono hnow.noSmaller)
          (hsound.workspace.store.symbol e.id).callSignatures
      · rw [← hsame]
        exact instanceSignatures_alike horacle e (fun t ht => (hc.2 t ht).mono hnow.noSmaller)
          (hsound.workspace.store.symbol e.id).callSignatures (hnow.inProgress_eq.trans hempty) e'
          fun t ht => (hd.2 t ht).mono hnow.noSmaller

/-- The first signatures among what is callable last. -/
theorem firstSignatures_learns {cs : List Callable} (hcs : ∀ c ∈ cs, c.Within files base.store) :
    Learns files False oracle base (Callable.firstSignatures cs) (AllWithin files) := by
  induction cs generalizing base with
  | nil => exact .pure fun _ _ => nofun
  | cons c rest ih =>
    refine .bind (callable_learns horacle (hcs c List.mem_cons_self))
      fun signatures now hnow hsignatures => ?_
    split
    · exact ih fun d hd => (hcs d (List.mem_cons_of_mem _ hd)).mono hnow.noSmaller
    · exact (Repeats.signatures hsignatures).1

/-- Callables that offer the same find signatures with the same outlines. -/
theorem firstSignatures_alike (hempty : base.inProgress = []) {cs ds : List Callable}
    (hcs : ∀ c ∈ cs, c.Within files base.store) (hds : ∀ d ∈ ds, d.Within files base.store)
    (h : cs.map Callable.offer = ds.map Callable.offer) :
    FindsAlike files oracle base (Callable.firstSignatures cs) (Callable.firstSignatures ds)
      SameOutlines := by
  -- The parts of both types are gone through side by side.
  induction cs generalizing base ds with
  | nil =>
    rw [List.map_eq_nil_iff.mp h.symm]
    exact .pure rfl
  | cons c cs ih =>
    cases ds with
    | nil => exact nomatch h
    | cons d ds =>
      obtain ⟨hhead, htail⟩ := List.cons.inj h
      have hc := hcs c List.mem_cons_self
      have hd := hds d List.mem_cons_self
      have hrest : ∀ now, base.Later now → ∀ c ∈ cs, c.Within files now.store :=
        fun now hnow c hc =>
        (hcs c (List.mem_cons_of_mem _ hc)).mono hnow.noSmaller
      refine .bind (φ := AllWithin files) (callable_learns horacle hc) (callable_learns horacle hd)
        (callable_alike horacle hempty hc hd hhead) (fun signatures now hnow hsignatures => ?_)
        fun first later now hnow _ hsame => ?_
      · split
        · exact firstSignatures_learns horacle (hrest now hnow)
        · exact (Repeats.signatures hsignatures).1
      -- As long as there is none, the search goes on both times.
      · rw [hsame.isEmpty_eq]
        split
        · exact ih (hnow.inProgress_eq.trans hempty) (hrest now hnow)
            (fun d hd => (hds d (List.mem_cons_of_mem _ hd)).mono hnow.noSmaller) htail
        · exact .pure hsame

/-- Types that offer the same calls have signatures of the same outlines. -/
theorem callSignatures_alike (hempty : base.inProgress = []) {t u : Ty}
    (ht : t.Within files base.store) (hu : u.Within files base.store) (h : t.offers = u.offers) :
    FindsAlike files oracle base (callSignatures t) (callSignatures u) SameOutlines := by
  rw [callSignatures_eq, callSignatures_eq]
  exact firstSignatures_alike horacle hempty (Ty.callables_within ht) (Ty.callables_within hu) h

/-- Asked for again, the call signatures of a type have the same outlines. -/
theorem callSignatures_repeats {t : Ty} (ht : t.Within files base.store) :
    Repeats files oracle base (callSignatures t) (AllWithin files) SameOutlines := by
  refine ⟨?_, fun hempty => callSignatures_alike horacle hempty ht ht rfl⟩
  rw [callSignatures_eq]
  exact firstSignatures_learns horacle (Ty.callables_within ht)

end Oracles

/-! ## Signatures of constructors -/

/-- Whether there are signatures by which a symbol is constructed. -/
def hasConstructor (st : Store) (c : SymbolId) : Bool :=
  !(st.symbol c).constructSignatures.isEmpty

/-- The first one of some types that is an instance type. -/
def firstObject? (types : List Ty) : Option Entity :=
  types.findSome? fun
    | .object e _ => some e
    | _ => none

/-- The first instance among types belongs to a symbol that is there. -/
theorem firstObject?_lt {types : List Ty} {st : Store} (h : ∀ t ∈ types, t.Within files st)
    {e : Entity} (he : firstObject? types = some e) : e.id.index < st.symbols.size := by
  obtain ⟨t, ht, hfirst⟩ := List.exists_of_findSome?_eq_some he
  split at hfirst
  · cases hfirst
    cases h _ ht with
    | object he => exact he
  · exact nomatch hfirst

/-- The signature of a constructor that a class inherits. -/
def inherited (constructed : Entity) (s : Signature) : Inquiry Signature := do
  let cell ← newCell
  return { s with result := .given (.object constructed []), mapping := [], cell }

/-- An inherited constructor has the outline of the one that it is inherited from. -/
theorem inherited_yields (constructed : Entity) (s : Signature) :
    (inherited constructed s).Yields fun t => t.outline = s.outline :=
  .bind (.something _) fun _ _ => .pure rfl

/-- The signatures of the constructors of a class, seen from the class that is constructed. -/
def constructorsOf (constructed : Entity) (current : SymbolId) (signatures : List Signature) :
    Inquiry (List Signature) :=
  if current == constructed.id then return signatures else signatures.mapM (inherited constructed)

/-- Inherited or not, constructors are those that have been declared. -/
theorem constructorsOf_yields (constructed : Entity) (current : SymbolId)
    (signatures : List Signature) :
    (constructorsOf constructed current signatures).Yields fun found =>
      SameOutlines found signatures := by
  unfold constructorsOf
  split
  · exact .pure rfl
  · induction signatures with
    | nil => exact .pure rfl
    | cons s rest ih =>
      rw [List.mapM_cons]
      exact .bind (inherited_yields constructed s) fun t ht => .bind ih fun ts hts =>
        .pure (congrArg₂ List.cons ht hts)

/-- The search for a constructor ends with the first class that has one. -/
theorem constructorsFrom_succ (constructed : Entity) (steps : Nat) (current : SymbolId) :
    constructorsFrom constructed (steps + 1) current = Inference.store >>= fun st =>
      if hasConstructor st current then
        signaturesOf (st.symbol current).constructSignatures >>=
          constructorsOf constructed current
      else basesOf current >>= fun types =>
        match firstObject? types with
        | some base => constructorsFrom constructed steps base.id
        | none => return [] :=
  rfl

section Oracles

variable (horacle : oracle.Learns files)
include horacle

omit horacle in
/-- An inherited constructor makes instances of the class where the search started. -/
theorem inherited_repeats {constructed : Entity}
    (hc : constructed.id.index < base.store.symbols.size) {s : Signature}
    (hs : s.Within files base.store) :
    Repeats files oracle base (inherited constructed s)
      (fun s st => Signature.Within files st s) fun s t => s.outline = t.outline := by
  refine .of_yields (P := fun t => t.outline = s.outline)
    (.bind newCell_learns fun _ _ hnow _ => .pure fun _ hlast => ?_)
    (inherited_yields constructed s) fun _ _ hfirst hlater => hfirst.trans hlater.symm
  have hle := (hnow.trans hlast).noSmaller
  have hs := hs.mono hle
  exact .mk hs.declaration hs.parameters
    (fun _ ht => by cases ht; exact .object (hle.symbol_lt hc) nofun)
    nofun nofun nofun

omit horacle in
/-- Asked for again, the constructors that a class declares have the same outlines. -/
theorem constructorsOf_repeats {constructed : Entity} {current : SymbolId}
    (hc : constructed.id.index < base.store.symbols.size) {signatures : List Signature}
    (hs : AllWithin files signatures base.store) :
    Repeats files oracle base (constructorsOf constructed current signatures) (AllWithin files)
      SameOutlines := by
  unfold constructorsOf
  split
  · exact .signatures hs
  · exact .mapM fun now hnow s hmem => inherited_repeats
      (hnow.symbol_lt hc) ((hs s hmem).mono hnow.noSmaller)

/-- So do those that are looked for in the classes above. -/
theorem constructorsFrom_repeats {constructed : Entity} (steps : Nat) {current : SymbolId}
    (hc : constructed.id.index < base.store.symbols.size)
    (hcurrent : current.index < base.store.symbols.size) :
    Repeats files oracle base (constructorsFrom constructed steps current) (AllWithin files)
      SameOutlines := by
  -- The search goes on in the class that the current one extends.
  induction steps generalizing base current with
  | zero => exact .signatures nofun
  | succ steps ih =>
    rw [constructorsFrom_succ]
    refine .store (fun old new hold _ hnew => ?_) fun now hnow hsound => ?_
    · rw [hasConstructor, hasConstructor, hnew.workspace.store.symbol_eq _
        (hold.symbol_lt hcurrent)]
    have hc := hnow.symbol_lt hc
    split
    · exact .bindLasting (signaturesOf_learns horacle
        (hsound.workspace.store.symbol current).constructSignatures) fun _ _ hnext hs =>
          constructorsOf_repeats (hnext.symbol_lt hc) hs
    · refine .bindLasting (basesOf_learns horacle current) fun types next hnext htypes => ?_
      split
      · exact ih (hnext.symbol_lt hc)
          (firstObject?_lt htypes ‹_›)
      · exact .signatures nofun

/-- Asked for again, the construct signatures of a type have the same outlines. -/
theorem constructSignatures_repeats {t : Ty} (ht : t.Within files base.store) :
    Repeats files oracle base (constructSignatures t) (AllWithin files) SameOutlines := by
  cases ht with
  | static he =>
    -- A class asks for its constructors, an instance for its construct signatures.
    refine .bindLasting (isClass_learns he) fun isClass now hnow _ => ?_
    have he := hnow.symbol_lt he
    split
    · exact constructorsFrom_repeats horacle _ he he
    · exact .signatures nofun
  | @object e _ he harguments =>
    refine .store (fun old new hold _ hnew => ?_) fun now hnow hsound =>
      instanceSignatures_repeats horacle e
        (fun t ht => (harguments t ht).mono hnow.noSmaller)
        (hsound.workspace.store.symbol e.id).constructSignatures
    rw [hnew.workspace.store.symbol_eq _ (hold.symbol_lt he)]
  | _ => exact .signatures nofun

/-! ## What `this` and `super` stand for -/

omit horacle in
/-- A class is no method. -/
theorem class_not_method {n : Node}
    (h : (isClassDeclaration n || n.is .classExpression) = true) :
    n.is .methodDefinition = false := by
  simp only [isClassDeclaration, Node.isOneOf, List.any_cons, List.any_nil, Bool.or_false,
    Bool.or_eq_true] at h
  obtain (h | h) | h := h <;> exact Node.is_eq_false h (by decide)

omit horacle in
/-- A declaration that is found at a construct is of the construct's kind. -/
theorem is_of_declarationAt {b : FileBinding} {st : Store} (hb : b.Within st) {n : Node}
    {d : DeclarationId} (hd : b.declarationAt? n = some d) (k : Kind) :
    (st.declaration d).node.is k = n.is k :=
  have hkey := (hb.declarations _ (Table.mem_entries_of_find? hd)).2.1
  congrArg (· == Label.construct k) (congrArg NodeKey.label hkey)

omit horacle in
/-- The declaration at a construct that is no method stays what it is. -/
theorem declarationAt_lasts {b : FileBinding} (hb : b.Within base.store) {n : Node}
    {d : DeclarationId} (hd : b.declarationAt? n = some d)
    (hm : n.is .methodDefinition = false) :
    Learns files again oracle base (declarationOf d) fun d st => d.Within st :=
  declarationOf_lasts fun _ hnext =>
    (hnext.workspace.store.declaration_became d
      (hb.declarations _ (Table.mem_entries_of_find? hd)).1).eq_of_not_method
        ((is_of_declarationAt hb hd _).trans hm)

omit horacle in
/-- What `this` stands for lasts, from any place on the way up. -/
theorem thisTypeFrom_learns {b : FileBinding} (hb : b.Within base.store) (source : Source)
    (isStatic : Bool) (trail : List Crumb) :
    Learns files again oracle base (thisTypeFrom b source isStatic trail) fun t st =>
      t.Within files st := by
  -- By induction on the way up; a class ends it, and so does a function that has its own `this`.
  induction trail generalizing isStatic with
  | nil => exact .type Ty.any_within
  | cons c up ih =>
    unfold thisTypeFrom
    dsimp only
    split
    -- A class, if it has been bound, is seen from its instances or from its static side.
    · rename_i hclass
      split
      · exact .type Ty.any_within
      · rename_i d hd
        refine .bind (declarationAt_lasts hb hd (class_not_method hclass))
          fun d now _ hwithin => ?_
        split
        · exact .type Ty.any_within
        · split
          · exact staticOf_learns (hwithin _ ‹_›)
          · exact instanceOf_learns (hwithin _ ‹_›) nofun
    -- No class: a function ends the way here, and a member says which side is meant.
    · split
      · exact .type Ty.any_within
      · split
        · split
          · exact .type Ty.any_within
          · exact ih _
        · split
          · exact ih _
          · exact ih _

omit horacle in
/-- What `this` stands for lasts. -/
theorem thisType_learns (n : Node) :
    Learns files again oracle base (thisType n) fun t st => t.Within files st :=
  .bind (bindingOf_learns n) fun _ _ _ hb => thisTypeFrom_learns hb _ _ _

omit horacle in
/-- The first instance among types is within the store that the types are in. -/
theorem firstInstance_within {types : List Ty} {st : Store}
    (h : ∀ t ∈ types, t.Within files st) {t : Ty}
    (ht : superType.firstInstance types = some t) : t.Within files st :=
  h t (List.mem_of_find?_eq_some ht)

/-- What `super` stands for lasts. -/
theorem superType_learns (n : Node) :
    Learns files again oracle base (superType n) fun t st => t.Within files st := by
  refine .bind (thisType_learns n) fun t now _ ht => ?_
  -- The first base of an instance is an instance, that of a class its static side.
  cases ht with
  | object he =>
    refine .bind (basesOf_learns horacle _) fun types next _ htypes => ?_
    split
    · exact .type (firstInstance_within htypes ‹_›)
    · exact .type Ty.any_within
  | static he =>
    refine .bind (basesOf_learns horacle _) fun types next _ htypes => ?_
    split
    · rename_i hfirst
      cases firstInstance_within htypes hfirst with
      | object hbase => exact .type (.static hbase)
    · exact .type Ty.any_within
  | _ => exact .type Ty.any_within

/-! ## The signatures that calls and constructions bind to -/

omit horacle in
/-- The signature that is chosen is one of those that were offered. -/
theorem mem_of_choose {signatures : List Signature} {count : Int} {s : Signature}
    (h : Signature.choose signatures count = some s) : s ∈ signatures := by
  rcases Option.or_eq_some_iff.mp h with h | ⟨-, h⟩
  · exact List.mem_of_find?_eq_some h
  · exact List.mem_of_head? h

/-- A store holds what a signature mentions, if there is one. -/
def FoundWithin (files : Source → Prop) (found : Option Signature) (st : Store) : Prop :=
  ∀ s, found = some s → s.Within files st

/-- Signatures with the same outline, or none at all. -/
def SameOutline (first later : Option Signature) : Prop :=
  first.map Signature.outline = later.map Signature.outline

omit horacle in
/-- Signatures with the same outline belong to the same declaration. -/
theorem SameOutline.declaration_eq {first later : Option Signature} (h : SameOutline first later) :
    later.bind (·.declaration) = first.bind (·.declaration) := by
  have hbind : ∀ s : Option Signature,
      s.bind (·.declaration) = (s.map Signature.outline).bind (·.1) := fun s => by
    cases s <;> rfl
  rw [hbind, hbind, h]

omit horacle in
/-- Where there is no signature, there is none later on. -/
theorem Repeats.noSignature :
    Repeats files oracle base (Pure.pure none) (FoundWithin files) SameOutline :=
  .pure (fun _ _ => nofun) rfl

omit horacle in
/-- The signature that is chosen is one of those that have been found, and has the same outline
each time. -/
theorem Repeats.choose {x : Inquiry (List Signature)}
    (h : Repeats files oracle base x (AllWithin files) SameOutlines) (count : Int) :
    Repeats files oracle base (do return Signature.choose (← x) count)
      (FoundWithin files) SameOutline :=
  ⟨.map (.weaken h.1 fun _ _ _ hall _ hs => hall _ (mem_of_choose hs)),
    fun hempty => .map fun k hk hsound next hnext hnsound =>
      Signature.choose_eq (h.2 hempty k hk hsound next hnext hnsound) count⟩

/-- Asked for again, a call binds to a signature with the same outline. -/
theorem resolvedSignature_repeats {call : Node} (hn : call.From files) :
    Repeats files oracle base (resolvedSignature call) (FoundWithin files) SameOutline := by
  unfold resolvedSignature
  split
  · exact .noSignature
  · rename_i hcallee
    dsimp only
    split
    -- A call of `super` is a construction of what `super` stands for.
    · refine .bindLasting (superType_learns horacle _) fun t now _ ht => ?_
      cases ht with
      | object he => exact .choose (constructSignatures_repeats horacle (.static he)) _
      | _ => exact .noSignature
    · refine .bindLasting (typeOf_learns horacle (hn.child? hcallee)) fun t now _ ht => ?_
      exact .choose (callSignatures_repeats horacle ht) _

/-- The signature that a construction takes of those by which values are constructed: the first
one, for the type arguments of the construction. -/
def firstSignature (construction : Node) (signatures : List Signature) :
    Inquiry (Option Signature) := do
  match signatures with
  | [] => return none
  | first :: _ =>
    let arguments ← typeArguments (construction.child? .typeArguments)
    match first.declaration with
    | none => return some first
    | some id =>
      let d ← declarationOf id
      match d.kind, d.symbol with
      | .constructor, some symbol =>
        let mapping := Ty.mappingOf (← entityOf symbol) arguments
        return some (← first.instantiate demand mapping)
      | _, _ => return some first

omit horacle in
/-- A construction goes by the construct signatures of what is constructed. -/
theorem resolvedConstructSignature_eq {construction constructed : Node}
    (h : construction.child? .constructed = some constructed) :
    resolvedConstructSignature construction = typeOf constructed >>= fun t =>
      constructSignatures t >>= firstSignature construction := by
  unfold resolvedConstructSignature
  rw [h]
  rfl

/-- The signature that a construction binds to lasts. -/
theorem firstSignature_learns {construction : Node} (hn : construction.From files)
    {signatures : List Signature} (hs : AllWithin files signatures base.store) :
    Learns files False oracle base (firstSignature construction signatures)
      (FoundWithin files) := by
  unfold firstSignature
  split
  · exact Repeats.noSignature.1
  · rename_i first rest
    have hfirst := hs first List.mem_cons_self
    -- Without type arguments, or for no class, the first signature is taken as it is.
    have hkeep : ∀ now, base.Later now → Learns files False oracle now (Pure.pure (some first))
        (FoundWithin files) := fun now hnow =>
      .pure fun _ hlast s hs => Option.some.inj hs ▸ hfirst.mono (hnow.trans hlast).noSmaller
    refine .bind (typeArguments_learns horacle fun _ => hn.child?)
      fun arguments now hnow harguments => ?_
    split
    · exact hkeep now hnow
    · rename_i hdeclaration
      have hid := hnow.declaration_lt (hfirst.declaration _ hdeclaration)
      refine .bind (declarationOf_learns hid) fun d next hnext ⟨hd, _⟩ => ?_
      split
      · refine .bind (entityOf_learns (hd _ ‹_›)) fun e last hlast _ => ?_
        have hle := ((hnow.trans hnext).trans hlast).noSmaller
        refine .map (.weaken (signature_instantiate_learns horacle (Ty.mappingOf_within
          (fun t ht => (harguments t ht).mono (hnext.trans hlast).noSmaller) e)
          (hfirst.mono hle)) fun _ _ _ hs _ he => Option.some.inj he ▸ hs)
      · exact hkeep next (hnow.trans hnext)

omit horacle in
/-- With type arguments for the class or without, it is the first signature. -/
theorem firstSignature_yields (construction : Node) (signatures : List Signature) :
    (firstSignature construction signatures).Yields fun s =>
      s.map Signature.outline = signatures.head?.map Signature.outline := by
  unfold firstSignature
  -- Instantiation keeps the outline.
  split
  · exact .pure rfl
  · rename_i first rest
    refine .bind (.something _) fun arguments _ => ?_
    split
    · exact .pure rfl
    · refine .bind (.something _) fun d _ => ?_
      split
      · exact .bind (.something _) fun e _ => .bind (first.instantiate_yields _) fun s hs =>
          .pure (congrArg some hs)
      · exact .pure rfl

/-- Asked for again, a construction binds to a signature with the same outline. -/
theorem resolvedConstructSignature_repeats {construction : Node}
    (hn : construction.From files) :
    Repeats files oracle base (resolvedConstructSignature construction) (FoundWithin files)
      SameOutline := by
  cases hconstructed : construction.child? .constructed with
  | none =>
    unfold resolvedConstructSignature
    rw [hconstructed]
    exact .noSignature
  | some constructed =>
    -- The signatures may be made anew, but the first one has the same outline.
    rw [resolvedConstructSignature_eq hconstructed]
    refine .bindLasting (typeOf_learns horacle (hn.child? hconstructed)) fun t now _ ht =>
      .bindYields (constructSignatures_repeats horacle ht)
        (fun _ _ _ hs => firstSignature_learns horacle hn hs)
        (firstSignature_yields construction) fun first later s t hsame hs ht => ?_
    have hhead : first.head?.map Signature.outline = later.head?.map Signature.outline := by
      rw [← List.head?_map, ← List.head?_map, hsame]
    exact hs.trans (hhead.trans ht.symm)

end Oracles

end ScriptGraph.Inference
