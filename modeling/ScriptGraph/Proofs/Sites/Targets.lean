import ScriptGraph.Graph.Builder
import ScriptGraph.Proofs.Inference.Answers
import ScriptGraph.Proofs.Syntax.Names

/-!
# Calls keep their targets

A call binds to the same declaration whenever it is looked at. If it has no signature with a
declaration, its callee is looked up by name; what identifiers declare is attached to symbols from
the start, so that the look-up finds the same again.

- `Knowledge.AttachesNames`: the identifiers of a file name what is attached to symbols
- `callTarget_repeats`: a call binds to the same declaration again
- `siteRecord_learns`: recording a site keeps what is known
-/

namespace ScriptGraph

open Binding Syntax Inference

namespace Inference

variable {files : Source → Prop} {again : Prop} {oracle : Oracle} {base k next : Knowledge}

/-! ## What identifiers declare -/

/-- A file has been bound, and what an identifier in it declares is attached to a symbol. -/
def Knowledge.AttachesNames (s : Source) (k : Knowledge) : Prop :=
  ∃ b : FileBinding, k.workspace.bindings.find? s.fileName = some b ∧
    ∀ key id, b.names.find? key = some id → key.label = .construct .identifier →
      id.index < k.store.declarations.size ∧ (k.store.declaration id).symbol.isSome

namespace Knowledge.AttachesNames

variable {s : Source}

/-- Names that are attached to their declarations stay attached. -/
theorem later (h : k.AttachesNames s) (hlater : k.Later next) : next.AttachesNames s := by
  obtain ⟨b, hb, hnames⟩ := h
  refine ⟨b, hlater.workspace.bindings _ b hb, fun key id hid hlabel => ?_⟩
  obtain ⟨hlt, hsome⟩ := hnames key id hid hlabel
  refine ⟨hlater.declaration_lt hlt, ?_⟩
  rw [(hlater.workspace.store.declaration_became id hlt).eq_of_isSome hsome]
  exact hsome

/-- Only methods are not attached as a file is bound, and no identifier names one. -/
theorem ofWorkspace (settings : Settings) (disk : Disk) (library : Source)
    (hs : s.tree.Throughout Tree.NamesApart) :
    (Knowledge.ofWorkspace (.ofSource settings disk (.ofSource library) s)).AttachesNames s := by
  have htidy := bind_tidy (Tree.Throughout.hereditary Tree.NamesApart) hs
    (bind_selfContained library Store.selfContained_empty)
  refine ⟨_, Workspace.bindings_ofSource settings disk (.ofSource library) s,
    fun key id hid hlabel => ?_⟩
  -- The tables that binding leaves behind are tidy: what is not attached is a method.
  obtain ⟨hlt, hkey, hattached⟩ := htidy.names _ (Table.mem_entries_of_find? hid)
  refine ⟨hlt, hattached.resolve_right ?_⟩
  rintro (⟨htree, hmethod, hname⟩ | hpending)
  · rw [hname] at hkey
    obtain ⟨c, hc, rfl⟩ := Option.map_eq_some_iff.mp hkey
    exact htree.here.label_of_method hmethod hc hlabel
  · exact nomatch hpending

end Knowledge.AttachesNames

/-- The binding of a file that has been bound is found whenever it is asked for. -/
theorem bindingOf_bound {n : Node} (hn : n.source.isBundled = false) {b : FileBinding}
    (hb : base.workspace.bindings.find? n.source.fileName = some b) :
    Learns files again oracle base (bindingOf n) fun found _ => found = b := by
  intro k hk hsound
  have hrun : ∀ next : Knowledge, base.Later next →
      ((bindingOf n).perform oracle).run next = (b, next) := fun next hnext =>
    perform_bindingOf hn (hnext.workspace.bindings _ b hb)
  rw [hrun k hk]
  exact ⟨.refl k, hsound, rfl, fun _ next hnext => hrun next (Knowledge.Later.trans hk hnext)⟩

/-- The symbol of what an identifier declares lasts. -/
theorem declaredSymbol_lasts {n : Node} (h : base.AttachesNames n.source)
    (hn : n.source.isBundled = false) (hlabel : n.label = .construct .identifier) :
    Learns files again oracle base (declaredSymbol n) Found := by
  obtain ⟨b, hb, hnames⟩ := h
  refine .bind (bindingOf_bound hn hb) fun found now hnow hfound => ?_
  subst hfound
  -- The declaration is attached already, so it is the same one from then on.
  split
  · rename_i id hid
    obtain ⟨hlt, hsome⟩ := hnames n.key id hid hlabel
    have hsame : ∀ next : Knowledge, base.Later next →
        next.store.declaration id = base.store.declaration id := fun next hnext =>
      (hnext.workspace.store.declaration_became id hlt).eq_of_isSome hsome
    exact .map (declarationOf_lasts fun next hnext =>
      (hsame next (hnow.trans hnext)).trans (hsame now hnow).symm)
  · exact .found (found_none _)

/-- A name that declares nothing has no symbol of its own, now or later. -/
theorem declaredSymbol_of_unnamed {n : Node} (hn : n.source.isBundled = false) {b : FileBinding}
    (hb : base.workspace.bindings.find? n.source.fileName = some b)
    (hnone : b.declarationNamed? n = none) :
    Learns files again oracle base (declaredSymbol n) Found := by
  refine .bind (bindingOf_bound hn hb) fun found now _ hfound => ?_
  subst hfound
  rw [hnone]
  exact .found (found_none _)

/-- If what is called or constructed is a name that declares something, the symbol of that
lasts. -/
def CalleeLasts (files : Source → Prop) (oracle : Oracle) (base : Knowledge)
    (callee : Option Node) : Prop :=
  ∀ n, callee = some n → n.isOneOf nameKinds = true →
    ∀ now, base.Later now → Learns files True oracle now (declaredSymbol n) Found

/-- Of all names only identifiers are called, and what they declare is attached to symbols. -/
theorem calleeLasts_of_namesApart {call : Node} (hcall : call.is .callExpression = true)
    (hapart : call.tree.NamesApart) (hsource : call.source.isBundled = false)
    (hnames : base.AttachesNames call.source) :
    CalleeLasts files oracle base (call.child? .callee) := by
  intro callee hcallee hname now hnow
  have hsame := Node.source_of_child? hcallee
  exact declaredSymbol_lasts (hsame ▸ hnames.later hnow) (hsame ▸ hsource)
    (hapart.label_of_called hcall hcallee hname)

end Inference

namespace Sites

variable {files : Source → Prop} {again : Prop} {oracle : Oracle} {base : Knowledge}

/-- The place of a declaration, if there is one. -/
def placeOf : Option DeclarationId → Inquiry (Option Location)
  | none => return none
  | some id => do
    let location := (← declarationOf id).location
    return some location

/-- Where the target of a site is declared. -/
def targetPlace (n : Node) : Inquiry (Option Location) := do
  placeOf (← Graph.siteTarget n).declaration

/-- A place at which something is declared that comes from `files`. -/
def LocatedIn (files : Source → Prop) (l : Location) : Prop :=
  ∃ d : Declaration, files d.source ∧ l = d.location

/-! ## Targets -/

/-- A store holds what a target mentions, and its constructs come from `files`. -/
def TargetWithin (files : Source → Prop) (target : Target) (st : Store) : Prop :=
  (∀ d, target.declaration = some d → d.index < st.declarations.size) ∧
    FoundWithin files target.signature st

/-- The best declaration of the symbol that a callee names. -/
def namedDeclaration (callee : Node) : Inquiry (Option DeclarationId) := do
  .ofStep (.pickDeclaration (← symbolAt callee))

/-- Without a declared signature the target is what the callee names. -/
theorem targetOf_some {signature : Option Signature}
    (h : signature.bind (·.declaration) = none) (callee : Node) :
    targetOf signature (some callee) = do return ⟨← namedDeclaration callee, signature⟩ := by
  unfold targetOf namedDeclaration
  rw [h, bind_assoc]

section Oracles

variable (horacle : oracle.Learns files)
include horacle

/-- The declaration that a callee names lasts if the symbol of what the callee declares does. -/
theorem namedDeclaration_learns {callee : Node} (hn : callee.From files)
    (hdeclared : callee.isOneOf nameKinds = true →
      Learns files again oracle base (declaredSymbol callee) Found) :
    Learns files again oracle base (namedDeclaration callee)
      fun found st => ∀ d, found = some d → d.index < st.declarations.size :=
  .bind (symbolAt_learns horacle hn hdeclared) fun _ _ _ hsymbol => pickDeclaration_learns hsymbol

/-- What a signature leads to is within the files. -/
theorem targetOf_learns {signature : Option Signature}
    (hs : FoundWithin files signature base.store) {callee : Option Node}
    (hn : ∀ n, callee = some n → n.From files) :
    Learns files False oracle base (targetOf signature callee) (TargetWithin files) := by
  have hkeeps : ∀ now : Knowledge, base.Later now → FoundWithin files signature now.store :=
    fun now hnow s he => (hs s he).mono hnow.noSmaller
  -- The declaration of the signature comes first, then what the callee names.
  cases hdeclared : signature.bind (·.declaration) with
  | some d =>
    obtain ⟨s, hsome, hd⟩ := Option.bind_eq_some_iff.mp hdeclared
    unfold targetOf
    rw [hdeclared]
    exact .pure fun now hnow => ⟨fun e he => Option.some.inj he ▸
      (hkeeps now hnow s hsome).declaration d hd, hkeeps now hnow⟩
  | none =>
    cases callee with
    | none =>
      unfold targetOf
      rw [hdeclared]
      exact .pure fun now hnow => ⟨nofun, hkeeps now hnow⟩
    | some callee =>
      rw [targetOf_some hdeclared]
      exact .map (.weaken (namedDeclaration_learns horacle (hn callee rfl) fun _ =>
        declaredSymbol_learns callee) fun _ now hnow hd => ⟨hd, hkeeps now hnow⟩)

/-- A site binds to the same declaration again if its signatures have the same outline. -/
theorem targetOf_repeats {signature : Inquiry (Option Signature)}
    (hsignature : Repeats files oracle base signature (FoundWithin files) SameOutline)
    {callee : Option Node} (hn : ∀ n, callee = some n → n.From files)
    (hlasts : CalleeLasts files oracle base callee) :
    Repeats files oracle base (signature >>= fun s => targetOf s callee) (TargetWithin files)
      fun first later => later.declaration = first.declaration := by
  refine .bind hsignature (fun s now _ hs => targetOf_learns horacle hs hn)
    fun first later now hnow hempty _ hsame => ?_
  -- The signatures have the same declaration, or the callee is looked up by name both times.
  have hdeclared := SameOutline.declaration_eq hsame
  cases hfirst : first.bind (·.declaration) with
  | some d =>
    unfold targetOf
    rw [hdeclared, hfirst]
    exact .pure rfl
  | none =>
    rw [hfirst] at hdeclared
    cases callee with
    | none =>
      unfold targetOf
      rw [hdeclared, hfirst]
      exact .pure rfl
    | some callee =>
      rw [targetOf_some hfirst, targetOf_some hdeclared]
      exact .map (fun k hk hsound next hnext hnsound => (FindsAlike.of_lasts
        (namedDeclaration_learns horacle (hn callee rfl) fun hname =>
          hlasts callee rfl hname now hnow) hempty k hk hsound next hnext hnsound).symm)

/-- A call binds to the same declaration whenever it is looked at. -/
theorem callTarget_repeats {call : Node} (hn : call.From files)
    (hlasts : CalleeLasts files oracle base (call.child? .callee)) :
    Repeats files oracle base (callTarget call) (TargetWithin files)
      fun first later => later.declaration = first.declaration :=
  targetOf_repeats horacle (resolvedSignature_repeats horacle hn) (fun _ => hn.child?) hlasts

/-- So does a construction. -/
theorem constructTarget_repeats {construction : Node} (hn : construction.From files)
    (hlasts : CalleeLasts files oracle base (construction.child? .constructed)) :
    Repeats files oracle base (constructTarget construction) (TargetWithin files)
      fun first later => later.declaration = first.declaration :=
  targetOf_repeats horacle (resolvedConstructSignature_repeats horacle hn) (fun _ => hn.child?)
    hlasts

/-- What a construction leads to is within the files. -/
theorem constructTarget_learns {construction : Node} (hn : construction.From files) :
    Learns files False oracle base (constructTarget construction) (TargetWithin files) :=
  .bind (resolvedConstructSignature_repeats horacle hn).1
    fun _ _ _ hs => targetOf_learns horacle hs fun _ => hn.child?

/-! ## Places of targets -/

omit horacle in
/-- A declaration stays where it is. -/
theorem location_became {old new : Declaration} (h : old.Became new) :
    new.location = old.location := by
  unfold Declaration.location
  rw [h.kind_eq, h.node_eq]

/-- What a site leads to is within the files. -/
theorem siteTarget_learns {n : Node} (hn : n.From files) :
    Learns files False oracle base (Graph.siteTarget n) (TargetWithin files) := by
  unfold Graph.siteTarget
  split
  · exact .bind (resolvedSignature_repeats horacle hn).1
      fun _ _ _ hs => targetOf_learns horacle hs fun _ => hn.child?
  · exact constructTarget_learns horacle hn

omit horacle in
/-- The place of a declaration is in one of the files. -/
theorem placeOf_learns {found : Option DeclarationId}
    (hfound : ∀ d, found = some d → d.index < base.store.declarations.size) :
    Learns files again oracle base (placeOf found)
      fun place _ => ∀ l, place = some l → LocatedIn files l := by
  cases found with
  | none => exact .pure fun _ _ => nofun
  | some id =>
    have hid := hfound id rfl
    refine .store (fun _ old new hold _ hnew => ?_) fun now hnow hsound => ?_
    · have hid := hold.declaration_lt hid
      simp only [location_became (hnew.workspace.store.declaration_became id hid)]
    · have hid := hnow.declaration_lt hid
      exact .pure fun _ _ l hl => ⟨_, hsound.declares.source id hid, (Option.some.inj hl).symm⟩

/-- The place that a call leads to is in one of the files. -/
theorem targetPlace_learns {n : Node} (hn : n.From files) :
    Learns files False oracle base (targetPlace n)
      fun place _ => ∀ l, place = some l → LocatedIn files l :=
  .bind (siteTarget_learns horacle hn) fun _ _ _ ht => placeOf_learns ht.1

/-- The target of a call is at the same place whenever it is looked at. -/
theorem targetPlace_repeats {call : Node} (hn : call.From files)
    (hcall : call.is .callExpression = true)
    (hlasts : CalleeLasts files oracle base (call.child? .callee)) :
    Repeats files oracle base (targetPlace call)
      (fun place _ => ∀ l, place = some l → LocatedIn files l) (· = ·) := by
  have htarget := callTarget_repeats horacle hn hlasts
  have hsite : Graph.siteTarget call = callTarget call := if_pos hcall
  unfold targetPlace
  rw [hsite]
  refine .bind htarget (fun _ _ _ ht => placeOf_learns ht.1)
    fun first later now _ hempty ht hsame => ?_
  rw [hsame]
  exact .of_lasts (placeOf_learns ht.1) hempty

end Oracles

/-! ## Records -/

/-- The name under which a site is counted. -/
def recordedName (n : Node) : Inquiry String := do
  if n.is .callExpression then siteName n .callee calleeName
  else return "new " ++ (← siteName n .constructed constructedName)

/-- What is recorded of the place of a target. -/
def originAt (markers : List Json) (place : Location) : Option Origin :=
  (Location.isExternal markers place.fileName).map fun b => ⟨place, b⟩

/-- Inference names every site. -/
theorem nameOf_inferred (markers : List Json) (n : Node) :
    (inferred markers).nameOf n = recordedName n := by
  unfold Reading.nameOf recordedName siteName siteRole siteWord Reading.naming
  cases n.is .callExpression with
  | true => cases hcallee : n.child? .callee <;> simp [inferred, hcallee]
  | false => cases hnamed : n.child? .constructed <;> simp [inferred, hnamed]

/-- What is recorded of the declaration that inference finds for a target is what is recorded of its
place. -/
theorem origin_declared (markers : List Json) (target : Target) :
    (fun d : Option Declaration => d.bind (inferred markers).originOf) <$> declared target =
      (fun place : Option Location => place.bind (originAt markers)) <$>
        placeOf target.declaration := by
  unfold declared placeOf
  cases target.declaration with
  | none => rfl
  | some id =>
    simp only [map_eq_pure_bind, bind_assoc, pure_bind, Option.bind_some]
    refine congrArg _ (funext fun d => ?_)
    simp only [Reading.originOf, inferred, originAt, Option.map_eq_bind]
    rfl

/-- Inference locates every target that has a declaration. -/
theorem origin_inferred (markers : List Json) (n : Node) :
    (fun found : Option (Option Declaration) => found.join.bind (inferred markers).originOf) <$>
        (inferred markers).target n =
      (fun place : Option Location => place.bind (originAt markers)) <$> targetPlace n := by
  -- Both ways go through the same target, whose place is that of its declaration.
  have hfound : ∀ target : Inquiry Target,
      (fun found : Option (Option Declaration) => found.join.bind (inferred markers).originOf) <$>
          (do return some (← declared (← target))) =
        (fun place : Option Location => place.bind (originAt markers)) <$>
          (do placeOf (← target).declaration) := fun target => by
    rw [map_bind, map_bind]
    refine bind_congr fun t => ?_
    rw [← origin_declared, bind_pure_comp, Functor.map_map]
    rfl
  unfold Reading.target targetPlace Graph.siteTarget
  split
  · exact hfound (callTarget n)
  · exact hfound (constructTarget n)

/-- The record of a site follows from its name and the place of its target. -/
theorem siteRecord_eq (markers : List Json) (n : Node) :
    siteRecord markers n = do
      let callee ← recordedName n
      let place ← targetPlace n
      return { callee, count := 1, origin := place.bind (originAt markers) } := by
  unfold siteRecord Reading.record
  rw [nameOf_inferred]
  refine bind_congr fun callee => ?_
  -- The origin is worked out in one step more on one side.
  have hrecord := congrArg (fun origin : Inquiry (Option Origin) =>
    (fun o => ({ callee, count := 1, origin := o } : CallRecord)) <$> origin)
      (origin_inferred markers n)
  simp only [Functor.map_map] at hrecord
  rw [bind_pure_comp, bind_pure_comp]
  exact hrecord

mutual

/-- What is unwrapped is in the same file. -/
theorem source_of_unwrapFrom {source : Source} {trail : List Crumb} (t : Tree) :
    (unwrapFrom source trail t).source = source := by
  match t with
  | .node l r start stop cs =>
    rw [unwrapFrom]
    split
    · exact source_of_unwrapAmong cs
    · rfl

/-- So it is among the children of a node. -/
theorem source_of_unwrapAmong {whole : Node} {trail : List Crumb} {index : Nat} (ts : List Tree) :
    (unwrapAmong whole trail index ts).source = whole.source := by
  match ts with
  | [] => rfl
  | t :: ts =>
    rw [unwrapAmong]
    split
    · exact source_of_unwrapFrom t
    · exact source_of_unwrapAmong ts

end

section Names

variable (horacle : oracle.Learns files)
include horacle

/-- The name of a called member lasts. -/
theorem memberCalleeName_learns {n : Node} (hn : n.From files) :
    Learns files again oracle base (memberCalleeName n) fun _ _ => True := by
  unfold memberCalleeName
  dsimp only
  split
  · exact .pure fun _ _ => trivial
  · exact .bind (typeOf_learns horacle (hn.child? ‹_›)) fun _ _ _ _ => .pure fun _ _ => trivial

/-- The name of a callee lasts. -/
theorem calleeName_learns {n : Node} (hn : n.From files) :
    Learns files again oracle base (calleeName n) fun _ _ => True := by
  have hinner : (unwrapped n).From files := by
    rw [Node.From, unwrapped, source_of_unwrapFrom]
    exact hn
  unfold calleeName
  dsimp only
  split
  · exact memberCalleeName_learns horacle hinner
  · exact .pure fun _ _ => trivial
  · exact .pure fun _ _ => trivial

/-- The name of what is constructed lasts. -/
theorem constructedName_learns {n : Node} (hn : n.From files) :
    Learns files again oracle base (constructedName n) fun _ _ => True := by
  unfold constructedName
  split
  · exact .bind (typeOf_learns horacle hn) fun _ _ _ _ => .pure fun _ _ => trivial
  · exact .pure fun _ _ => trivial

omit horacle in
/-- The name of a site lasts. -/
theorem siteName_learns {n : Node} (hn : n.From files) (role : Field) {name : Node → Inquiry String}
    (hname : ∀ m : Node, m.From files → Learns files again oracle base (name m) fun _ _ => True) :
    Learns files again oracle base (siteName n role name) fun _ _ => True := by
  unfold siteName
  split
  · exact hname _ (hn.child? ‹_›)
  · exact .pure fun _ _ => trivial

/-- The name that is recorded for a site lasts. -/
theorem recordedName_learns {n : Node} (hn : n.From files) :
    Learns files again oracle base (recordedName n) fun _ _ => True := by
  unfold recordedName
  split
  · exact siteName_learns hn _ fun _ => calleeName_learns horacle
  · exact .map (.weaken (siteName_learns hn _ fun _ => constructedName_learns horacle)
      fun _ _ _ _ => trivial)

/-- Recording a site keeps what is known. -/
theorem siteRecord_learns (markers : List Json) {n : Node} (hn : n.From files) :
    Learns files False oracle base (siteRecord markers n)
      fun r _ => ∀ o, r.origin = some o → LocatedIn files o.location := by
  rw [siteRecord_eq]
  refine .bind (recordedName_learns horacle hn) fun callee now _ _ =>
    .bind (targetPlace_learns horacle hn) fun place next _ hplace => .pure fun _ _ o ho => ?_
  obtain ⟨l, hl, ho⟩ := Option.bind_eq_some_iff.mp ho
  obtain ⟨external, -, rfl⟩ := Option.map_eq_some_iff.mp ho
  exact hplace l hl

/-- The record of a call tells where the target is found later on. -/
theorem origin_siteRecord (markers : List Json) {call : Node} (hn : call.From files)
    (hcall : call.is .callExpression = true)
    (hlasts : CalleeLasts files oracle base (call.child? .callee))
    (hempty : base.inProgress = []) {k next : Knowledge} (hk : base.Later k)
    (hsound : k.Sound files)
    (hnext : (((siteRecord markers call).perform oracle).run k).2.Later next)
    (hnsound : next.Sound files) :
    (((siteRecord markers call).perform oracle).run k).1.origin =
      (((targetPlace call).perform oracle).run next).1.bind (originAt markers) := by
  rw [siteRecord_eq, Inquiry.run_bind, Inquiry.run_bind] at hnext ⊢
  have hname : Learns files False oracle base (recordedName call) fun _ _ => True :=
    recordedName_learns horacle hn
  obtain ⟨hlater, hsound', -⟩ := hname k hk hsound
  -- The name comes first; the target is looked at after it.
  have hplace := (targetPlace_repeats horacle hn hcall hlasts).2 hempty
    _ (hk.trans hlater) hsound' next hnext hnsound
  rw [← hplace]
  rfl

end Names

end Sites

end ScriptGraph
