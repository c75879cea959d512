import ScriptGraph.Proofs.Inference.Constructors
import ScriptGraph.Proofs.Sites.MemberCalls

/-!
# Constructions and classes

A construction of a class has an edge to the node of the class whose constructor makes the instance:
of the constructed class itself if it has constructors, or if none of the classes that it extends
has any; otherwise of the nearest one that has.

- `Analysis.Constructs`: a site of the graph constructs a class
- `Analysis.classNode`: the node of a class
- `Analysis.constructions_drawn`: the edges of constructions
-/

namespace ScriptGraph

open Binding Syntax Inference Sites

/-- The class of which a type is the static side. -/
def Ty.classSide? : Ty → Option SymbolId
  | .static e => some e.id
  | _ => none

/-- A type with the side of a class is the static side of this class. -/
theorem Ty.eq_of_classSide? {t : Ty} {c : SymbolId} (h : t.classSide? = some c) :
    ∃ e : Entity, t = .static e ∧ e.id = c := by
  cases t with
  | static e => exact ⟨e, rfl, Option.some.inj h⟩
  | _ => exact nomatch h

namespace Sites

variable {files : Source → Prop} {oracle : Oracle} {base last : Knowledge}

/-- What a construction refers to: the constructor that is taken, or what is constructed if no class
on the way up has a constructor. -/
theorem constructTarget_takes (horacle : oracle.Learns files) {construction callee : Node}
    (hn : construction.From files) (hcallee : construction.child? .constructed = some callee)
    (hlasts : CalleeLasts files oracle base (construction.child? .constructed)) {e : Entity}
    (htype : (((typeOf callee).perform oracle).run last).1 = .static e)
    (hclass : last.store.hasKind (· == .class) e.id = true) (hempty : base.inProgress = []) :
    FindsBefore files oracle base last (constructTarget construction) fun target =>
      match last.constructorOwner? oracle e.id with
      | none => last.Knows oracle (namedDeclaration callee) target.declaration
      | some b => ∃ id, target.declaration = some id ∧ id.index < last.store.declarations.size ∧
          (TakesConstructor last.store b → IsConstructor last.store b id) := by
  refine .bind (φ := TargetWithin files) (resolvedConstructSignature_repeats horacle hn).1
    (resolvedConstructSignature_takes horacle hn hcallee htype hclass hempty)
    (fun _ _ _ hs => targetOf_learns horacle hs fun _ => hn.child?)
    fun found now hnow _ _ htakes => ?_
  rw [hcallee]
  cases howner : last.constructorOwner? oracle e.id with
  | none =>
    rw [howner] at htakes
    obtain rfl : found = none := Option.toList_eq_nil_iff.mp htakes
    -- There is no signature, so the callee is looked up by name.
    rw [targetOf_some rfl]
    exact .map (.of_lasts (namedDeclaration_learns horacle (hn.child? hcallee) fun hname =>
      hlasts callee hcallee hname now hnow) (hnow.inProgress_eq.trans hempty))
  | some b =>
    rw [howner] at htakes
    -- The signature that is taken declares the target.
    obtain ⟨d, hd, htaken⟩ := htakes.exists_declaration
    unfold targetOf
    rw [hd]
    exact .pure ⟨d, rfl, htaken⟩

end Sites

namespace Graph

variable {files : Source → Prop} {oracle : Oracle} {last k : Knowledge} {n : Node}

/-! ## What stands for a constructor -/

/-- The site of a construction refers to what the construction refers to. -/
theorem siteTarget_construction (h : n.is .newExpression = true) :
    siteTarget n = constructTarget n := by
  rw [siteTarget, Node.is_eq_false h (by decide), if_neg Bool.false_ne_true]

/-- The first class declaration of a symbol is one of a class. -/
theorem kind_of_firstOf {st : Store} {b : SymbolId} {d : DeclarationId}
    (h : st.firstOf (· == .class) b = some d) : (st.declaration d).kind = .class := by
  have hkind := List.find?_some h
  exact beq_iff_eq.mp hkind

/-- The edge of a construction says that it constructs. -/
theorem siteKind_construction (h : n.is .newExpression = true) : siteKind n = .constructs := by
  rw [siteKind, Node.is_eq_false h (by decide), if_neg Bool.false_ne_true]

/-- The class stands for its constructor, and for itself, from some knowledge on. -/
theorem run_standIn (hconstruction : n.is .newExpression = true) (hsound : last.Sound files)
    (hlater : last.Later k) {b : SymbolId} {d id : DeclarationId}
    (hd : last.store.firstOf (· == .class) b = some d)
    (hid : IsConstructor last.store b id ∧ id.index < last.store.declarations.size ∨ id = d) :
    ((standIn n id).perform oracle).run k = (d, k) := by
  have hcall : n.is .callExpression = false := Node.is_eq_false hconstruction (by decide)
  have hfound : ((declarationOf id).perform oracle).run k = (k.store.declaration id, k) := rfl
  rw [standIn, hcall, if_neg Bool.false_ne_true, constructedDeclaration, Inquiry.run_bind, hfound]
  -- A constructor leads to its class by its symbol; the class stands for itself.
  rcases hid with ⟨hid, hlt⟩ | rfl
  · have hsame : k.store.declaration id = last.store.declaration id :=
      (hlater.workspace.store.declaration_became id hlt).eq_of_isSome
        (Option.isSome_iff_exists.mpr ⟨b, hid.symbol_eq⟩)
    have hb := hsound.workspace.store.declaration id b hid.symbol_eq
    have hfirst : k.store.firstOf (· == .class) b = some d :=
      (hlater.workspace.store.firstOf_eq hsound.workspace.store hb _).trans hd
    simp only [hsame, hid.kind_eq, hid.symbol_eq]
    exact congrArg (fun found : Option DeclarationId => (found.getD id, k)) hfirst
  · have hlt := firstOf_lt hsound.workspace.store hd
    have hkind : (k.store.declaration id).kind = .class :=
      (hlater.workspace.store.declaration_became id hlt).kind_eq.trans (kind_of_firstOf hd)
    simp only [hkind]
    rfl

/-- A site refers to the node at which what stands for its target is declared. -/
theorem exists_referentOf (settings : Settings) (vertexAt : Location → Option String)
    {id d : DeclarationId}
    (htarget : (((siteTarget n).perform oracle).run k).1.declaration = some id)
    (hstand : ((standIn n id).perform oracle).run (((siteTarget n).perform oracle).run k).2 =
      (d, (((siteTarget n).perform oracle).run k).2)) {v : String}
    (hv : vertexAt ((((siteTarget n).perform oracle).run k).2.store.declaration d).location =
      some v) :
    ∃ r, (((referentOf settings vertexAt n).perform oracle).run k).1 = some r ∧ r.vertex = v := by
  unfold referentOf
  rw [Inquiry.run_bind]
  -- The target is named, as the rest of the inquiry starts where it ended.
  generalize ((siteTarget n).perform oracle).run k = found at htarget hstand hv
  simp only [htarget]
  rw [Inquiry.run_bind, hstand, Inquiry.run_bind]
  have hd : ((declarationOf d).perform oracle).run found.2 =
      (found.2.store.declaration d, found.2) := rfl
  rw [hd]
  simp only [hv]
  rw [Inquiry.run_bind]
  exact ⟨_, rfl, rfl⟩

end Graph

/-! ## The constructions of an analysis -/

namespace Analysis

open ScriptGraph.Graph

section Constructions

variable (settings : Settings) (disk : Disk) (library s : Source)

/-- The graph of an analysis. -/
abbrev graphOf : Graph :=
  (ofSource settings disk (.ofSource library) s).graph

/-- A site of the graph constructs a class by a name for it: in the end the name has the class's
static side for its type and is known to stand for the class's declaration. -/
structure Constructs (site : Site) (callee : Node) (c : SymbolId) : Prop where
  mem : site ∈ ownedSites s (Binding.bind s (Library.ofSource library).store)
    (graphOf settings disk library s)
  isNew : site.node.is .newExpression = true
  constructed : site.node.child? .constructed = some callee
  isUse : (Binding.bind s (Library.ofSource library).store).1.declarationNamed? callee = none
  type_eq : (atEnd settings disk library s (typeOf callee)).classSide? = some c
  declared : ∃ d ∈ (knownAtEnd settings disk (.ofSource library) s).store.firstOf
    (· == .class) c, atEnd settings disk library s (namedDeclaration callee) = some d

/-- A class and those that it extends, as many as are searched for a constructor. -/
def searched (c : SymbolId) : List SymbolId :=
  lineage ((knownAtEnd settings disk (.ofSource library) s).baseOf
    (answers settings disk (.ofSource library) s)) constructorSteps c

/-- The class whose constructor makes the instances of a class: the first one with a constructor, or
the class itself if none of them has one. -/
def constructorOwner (c : SymbolId) : SymbolId :=
  ((searched settings disk library s c).find? (hasConstructor
    (knownAtEnd settings disk (.ofSource library) s).store)).getD c

/-- The node of a class, at which its declaration starts. -/
def classNode (c : SymbolId) : Option String :=
  let st := (knownAtEnd settings disk (.ofSource library) s).store
  (st.firstOf (· == .class) c).bind fun d =>
    nodeAt s (graphOf settings disk library s) (st.declaration d).location

variable {settings disk library s} {site : Site} {callee : Node} {c : SymbolId}

namespace Constructs

/-- While the sites are recorded the target of the construction is looked at. -/
theorem visited (h : Constructs settings disk library s site callee c) :
    ∃ m : Knowledge, (knownAtStart settings disk (.ofSource library) s).Later m ∧
      m.Sound anyFile ∧
        (((constructTarget site.node).perform (answers settings disk (.ofSource library) s)).run
          m).2.Later (knownAtEnd settings disk (.ofSource library) s) := by
  -- The graph asks about sites that have also been counted.
  have hcounted : site.node ∈ countedSites s := by
    have hmem := h.mem
    rw [ownedSites_eq] at hmem
    obtain ⟨n, hn, rfl⟩ := List.mem_map.mp hmem
    exact (List.mem_filter.mp hn).1
  obtain ⟨p, hp, hnode⟩ := exists_siteRecord settings disk (.ofSource library) s hcounted
  obtain ⟨hfrom, m, hm, hmsound, -, hlast⟩ := siteRecords_visits settings disk
    (.ofSource library) trivial (Knowledge.start_sound settings disk library s) hp
  rw [hnode] at hlast hfrom
  have horacle : (answers settings disk (.ofSource library) s).Learns anyFile := answer_learns _
  -- The name comes first, then the target, and what the target leads to is kept.
  have hname : Learns anyFile False (answers settings disk (.ofSource library) s) m
      (recordedName site.node) fun _ _ => True := recordedName_learns horacle hfrom
  obtain ⟨hlater, hsound, -⟩ := hname m (.refl m) hmsound
  have htarget : Learns anyFile False (answers settings disk (.ofSource library) s)
      (((recordedName site.node).perform (answers settings disk (.ofSource library) s)).run m).2
        (constructTarget site.node) (TargetWithin anyFile) := constructTarget_learns horacle hfrom
  obtain ⟨-, htsound, hwithin, -⟩ := htarget _ (.refl _) hsound
  have hplace : Learns anyFile False (answers settings disk (.ofSource library) s) _
      (placeOf _) _ := placeOf_learns hwithin.1
  rw [siteRecord_eq, Inquiry.run_bind, targetPlace, siteTarget_construction h.isNew,
    Inquiry.run_bind, Inquiry.run_bind] at hlast
  exact ⟨_, hm.trans hlater, hsound, ((hplace _ (.refl _) htsound).1).trans hlast⟩

/-- The class that is constructed has a declaration. -/
theorem hasKind (h : Constructs settings disk library s site callee c) :
    (knownAtEnd settings disk (.ofSource library) s).store.hasKind (· == .class) c = true := by
  obtain ⟨d, hd, -⟩ := h.declared
  exact Option.isSome_iff_exists.mpr ⟨d, hd⟩

/-- Whenever a construction is looked at after all sites have been recorded, it refers to the
constructor that is taken, or to the class if there is none. -/
theorem target_eq (h : Constructs settings disk library s site callee c)
    (hbundled : s.isBundled = false) {k : Knowledge}
    (hk : (knownAtEnd settings disk (.ofSource library) s).Later k) (hsound : k.Sound anyFile) :
    let oracle := answers settings disk (.ofSource library) s
    let st := (knownAtEnd settings disk (.ofSource library) s).store
    let b := constructorOwner settings disk library s c
    ∃ id, (((constructTarget site.node).perform oracle).run k).1.declaration = some id ∧
      (TakesConstructor st b → IsConstructor st b id ∧ id.index < st.declarations.size ∨
        st.firstOf (· == .class) b = some id) := by
  intro oracle st b
  have horacle : oracle.Learns anyFile := answer_learns _
  have hfrom := from_anyFile site.node
  have hsource : callee.source = s :=
    (Node.source_of_child? h.constructed).trans
      (source_of_mem_preorder (mem_preorder_of_mem_ownedSites h.mem))
  have hfind := Workspace.bindings_ofSource settings disk (.ofSource library) s
  -- The constructed name is a use, so what it stands for does not depend on what has been asked.
  have hlasts : CalleeLasts anyFile oracle (knownAtStart settings disk (.ofSource library) s)
      (site.node.child? .constructed) := fun n hn _ now hnow => by
    obtain rfl := Option.some.inj (h.constructed.symm.trans hn)
    refine declaredSymbol_of_unnamed (hsource ▸ hbundled) ?_ h.isUse
    rw [hsource]
    exact hnow.workspace.bindings _ _ hfind
  obtain ⟨m, hm, hmsound, hlast⟩ := h.visited
  obtain ⟨e, htype, rfl⟩ := Ty.eq_of_classSide? h.type_eq
  have htakes := constructTarget_takes horacle hfrom h.constructed hlasts htype h.hasKind rfl m hm
    hmsound hlast
  -- The target is the same now as it was when the site was recorded.
  have hsame := (constructTarget_repeats horacle hfrom hlasts).2 rfl m hm hmsound k
    (hlast.trans hk) hsound
  rw [hsame]
  -- Either no class on the way up has a constructor, or the first one that has is the owner.
  cases howner : (knownAtEnd settings disk (.ofSource library) s).constructorOwner? oracle e.id with
  | none =>
    rw [howner] at htakes
    have hb : b = e.id := congrArg (Option.getD · e.id) howner
    obtain ⟨d, hd, hnamed⟩ := h.declared
    exact ⟨d, htakes.eq.symm.trans hnamed, fun _ => .inr (by rwa [hb])⟩
  | some owner =>
    rw [howner] at htakes
    have hb : b = owner := congrArg (Option.getD · e.id) howner
    obtain ⟨id, hid, hlt, hconstructor⟩ := htakes
    rw [hb]
    exact ⟨id, hid, fun htaken => .inl ⟨hconstructor htaken, hlt⟩⟩

/-- Whenever a construction is looked at after all sites have been recorded, it refers to the node
of the class whose constructor makes the instance. -/
theorem exists_referent (h : Constructs settings disk library s site callee c)
    (hbundled : s.isBundled = false)
    (htaken : TakesConstructor (knownAtEnd settings disk (.ofSource library) s).store
      (constructorOwner settings disk library s c)) {k : Knowledge}
    (hk : (knownAtEnd settings disk (.ofSource library) s).Later k) (hsound : k.Sound anyFile)
    {v : String}
    (hv : classNode settings disk library s (constructorOwner settings disk library s c) = some v) :
    let oracle := answers settings disk (.ofSource library) s
    let g := graphOf settings disk library s
    ∃ r, (((referentOf settings (nodeAt s g) site.node).perform oracle).run k).1 = some r ∧
      r.vertex = v := by
  intro oracle g
  obtain ⟨-, hend⟩ := knownAtEnd_sound settings disk library s
  obtain ⟨id, hid, hstands⟩ := h.target_eq hbundled hk hsound
  rw [← siteTarget_construction h.isNew] at hid
  have htarget : Learns anyFile False oracle k (siteTarget site.node) (TargetWithin anyFile) :=
    siteTarget_learns (answer_learns _) (from_anyFile _)
  obtain ⟨hlater, -⟩ := htarget k (.refl k) hsound
  have hknown := hk.trans hlater
  -- The class stands for the target then, and its declaration is where it has always been.
  obtain ⟨d, hd, hnode⟩ := Option.bind_eq_some_iff.mp hv
  have hstand : ((standIn site.node id).perform oracle).run _ = (d, _) :=
    run_standIn h.isNew hend hknown hd
      ((hstands htaken).imp_right fun hsame => Option.some.inj (hsame.symm.trans hd))
  have hplace := location_became (hknown.workspace.store.declaration_became d
    (firstOf_lt hend.workspace.store hd))
  exact exists_referentOf settings (nodeAt s g) hid hstand (hplace ▸ hnode)

end Constructs

/-- What is known when the sites of the graph come up goes on from what is known when all sites
have been recorded. -/
theorem knownAtSites_later (settings : Settings) (disk : Disk) (library s : Source) :
    (knownAtEnd settings disk (.ofSource library) s).Later
        (knownAtSites settings disk (.ofSource library) s) ∧
      (knownAtSites settings disk (.ofSource library) s).Sound anyFile := by
  obtain ⟨hlater, hsound⟩ := knownAtEnd_sound settings disk library s
  have hbase := Workspace.ofSource_coherent settings disk (Library.ofSource_bound library) s
  have hb := hbase.bindings _ (Table.mem_entries_of_find?
    (Workspace.bindings_ofSource settings disk (.ofSource library) s))
  -- Drawing the vertices only learns.
  have hvertices : Learns anyFile False (answers settings disk (.ofSource library) s)
      (knownAtEnd settings disk (.ofSource library) s)
      (vertices s (Binding.bind s (Library.ofSource library).store).1) _ :=
    vertices_learns (answer_learns _) (hlater.binding hb)
  obtain ⟨hvlater, hvsound, -⟩ := hvertices _ (.refl _) hsound
  rw [knownAtSites_eq]
  exact ⟨hvlater, hvsound⟩

/-- A class with a constructor, and one that inherits none, makes its own instances. -/
theorem constructorOwner_eq_self
    (h : hasConstructor (knownAtEnd settings disk (.ofSource library) s).store c = true ∨
      ∀ a ∈ searched settings disk library s c,
        hasConstructor (knownAtEnd settings disk (.ofSource library) s).store a = false) :
    constructorOwner settings disk library s c = c := by
  unfold constructorOwner
  rcases h with hown | hnone
  · rw [searched, constructorSteps, lineage, List.find?_cons_of_pos hown]
    rfl
  · rw [List.find?_eq_none.mpr fun a ha => by rw [hnone a ha]; exact Bool.false_ne_true]
    rfl

end Constructions

section Instances

variable (st : Store) (c : SymbolId)

instance (d : DeclarationId) : Decidable (IsConstructor st c d) :=
  decidable_of_iff ((st.declaration d).kind = .constructor ∧ (st.declaration d).symbol = some c)
    ⟨fun h => ⟨h.1, h.2⟩, fun h => ⟨h.kind_eq, h.symbol_eq⟩⟩

instance : Decidable (TakesConstructor st c) :=
  decidable_of_iff (∀ id ∈ takenConstructor? st c, ∀ i, i < st.declarations.size →
    (st.declaration ⟨i⟩).key = (st.declaration id).key → IsConstructor st c ⟨i⟩)
    ⟨fun h id hid d => h id hid d.index, fun h id hid i => h id hid ⟨i⟩⟩

end Instances

/-- Constructions are found by going through the sites. -/
theorem exists_constructs {s : Source} {P : Site → SymbolId → Prop}
    (h : ∃ site ∈ ownedSites s (Binding.bind s (Library.ofSource default).store)
        (graphOf {} {} default s), site.node.is .newExpression = true ∧
      ∃ callee ∈ site.node.child? .constructed,
        (Binding.bind s (Library.ofSource default).store).1.declarationNamed? callee = none ∧
        ∃ c ∈ (atEnd {} {} default s (typeOf callee)).classSide?,
          (∃ d ∈ (knownAtEnd {} {} (.ofSource default) s).store.firstOf (· == .class) c,
            atEnd {} {} default s (namedDeclaration callee) = some d) ∧ P site c) :
    ∃ site callee c, Constructs {} {} default s site callee c ∧ P site c := by
  obtain ⟨site, hmem, hnew, callee, hconstructed, huse, c, htype, hdeclared, hP⟩ := h
  exact ⟨site, callee, c, ⟨hmem, hnew, hconstructed, huse, htype, hdeclared⟩, hP⟩

/-- A class that inherits the constructor of another one. -/
def inheritedText : String :=
  "class B\x7bconstructor(x)\x7b\x7d\x7dclass C extends B\x7b\x7dnew C(1)"

/-- A file with a construction of that class. -/
def inheritedSource : Source :=
  { fileName := "/a.ts", text := inheritedText, dialect := .ts
    tree := readProgram .ts inheritedText }

/-- A class that is merged with an interface, and a construction that takes the interface's
member. -/
def mergedSource : Source :=
  let text := "class C\x7b\x7dinterface C\x7bnew(x)\x7dnew C(1)"
  { fileName := "/a.ts", text, dialect := .ts, tree := readProgram .ts text }

/-- A file constructs a class that has a node, and there is no edge to it. -/
def SkipsClass (s : Source) : Prop :=
  ∃ site callee c, Constructs {} {} default s site callee c ∧
    ∃ v, classNode {} {} default s c = some v ∧
      ¬ ∃ e ∈ (graphOf {} {} default s).edges,
        e.kind = .constructs ∧ e.source = site.owner ∧ e.target = v

end Analysis

end ScriptGraph
