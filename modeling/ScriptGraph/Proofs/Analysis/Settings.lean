import ScriptGraph.Proofs.Graph.Agreement
import ScriptGraph.Proofs.Inference.Surroundings

/-!
# What settings govern

Two analyses of a file that differ in a setting take the same steps, and make different things of
what they find only where the setting says so: the limits on labels show in the labels of dataflow
edges, the number of calls in how many of them are kept, and the markers in which of them count as
external. An analysis that resolves no imports finds the same next to any disk.

- `Graph.ofSource_parallel`: the limits on labels
- `Sites.rankedCalls_parallel_markers`: the markers
- `Analysis.settings_govern`: all settings, and the disk
- `Analysis.not_sameButFlags`: markers that are no texts
-/

namespace ScriptGraph

open Binding Syntax Inference

/-! ## Limits on labels -/

namespace Graph

/-- An edge as analyses produce them. -/
def Edge.Produced (e : Edge) : Prop :=
  ∃ kind ∈ EdgeKind.produced, ∃ source target label hint, e = .between kind source target label hint

/-- Whether an edge tells what is called or constructed. -/
def Edge.isReference (e : Edge) : Bool :=
  e.kind == .calls || e.kind == .constructs

/-- An edge of a kind that is produced between two vertices. -/
theorem Edge.Produced.between {kind : EdgeKind} (h : kind ∈ EdgeKind.produced)
    (source target : String)
    (label hint : Option String) : (Edge.between kind source target label hint).Produced :=
  ⟨kind, h, source, target, label, hint, rfl⟩

/-- Produced edges with one identifier are of one kind. -/
theorem Edge.Produced.kind_eq {d e : Edge} (hd : d.Produced) (he : e.Produced) (h : d.id = e.id) :
    d.kind = e.kind := by
  obtain ⟨kind, hkind, source, target, label, hint, rfl⟩ := hd
  obtain ⟨kind', hkind', source', target', label', hint', rfl⟩ := he
  exact kind_eq_of_edgeKey_eq hkind hkind' h

/-- Lists of edges with the same references, in the same order. -/
structure SameReferences (l m : List Edge) : Prop where
  left : ∀ e ∈ l, e.Produced
  right : ∀ e ∈ m, e.Produced
  references_eq : l.filter Edge.isReference = m.filter Edge.isReference

/-- Edges that show data do not stand in the way of references. -/
theorem filter_addEdge {edges : List Edge} (hedges : ∀ d ∈ edges, d.Produced) {e : Edge}
    (he : e.Produced) :
    (addEdge edges e).filter Edge.isReference =
      if e.isReference then addEdge (edges.filter Edge.isReference) e
      else edges.filter Edge.isReference := by
  by_cases hreference : e.isReference = true
  · -- An edge with the same identifier is a reference as well.
    have hany : ((edges.filter Edge.isReference).any fun d => d.id == e.id) =
        edges.any fun d => d.id == e.id := by
      rw [List.any_filter, Bool.eq_iff_iff, List.any_eq_true, List.any_eq_true]
      refine ⟨fun ⟨d, hd, h⟩ => ⟨d, hd, (Bool.and_eq_true_iff.mp h).2⟩,
        fun ⟨d, hd, h⟩ => ⟨d, hd, ?_⟩⟩
      have hkind := (hedges d hd).kind_eq he (beq_iff_eq.mp h)
      rwa [h, Bool.and_true, Edge.isReference, hkind]
    rw [if_pos hreference, addEdge, addEdge, hany]
    split
    · rfl
    · rw [List.filter_append, List.filter_cons_of_pos hreference]
      rfl
  · rw [if_neg hreference, addEdge]
    -- An edge that is left out leaves no trace, whether or not it is new.
    split
    · rfl
    · rw [List.filter_append, List.filter_cons_of_neg hreference]
      exact List.append_nil _

/-- Adding a produced edge leaves all edges produced. -/
theorem addEdge_produced {edges : List Edge} (hedges : ∀ d ∈ edges, d.Produced) {e : Edge}
    (he : e.Produced) : ∀ d ∈ addEdge edges e, d.Produced := by
  unfold addEdge
  split
  · exact hedges
  · exact fun d hd => (List.mem_append.mp hd).elim (hedges d) fun hd =>
      List.mem_singleton.mp hd ▸ he

/-- So does adding any number of them, and the identifiers are those of both lists. -/
theorem foldl_addEdge_produced {new : List Edge} (hnew : ∀ e ∈ new, e.Produced) {edges : List Edge}
    (hedges : ∀ d ∈ edges, d.Produced) :
    (∀ d ∈ new.foldl addEdge edges, d.Produced) ∧
    (new.foldl addEdge edges).filter Edge.isReference =
      (new.filter Edge.isReference).foldl addEdge (edges.filter Edge.isReference) := by
  induction new generalizing edges with
  | nil => exact ⟨hedges, rfl⟩
  | cons e rest ih =>
    have he := hnew e List.mem_cons_self
    obtain ⟨hproduced, hfilter⟩ :=
      ih (fun d hd => hnew d (List.mem_cons_of_mem _ hd)) (addEdge_produced hedges he)
    refine ⟨hproduced, hfilter.trans ?_⟩
    rw [filter_addEdge hedges he, List.filter_cons]
    split <;> rfl

/-- Adding edges with the same references keeps the references the same. -/
theorem SameReferences.foldl_addEdge {l m new new' : List Edge} (h : SameReferences l m)
    (hnew : SameReferences new new') :
    SameReferences (new.foldl addEdge l) (new'.foldl addEdge m) := by
  obtain ⟨hleft, hl⟩ := foldl_addEdge_produced hnew.left h.left
  obtain ⟨hright, hm⟩ := foldl_addEdge_produced hnew.right h.right
  exact ⟨hleft, hright, by rw [hl, hm, h.references_eq, hnew.references_eq]⟩

variable {settings other : Settings}

/-- With numbers as limits every argument has a label, and its type is asked for. -/
theorem dataflowLabel_parallel (h : LabelsTyped settings) (h' : LabelsTyped other) (p : Parameter)
    (argument : Node) : Inquiry.Parallel (fun a b => a.isSome ∧ b.isSome)
      (dataflowLabel settings p argument) (dataflowLabel other p argument) := by
  obtain ⟨name, hname⟩ := Option.isSome_iff_exists.mp (clampBy_isSome h.1 p.name)
  obtain ⟨text, htext⟩ := Option.isSome_iff_exists.mp (clampBy_isSome h.2 argument.text)
  obtain ⟨name', hname'⟩ := Option.isSome_iff_exists.mp (clampBy_isSome h'.1 p.name)
  obtain ⟨text', htext'⟩ := Option.isSome_iff_exists.mp (clampBy_isSome h'.2 argument.text)
  unfold dataflowLabel
  simp only [hname, htext, hname', htext']
  exact .bind_refl fun _ => .bind_refl fun _ => .bind_refl fun _ => .pure ⟨rfl, rfl⟩

/-- The edges for arguments are no references. -/
theorem dataflowEdges_parallel (h : LabelsTyped settings) (h' : LabelsTyped other)
    (owner target : String) (index : Nat) (l : List (Parameter × Node)) :
    Inquiry.Parallel SameReferences
      (dataflowEdges settings owner target index l) (dataflowEdges other owner target index l) := by
  -- The labels do not show in the kind of an edge, so both edges are produced.
  have hproduced : ∀ index label, (dataflowEdge owner target index label).Produced := fun _ _ =>
    .between (by decide) _ _ _ _
  induction l generalizing index with
  | nil => exact .pure ⟨nofun, nofun, rfl⟩
  | cons p rest ih =>
    refine (dataflowLabel_parallel h h' p.1 p.2).bind fun a b ⟨ha, hb⟩ => ?_
    obtain ⟨label, rfl⟩ := Option.isSome_iff_exists.mp ha
    obtain ⟨label', rfl⟩ := Option.isSome_iff_exists.mp hb
    refine (ih (index + 1)).bind fun edges edges' hrest => .pure ⟨?_, ?_, hrest.references_eq⟩
    · exact List.forall_mem_cons.mpr ⟨hproduced index label, hrest.left⟩
    · exact List.forall_mem_cons.mpr ⟨hproduced index label', hrest.right⟩

/-- The edges of a site have the same references under both settings. -/
theorem siteEdges_parallel (h : LabelsTyped settings) (h' : LabelsTyped other) (s : Source)
    (idAt : Table Nat String) (site : Site) : Inquiry.Parallel SameReferences
      (siteEdges settings s idAt site) (siteEdges other s idAt site) := by
  unfold siteEdges
  split
  · exact .pure ⟨nofun, nofun, rfl⟩
  refine .bind_refl fun target => ?_
  split
  · exact .pure ⟨nofun, nofun, rfl⟩
  refine .bind_refl fun stand => .bind_refl fun vertex => ?_
  split
  · exact .pure ⟨nofun, nofun, rfl⟩
  rename_i vertex
  -- The edge to the target comes first in both lists and is the same one.
  have hfirst : (Edge.between (siteKind site.node) site.owner vertex none none).Produced :=
    .between (siteKind_produced _) _ _ _ _
  have hcons : ∀ {l m : List Edge}, SameReferences l m →
    SameReferences (_ :: l) (_ :: m) := fun hlm =>
    ⟨List.forall_mem_cons.mpr ⟨hfirst, hlm.left⟩, List.forall_mem_cons.mpr ⟨hfirst, hlm.right⟩,
      by rw [List.filter_cons, List.filter_cons, hlm.references_eq]⟩
  dsimp only
  split
  · exact .pure (hcons ⟨nofun, nofun, rfl⟩)
  · exact (dataflowEdges_parallel h h' _ _ _ _).bind fun _ _ hrest => .pure (hcons hrest)

/-- Graphs with the same nodes and the same references. -/
def SameButData (g g' : Graph) : Prop :=
  g.nodes = g'.nodes ∧ SameReferences g.edges g'.edges

/-- The limits on labels show in edges that show data only. -/
theorem ofSource_parallel (h : LabelsTyped settings) (h' : LabelsTyped other) (s : Source) :
    Inquiry.Parallel SameButData (ofSource settings s) (ofSource other s) := by
  refine .bind_refl fun b => .bind_refl fun draft => .bind_refl fun st => ?_
  refine Inquiry.Parallel.bind (S := SameReferences)
    (.foldlM (fun l m hlm site _ => ?_) ⟨nofun, nofun, rfl⟩) fun _ _ hedges => .pure ⟨rfl, hedges⟩
  exact (siteEdges_parallel h h' s _ site).bind fun _ _ hnew => .pure (hlm.foldl_addEdge hnew)

/-- No other settings show in a graph. -/
theorem ofSource_congr (hname : settings.paramLabelMax = other.paramLabelMax)
    (htext : settings.argLabelMax = other.argLabelMax) (s : Source) :
    ofSource settings s = ofSource other s := by
  -- The two limits are read by the labels alone; everything above follows by congruence.
  have hlabel : dataflowLabel settings = dataflowLabel other := by
    funext p argument
    unfold dataflowLabel
    rw [hname, htext]
  have hedges : dataflowEdges settings = dataflowEdges other := by
    funext owner target index l
    induction l generalizing index with
    | nil => rfl
    | cons p rest ih =>
      unfold dataflowEdges
      rw [hlabel, ih]
  have hsite : siteEdges settings = siteEdges other := by
    unfold siteEdges
    rw [hedges]
  unfold ofSource addSite
  rw [hsite]

end Graph

/-! ## Markers -/

namespace Location

/-- Whether some markers tell of every path whether it contains one of them. -/
def Decides (markers : List Json) : Prop :=
  ∀ path, (isMarked path markers).isSome

/-- Texts do. -/
theorem Decides.of_texts {markers : List Json} (h : ∀ m ∈ markers, ∃ text, m = .string text) :
    Decides markers :=
  isMarked_isSome h

/-- Markers that are texts decide what is external. -/
theorem Decides.exists_isExternal {markers : List Json} (h : Decides markers) (fileName : String) :
    ∃ external, isExternal markers fileName = some external := by
  obtain ⟨marked, hmarked⟩ := Option.isSome_iff_exists.mp (h _)
  exact ⟨_, Option.map_eq_some_iff.mpr ⟨marked, hmarked, rfl⟩⟩

end Location

namespace CallRecord

/-- A record without the flag that its target is external. -/
def unflagged (r : CallRecord) : CallRecord :=
  { r with origin := r.origin.map fun o => { o with isExternal := false } }

/-- The flag is no part of the key. -/
theorem key_unflagged (r : CallRecord) : r.unflagged.key = r.key := by
  unfold unflagged key
  rw [Option.map_map]
  rfl

/-- Counting a site does not depend on flags. -/
theorem unflagged_tally (r : CallRecord) (records : List CallRecord) :
    (tally r records).map unflagged = tally r.unflagged (records.map unflagged) := by
  induction records with
  | nil => rfl
  | cons first rest ih =>
    rw [tally, List.map_cons, tally, key_unflagged, key_unflagged]
    split
    · rfl
    · rw [List.map_cons, ih]

/-- Ranking does not depend on flags. -/
theorem unflagged_ranked (records : List CallRecord) :
    (ranked records).map unflagged = ranked (records.map unflagged) :=
  List.map_mergeSort fun _ _ _ _ => rfl

end CallRecord

/-- Taking some items commutes with a map. -/
theorem map_takeSigned {α β : Type} (f : α → β) (n : Int) (l : List α) :
    (takeSigned n l).map f = takeSigned n (l.map f) := by
  unfold takeSigned
  split
  · exact List.map_take
  · rw [List.map_take, List.length_map]

namespace Sites

/-- Lists of records that differ at most in their flags. -/
def SameButFlags (records records' : List CallRecord) : Prop :=
  records.map CallRecord.unflagged = records'.map CallRecord.unflagged

section Markers

variable {markers markers' : List Json} (h : Location.Decides markers)
    (h' : Location.Decides markers')
include h h'

/-- Whatever the markers are, a place is recorded. -/
theorem originAt_locations (place : Location) :
    (originAt markers place).map Origin.location =
    (originAt markers' place).map Origin.location := by
  obtain ⟨external, hexternal⟩ := h.exists_isExternal place.fileName
  obtain ⟨external', hexternal'⟩ := h'.exists_isExternal place.fileName
  rw [originAt, originAt, hexternal, hexternal']
  rfl

/-- The records of a site differ in their flags at most. -/
theorem siteRecord_parallel (n : Node) : Inquiry.Parallel (fun r r' => r.unflagged = r'.unflagged)
    (siteRecord markers n) (siteRecord markers' n) := by
  -- The record depends on the place by its location; the flag is what the markers decide.
  have hrecord : ∀ (callee : String) {o o' : Option Origin},
      o.map Origin.location = o'.map Origin.location →
      CallRecord.unflagged ⟨callee, 1, o⟩ = CallRecord.unflagged ⟨callee, 1, o'⟩ := by
    intro callee o o' ho
    cases o with
    | none => rw [Option.map_eq_none_iff.mp ho.symm]
    | some a =>
      obtain ⟨b, rfl, hb⟩ := Option.map_eq_some_iff.mp ho.symm
      unfold CallRecord.unflagged
      rw [Option.map_some, Option.map_some, hb]
  rw [siteRecord_eq, siteRecord_eq]
  refine .bind_refl fun callee => .bind_refl fun place => .pure (hrecord callee ?_)
  cases place with
  | none => rfl
  | some place => exact originAt_locations h h' place

/-- The markers show in the flags only. -/
theorem rankedCalls_parallel_markers (settings : Settings) (s : Source) : Inquiry.Parallel
    (fun calls calls' => SameButFlags (calls.getD []) (calls'.getD []))
      (rankedCalls { settings with externalMarkers := markers } s)
      (rankedCalls { settings with externalMarkers := markers' } s) := by
  -- Tallying goes by location and text, so it keeps records alike record by record.
  have htallied : Inquiry.Parallel SameButFlags (talliedCalls markers s)
    (talliedCalls markers' s) := by
    refine .foldlM (fun records records' hrecords n _ => ?_) rfl
    refine (siteRecord_parallel h h' n).bind fun r r' hr => .pure ?_
    unfold SameButFlags at hrecords ⊢
    rw [CallRecord.unflagged_tally, CallRecord.unflagged_tally, hr, hrecords]
  refine htallied.bind fun records records' hrecords => .pure ?_
  unfold SameButFlags at hrecords ⊢
  cases settings.maxCalls.asIndex with
  | none => rfl
  | some limit =>
    rw [Option.map_some, Option.map_some, Option.getD_some, Option.getD_some, map_takeSigned,
      map_takeSigned, CallRecord.unflagged_ranked, CallRecord.unflagged_ranked, hrecords]

end Markers

/-! ## Numbers of calls -/

/-- Neither the limits on labels nor imports show in the ranked calls. -/
theorem rankedCalls_congr {settings other : Settings} (hmax : settings.maxCalls = other.maxCalls)
    (hmarkers : settings.externalMarkers = other.externalMarkers) (s : Source) :
    rankedCalls settings s = rankedCalls other s := by
  unfold rankedCalls
  rw [hmax, hmarkers]

/-- Of a larger number of calls the first ones are a smaller number. -/
theorem rankedCalls_parallel_limits (settings : Settings) (s : Source)
    {limit limit' : Json} {a b : Int}
    (ha : limit.asIndex = some a) (hb : limit'.asIndex = some b) (hnonneg : 0 ≤ a) (hle : a ≤ b) :
    Inquiry.Parallel (fun calls calls' => calls.getD [] = (calls'.getD []).take a.toNat)
      (rankedCalls { settings with maxCalls := limit } s)
      (rankedCalls { settings with maxCalls := limit' } s) := by
  refine .bind_refl fun records => .pure ?_
  obtain ⟨m, rfl⟩ := Int.eq_ofNat_of_zero_le hnonneg
  obtain ⟨n, rfl⟩ := Int.eq_ofNat_of_zero_le (Int.le_trans hnonneg hle)
  rw [ha, hb, Option.map_some, Option.map_some, Option.getD_some, Option.getD_some,
    takeSigned_ofNat,
    takeSigned_ofNat, Int.toNat_natCast, List.take_take, Nat.min_eq_left (Int.ofNat_le.mp hle)]

end Sites

namespace Analysis

/-- Analyses that differ at most in edges that show data. -/
structure SameButData (a b : Analysis) : Prop where
  imports_eq : a.imports = b.imports
  exports_eq : a.exports = b.exports
  calls_eq : a.calls = b.calls
  nodes_eq : a.graph.nodes = b.graph.nodes
  references_eq : a.graph.edges.filter Graph.Edge.isReference =
    b.graph.edges.filter Graph.Edge.isReference

/-- Analyses that differ at most in the flags of their calls. -/
structure SameButFlags (a b : Analysis) : Prop where
  imports_eq : a.imports = b.imports
  exports_eq : a.exports = b.exports
  graph_eq : a.graph = b.graph
  calls : Sites.SameButFlags a.calls b.calls

/-- Analyses that find the same, of which the first one keeps a number of the calls. -/
structure SameButCalls (count : Nat) (a b : Analysis) : Prop where
  imports_eq : a.imports = b.imports
  exports_eq : a.exports = b.exports
  graph_eq : a.graph = b.graph
  calls_eq : a.calls = b.calls.take count

variable {settings other : Settings} {disk disk' : Disk} {library : Library} {s : Source}

/-- The workspaces of a file next to different disks are alike if no imports are resolved. -/
theorem alike_ofSource
    (hresolves : settings.resolveImports.isTruthy = other.resolveImports.isTruthy)
    (hdisk : other.resolveImports.isTruthy = true → disk = disk') :
    (Workspace.ofSource settings disk library s).Alike
    (Workspace.ofSource other disk' library s) where
  root_eq := rfl
  library_eq := rfl
  store_eq := rfl
  bindings_eq := rfl
  modules_eq := rfl
  namespaces_eq := rfl
  resolves_eq := hresolves
  disk_eq := hdisk
  files_eq h := by
    -- The list of files is the only field that the disk decides.
    rw [hdisk h]
    rfl

/-- An analysis is its calls, its graph and its links. -/
theorem eq_of_parts
    (hcalls : (ofSource settings disk library s).calls = (ofSource other disk' library s).calls)
    (hgraph : (ofSource settings disk library s).graph = (ofSource other disk' library s).graph) :
    ofSource settings disk library s = ofSource other disk' library s :=
  -- Imports and exports are read off the file.
  congrArg₂ (fun calls graph => (⟨s.imports, s.exports, calls, graph⟩ : Analysis)) hcalls hgraph

/-- Analyses whose parts are worked out in the same steps find related calls and related graphs. -/
theorem ofSource_parallel {T : Option (List CallRecord) → Option (List CallRecord) → Prop}
    {U : Graph → Graph → Prop}
    (hcalls : Inquiry.Parallel T (Sites.rankedCalls settings s) (Sites.rankedCalls other s))
    (hgraph : Inquiry.Parallel U (Graph.ofSource settings s) (Graph.ofSource other s))
    (halike : (Workspace.ofSource settings disk library s).Alike
      (Workspace.ofSource other disk' library s)) :
    (∃ calls calls', T calls calls' ∧ (ofSource settings disk library s).calls = calls.getD [] ∧
      (ofSource other disk' library s).calls = calls'.getD []) ∧
      U (ofSource settings disk library s).graph (ofSource other disk' library s).graph := by
  have hsites : Inquiry.Parallel (fun p q : List CallRecord × Graph =>
      (∃ calls calls', T calls calls' ∧ p.1 = calls.getD [] ∧ q.1 = calls'.getD []) ∧ U p.2 q.2)
        (sitesOf settings s) (sitesOf other s) :=
    hcalls.bind fun calls calls' hT => hgraph.bind fun _ _ hU =>
      .pure ⟨⟨calls, calls', hT, rfl, rfl⟩, hU⟩
  exact (hsites.conduct _ _ ⟨halike, rfl⟩).1

/-- The limits on labels, being numbers, show in edges that show data. -/
theorem sameButData_of_labels (hlabels : Graph.LabelsTyped settings)
    (hlabels' : Graph.LabelsTyped other) (hmax : settings.maxCalls = other.maxCalls)
    (hmarkers : settings.externalMarkers = other.externalMarkers)
    (hresolve : settings.resolveImports = other.resolveImports) :
    SameButData (ofSource settings disk library s) (ofSource other disk library s) := by
  obtain ⟨⟨calls, _, rfl, hcalls, hcalls'⟩, hnodes, hedges⟩ := ofSource_parallel
    (.of_eq (Sites.rankedCalls_congr hmax hmarkers s)) (Graph.ofSource_parallel hlabels hlabels' s)
    (alike_ofSource (congrArg _ hresolve) fun _ => rfl)
  exact ⟨rfl, rfl, hcalls.trans hcalls'.symm, hnodes, hedges.references_eq⟩

/-- Of two numbers of calls the smaller one keeps the first calls that the larger one keeps. -/
theorem sameButCalls_of_limits {limit limit' : Json} {a b : Int} (ha : limit.asIndex = some a)
    (hb : limit'.asIndex = some b) (hnonneg : 0 ≤ a) (hle : a ≤ b) :
    SameButCalls a.toNat (ofSource { settings with maxCalls := limit } disk library s)
      (ofSource { settings with maxCalls := limit' } disk library s) := by
  obtain ⟨⟨calls, calls', hT, hcalls, hcalls'⟩, hgraph⟩ := ofSource_parallel
    (Sites.rankedCalls_parallel_limits settings s ha hb hnonneg hle)
    (.of_eq (Graph.ofSource_congr (by rfl) (by rfl) s)) (alike_ofSource rfl fun _ => rfl)
  exact ⟨rfl, rfl, hgraph, by rw [hcalls, hcalls', hT]⟩

/-- The markers, as long as they decide, show in the flags. -/
theorem sameButFlags_of_markers {markers markers' : List Json} (h : Location.Decides markers)
    (h' : Location.Decides markers') :
    SameButFlags (ofSource { settings with externalMarkers := markers } disk library s)
      (ofSource { settings with externalMarkers := markers' } disk library s) := by
  obtain ⟨⟨calls, calls', hT, hcalls, hcalls'⟩, hgraph⟩ := ofSource_parallel
    (Sites.rankedCalls_parallel_markers h h' settings s)
    (.of_eq (Graph.ofSource_congr (by rfl) (by rfl) s)) (alike_ofSource rfl fun _ => rfl)
  exact ⟨rfl, rfl, hgraph, by rwa [hcalls, hcalls']⟩

/-- Without imports to resolve the disk does not matter. -/
theorem ofSource_eq_of_not_resolves (hoff : settings.resolveImports.isTruthy = false)
    (disk disk' : Disk) :
    ofSource settings disk library s = ofSource settings disk' library s := by
  obtain ⟨⟨calls, _, rfl, hcalls, hcalls'⟩, hgraph⟩ := ofSource_parallel
    (.refl (Sites.rankedCalls settings s)) (.refl (Graph.ofSource settings s))
    (alike_ofSource rfl fun hon => absurd (hoff.symm.trans hon) Bool.false_ne_true)
  exact eq_of_parts (hcalls.trans hcalls'.symm) hgraph

/-- Settings touch what they govern and nothing else: the limits on labels the edges that show
data, the number of calls how many of them are kept, the markers the flags. And whether imports are
resolved governs what the disk has to do with it. -/
theorem settings_govern (settings : Settings) (disk : Disk) (library : Library) (s : Source) :
    (∀ p q p' q' : Json, p.asIndex.isSome → q.asIndex.isSome → p'.asIndex.isSome →
      q'.asIndex.isSome →
      SameButData (ofSource { settings with paramLabelMax := p, argLabelMax := q } disk library s)
        (ofSource { settings with paramLabelMax := p', argLabelMax := q' } disk library s)) ∧
    (∀ (limit limit' : Json) (a b : Int), limit.asIndex = some a → limit'.asIndex = some b →
      0 ≤ a → a ≤ b →
      SameButCalls a.toNat (ofSource { settings with maxCalls := limit } disk library s)
        (ofSource { settings with maxCalls := limit' } disk library s)) ∧
    (∀ markers markers' : List Json, Location.Decides markers → Location.Decides markers' →
      SameButFlags (ofSource { settings with externalMarkers := markers } disk library s)
        (ofSource { settings with externalMarkers := markers' } disk library s)) ∧
    (settings.resolveImports.isTruthy = false → ∀ disk' : Disk,
      ofSource settings disk library s = ofSource settings disk' library s) :=
  ⟨fun _ _ _ _ hp hq hp' hq' => sameButData_of_labels ⟨hp, hq⟩ ⟨hp', hq'⟩ rfl rfl rfl,
    fun _ _ _ _ ha hb hnonneg hle => sameButCalls_of_limits ha hb hnonneg hle,
    fun _ _ h h' => sameButFlags_of_markers h h',
    fun hoff disk' => ofSource_eq_of_not_resolves hoff disk disk'⟩

/-- The text of the call above with a limit of one letter on labels and no calls, next to another
file. Each setting shows where it may, and texts decide as markers. -/
theorem settings_govern_call :
    let s : Source :=
      { fileName := "/a.ts", text := callText, dialect := .ts, tree := readProgram .ts callText }
    let found := fun settings disk => ofSource settings disk (.ofSource default) s
    let other : Disk := ⟨.ofList [("/b.ts", "export const b = 1;")]⟩
    SameButData (found {} {})
      (found { paramLabelMax := .integer 1, argLabelMax := .integer 1 } {}) ∧
      SameButCalls 0 (found { maxCalls := .integer 0 } {}) (found {} {}) ∧
      SameButFlags (found { externalMarkers := [] } {})
        (found { externalMarkers := [.string "/a"] } {}) ∧
      found { resolveImports := .bool false } {} =
        found { resolveImports := .bool false } other := by
  intro s found other
  have hgovern := fun settings : Settings => settings_govern settings {} (.ofSource default) s
  -- Texts decide, so the markers may be compared.
  have htexts : Location.Decides [.string "/a"] :=
    .of_texts fun m hm => ⟨_, List.mem_singleton.mp hm⟩
  exact ⟨(hgovern {}).1 _ _ _ _ rfl rfl rfl rfl,
    (hgovern {}).2.1 (.integer 0) (.integer 60) 0 60 rfl rfl (by decide) (by decide),
    (hgovern {}).2.2.1 _ _ (.of_texts nofun) htexts,
    (hgovern { resolveImports := .bool false }).2.2.2 rfl other⟩

/-- A marker that is no text leaves it open of every file whether it is external, and a call that
is recorded then has lost its place. So more than the flags may differ. -/
theorem not_sameButFlags :
    ¬∀ (settings : Settings) (disk : Disk) (library : Library) (s : Source)
      (markers markers' : List Json),
      SameButFlags (ofSource { settings with externalMarkers := markers } disk library s)
        (ofSource { settings with externalMarkers := markers' } disk library s) := by
  intro h
  have hcalls := (h {} {} (.ofSource default)
    { fileName := "/a.ts", text := callText, dialect := .ts
      tree := readProgram .ts callText } [] [.integer 1]).calls
  revert hcalls
  unfold Sites.SameButFlags
  decide +kernel

end Analysis

end ScriptGraph
