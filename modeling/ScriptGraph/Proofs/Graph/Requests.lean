import ScriptGraph.Proofs.Graph.Edges

/-!
# Edges that are asked for

While a graph is built its sites ask for edges, and an edge whose identifier has come up before is
left out. Nothing gets lost this way: the identifier of an edge tells everything that the edge is
asked for with.

An identifier is not made to be read. The name of the file and the label may have `->` and `@@` in
them, so that an identifier can be taken apart in several ways. What helps is that the source is
either the file, which is the same for all edges, or a declaration, whose name has no `-`; that the
target is a declaration, whose name has no `@`; and that the hint has no `@` either. So the source
and the target are read off from the start, the hint from the end, and the label is what is left.

- `EdgeRequest`: what an edge is asked for with
- `nodeId_inj`: the identifier of a node tells its kind, name and offset
- `EdgeRequest.Arises.eq_of_id_eq`: the identifier of an edge tells what it is asked for with
- `Analysis.requests_apart`: no two different edges of an analysis have one identifier
-/

namespace ScriptGraph

open Binding Syntax Inference Sites

namespace Graph

/-! ## Reading texts -/

/-- What comes before and after the first occurrence of a character. -/
theorem append_cons_inj {a b x y : List Char} {c : Char} (ha : c ∉ a) (hb : c ∉ b)
    (h : a ++ c :: x = b ++ c :: y) : a = b ∧ x = y := by
  -- Read from the end, the first occurrence is the last one.
  have hrev : x.reverse ++ c :: a.reverse = y.reverse ++ c :: b.reverse := by
    simpa using congrArg List.reverse h
  have hab : a = b := List.reverse_inj.mp
    (eq_of_append_cons_eq (fun h => ha (List.mem_reverse.mp h))
      (fun h => hb (List.mem_reverse.mp h)) hrev)
  subst hab
  exact ⟨rfl, (List.cons.inj (List.append_cancel_left h)).2⟩

/-- There is no minus among digits. -/
theorem minus_notMem_toDigits (n : Nat) : '-' ∉ Nat.toDigits 10 n := fun h =>
  absurd (Nat.isDigit_of_mem_toDigits (by decide) (by decide) h) (by decide)

/-! ## Identifiers of nodes -/

/-- The kinds of the nodes of a graph. -/
def vertexKinds : List NodeKind :=
  [.file, .function, .class, .method]

/-- There is no colon in the name of a kind. -/
theorem colon_notMem_name {kind : NodeKind} (hkind : kind ∈ vertexKinds) :
    ':' ∉ kind.name.toList := by
  revert kind
  decide

/-- The kinds of vertices have different names. -/
theorem NodeKind.name_inj : ∀ kind ∈ vertexKinds, ∀ kind' ∈ vertexKinds,
    kind.name = kind'.name → kind = kind' := by
  decide

/-- The identifier of a node tells its kind, name and offset, whatever characters the name has. -/
theorem nodeId_inj {kind kind' : NodeKind} (hkind : kind ∈ vertexKinds)
    (hkind' : kind' ∈ vertexKinds) {name name' : String} {offset offset' : Nat}
    (h : nodeId kind.name name offset = nodeId kind'.name name' offset') :
    kind = kind' ∧ name = name' ∧ offset = offset' := by
  -- The offset is read off from the end, then the kind from the start.
  have hoffset := offset_eq_of_nodeId_eq h
  subst hoffset
  have hlist := congrArg String.toList h
  rw [toList_nodeId, toList_nodeId] at hlist
  obtain ⟨hkinds, hnames⟩ := append_cons_inj (colon_notMem_name hkind) (colon_notMem_name hkind')
    (List.append_cancel_right hlist)
  exact ⟨NodeKind.name_inj _ hkind _ hkind' (String.toList_inj.mp hkinds),
    String.toList_inj.mp hnames, rfl⟩

/-- The characters of an identifier of a declaration whose name has no `@` and no `-`. -/
structure IsPlain (id : List Char) : Prop where
  eq_append : ∃ start offset, '@' ∉ start ∧ id = start ++ '@' :: Nat.toDigits 10 offset
  minus_notMem : '-' ∉ id
  ne_file : ∀ rest, (id ++ rest).take 2 ≠ ['f', 'i']

/-- The identifier of a vertex is plain if its name is. -/
theorem isPlain_nodeId {kind : NodeKind} (hkind : kind ∈ [.function, .class, .method])
    {name : String} (hat : '@' ∉ name.toList) (hminus : '-' ∉ name.toList) (offset : Nat) :
    IsPlain (nodeId kind.name name offset).toList := by
  have hdigits := minus_notMem_toDigits offset
  refine ⟨⟨_, offset, ?_, toList_nodeId kind.name name offset⟩, ?_, fun rest => ?_⟩
  · rcases kind with _ | _ | _ | _ | _ | _
    all_goals simp [NodeKind.name, hat] at hkind ⊢
  · rw [toList_nodeId]
    rcases kind with _ | _ | _ | _ | _ | _
    all_goals simp [NodeKind.name, hminus, hdigits] at hkind ⊢
  · rw [toList_nodeId]
    rcases kind with _ | _ | _ | _ | _ | _
    all_goals simp [NodeKind.name] at hkind ⊢

/-! ## Identifiers of edges -/

/-- The key of an edge spells its parts one after the other. -/
theorem toList_edgeKey_parts (kind source target : String) (label hint : Option String) :
    (edgeKey kind source target label hint).toList = kind.toList ++ ':' :: (source.toList ++
      '-' :: '>' :: (target.toList ++ '@' :: '@' :: ((label.getD "").toList ++
        '@' :: '@' :: (hint.getD "").toList))) := by
  simp [edgeKey]

/-- The source is what comes before the first `-`, unless it is the file. -/
theorem source_eq_of_append_eq {file source source' x y : List Char}
    (hfile : ∀ rest, (file ++ rest).take 2 = ['f', 'i']) (hsource : source = file ∨ IsPlain source)
    (hsource' : source' = file ∨ IsPlain source') (h : source ++ '-' :: x = source' ++ '-' :: y) :
    source = source' ∧ x = y := by
  rcases hsource with rfl | hplain <;> rcases hsource' with rfl | hplain'
  · exact ⟨rfl, (List.cons.inj (List.append_cancel_left h)).2⟩
  · -- The first letters tell the file from a declaration.
    exact absurd (h ▸ hfile _) (hplain'.ne_file _)
  · exact absurd (h ▸ hfile _) (hplain.ne_file _)
  · exact append_cons_inj hplain.minus_notMem hplain'.minus_notMem h

/-- The target ends with the digits after its first `@`. -/
theorem target_eq_of_append_eq {target target' x y : List Char} (htarget : IsPlain target)
    (htarget' : IsPlain target') (h : target ++ '@' :: x = target' ++ '@' :: y) :
    target = target' ∧ x = y := by
  obtain ⟨start, offset, hstart, rfl⟩ := htarget.eq_append
  obtain ⟨start', offset', hstart', rfl⟩ := htarget'.eq_append
  simp only [List.append_assoc, List.cons_append] at h
  obtain ⟨rfl, hrest⟩ := append_cons_inj hstart hstart' h
  obtain ⟨hdigits, hxy⟩ :=
    append_cons_inj (at_notMem_toDigits offset) (at_notMem_toDigits offset') hrest
  exact ⟨by rw [hdigits], hxy⟩

/-- The hint is what comes after the last `@`, and the label is what is left. -/
theorem label_eq_of_append_eq {label label' hint hint' : List Char} (hhint : '@' ∉ hint)
    (hhint' : '@' ∉ hint') (h : label ++ '@' :: '@' :: hint = label' ++ '@' :: '@' :: hint') :
    label = label' ∧ hint = hint' := by
  have hlast : (label ++ ['@']) ++ '@' :: hint = (label' ++ ['@']) ++ '@' :: hint' := by
    simpa using h
  have heq := eq_of_append_cons_eq hhint hhint' hlast
  subst heq
  exact ⟨List.append_cancel_right h, rfl⟩

/-- Optional texts that are both there, or both not, are equal if their texts are. -/
theorem eq_of_getD_eq {o o' : Option String} (hsome : o.isSome = o'.isSome)
    (h : o.getD "" = o'.getD "") : o = o' := by
  cases o with
  | none => exact (Option.isNone_iff_eq_none.mp (by simpa using hsome)).symm
  | some a =>
    obtain ⟨b, rfl⟩ := Option.isSome_iff_exists.mp hsome.symm
    exact congrArg some h

/-! ## Requests -/

/-- What an edge is asked for with: everything that its identifier tells. -/
@[ext]
structure EdgeRequest where
  kind : EdgeKind
  source : String
  target : String
  label : Option String
  hint : Option String

namespace EdgeRequest

/-- The edge that is asked for. -/
def edge (r : EdgeRequest) : Edge :=
  .between r.kind r.source r.target r.label r.hint

/-- The requests that may come up while edges are added to a graph with some nodes, of which the
first is the file: one from a node to a declaration for a call or a construction, and one for an
argument, which has a label and tells the place of the argument. -/
inductive Arises (nodes : List Vertex) : EdgeRequest → Prop
  | site {kind : EdgeKind} (hkind : kind ∈ [.calls, .constructs]) {source target : String}
      (hsource : source ∈ nodes.map Vertex.id) (htarget : target ∈ nodes.tail.map Vertex.id) :
      Arises nodes ⟨kind, source, target, none, none⟩
  | argument {source target : String} (hsource : source ∈ nodes.map Vertex.id)
      (htarget : target ∈ nodes.tail.map Vertex.id) (label : String) (index : Nat) :
      Arises nodes ⟨.dataflow, source, target, some label, some ("arg#" ++ toString index)⟩

namespace Arises

variable {nodes : List Vertex} {r r' : EdgeRequest}

/-- What arises is of a kind that is produced. -/
theorem kind_mem (h : r.Arises nodes) : r.kind ∈ EdgeKind.produced := by
  cases h with
  | site hkind => exact List.mem_append_left [.dataflow] hkind
  | argument => exact List.mem_append_right [EdgeKind.calls, .constructs] List.mem_cons_self

/-- What arises starts at a vertex. -/
theorem source_mem (h : r.Arises nodes) : r.source ∈ nodes.map Vertex.id := by
  cases h <;> assumption

/-- What arises leads to a vertex that is not the file's. -/
theorem target_mem (h : r.Arises nodes) : r.target ∈ nodes.tail.map Vertex.id := by
  cases h <;> assumption

/-- There is no sign for places in a hint. -/
theorem at_notMem_hint (h : r.Arises nodes) : '@' ∉ (r.hint.getD "").toList := by
  cases h with
  | site => simp
  | argument hsource htarget label index =>
    have hdigits := at_notMem_toDigits index
    simp [hdigits]

/-- The kind tells whether there is a label and a hint. -/
theorem isSome_eq (h : r.Arises nodes) : r.label.isSome = decide (r.kind = .dataflow) ∧
    r.hint.isSome = decide (r.kind = .dataflow) := by
  cases h with
  | @site kind hkind =>
    have hne : kind ≠ .dataflow := fun h => absurd (h ▸ hkind) (by decide)
    simp [hne]
  | argument => simp

/-- The identifier of an edge tells what it is asked for with, if the declarations among the nodes
have plain identifiers. -/
theorem eq_of_id_eq {file : String} (hfile : ∀ rest, (file.toList ++ rest).take 2 = ['f', 'i'])
    (hids : ∀ id ∈ nodes.map Vertex.id, id = file ∨ IsPlain id.toList)
    (htail : ∀ id ∈ nodes.tail.map Vertex.id, IsPlain id.toList) (h : r.Arises nodes)
    (h' : r'.Arises nodes) (hid : r.edge.id = r'.edge.id) : r = r' := by
  have hkind : r.kind = r'.kind := kind_eq_of_edgeKey_eq h.kind_mem h'.kind_mem hid
  have hlist := congrArg String.toList hid
  simp only [edge, Edge.between, toList_edgeKey_parts, hkind] at hlist
  -- The source and the target are read off from the start.
  have hrest := (List.cons.inj (List.append_cancel_left hlist)).2
  have hplain : ∀ id ∈ nodes.map Vertex.id, id.toList = file.toList ∨ IsPlain id.toList :=
    fun id hmem => (hids id hmem).imp (congrArg String.toList) fun hplain => hplain
  obtain ⟨hsource, hrest⟩ := source_eq_of_append_eq hfile (hplain _ h.source_mem)
    (hplain _ h'.source_mem) hrest
  obtain ⟨htarget, hrest⟩ := target_eq_of_append_eq (htail _ h.target_mem) (htail _ h'.target_mem)
    (List.cons.inj hrest).2
  obtain ⟨hlabel, hhint⟩ := label_eq_of_append_eq h.at_notMem_hint h'.at_notMem_hint
    (List.cons.inj hrest).2
  rw [String.toList_inj] at hsource htarget hlabel hhint
  obtain ⟨hlabelled, hhinted⟩ := h.isSome_eq
  obtain ⟨hlabelled', hhinted'⟩ := h'.isSome_eq
  rw [← hkind] at hlabelled' hhinted'
  exact EdgeRequest.ext hkind hsource htarget
    (eq_of_getD_eq (hlabelled.trans hlabelled'.symm) hlabel)
    (eq_of_getD_eq (hhinted.trans hhinted'.symm) hhint)

end Arises

end EdgeRequest

/-- The edges of a site are asked for. -/
theorem OfSite.exists_arises {nodes : List Vertex} {site : Site} {target : String} {e : Edge}
    (h : OfSite site target e) (howner : site.owner ∈ nodes.map Vertex.id)
    (htarget : target ∈ nodes.tail.map Vertex.id) :
    ∃ r : EdgeRequest, r.Arises nodes ∧ r.edge = e := by
  rcases h with rfl | ⟨index, label, rfl⟩
  · exact ⟨_, .site (siteKind_mem _) howner htarget, rfl⟩
  · exact ⟨_, .argument howner htarget label index, rfl⟩

/-! ## What the sites of a file ask for -/

/-- The nodes of the graph of a file, and the edges that its sites ask for, in order and with
repetitions. -/
def requested (settings : Settings) (s : Source) : Inquiry (Graph × List Edge) := do
  let b ← bindingOf s.root
  let draft ← vertices s b
  let inside := bodyOwner b (← store) draft.idAt
  let sites := sitesIn inside s [] (fileVertex s).id s.tree
  let asked ← sites.mapM (siteEdges settings s draft.idAt)
  return (draft.graph, asked.flatten)

variable {settings : Settings} {s : Source}

/-- Adding the sites is asking for all edges, and adding them. -/
theorem foldlM_addSite_flatten {idAt : Table Nat String} (sites : List Site) (edges : List Edge) :
    sites.foldlM (addSite settings s idAt) edges =
      (fun asked => asked.flatten.foldl addEdge edges) <$>
        sites.mapM (siteEdges settings s idAt) := by
  induction sites generalizing edges with
  | nil => rfl
  | cons site rest ih =>
    simp only [List.foldlM_cons, List.mapM_cons, addSite, ih, bind_pure_comp, bind_map_left,
      map_bind, Functor.map_map, List.flatten_cons, List.foldl_append]

/-- The graph of a file has the edges that its sites ask for, each identifier once. -/
theorem ofSource_eq_requested : ofSource settings s =
    (fun p => { p.1 with edges := distinct p.2 }) <$> requested settings s := by
  simp only [ofSource, requested, foldlM_addSite_flatten, foldl_addEdge_nil, map_bind, map_pure,
    bind_map_left]

variable {base : Workspace} {oracle : Oracle} {b : FileBinding}

/-- The edges that are asked for are those of requests that may come up. -/
theorem requested_arises (horacle : oracle.Grows) (hb : b.Within base.store) (hs : b.source = s)
    (hroot : s.isBundled = false) (hfind : base.bindings.find? s.fileName = some b) :
    Finds base oracle (requested settings s) fun p =>
      (∃ draft added, Draft.Lists s draft added ∧ p.1.nodes = draft.graph.nodes) ∧
        ∀ e ∈ p.2, ∃ r : EdgeRequest, r.Arises p.1.nodes ∧ r.edge = e := by
  refine .bind (.bindingOf hroot hfind) fun found hfound => ?_
  subst hfound
  refine .bind (vertices_lists horacle hb hs) fun draft ⟨added, hd⟩ =>
    .bind (.something horacle _) fun st _ => ?_
  have hids : ∀ offset id, draft.idAt.find? offset = some id →
      id ∈ draft.graph.nodes.tail.map Vertex.id := fun _ _ hid => hd.mem_tail hid
  -- The edges of one site: the owner is a node, and the target is found by an offset.
  have hasked : ∀ site ∈ sitesIn (bodyOwner found st draft.idAt) s [] (fileVertex s).id s.tree,
      Finds base oracle (siteEdges settings s draft.idAt site)
        fun es => ∀ e ∈ es, ∃ r : EdgeRequest, r.Arises draft.graph.nodes ∧ r.edge = e :=
    fun site hsite => (siteEdges_ofSite horacle hids site).imp fun es hes e he => by
      obtain ⟨target, htarget, hsite'⟩ := hes e he
      exact hsite'.exists_arises (hd.owner_mem_ids hsite) htarget
  refine .bind (.mapM hasked) fun asked hall => .pure ⟨⟨draft, added, hd, rfl⟩, fun e he => ?_⟩
  obtain ⟨es, hes, he⟩ := List.mem_flatten.mp he
  exact hall es hes e he

end Graph

namespace Analysis

open ScriptGraph.Graph

/-- The edges that the sites of a file ask for during an analysis. -/
def requestedEdges (settings : Settings) (disk : Disk) (library : Library) (s : Source) :
    List Edge :=
  let start := Knowledge.ofWorkspace (Workspace.ofSource settings disk library s)
  let ranked := ((Sites.rankedCalls settings s).perform (answers settings disk library s)).run start
  (((requested settings s).perform (answers settings disk library s)).run ranked.2).1.2

/-- Leaving out edges whose identifiers have come up leaves out repetitions only. Every edge that
an analysis asks for is that of a request that may come up, two such requests with one identifier
are the same in all parts, and so the graph has every edge that is asked for. The file and the
labels may have any names and texts, as long as no declaration has an `@` or a `-` in its name. The
identifiers of nodes tell kinds, names and offsets apart whatever the names are. -/
theorem requests_apart (settings : Settings) (disk : Disk) (library : Source)
    (fileName text : String) (dialect : Dialect) (tree : Tree) :
    let s : Source := { fileName, text, dialect, tree }
    let g := (ofSource settings disk (.ofSource library) s).graph
    let asked := requestedEdges settings disk (.ofSource library) s
    (∀ v ∈ g.nodes.tail, '@' ∉ v.name.toList ∧ '-' ∉ v.name.toList) →
      (∀ e ∈ asked, ∃ r : EdgeRequest, r.Arises g.nodes ∧ r.edge = e) ∧
      (∀ r r' : EdgeRequest, r.Arises g.nodes → r'.Arises g.nodes →
        r.edge.id = r'.edge.id → r = r') ∧
      (∀ e, e ∈ g.edges ↔ e ∈ asked) ∧
      (∀ kind ∈ vertexKinds, ∀ kind' ∈ vertexKinds, ∀ (name name' : String) (offset offset' : Nat),
        nodeId kind.name name offset = nodeId kind'.name name' offset' →
          kind = kind' ∧ name = name' ∧ offset = offset') := by
  intro s g asked hnames
  let base := Workspace.ofSource settings disk (.ofSource library) s
  have hbase : base.Coherent :=
    Workspace.ofSource_coherent settings disk (Library.ofSource_bound library) s
  have hfind := Workspace.bindings_ofSource settings disk (.ofSource library) s
  have hwithin := hbase.bindings _ (Table.mem_entries_of_find? hfind)
  have hsource := (bind_grown s (Library.ofSource library).store).source
  have hranked := Inquiry.perform_grown (answer_grows (depthBound base))
    (Sites.rankedCalls settings s) (Knowledge.ofWorkspace base) ⟨.refl base, hbase⟩
  have hrequests : Finds base (answers settings disk (.ofSource library) s)
      (requested settings s) _ :=
    requested_arises (answer_grows _) hwithin hsource rfl hfind
  -- The nodes and the requests are read off the draft that the graph is made of.
  obtain ⟨-, ⟨draft, added, hlists, hdraft⟩, harises⟩ := hrequests _ hranked
  have hgraph := (graph_eq settings disk (.ofSource library) s).trans
    (congrArg (fun x : Inquiry Graph => ((x.perform _).run _).1) ofSource_eq_requested)
  rw [Inquiry.run_map] at hgraph
  have hnodes : g.nodes = fileVertex s :: added :=
    (congrArg nodes hgraph).trans (hdraft.trans hlists.nodes_eq)
  have hedges : g.edges = distinct asked := congrArg edges hgraph
  -- The declarations among the nodes have plain identifiers, and the one of the file is fixed.
  have hplain : ∀ id ∈ g.nodes.tail.map Vertex.id, IsPlain id.toList := by
    intro id hid
    obtain ⟨v, hv, rfl⟩ := List.mem_map.mp hid
    obtain ⟨hat, hminus⟩ := hnames v hv
    rw [hnodes, List.tail_cons] at hv
    obtain ⟨hkind, hname⟩ := hlists.id_eq v hv
    rw [hname]
    exact isPlain_nodeId hkind hat hminus _
  have hids : ∀ id ∈ g.nodes.map Vertex.id, id = (fileVertex s).id ∨ IsPlain id.toList := by
    intro id hid
    rw [hnodes, List.map_cons, List.mem_cons] at hid
    refine hid.imp_right fun hmem => hplain id ?_
    rw [hnodes, List.tail_cons]
    exact hmem
  have hfile : ∀ rest, ((fileVertex s).id.toList ++ rest).take 2 = ['f', 'i'] := by
    intro rest
    simp [fileVertex, nodeId]
  have harises : ∀ e ∈ asked, ∃ r : EdgeRequest, r.Arises g.nodes ∧ r.edge = e := by
    have hdrafted := congrArg nodes hgraph
    rw [hdrafted]
    exact harises
  have hinj : ∀ r r' : EdgeRequest, r.Arises g.nodes → r'.Arises g.nodes →
      r.edge.id = r'.edge.id → r = r' := fun r r' h h' =>
    h.eq_of_id_eq hfile hids hplain h'
  refine ⟨harises, hinj, fun e => ?_, fun kind hkind kind' hkind' name name' offset offset' =>
    nodeId_inj hkind hkind'⟩
  rw [hedges]
  refine ⟨fun he => subset_distinct he, fun he => ?_⟩
  -- The edge that is kept for an identifier is the one that is asked for.
  obtain ⟨d, hd, hid⟩ := exists_mem_distinct he
  obtain ⟨r, hr, rfl⟩ := harises e he
  obtain ⟨r', hr', rfl⟩ := harises d (subset_distinct hd)
  rw [← hinj r' r hr' hr hid]
  exact hd

/-- A text with a call whose argument has the separators of identifiers in it. -/
def separatorsText : String := "function f(x: string) \x7b\x7d f('->f@@arg#0')"

/-- The name of the file and the label may have any characters. -/
theorem requests_apart_separators :
    let s : Source :=
      { fileName := "/a->b@@c.ts", text := separatorsText, dialect := .ts
        tree := readProgram .ts separatorsText }
    let g := (ofSource {} {} (.ofSource default) s).graph
    let asked := requestedEdges {} {} (.ofSource default) s
    (∀ v ∈ g.nodes.tail, '@' ∉ v.name.toList ∧ '-' ∉ v.name.toList) ∧
      (∀ r r' : EdgeRequest, r.Arises g.nodes → r'.Arises g.nodes →
        r.edge.id = r'.edge.id → r = r') ∧
      (∀ e, e ∈ g.edges ↔ e ∈ asked) ∧
      g.edges.map Edge.id = ["calls:file:a->b@@c.ts@0->function:f@0@@@@",
        "dataflow:file:a->b@@c.ts@0->function:f@0@@x: string ← '->f@@arg#0': string@@arg#0"] :=
  have hnames := by decide +kernel
  have happly := requests_apart {} {} default "/a->b@@c.ts" separatorsText .ts
    (readProgram .ts separatorsText) hnames
  ⟨hnames, happly.2.1, happly.2.2.1, by decide +kernel⟩

end Analysis

end ScriptGraph
