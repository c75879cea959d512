import ScriptGraph.Analysis
import ScriptGraph.Proofs.Graph.Identifiers
import ScriptGraph.Proofs.Inference.Growth
import ScriptGraph.Proofs.Text.Units

/-!
# Graphs are well formed

The graph of an analysis starts with the file, tells its nodes and edges apart, joins nodes of its
own only, and names each node for the place at which it starts.

- `Draft.Lists`: the nodes of a draft, and how they are found by offset
- `addSite_joins`: an edge joins nodes, also when a later label of its site cannot be built
- `Analysis.graph_wellFormed`: the graph of an analysis
-/

namespace ScriptGraph

open Binding Syntax Inference

namespace Graph

/-- The offset at which a node starts, in the text of a file. -/
def startOffset (s : Source) (v : Vertex) : Nat :=
  Text.offsetOf v.range.start s.text.toList

/-- The identifiers of the nodes. -/
def ids (g : Graph) : List String :=
  g.nodes.map Vertex.id

/-- A graph of a file that starts with the file, whose nodes and edges have identifiers of their
own, whose edges join its nodes, and whose nodes are named for where they start. -/
structure WellFormed (s : Source) (g : Graph) : Prop where
  root_first : g.nodes.head? = some (fileVertex s)
  ids_nodup : g.ids.Nodup
  source_mem : ∀ e ∈ g.edges, e.source ∈ g.ids
  target_mem : ∀ e ∈ g.edges, e.target ∈ g.ids
  edges_nodup : (g.edges.map Edge.id).Nodup
  id_eq : ∀ v ∈ g.nodes.tail, v.id = nodeId v.kind.name v.name (startOffset s v)

/-! ## Places of declarations -/

/-- A wrapper is in the file of what it wraps. -/
theorem source_wrapperFrom (source : Source) (tree : Tree) (trail : List Crumb) :
    (Location.wrapperFrom source tree trail).source = source := by
  induction trail generalizing tree with
  | nil => rfl
  | cons c up ih =>
    rw [Location.wrapperFrom]
    split
    · exact ih c.parent
    · rfl

/-- A declaration is in its file, and its offset and its range start at the same byte. -/
theorem location_start (d : Declaration) : d.location.fileName = d.source.fileName ∧
    ∃ bytes, d.location.offset = d.source.offset bytes ∧
      d.location.range.start = d.source.position bytes := by
  have hnode : ∀ n : Node, n.source = d.source →
      (Location.ofNode n).fileName = d.source.fileName ∧ ∃ bytes,
        (Location.ofNode n).offset = d.source.offset bytes ∧
          (Location.ofNode n).range.start = d.source.position bytes := fun n hn =>
    hn ▸ ⟨rfl, _, rfl, rfl⟩
  unfold Declaration.location
  split
  · exact hnode _ (source_wrapperFrom _ _ _)
  · exact hnode _ rfl

/-- The offset of a declaration is that of the start of its range. -/
theorem location_offset (d : Declaration) :
    d.location.offset = Text.offsetOf d.location.range.start d.source.text.toList := by
  obtain ⟨-, bytes, hoffset, hstart⟩ := location_start d
  rw [hoffset, hstart]
  exact (Text.offsetOf_position _ _).symm

/-! ## Nodes -/

/-- The nodes of a draft are the file and some others, which have offsets of their own and are
found by them. -/
structure Draft.Lists (s : Source) (d : Draft) (added : List Vertex) : Prop where
  nodes_eq : d.graph.nodes = fileVertex s :: added
  entries_eq : d.idAt.entries = added.map fun v => (startOffset s v, v.id)
  id_eq : ∀ v ∈ added, v.kind ∈ [.function, .class, .method] ∧
    v.id = nodeId v.kind.name v.name (startOffset s v)
  offsets_nodup : (added.map (startOffset s)).Nodup

variable {s : Source} {d : Draft} {added : List Vertex}

/-- The draft starts with the vertex of the file. -/
theorem Draft.Lists.start : Draft.Lists s { graph := { nodes := [fileVertex s] } } [] :=
  ⟨rfl, rfl, nofun, List.nodup_nil⟩

/-- A node at a new offset joins the others. -/
theorem Draft.Lists.push (h : Draft.Lists s d added) {v : Vertex}
    (hkind : v.kind ∈ [.function, .class, .method])
    (hid : v.id = nodeId v.kind.name v.name (startOffset s v))
    (hnew : d.idAt.contains (startOffset s v) = false) :
    Draft.Lists s
      { graph := { d.graph with nodes := d.graph.nodes ++ [v] }
        idAt := d.idAt.put (startOffset s v) v.id } (added ++ [v]) where
  nodes_eq := by rw [h.nodes_eq, List.cons_append]
  entries_eq := by
    rw [Table.entries_put_of_not_contains v.id hnew, h.entries_eq, List.map_append]
    rfl
  id_eq u hu := by
    rcases List.mem_append.mp hu with hu | hu
    · exact h.id_eq u hu
    · rw [List.mem_singleton.mp hu]
      exact ⟨hkind, hid⟩
  offsets_nodup := by
    -- The offsets by which nodes are found are those of the nodes so far.
    have hother := Table.contains_eq_false.mp hnew
    rw [h.entries_eq] at hother
    rw [List.map_append, List.nodup_append]
    refine ⟨h.offsets_nodup, List.pairwise_singleton _ _, fun a ha b hb => ?_⟩
    obtain ⟨u, hu, rfl⟩ := List.mem_map.mp ha
    rw [List.mem_singleton.mp hb]
    exact hother _ (List.mem_map_of_mem hu)

/-- The identifiers of the nodes of a draft differ. -/
theorem Draft.Lists.ids_nodup (h : Draft.Lists s d added) : d.graph.ids.Nodup := by
  unfold ids
  rw [h.nodes_eq, List.map_cons, List.nodup_cons]
  constructor
  · intro hmem
    obtain ⟨v, hv, hid⟩ := List.mem_map.mp hmem
    -- The kind comes first in an identifier, and only the file is of its kind.
    obtain ⟨hkind, hname⟩ := h.id_eq v hv
    exact absurd (hname.symm.trans hid) (nodeId_ne_file hkind)
  · -- Equal identifiers have equal offsets, which differ.
    have hoffsets := List.pairwise_map.mp h.offsets_nodup
    refine List.pairwise_map.mpr (hoffsets.imp_of_mem fun {u v} hu hv hne hid => hne ?_)
    rw [(h.id_eq u hu).2, (h.id_eq v hv).2] at hid
    exact offset_eq_of_nodeId_eq hid

/-- What is found by an offset is a node other than the file. -/
theorem Draft.Lists.mem_tail (h : Draft.Lists s d added) {offset : Nat} {id : String}
    (hfind : d.idAt.find? offset = some id) : id ∈ d.graph.nodes.tail.map Vertex.id := by
  have hentry := Table.mem_entries_of_find? hfind
  rw [h.entries_eq] at hentry
  obtain ⟨v, hv, he⟩ := List.mem_map.mp hentry
  have hid : v.id = id := congrArg Prod.snd he
  rw [h.nodes_eq, List.tail_cons, ← hid]
  exact List.mem_map_of_mem hv

/-- An identifier that is found at an offset is one of the graph. -/
theorem Draft.Lists.mem_ids (h : Draft.Lists s d added) {offset : Nat} {id : String}
    (hfind : d.idAt.find? offset = some id) : id ∈ d.graph.ids := by
  obtain ⟨v, hv, hid⟩ := List.mem_map.mp (h.mem_tail hfind)
  exact List.mem_map.mpr ⟨v, List.mem_of_mem_tail hv, hid⟩

/-- A construct contributes functions, classes and methods. -/
theorem kind_of_mem_candidates {n : Node} {c : Candidate} (h : c ∈ candidates n) :
    c.kind ∈ [.function, .class, .method] := by
  unfold candidates at h
  -- A function, a class with its methods, or nothing.
  split at h
  · exact absurd h List.not_mem_nil
  · split at h
    · rw [List.mem_singleton.mp h]
      simp
    · split at h
      · rcases List.mem_cons.mp h with rfl | h
        · simp
        · obtain ⟨m, -, rfl⟩ := List.mem_map.mp h
          simp
      · exact absurd h List.not_mem_nil

variable {base : Workspace} {oracle : Oracle} {b : FileBinding}

/-- A candidate adds at most one vertex, with a new identifier. -/
theorem addVertex_lists (horacle : oracle.Grows) (hb : b.Within base.store) (hs : b.source = s)
    {d : Draft} {c : Candidate} (hkind : c.kind ∈ [.function, .class, .method])
    (hd : ∃ added, Draft.Lists s d added) :
    Finds base oracle (addVertex b d c) fun d => ∃ added, Draft.Lists s d added := by
  obtain ⟨added, hd⟩ := hd
  unfold Graph.addVertex
  split
  · exact .pure ⟨added, hd⟩
  · rename_i id hid
    obtain ⟨hlt, -, hsource⟩ := hb.declarations _ (Table.mem_entries_of_find? hid)
    -- The declaration is in the file, so the node starts where the declaration does.
    refine .bind (.declarationOf hlt) fun decl hdecl => ?_
    have hoffset := location_offset decl
    rw [show decl.source = s from
      (congrArg Node.source (Declaration.node_eq_of_detached_eq hdecl)).trans (hsource.trans hs)]
      at hoffset
    dsimp only
    rw [hoffset]
    split
    · exact .pure ⟨added, hd⟩
    · rename_i hnew
      exact .bind (.something horacle _) fun signature _ => .pure
        ⟨_, hd.push (v := ⟨_, _, _, _, _, _⟩) hkind rfl (Bool.eq_false_iff.mpr hnew)⟩

/-- All candidates together add vertices with identifiers of their own. -/
theorem vertices_lists (horacle : oracle.Grows) (hb : b.Within base.store) (hs : b.source = s) :
    Finds base oracle (vertices s b) fun d => ∃ added, Draft.Lists s d added := by
  refine .foldlM (fun d c hc hd => addVertex_lists horacle hb hs ?_ hd) ⟨[], .start⟩
  obtain ⟨n, -, hc⟩ := List.mem_flatMap.mp hc
  exact kind_of_mem_candidates hc

/-! ## Owners of sites -/

/-- The owner inside a body is the one outside, or a vertex that starts there. -/
theorem owner_of_bodyOwner {st : Store} {idAt : Table Nat String} {n : Node}
    {owner next : String} (h : bodyOwner b st idAt n owner = some next) :
    next = owner ∨ ∃ offset, idAt.find? offset = some next := by
  unfold bodyOwner at h
  split at h
  -- The declaration that is found may have no vertex of its own.
  · split at h
    · rename_i id _
      cases hfind : idAt.find? (st.declaration id).location.offset with
      | none =>
        rw [hfind] at h
        exact .inl (Option.some.inj h).symm
      | some found =>
        rw [hfind] at h
        exact .inr ⟨_, hfind.trans h⟩
    · exact .inl (Option.some.inj h).symm
  · exact nomatch h

variable {inside : Node → String → Option String} {owners : List String}

mutual

/-- The owners of sites are those that a walk starts with or that constructs switch to. -/
theorem owner_of_mem_sitesIn
    (hinside : ∀ n owner next, owner ∈ owners → inside n owner = some next → next ∈ owners)
    {trail : List Crumb} {owner : String} (howner : owner ∈ owners) {t : Tree} {site : Site}
    (h : site ∈ sitesIn inside s trail owner t) : site.owner ∈ owners := by
  match t with
  -- A node hands down its owner, or the one that its body switches to.
  | .node l r start stop cs =>
    rw [sitesIn] at h
    dsimp only at h
    split at h
    · rename_i next hnext
      exact owner_of_mem_sitesInBody hinside (hinside _ _ _ howner hnext) h
    · rcases List.mem_append.mp h with h | h
      · split at h
        · rw [List.mem_singleton.mp h]
          exact howner
        · exact absurd h List.not_mem_nil
      · exact owner_of_mem_sitesAmong hinside howner h

/-- Sites inside a body have owners among the vertices. -/
theorem owner_of_mem_sitesInBody
    (hinside : ∀ n owner next, owner ∈ owners → inside n owner = some next → next ∈ owners)
    {parent : Tree} {trail : List Crumb} {index : Nat} {owner : String} (howner : owner ∈ owners)
    {ts : List Tree} {site : Site}
    (h : site ∈ sitesInBody inside s parent trail index owner ts) : site.owner ∈ owners := by
  match ts with
  | [] => exact absurd h List.not_mem_nil
  | t :: ts =>
    rw [sitesInBody] at h
    split at h
    · exact owner_of_mem_sitesIn hinside howner h
    · exact owner_of_mem_sitesInBody hinside howner h

/-- So have sites among the nodes of a list. -/
theorem owner_of_mem_sitesAmong
    (hinside : ∀ n owner next, owner ∈ owners → inside n owner = some next → next ∈ owners)
    {parent : Tree} {trail : List Crumb} {index : Nat} {owner : String} (howner : owner ∈ owners)
    {ts : List Tree} {site : Site}
    (h : site ∈ sitesAmong inside s parent trail index owner ts) : site.owner ∈ owners := by
  match ts with
  | [] => exact absurd h List.not_mem_nil
  | t :: ts =>
    rw [sitesAmong] at h
    rcases List.mem_append.mp h with h | h
    · exact owner_of_mem_sitesIn hinside howner h
    · exact owner_of_mem_sitesAmong hinside howner h

end

/-- The owners of the sites of a file are nodes. -/
theorem Draft.Lists.owner_mem_ids (h : Draft.Lists s d added) {st : Store} {site : Site}
    (hsite : site ∈ sitesIn (bodyOwner b st d.idAt) s [] (fileVertex s).id s.tree) :
    site.owner ∈ d.graph.ids := by
  have hfile : (fileVertex s).id ∈ d.graph.ids := by
    unfold ids
    rw [h.nodes_eq]
    exact List.mem_cons_self
  refine owner_of_mem_sitesIn (fun n owner next howner hnext => ?_) hfile hsite
  rcases owner_of_bodyOwner hnext with rfl | ⟨offset, hoffset⟩
  · exact howner
  · exact h.mem_ids hoffset

/-! ## Edges -/

/-- An edge that joins nodes of some list. -/
def Between (nodes : List String) (e : Edge) : Prop :=
  e.source ∈ nodes ∧ e.target ∈ nodes

/-- The edges of a graph with given nodes: they join nodes and have identifiers of their own. -/
structure Joins (nodes : List String) (edges : List Edge) : Prop where
  between : ∀ e ∈ edges, Between nodes e
  edges_nodup : (edges.map Edge.id).Nodup

variable {nodes : List String} {edges : List Edge} {settings : Settings}

/-- An edge between vertices may be added. -/
theorem Joins.addEdge (h : Joins nodes edges) {e : Edge} (he : Between nodes e) :
    Joins nodes (addEdge edges e) := by
  unfold Graph.addEdge
  split
  · exact h
  -- The edge is added as its identifier is new.
  · rename_i hnew
    refine ⟨fun d hd => ?_, ?_⟩
    · rcases List.mem_append.mp hd with hd | hd
      · exact h.between d hd
      · exact List.mem_singleton.mp hd ▸ he
    · rw [List.map_append, List.nodup_append]
      refine ⟨h.edges_nodup, List.pairwise_singleton _ _, fun a ha b hb => ?_⟩
      obtain ⟨d, hd, rfl⟩ := List.mem_map.mp ha
      rw [List.mem_singleton.mp hb]
      exact fun heq => hnew (List.any_eq_true.mpr ⟨d, hd, beq_iff_eq.mpr heq⟩)

/-- Any number of edges between vertices may be added. -/
theorem Joins.foldl_addEdge (h : Joins nodes edges) {new : List Edge}
    (hnew : ∀ e ∈ new, Between nodes e) : Joins nodes (new.foldl Graph.addEdge edges) := by
  induction new generalizing edges with
  | nil => exact h
  | cons e rest ih =>
    exact ih (h.addEdge (hnew e List.mem_cons_self))
      fun d hd => hnew d (List.mem_cons_of_mem _ hd)

/-- The edge from a site to its target is one of a call or of a construction. -/
theorem siteKind_mem (n : Node) : siteKind n ∈ [.calls, .constructs] := by
  unfold siteKind
  split <;> decide

/-- The edge of a site is of a kind that is produced. -/
theorem siteKind_produced (n : Node) : siteKind n ∈ EdgeKind.produced := by
  have hproduced : [EdgeKind.calls, .constructs] ⊆ EdgeKind.produced := by decide
  exact hproduced (siteKind_mem n)

/-- An edge that a site asks for when a node is its target: the one to the node, or one for an
argument. -/
def OfSite (site : Site) (target : String) (e : Edge) : Prop :=
  e = .between (siteKind site.node) site.owner target none none ∨
    ∃ index label, e = dataflowEdge site.owner target index label

/-- However many labels can be built, the edges are those of arguments. -/
theorem dataflowEdges_eq_dataflowEdge (horacle : oracle.Grows) (owner target : String)
    (index : Nat) (handed : List (Parameter × Node)) :
    Finds base oracle (dataflowEdges settings owner target index handed)
      fun es => ∀ e ∈ es, ∃ index label, e = dataflowEdge owner target index label := by
  -- The arguments are taken one by one, with the index that each of them has.
  induction handed generalizing index with
  | nil => exact .pure nofun
  | cons pair rest ih =>
    refine .bind (.something horacle _) fun label _ => ?_
    split
    · -- Without a label this edge and the ones after it are missing.
      exact .pure nofun
    · rename_i label
      refine .bind (ih (index + 1)) fun es hes => .pure fun e he => ?_
      rcases List.mem_cons.mp he with rfl | he
      · exact ⟨index, label, rfl⟩
      · exact hes e he

/-- What a call leads to has one of the identifiers. -/
theorem targetId_mem {idAt : Table Nat String} {targets : List String} (horacle : oracle.Grows)
    (hids : ∀ offset id, idAt.find? offset = some id → id ∈ targets) (id : DeclarationId) :
    Finds base oracle (targetId s idAt id) fun found => ∀ target, found = some target →
      target ∈ targets := by
  refine .bind (.something horacle _) fun decl _ => .pure fun target htarget => ?_
  split at htarget
  · exact hids _ _ htarget
  · exact nomatch htarget

/-- The edges of a site lead to a node that is found by an offset. -/
theorem siteEdges_ofSite {idAt : Table Nat String} {targets : List String}
    (horacle : oracle.Grows) (hids : ∀ offset id, idAt.find? offset = some id → id ∈ targets)
    (site : Site) :
    Finds base oracle (siteEdges settings s idAt site)
      fun es => ∀ e ∈ es, ∃ target ∈ targets, OfSite site target e := by
  unfold siteEdges
  split
  · exact .pure nofun
  · refine .bind (.something horacle _) fun target _ => ?_
    split
    · exact .pure nofun
    -- A site without target, or with a target that has no vertex, has no edges.
    · refine .bind (.something horacle _) fun id _ =>
        .bind (targetId_mem horacle hids id) fun found hfound => ?_
      split
      · exact .pure nofun
      · rename_i vertex
        have hvertex := hfound vertex rfl
        dsimp only
        split
        · exact .pure fun e he => ⟨vertex, hvertex, .inl (List.mem_singleton.mp he)⟩
        · refine .bind (dataflowEdges_eq_dataflowEdge horacle _ _ 0 _)
            fun es hes => .pure fun e he => ?_
          rcases List.mem_cons.mp he with rfl | he
          · exact ⟨vertex, hvertex, .inl rfl⟩
          · exact ⟨vertex, hvertex, .inr (hes e he)⟩

/-- An edge of a site joins the owner and the target. -/
theorem OfSite.between {site : Site} {target : String} {e : Edge} (h : OfSite site target e)
    (howner : site.owner ∈ nodes) (htarget : target ∈ nodes) : Between nodes e := by
  rcases h with rfl | ⟨index, label, rfl⟩
  · exact ⟨howner, htarget⟩
  · exact ⟨howner, htarget⟩

/-- A site adds edges between vertices only. -/
theorem addSite_joins {idAt : Table Nat String} (horacle : oracle.Grows)
    (hids : ∀ offset id, idAt.find? offset = some id → id ∈ nodes) {site : Site}
    (howner : site.owner ∈ nodes) (h : Joins nodes edges) :
    Finds base oracle (addSite settings s idAt edges site) (Joins nodes) :=
  .bind (siteEdges_ofSite horacle hids site) fun _ hnew => .pure (h.foldl_addEdge fun e he => by
    obtain ⟨target, htarget, hsite⟩ := hnew e he
    exact hsite.between howner htarget)

/-! ## The graph of an analysis -/

/-- The graph of a file that has been bound is well formed. -/
theorem ofSource_wellFormed (horacle : oracle.Grows) (hb : b.Within base.store)
    (hs : b.source = s) (hroot : s.isBundled = false)
    (hfind : base.bindings.find? s.fileName = some b) :
    Finds base oracle (ofSource settings s) (WellFormed s) := by
  refine .bind (.bindingOf hroot hfind) fun found hfound => ?_
  subst hfound
  refine .bind (vertices_lists horacle hb hs) fun draft ⟨added, hd⟩ =>
    .bind (.something horacle _) fun st _ => ?_
  -- Owners and targets are looked up by offset, and what is found so is a node.
  have hids : ∀ offset id, draft.idAt.find? offset = some id → id ∈ draft.graph.ids :=
    fun _ _ hid => hd.mem_ids hid
  -- Every site keeps the edges between nodes, however far its labels get.
  refine .bind (.foldlM (fun edges site hsite hedges => addSite_joins horacle hids
    (hd.owner_mem_ids hsite) hedges) ⟨nofun, List.nodup_nil⟩)
    fun edges hedges => .pure ?_
  exact
    { root_first := by rw [hd.nodes_eq]; rfl
      ids_nodup := hd.ids_nodup
      source_mem := fun e he => (hedges.between e he).1
      target_mem := fun e he => (hedges.between e he).2
      edges_nodup := hedges.edges_nodup
      id_eq := fun v hv => by
        rw [hd.nodes_eq] at hv
        exact (hd.id_eq v hv).2 }

end Graph

namespace Analysis

/-- The graph that the analysis of a file returns is well formed, whatever the text, the tree, the
disk and the settings are. -/
theorem graph_wellFormed (settings : Settings) (disk : Disk) (library : Source)
    (fileName text : String) (dialect : Dialect) (tree : Tree) :
    Graph.WellFormed { fileName, text, dialect, tree }
      (ofSource settings disk (.ofSource library) { fileName, text, dialect, tree }).graph := by
  let s : Source := { fileName, text, dialect, tree }
  let base := Workspace.ofSource settings disk (.ofSource library) s
  have hbase : base.Coherent :=
    Workspace.ofSource_coherent settings disk (Library.ofSource_bound library) s
  have hfind := Workspace.bindings_ofSource settings disk (.ofSource library) s
  have hwithin := hbase.bindings _ (Table.mem_entries_of_find? hfind)
  have hsource := (bind_grown s (Library.ofSource library).store).source
  -- The calls come first; whatever they find out, the graph starts from more knowledge.
  have hgraph : Finds base (answer (depthBound base)) (sitesOf settings s)
      fun r => Graph.WellFormed s r.2 :=
    .bind (.something (answer_grows _) _) fun calls _ => .bind
      (Graph.ofSource_wellFormed (answer_grows _) hwithin hsource rfl hfind) fun graph hg =>
        .pure hg
  exact (hgraph (Knowledge.ofWorkspace base) ⟨.refl base, hbase⟩).2

end Analysis

end ScriptGraph
