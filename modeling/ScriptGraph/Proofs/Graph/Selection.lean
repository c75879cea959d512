import Mathlib.Data.List.Infix
import Mathlib.Data.List.Nodup
import ScriptGraph.Graph.Selection
import ScriptGraph.Proofs.Graph.WellFormed

/-!
# The part of a graph around a text

Selecting keeps edges of some kinds. A text that names nodes narrows the graph to these nodes, the
edges that touch them and the other ends of these edges; any other text selects nothing in
particular. The part is a graph of its own, and selecting again changes nothing.

- `Text.contains_iff`: a text contains another one if that one is a stretch of it
- `select_of_names`, `select_of_not_names`: what is selected, with and without named nodes
- `select_selects`: the part that is selected
-/

namespace ScriptGraph

namespace Text

/-- A text occurs in another one if it is an infix of it. -/
theorem occursIn_iff {part text : List Char} : occursIn part text = true ↔ part <:+: text := by
  induction text with
  | nil => rw [occursIn, List.isEmpty_iff, List.infix_nil]
  | cons c rest ih =>
    rw [occursIn, Bool.or_eq_true, List.isPrefixOf_iff_prefix, ih, List.infix_cons_iff]

/-- A text contains another one if that one is a stretch of it. -/
theorem contains_iff {text part : String} :
    contains text part = true ↔ part.toList <:+: text.toList :=
  occursIn_iff

end Text

namespace Table

variable {κ β : Type} [DecidableEq κ]

/-- Pairs with different keys that are put one after the other are the last entries. -/
theorem entries_foldl_put {pairs : List (κ × β)} {t : Table κ β}
    (h : (t.entries ++ pairs).Pairwise fun e e' => e.1 ≠ e'.1) :
    (pairs.foldl (fun t e => t.put e.1 e.2) t).entries = t.entries ++ pairs := by
  induction pairs generalizing t with
  | nil => exact (List.append_nil _).symm
  | cons e rest ih =>
    have hnew : t.contains e.1 = false := contains_eq_false.mpr fun d hd =>
      (List.pairwise_append.mp h).2.2 d hd e List.mem_cons_self
    have hput : (t.put e.1 e.2).entries = t.entries ++ [e] := entries_put_of_not_contains e.2 hnew
    rw [List.foldl_cons, ih, hput, List.append_assoc, List.singleton_append]
    rwa [hput, List.append_assoc]

/-- A list of pairs with different keys is the table of these pairs. -/
theorem entries_ofList {pairs : List (κ × β)} (h : (pairs.map (·.1)).Nodup) :
    (ofList pairs).entries = pairs :=
  entries_foldl_put (t := empty) (List.pairwise_map.mp h)

end Table

namespace Graph

/-- A graph whose nodes have identifiers of their own and whose edges join its nodes. -/
structure Closed (g : Graph) : Prop where
  ids_nodup : g.ids.Nodup
  source_mem : ∀ e ∈ g.edges, e.source ∈ g.ids
  target_mem : ∀ e ∈ g.edges, e.target ∈ g.ids

/-- A text names a node if it is a stretch of the identifier or of the name of the node. -/
def Vertex.NamedBy (focus : String) (v : Vertex) : Prop :=
  focus.toList <:+: v.id.toList ∨ focus.toList <:+: v.name.toList

instance (focus : String) (v : Vertex) : Decidable (v.NamedBy focus) :=
  inferInstanceAs (Decidable (_ ∨ _))

/-- A text selects in a graph if it is not empty and names a node. -/
def Names (g : Graph) (focus : String) : Prop :=
  focus ≠ "" ∧ ∃ v ∈ g.nodes, v.NamedBy focus

/-- An edge touches a node if it starts or ends there. -/
def Edge.Touches (v : Vertex) (e : Edge) : Prop :=
  e.source = v.id ∨ e.target = v.id

instance (v : Vertex) (e : Edge) : Decidable (e.Touches v) :=
  inferInstanceAs (Decidable (_ ∨ _))

/-- The kinds of edges that a list of kinds asks for. -/
def wantedKinds (kinds : List EdgeKind) : List EdgeKind :=
  if kinds.isEmpty then EdgeKind.produced else kinds

/-- The edges of a graph that are of the wanted kinds. -/
def wantedEdges (g : Graph) (kinds : List EdgeKind) : List Edge :=
  g.edges.filter fun e => e.kind ∈ wantedKinds kinds

/-- The edges of the wanted kinds that touch a node which a text names. -/
def namedEdges (g : Graph) (kinds : List EdgeKind) (focus : String) : List Edge :=
  (g.wantedEdges kinds).filter fun e => ∃ v ∈ g.nodes, v.NamedBy focus ∧ e.Touches v

/-- The nodes that a text names or that some edges touch. -/
def namedNodes (g : Graph) (edges : List Edge) (focus : String) : List Vertex :=
  g.nodes.filter fun v => v.NamedBy focus ∨ ∃ e ∈ edges, e.Touches v

variable {g : Graph} {kinds : List EdgeKind} {focus : String}

/-- A node is told by its identifier. -/
theorem Closed.eq_of_id_eq (hg : g.Closed) {u v : Vertex} (hu : u ∈ g.nodes) (hv : v ∈ g.nodes)
    (h : u.id = v.id) : u = v :=
  List.inj_on_of_nodup_map hg.ids_nodup hu hv h

/-- Fewer edges and fewer nodes are a graph of its own if the ends of the edges are kept. -/
theorem Closed.sub (hg : g.Closed) {part : Graph} (hnodes : part.nodes.Sublist g.nodes)
    (hedges : ∀ e ∈ part.edges, e ∈ g.edges)
    (hkept : ∀ e ∈ part.edges, ∀ v ∈ g.nodes, e.Touches v → v ∈ part.nodes) : part.Closed where
  ids_nodup := hg.ids_nodup.sublist (hnodes.map Vertex.id)
  source_mem e he := by
    obtain ⟨v, hv, hid⟩ := List.mem_map.mp (hg.source_mem e (hedges e he))
    exact List.mem_map.mpr ⟨v, hkept e he v hv (.inl hid.symm), hid⟩
  target_mem e he := by
    obtain ⟨v, hv, hid⟩ := List.mem_map.mp (hg.target_mem e (hedges e he))
    exact List.mem_map.mpr ⟨v, hkept e he v hv (.inr hid.symm), hid⟩

/-! ## What is selected -/

/-- The edges of the kinds are the wanted ones. -/
theorem edgesOfKinds_eq (g : Graph) (kinds : List EdgeKind) :
    edgesOfKinds g.edges kinds = g.wantedEdges kinds := by
  unfold edgesOfKinds wantedEdges wantedKinds
  simp only [List.contains_eq_mem]

/-- A vertex matches if the focus names it. -/
theorem mem_matching {nodes : List Vertex} {id : String} :
    id ∈ matching nodes focus ↔ ∃ v ∈ nodes, v.NamedBy focus ∧ v.id = id := by
  unfold matching Vertex.NamedBy
  simp only [List.mem_map, List.mem_filter, Bool.or_eq_true, Text.contains_iff, and_assoc]

/-- Nothing matches if the focus names no vertex. -/
theorem matching_isEmpty {nodes : List Vertex} :
    (matching nodes focus).isEmpty = true ↔ ∀ v ∈ nodes, ¬v.NamedBy focus := by
  rw [List.isEmpty_iff, List.eq_nil_iff_forall_not_mem]
  simp only [mem_matching]
  grind

/-- A closed graph has no vertex twice. -/
theorem distinctNodes_eq (hg : g.Closed) : distinctNodes g.nodes = g.nodes := by
  have hkeys : ((g.nodes.map fun v => (v.id, v)).map (·.1)).Nodup := by
    rw [List.map_map]
    exact hg.ids_nodup
  rw [distinctNodes, Table.values, Table.entries_ofList hkeys, List.map_map]
  exact List.map_id g.nodes

/-- Without a node that the text names, all nodes and all edges of the wanted kinds are kept. -/
theorem select_of_not_names (h : ¬g.Names focus) :
    g.select kinds focus = ⟨g.nodes, g.wantedEdges kinds⟩ := by
  rw [select, edgesOfKinds_eq, around]
  split
  · rfl
  · rename_i hfocus
    dsimp only
    rw [if_pos (matching_isEmpty.mpr fun v hv hname => h ⟨?_, v, hv, hname⟩)]
    exact fun hempty => hfocus (hempty ▸ rfl)

/-- The nodes that a text names are kept, with the edges of the wanted kinds that touch them and the
ends of these edges. -/
theorem select_of_names (hg : g.Closed) (h : g.Names focus) :
    g.select kinds focus =
      ⟨g.namedNodes (g.namedEdges kinds focus) focus, g.namedEdges kinds focus⟩ := by
  obtain ⟨hfocus, u, hu, huname⟩ := h
  have hsome : ¬(matching g.nodes focus).isEmpty = true := fun hempty =>
    matching_isEmpty.mp hempty u hu huname
  have htouching : ((g.wantedEdges kinds).filter fun e =>
      (matching g.nodes focus).contains e.source || (matching g.nodes focus).contains e.target) =
        g.namedEdges kinds focus := by
    refine List.filter_congr fun e _ => Bool.eq_iff_iff.mpr ?_
    simp only [Bool.or_eq_true, List.contains_iff_mem, mem_matching, Edge.Touches]
    grind
  rw [select, edgesOfKinds_eq, around, if_neg (by simpa using hfocus)]
  dsimp only
  rw [if_neg hsome, htouching, distinctNodes_eq hg]
  refine congrArg (Graph.mk · _) (List.filter_congr fun v hv =>
    Bool.eq_iff_iff.mpr (.trans ?_ decide_eq_true_iff.symm))
  -- Another node that the text names would have another identifier.
  have hown : v.id ∈ matching g.nodes focus ↔ v.NamedBy focus := mem_matching.trans
    ⟨fun ⟨u, hu, hname, hid⟩ => hg.eq_of_id_eq hu hv hid ▸ hname, fun hname => ⟨v, hv, hname, rfl⟩⟩
  simp only [List.contains_iff_mem, List.mem_append, hown, List.mem_flatMap, List.mem_cons,
    List.not_mem_nil, or_false, Edge.Touches, eq_comm (a := v.id)]

/-! ## The part that is selected -/

/-- An edge is wanted if it is of a wanted kind. -/
theorem mem_wantedEdges {e : Edge} :
    e ∈ g.wantedEdges kinds ↔ e ∈ g.edges ∧ e.kind ∈ wantedKinds kinds := by
  simp only [wantedEdges, List.mem_filter, decide_eq_true_eq]

/-- An edge is named if it touches a vertex that the focus names. -/
theorem mem_namedEdges {e : Edge} : e ∈ g.namedEdges kinds focus ↔
    e ∈ g.wantedEdges kinds ∧ ∃ v ∈ g.nodes, v.NamedBy focus ∧ e.Touches v := by
  simp only [namedEdges, List.mem_filter, decide_eq_true_eq]

/-- A vertex is kept if the focus names it, or an edge that is kept touches it. -/
theorem mem_namedNodes {edges : List Edge} {v : Vertex} : v ∈ g.namedNodes edges focus ↔
    v ∈ g.nodes ∧ (v.NamedBy focus ∨ ∃ e ∈ edges, e.Touches v) := by
  simp only [namedNodes, List.mem_filter, decide_eq_true_eq]

/-- Of wanted edges all are wanted. -/
theorem wantedEdges_of_subset {part : Graph} (h : part.edges ⊆ g.wantedEdges kinds) :
    part.wantedEdges kinds = part.edges :=
  List.filter_eq_self.mpr fun _ he => decide_eq_true (mem_wantedEdges.mp (h he)).2

/-- The part is closed: a node that an edge of the part touches is kept. -/
theorem select_closed (hg : g.Closed) (kinds : List EdgeKind) (focus : String) :
    (g.select kinds focus).Closed := by
  have hwanted : ∀ e ∈ g.wantedEdges kinds, e ∈ g.edges := fun e he => (mem_wantedEdges.mp he).1
  by_cases h : g.Names focus
  · rw [select_of_names hg h]
    exact hg.sub List.filter_sublist (fun e he => hwanted e (mem_namedEdges.mp he).1)
      fun e he v hv htouches => mem_namedNodes.mpr ⟨hv, .inr ⟨e, he, htouches⟩⟩
  · rw [select_of_not_names h]
    exact hg.sub (List.Sublist.refl _) hwanted fun _ _ _ hv _ => hv

/-- Selecting keeps the order of the vertices. -/
theorem select_nodes_sublist (hg : g.Closed) (kinds : List EdgeKind) (focus : String) :
    (g.select kinds focus).nodes.Sublist g.nodes := by
  by_cases h : g.Names focus
  · rw [select_of_names hg h]
    exact List.filter_sublist
  · rw [select_of_not_names h]

/-- Selecting again changes nothing. -/
theorem select_select (hg : g.Closed) (kinds : List EdgeKind) (focus : String) :
    (g.select kinds focus).select kinds focus = g.select kinds focus := by
  have hclosed := select_closed hg kinds focus
  by_cases h : g.Names focus
  · rw [select_of_names hg h] at hclosed ⊢
    let part : Graph := ⟨g.namedNodes (g.namedEdges kinds focus) focus, g.namedEdges kinds focus⟩
    -- The named nodes are among those that are kept, so they select the same again.
    have hkept : ∀ v ∈ g.nodes, v.NamedBy focus → v ∈ part.nodes := fun v hv hname =>
      mem_namedNodes.mpr ⟨hv, .inl hname⟩
    have hedges : part.namedEdges kinds focus = part.edges := by
      rw [namedEdges, wantedEdges_of_subset fun e he => (mem_namedEdges.mp he).1]
      refine List.filter_eq_self.mpr fun e he => decide_eq_true ?_
      obtain ⟨-, v, hv, hname, htouches⟩ := mem_namedEdges.mp he
      exact ⟨v, hkept v hv hname, hname, htouches⟩
    have hnodes : part.namedNodes part.edges focus = part.nodes :=
      List.filter_eq_self.mpr fun v hv => decide_eq_true (mem_namedNodes.mp hv).2
    obtain ⟨hfocus, v, hv, hname⟩ := h
    rw [select_of_names hclosed ⟨hfocus, v, hkept v hv hname, hname⟩, hedges, hnodes]
  · let part : Graph := ⟨g.nodes, g.wantedEdges kinds⟩
    have hedges : part.wantedEdges kinds = part.edges := wantedEdges_of_subset (List.Subset.refl _)
    rw [select_of_not_names h, select_of_not_names (g := part) h, hedges]

/-- The part of a closed graph around a text is closed, and keeps the order of the nodes. If the
text names a node, its edges are those of the wanted kinds that touch a named node, and its nodes
are the named ones and the ends of its edges; otherwise it has all nodes and all edges of the wanted
kinds. The part of the part is the part itself. -/
theorem select_selects {g : Graph} (hg : g.Closed) (kinds : List EdgeKind) (focus : String) :
    let part := g.select kinds focus
    part.Closed ∧ part.nodes.Sublist g.nodes ∧
      (g.Names focus →
        part.edges = (g.wantedEdges kinds).filter
          (fun e => ∃ v ∈ g.nodes, v.NamedBy focus ∧ e.Touches v) ∧
        part.nodes = g.nodes.filter fun v => v.NamedBy focus ∨ ∃ e ∈ part.edges, e.Touches v) ∧
      (¬g.Names focus → part.edges = g.wantedEdges kinds ∧ part.nodes = g.nodes) ∧
      part.select kinds focus = part := by
  intro part
  refine ⟨select_closed hg kinds focus, select_nodes_sublist hg kinds focus, fun h => ?_,
    fun h => ?_, select_select hg kinds focus⟩
  -- The two cases of the definition, read off.
  · have hpart : part = _ := select_of_names hg h
    rw [hpart]
    exact ⟨rfl, rfl⟩
  · have hpart : part = _ := select_of_not_names h
    rw [hpart]
    exact ⟨rfl, rfl⟩

/-- Functions in a row, each of which calls the next one, and the file they are in. -/
def rowGraph : Graph where
  nodes := [⟨"file:a@0", .file, "a", "/a", default, none⟩,
    ⟨"function:f@0", .function, "f", "/a", default, none⟩,
    ⟨"function:g@9", .function, "g", "/a", default, none⟩,
    ⟨"function:h@18", .function, "h", "/a", default, none⟩]
  edges := [⟨"1", .calls, "function:f@0", "function:g@9", none⟩,
    ⟨"2", .calls, "function:g@9", "function:h@18", none⟩,
    ⟨"3", .dataflow, "function:f@0", "function:g@9", some "x"⟩,
    ⟨"4", .calls, "file:a@0", "function:f@0", none⟩]

/-- Around the last function is the one that calls it. -/
theorem select_selects_last : rowGraph.Closed ∧ rowGraph.Names ":h" ∧
    (rowGraph.select [.calls] ":h").Closed ∧
    (rowGraph.select [.calls] ":h").ids = ["function:g@9", "function:h@18"] ∧
    (rowGraph.select [.calls] ":h").edges.map Edge.id = ["2"] := by
  have hg : rowGraph.Closed := ⟨by decide, by decide, by decide⟩
  have hnames : rowGraph.Names ":h" := ⟨by decide, by decide⟩
  obtain ⟨hclosed, -, hpart, -⟩ := select_selects hg [.calls] ":h"
  obtain ⟨hedges, hnodes⟩ := hpart hnames
  refine ⟨hg, hnames, hclosed, ?_, ?_⟩
  · rw [ids, hnodes, hedges]
    decide
  · rw [hedges]
    decide

end Graph

end ScriptGraph
