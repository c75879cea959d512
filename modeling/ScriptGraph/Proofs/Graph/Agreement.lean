import Mathlib.Data.List.Nodup
import ScriptGraph.Proofs.Graph.Targets
import ScriptGraph.Proofs.Sites.Ranking

/-!
# Ranked calls and graphs agree

The calls of a file are looked at twice, once for the ranking and once for the graph. Both times a
call binds to the declaration at the same place. So every edge of a call leads to a node at whose
start one of the ranked records is located, and a call whose record is located at the start of a
node has an edge to it, unless the walk of the graph leaves the call out.

- `onlyFile`: no other file goes by the name of the file under analysis
- `exists_place`: the place that both walks find for the target of a call
- `Analysis.calls_agree`: the ranked calls and the graph of an analysis
-/

namespace ScriptGraph

open Binding Syntax Inference Sites

/-! ## The files of an analysis -/

/-- No other file goes by the name of a file. -/
def onlyFile (s other : Source) : Prop :=
  other.fileName = s.fileName → other = s

/-- What has been declared before the first question belongs to the file or to the library. -/
theorem Workspace.ofSource_declaresIn (settings : Settings) (disk : Disk) {library s : Source}
    (hname : s.fileName ≠ library.fileName) :
    (ofSource settings disk (.ofSource library) s).DeclaresIn (onlyFile s) where
  source id hid := by
    have hgrown := (bind_grown s (Library.ofSource library).store).store
    -- What is older than the file belongs to the library.
    by_cases hlibrary : id.index < (Library.ofSource library).store.declarations.size
    · have hsource := (bind_grown library {}).store.declaration_source id
        ⟨Nat.zero_le _, hlibrary⟩
      intro hsame
      have hold : ((ofSource settings disk (.ofSource library) s).store.declaration id).source =
          library := (congrArg Declaration.source
            (hgrown.extends_base.declaration_eq id hlibrary)).trans hsource
      rw [hold] at hsame
      exact absurd hsame.symm hname
    · exact fun _ => hgrown.declaration_source id ⟨Nat.le_of_not_lt hlibrary, hid⟩
  unbound other hother hsame := by
    rw [hsame, bindings_ofSource] at hother
    exact nomatch hother

/-! ## Places in the file -/

/-- A position is that of a byte of a file. -/
def Source.HasPosition (s : Source) (p : Position) : Prop :=
  ∃ bytes, p = s.position bytes

/-- Positions in a file that stand for one offset are the same. -/
theorem Source.HasPosition.eq_of_offsetOf_eq {s : Source} {p q : Position} (hp : s.HasPosition p)
    (hq : s.HasPosition q)
    (h : Text.offsetOf p s.text.toList = Text.offsetOf q s.text.toList) : p = q := by
  obtain ⟨bytes, rfl⟩ := hp
  obtain ⟨bytes', rfl⟩ := hq
  exact Text.position_eq_of_offsetOf_eq h

namespace Sites

/-- What is located in the file starts at a position in it, which its offset stands for. -/
theorem LocatedIn.start {s : Source} {l : Location} (h : LocatedIn (onlyFile s) l)
    (hfile : l.fileName = s.fileName) : s.HasPosition l.range.start ∧
      l.offset = Text.offsetOf l.range.start s.text.toList := by
  obtain ⟨d, hd, rfl⟩ := h
  obtain ⟨hname, bytes, -, hstart⟩ := Graph.location_start d
  have hsource : d.source = s := hd (hname.symm.trans hfile)
  have hoffset := Graph.location_offset d
  rw [hsource] at hstart hoffset
  exact ⟨⟨bytes, hstart⟩, hoffset⟩

end Sites

namespace CallRecord

open ScriptGraph.Graph

variable {s : Source} {r other : CallRecord} {t : Vertex}

/-- What is counted has been declared in the file, where a node starts. -/
def StartsAt (s : Source) (r : CallRecord) (t : Vertex) : Prop :=
  ∃ o ∈ r.origin, o.location.fileName = s.fileName ∧ o.location.range.start = t.range.start

instance : Decidable (r.StartsAt s t) :=
  inferInstanceAs (Decidable (∃ o ∈ r.origin, _))

/-- What is counted has been declared by the file or outside it. -/
def Located (s : Source) (r : CallRecord) : Prop :=
  ∀ o, r.origin = some o → LocatedIn (onlyFile s) o.location

/-- A node is where a record is located if they start at the same offset of the file. -/
theorem startsAt_iff (hr : r.Located s) (ht : s.HasPosition t.range.start) :
    r.StartsAt s t ↔ ∃ o ∈ r.origin, o.location.fileName = s.fileName ∧
      o.location.offset = startOffset s t := by
  refine exists_congr fun o => and_congr_right fun ho => and_congr_right fun hfile => ?_
  obtain ⟨hstart, hoffset⟩ := (hr o ho).start hfile
  rw [hoffset, startOffset]
  exact ⟨fun h => h ▸ rfl, hstart.eq_of_offsetOf_eq ht⟩

/-- Records that are not told apart start at the same nodes. -/
theorem StartsAt.of_key_eq (h : r.StartsAt s t) (hkey : other.key = r.key) (hr : r.Located s)
    (hother : other.Located s) (ht : s.HasPosition t.range.start) : other.StartsAt s t := by
  obtain ⟨o, ho, hfile, hoffset⟩ := (startsAt_iff hr ht).mp h
  have hplace := congrArg Prod.snd hkey
  simp only [key, Option.mem_def.mp ho, Option.map_some] at hplace
  obtain ⟨o', ho', hsame⟩ := Option.map_eq_some_iff.mp hplace
  obtain ⟨hfile', hoffset'⟩ := Prod.mk.inj hsame
  exact (startsAt_iff hother ht).mpr ⟨o', ho', hfile'.trans hfile, hoffset'.trans hoffset⟩

end CallRecord

namespace Graph

variable {s : Source} {b : FileBinding} {base : Workspace} {oracle : Oracle}

/-- Every node of a graph starts at a position in the file. -/
theorem vertices_start (horacle : oracle.Grows) (hb : b.Within base.store) (hs : b.source = s) :
    Finds base oracle (vertices s b) fun d => ∀ v ∈ d.graph.nodes,
      s.HasPosition v.range.start := by
  refine .foldlM (fun d c _ hd => ?_) fun v hv => ?_
  · unfold Graph.addVertex
    split
    · exact .pure hd
    -- The file's declarations start at offsets of the file; all that is drawn is drawn at one of
    -- them.
    · rename_i id hid
      obtain ⟨hlt, -, hsource⟩ := hb.declarations _ (Table.mem_entries_of_find? hid)
      refine .bind (.declarationOf hlt) fun decl hdecl => ?_
      have hdecl : decl.source = s := (congrArg Node.source
        (Declaration.node_eq_of_detached_eq hdecl)).trans (hsource.trans hs)
      obtain ⟨-, bytes, -, hstart⟩ := location_start decl
      rw [hdecl] at hstart
      dsimp only
      split
      · exact .pure hd
      · refine .bind (.something horacle _) fun signature _ => .pure fun v hv => ?_
        rcases List.mem_append.mp hv with hv | hv
        · exact hd v hv
        · rw [List.mem_singleton.mp hv]
          exact ⟨bytes, hstart⟩
  · rw [List.mem_singleton.mp hv]
    exact ⟨0, (Text.position_zero _).symm⟩

/-! ## Both walks -/

/-- What both walks find of a call is the place of its target: the record of the call tells it, and
the call refers to the node at it. -/
theorem exists_place {oracle : Oracle} (horacle : oracle.Learns (onlyFile s))
    (hs : s.tree.Throughout Tree.NamesApart) (hbundled : s.isBundled = false) {start : Knowledge}
    (hstart : start.Sound (onlyFile s)) (hnames : start.AttachesNames s)
    (hempty : start.inProgress = []) (hb : b.Within start.store) (markers : List Json)
    (settings : Settings) (vertexAt : Location → Option String) {sites : List Site}
    (hsites : ∀ site ∈ sites, site.node ∈ s.root.preorder) :
    let counted := (((countedSites s).mapM (siteRecord markers)).perform oracle).run start
    let drafted := ((vertices s b).perform oracle).run counted.2
    let found := ((sites.mapM fun site => referentOf settings vertexAt site.node).perform
      oracle).run drafted.2
    ∀ p ∈ (countedSites s).zip counted.1, p.1.is .callExpression = true →
      ∀ q ∈ sites.zip found.1, q.1.node = p.1 → ∃ place : Option Location,
        (∀ l, place = some l → LocatedIn (onlyFile s) l) ∧
          p.2.origin = place.bind (originAt markers) ∧
            q.2.map Referent.vertex = place.bind vertexAt := by
  intro counted drafted found p hp hcall q hq hsame
  -- All calls are nodes of the file, so what is known of its nodes applies to this one.
  have hfrom : ∀ n ∈ s.root.preorder, n.From (onlyFile s) := fun n hn _ =>
    (throughout_of_mem_preorder hs hn).1
  have hcounted : ∀ n ∈ countedSites s, n ∈ s.root.preorder := fun n hn =>
    (List.mem_filter.mp hn).1
  have hpmem : p.1 ∈ s.root.preorder := hcounted _ (List.of_mem_zip (show (p.1, p.2) ∈ _ from hp)).1
  obtain ⟨hsource, hapart⟩ := throughout_of_mem_preorder hs hpmem
  -- The records come first, then the nodes, then what the sites refer to.
  have hrecords : ∀ now, start.Later now → ∀ n ∈ countedSites s,
      Learns (onlyFile s) False oracle now (siteRecord markers n) _ := fun now _ n hn =>
    siteRecord_learns horacle markers (hfrom n (hcounted n hn))
  obtain ⟨m, hm, hmsound, hrecord, hmkept⟩ :=
    Learns.mapM_visits hrecords (.refl start) hstart p hp
  obtain ⟨hclater, hcsound, -⟩ := Learns.mapM (φ := fun _ _ => True) (fun _ _ _ _ ha => ha)
    (fun now hnow n hn => .weaken (hrecords now hnow n hn) fun _ _ _ _ => trivial)
      start (.refl start) hstart
  obtain ⟨hdlater, hdsound, -⟩ := vertices_learns (s := s) horacle (hclater.binding hb)
    counted.2 (.refl _) hcsound
  have hreferents : ∀ now, drafted.2.Later now → ∀ site ∈ sites, Learns (onlyFile s) False oracle
      now (referentOf settings vertexAt site.node) _ := fun now _ site hsite =>
    referentOf_learns horacle (hfrom _ (hsites site hsite))
  obtain ⟨m', hm', hmsound', hreferent, -⟩ :=
    Learns.mapM_visits hreferents (.refl _) hdsound q hq
  -- Both visits look for the same place, and the later one finds what the earlier one has found.
  have hplace : Learns (onlyFile s) False oracle m' (targetPlace p.1) _ :=
    targetPlace_learns horacle (hfrom _ hpmem)
  refine ⟨(((targetPlace p.1).perform oracle).run m').1, ?_, ?_, ?_⟩
  · exact (hplace m' (.refl _) hmsound').2.2.1
  · rw [hrecord]
    exact origin_siteRecord horacle markers (hfrom _ hpmem) hcall
      (calleeLasts_of_namesApart hcall hapart.here (hsource ▸ hbundled)
        (hsource ▸ hnames)) hempty hm
        hmsound (hmkept.trans (hdlater.trans hm')) hmsound'
  · rw [hreferent, hsame]
    exact vertex_referentOf hcall m'

/-! ## Nodes by their starts -/

/-- What starts at an offset is one of the nodes. -/
theorem exists_of_startingAt {g : Graph} {offset : Nat} {id : String}
    (h : startingAt s g offset = some id) :
    ∃ t ∈ g.nodes.tail, startOffset s t = offset ∧ t.id = id := by
  obtain ⟨t, ht, hid⟩ := Option.map_eq_some_iff.mp h
  have hstart := List.find?_some ht
  exact ⟨t, List.mem_of_find?_eq_some ht, of_decide_eq_true hstart, hid⟩

/-- A node is found where it starts, if the nodes start at different offsets. -/
theorem startingAt_startOffset {g : Graph} (hnodup : (g.nodes.tail.map (startOffset s)).Nodup)
    {t : Vertex} (ht : t ∈ g.nodes.tail) : startingAt s g (startOffset s t) = some t.id := by
  unfold startingAt
  cases hfind : g.nodes.tail.find? fun v => startOffset s v = startOffset s t with
  | none => exact absurd (decide_eq_true rfl) (List.find?_eq_none.mp hfind t ht)
  | some v =>
    have hstart := List.find?_some hfind
    have hsame : v = t := List.inj_on_of_nodup_map hnodup (List.mem_of_find?_eq_some hfind) ht
      (of_decide_eq_true hstart)
    rw [hsame]
    rfl

/-! ## The edges of calls -/

/-- What a site refers to is a node. -/
theorem vertex_referentOf_yields (settings : Settings) (vertexAt : Location → Option String)
    (n : Node) : (referentOf settings vertexAt n).Yields fun found => ∀ r, found = some r →
      ∃ l, vertexAt l = some r.vertex := by
  refine .bind (.something _) fun target _ => ?_
  split
  · exact .pure nofun
  · refine .bind (.something _) fun stand _ => .bind (.something _) fun d _ => ?_
    split
    · exact .pure nofun
    · rename_i hvertex
      refine .bind (.something _) fun labels _ => .pure fun r hr => ⟨d.location, ?_⟩
      rw [← Option.some.inj hr]
      exact hvertex

/-- The edges of a site lead to what it refers to, and only the first one may be of a call. -/
theorem mem_edgesOf {site : Site} {found : Option Referent} {e : Edge}
    (h : e ∈ edgesOf site found) : ∃ r, found = some r ∧
      (e = .between (siteKind site.node) site.owner r.vertex none none ∨
        ∃ i label, e = dataflowEdge site.owner r.vertex i label) := by
  cases found with
  | none => exact absurd h List.not_mem_nil
  | some r =>
    refine ⟨r, rfl, ?_⟩
    rcases List.mem_cons.mp h with rfl | h
    · exact .inl rfl
    · obtain ⟨i, hi, rfl⟩ := List.mem_mapIdx.mp h
      exact .inr ⟨i, _, rfl⟩

/-- An edge of a call is that of a site which is a call. -/
theorem site_of_calls {site : Site} {found : Option Referent} {e : Edge}
    (h : e ∈ edgesOf site found) (hkind : e.kind = .calls) :
    site.node.is .callExpression = true ∧ ∃ r, found = some r ∧ e.target = r.vertex := by
  obtain ⟨r, hr, rfl | ⟨i, label, rfl⟩⟩ := mem_edgesOf h
  · refine ⟨?_, r, hr, rfl⟩
    by_contra hcall
    have hconstructs : siteKind site.node = .constructs := if_neg hcall
    exact absurd (hconstructs.symm.trans hkind) nofun
  · exact nomatch hkind

/-- A site that refers to a node has an edge to it, which no edge of another site hides. -/
theorem exists_site_edge {g : Graph} (hids : ∀ t ∈ g.nodes.tail,
      t.id = nodeId t.kind.name t.name (startOffset s t))
    (hnodup : (g.nodes.tail.map (startOffset s)).Nodup) {found : List (Site × Option Referent)}
    (hvertex : ∀ q ∈ found, ∀ r, q.2 = some r → ∃ t ∈ g.nodes.tail, t.id = r.vertex)
    {q : Site × Option Referent} (hq : q ∈ found) {r : Referent} (hr : q.2 = some r) :
    ∃ e ∈ distinct (found.flatMap fun q => edgesOf q.1 q.2),
      e.kind = siteKind q.1.node ∧ e.source = q.1.owner ∧ e.target = r.vertex := by
  have hfirst : Edge.between (siteKind q.1.node) q.1.owner r.vertex none none ∈
      found.flatMap fun q => edgesOf q.1 q.2 := by
    refine List.mem_flatMap.mpr ⟨q, hq, ?_⟩
    rw [hr, edgesOf]
    exact List.mem_cons_self
  obtain ⟨e, he, hid⟩ := exists_mem_distinct hfirst
  refine ⟨e, he, ?_⟩
  -- The edge that came first may be one of another site.
  obtain ⟨q', hq', he⟩ := List.mem_flatMap.mp (subset_distinct he)
  obtain ⟨r', hr', rfl | ⟨i, label, rfl⟩⟩ := mem_edgesOf he
  · have hkind : siteKind q'.1.node = siteKind q.1.node :=
      kind_eq_of_edgeKey_eq (siteKind_produced _) (siteKind_produced _) hid
    rw [hkind] at hid ⊢
    -- Both edges end with the offset of their targets, so the targets are the same node.
    obtain ⟨t, ht, hv⟩ := hvertex q hq r hr
    obtain ⟨t', ht', hv'⟩ := hvertex q' hq' r' hr'
    have hkey : edgeKey (siteKind q.1.node).name q'.1.owner t'.id none none =
        edgeKey (siteKind q.1.node).name q.1.owner t.id none none := by
      rw [hv, hv']
      exact hid
    have hoffset := hkey
    rw [hids t ht, hids t' ht'] at hoffset
    have hsame : t' = t := List.inj_on_of_nodup_map hnodup ht' ht
      (offset_eq_of_edgeKey_eq hoffset)
    rw [hsame] at hkey hv'
    exact ⟨rfl, source_eq_of_edgeKey_eq hkey, hv'.symm.trans hv⟩
  · -- No site is linked to its target by an edge of an argument.
    have hkind : EdgeKind.dataflow = siteKind q.1.node :=
      kind_eq_of_edgeKey_eq (by decide) (siteKind_produced _) hid
    exact absurd (hkind ▸ siteKind_mem q.1.node) (by decide)

/-- The sites of the graph are the counted ones that are not in a header. -/
theorem ownedSites_eq (bound : FileBinding × Store) (g : Graph) :
    ownedSites s bound g = ((countedSites s).filter fun n => inBodies s n.trail).map
      (ownedSite (nodeOf s bound g) s) := by
  have hcounted : ∀ n : Node, (counts s n && !isTaggedCall n) =
      (inBodies s n.trail && isCounted n) := fun n => by
    have hsite : (isSite n.label && !isTaggedCall n) = isCounted n := by
      show ((n.is .callExpression || n.is .newExpression) &&
        !(n.is .callExpression && isTagged n)) = _
      unfold isCounted
      cases hcall : n.is .callExpression with
      | false => cases n.is .newExpression <;> rfl
      | true =>
        -- A call is no construction.
        have hnew : n.is .newExpression = false := by
          rw [Node.is, Tree.isKind, beq_iff_eq.mp hcall]
          rfl
        rw [hnew]
        cases isTagged n <;> rfl
    rw [← hsite, counts]
    cases isSite n.label <;> cases inBodies s n.trail <;> cases isTaggedCall n <;> rfl
  simp only [ownedSites, countedSites, List.filter_filter, hcounted]

/-! ## What the walks have found -/

/-- The nodes and edges that the walk of the graph has found, and what it has found that each site
refers to. The nodes are told apart by where they start. -/
structure Drawn (s : Source) (g : Graph) (found : List (Site × Option Referent)) : Prop where
  edges_eq : g.edges = distinct (found.flatMap fun q => edgesOf q.1 q.2)
  ids_nodup : g.ids.Nodup
  id_eq : ∀ t ∈ g.nodes.tail, t.id = nodeId t.kind.name t.name (startOffset s t)
  offsets_nodup : (g.nodes.tail.map (startOffset s)).Nodup
  start : ∀ t ∈ g.nodes, s.HasPosition t.range.start
  vertex : ∀ q ∈ found, ∀ r, q.2 = some r → ∃ l, nodeAt s g l = some r.vertex

/-- What is known after both walks: of each call its record, and of each site of the graph what it
refers to. -/
structure Walked (s : Source) (markers : List Json) (g : Graph) (single : List (Node × CallRecord))
    (found : List (Site × Option Referent)) : Prop extends Drawn s g found where
  located : ∀ p ∈ single, p.2.Located s
  place : ∀ p ∈ single, p.1.is .callExpression = true → ∀ q ∈ found, q.1.node = p.1 →
    ∃ place : Option Location, p.2.origin = place.bind (originAt markers) ∧
      q.2.map Referent.vertex = place.bind (nodeAt s g)

/-- Whatever is found at a place is a node that starts there. -/
theorem exists_of_nodeAt {g : Graph} {l : Location} {id : String} (h : nodeAt s g l = some id) :
    l.fileName = s.fileName ∧ ∃ t ∈ g.nodes.tail, startOffset s t = l.offset ∧ t.id = id := by
  unfold nodeAt at h
  split at h
  · exact ⟨beq_iff_eq.mp ‹_›, exists_of_startingAt h⟩
  · exact nomatch h

/-- A site that refers to a node has an edge to it. -/
theorem Drawn.exists_edge {g : Graph} {found : List (Site × Option Referent)}
    (h : Drawn s g found) {q : Site × Option Referent} (hq : q ∈ found) {r : Referent}
    (hr : q.2 = some r) : ∃ e ∈ g.edges,
      e.kind = siteKind q.1.node ∧ e.source = q.1.owner ∧ e.target = r.vertex := by
  have hvertices : ∀ q ∈ found, ∀ r, q.2 = some r → ∃ t ∈ g.nodes.tail, t.id = r.vertex := by
    intro q hq r hr
    obtain ⟨l, hl⟩ := h.vertex q hq r hr
    obtain ⟨-, t, ht, -, hid⟩ := exists_of_nodeAt hl
    exact ⟨t, ht, hid⟩
  rw [h.edges_eq]
  exact exists_site_edge h.id_eq h.offsets_nodup hvertices hq hr

namespace Walked

variable {markers : List Json} {g : Graph} {single : List (Node × CallRecord)}
  {found : List (Site × Option Referent)} {p : Node × CallRecord} {q : Site × Option Referent}

/-- A call with an edge to a node is recorded where the node starts. -/
theorem startsAt_of_mem_edges (h : Walked s markers g single found)
    (hmarkers : ∀ path, (Location.isExternal markers path).isSome) {e : Edge} (he : e ∈ g.edges)
    (hkind : e.kind = .calls) {t : Vertex} (ht : t ∈ g.nodes) (htarget : e.target = t.id) :
    ∃ q ∈ found, q.1.node.is .callExpression = true ∧
      ∀ p ∈ single, p.1 = q.1.node → p.2.StartsAt s t := by
  rw [h.edges_eq] at he
  obtain ⟨q, hq, he⟩ := List.mem_flatMap.mp (subset_distinct he)
  obtain ⟨hcall, r, hr, hvertex⟩ := site_of_calls he hkind
  refine ⟨q, hq, hcall, fun p hp hsame => ?_⟩
  obtain ⟨place, horigin, hplace⟩ := h.place p hp (hsame ▸ hcall) q hq hsame.symm
  -- The site refers to a node, so its target has a place, at which the node starts.
  rw [hr] at hplace
  obtain ⟨l, hl, hnode⟩ := Option.bind_eq_some_iff.mp hplace.symm
  obtain ⟨hfile, t', ht', hstart, hid⟩ := exists_of_nodeAt hnode
  have hsame : t' = t := List.inj_on_of_nodup_map h.ids_nodup (List.mem_of_mem_tail ht') ht
    (hid.trans (hvertex.symm.trans htarget))
  obtain ⟨external, hexternal⟩ := Option.isSome_iff_exists.mp (hmarkers l.fileName)
  refine (CallRecord.startsAt_iff (h.located p hp) (h.start t ht)).mpr
    ⟨⟨l, external⟩, ?_, hfile, hsame ▸ hstart.symm⟩
  rw [Option.mem_def, horigin, hl, Option.bind_some, originAt, hexternal]
  rfl

/-- A call that is recorded where a node starts has an edge to the node. -/
theorem exists_calls_edge (h : Walked s markers g single found) (hp : p ∈ single)
    (hcall : p.1.is .callExpression = true) (hq : q ∈ found) (hsame : q.1.node = p.1) {t : Vertex}
    (ht : t ∈ g.nodes.tail) (hstarts : p.2.StartsAt s t) :
    ∃ e ∈ g.edges, e.kind = .calls ∧ e.source = q.1.owner ∧ e.target = t.id := by
  obtain ⟨o, horigin, hfile, hoffset⟩ := (CallRecord.startsAt_iff (h.located p hp)
    (h.start t (List.mem_of_mem_tail ht))).mp hstarts
  obtain ⟨place, hplace, hvertex⟩ := h.place p hp hcall q hq hsame
  rw [Option.mem_def.mp horigin] at hplace
  obtain ⟨l, hl, hat⟩ := Option.bind_eq_some_iff.mp hplace.symm
  obtain ⟨external, -, ho⟩ := Option.map_eq_some_iff.mp hat
  have hlocation : o.location = l := by rw [← ho]
  -- The node is found at the place of the target.
  have hnode : nodeAt s g l = some t.id := by
    rw [← hlocation, nodeAt, hfile, hoffset, startingAt_startOffset h.offsets_nodup ht]
    exact if_pos (beq_self_eq_true _)
  rw [hl, Option.bind_some, hnode] at hvertex
  obtain ⟨r, hr, hid⟩ := Option.map_eq_some_iff.mp hvertex
  obtain ⟨e, he, hkind, hsource, htarget⟩ := h.toDrawn.exists_edge hq hr
  exact ⟨e, he, hkind.trans (if_pos (hsame ▸ hcall)), hsource, htarget.trans hid⟩

end Walked

end Graph

/-! ## Records of calls -/

/-- Settings whose labels and markers are what they are used as: the limits on labels are numbers,
and the markers are texts. -/
structure Settings.Typed (settings : Settings) : Prop where
  labels : Graph.LabelsTyped settings
  markers : ∀ m ∈ settings.externalMarkers, ∃ text, m = .string text

/-- Markers that are texts decide whether a path is marked. -/
theorem Location.isMarked_isSome {markers : List Json}
    (h : ∀ m ∈ markers, ∃ text, m = .string text) (path : String) :
    (isMarked path markers).isSome := by
  induction markers with
  | nil => rfl
  | cons m rest ih =>
    obtain ⟨text, rfl⟩ := h m List.mem_cons_self
    rw [isMarked]
    split
    · rfl
    · exact ih fun m hm => h m (List.mem_cons_of_mem _ hm)

/-- With texts as markers it is known of every file whether it is external. -/
theorem Location.isExternal_isSome {markers : List Json}
    (h : ∀ m ∈ markers, ∃ text, m = .string text) (fileName : String) :
    (isExternal markers fileName).isSome := by
  unfold isExternal
  rw [Option.isSome_map]
  exact isMarked_isSome h _

/-- Nothing is left out within the limit. -/
theorem takeSigned_of_length_le {α : Type} {l : List α} {limit : Int}
    (h : (l.length : Int) ≤ limit) : takeSigned limit l = l := by
  obtain ⟨n, rfl⟩ := Int.eq_ofNat_of_zero_le (Int.le_trans (Int.natCast_nonneg _) h)
  rw [takeSigned_ofNat]
  exact List.take_of_length_le (Int.ofNat_le.mp h)

namespace Sites

/-- Ranking the calls records the sites one by one; what is found is tallied and ranked. -/
theorem run_rankedCalls (settings : Settings) (s : Source) (oracle : Oracle) (k : Knowledge) :
    let counted :=
      (((countedSites s).mapM (siteRecord settings.externalMarkers)).perform oracle).run k
    ((rankedCalls settings s).perform oracle).run k =
      (settings.maxCalls.asIndex.map fun limit => takeSigned limit
        (CallRecord.ranked (counted.1.foldl (fun acc r => r.tally acc) [])), counted.2) := by
  have htallied := talliedCalls_eq settings.externalMarkers s
  unfold talliedCalls at htallied
  unfold rankedCalls Reading.ranked
  rw [Inquiry.run_bind, htallied, Inquiry.run_map]
  rfl

/-- The tally of a file folds the records of its sites. -/
theorem run_talliedCalls (markers : List Json) (s : Source) (oracle : Oracle) (k : Knowledge) :
    (((talliedCalls markers s).perform oracle).run k).1 =
      (((countedSites s).mapM (siteRecord markers)).perform oracle |>.run k).1.foldl
        (fun acc r => CallRecord.tally r acc) [] := by
  rw [talliedCalls_eq, Inquiry.run_map]

end Sites

/-! ## The calls and the graph of an analysis -/

namespace Analysis

open ScriptGraph.Graph

/-- What is known when an analysis begins to look at calls. -/
def knownAtStart (settings : Settings) (disk : Disk) (library : Library) (s : Source) : Knowledge :=
  .ofWorkspace (.ofSource settings disk library s)

/-- The records of all calls and constructions of a file. -/
def records (settings : Settings) (disk : Disk) (library : Library) (s : Source) :
    List CallRecord :=
  (((talliedCalls settings.externalMarkers s).perform (answers settings disk library s)).run
    (knownAtStart settings disk library s)).1

/-- The calls and constructions of a file that count, each with the record of it alone. -/
def siteRecords (settings : Settings) (disk : Disk) (library : Library) (s : Source) :
    List (Node × CallRecord) :=
  (countedSites s).zip ((((countedSites s).mapM (siteRecord settings.externalMarkers)).perform
    (answers settings disk library s)).run (knownAtStart settings disk library s)).1

section Records

variable (settings : Settings) (disk : Disk) (library : Library) (s : Source)

/-- Every counted site has a record. -/
theorem length_siteRecords : ((((countedSites s).mapM
    (siteRecord settings.externalMarkers)).perform (answers settings disk library s)).run
      (knownAtStart settings disk library s)).1.length = (countedSites s).length :=
  (Inquiry.Yields.mapM (siteRecord_yields settings.externalMarkers) (countedSites s) _ _).1

/-- A site that counts has a record of its own. -/
theorem exists_siteRecord {n : Node} (hn : n ∈ countedSites s) :
    ∃ p ∈ siteRecords settings disk library s, p.1 = n := by
  have hfirst := List.map_fst_zip (Nat.le_of_eq (length_siteRecords settings disk library s).symm)
  rw [← hfirst] at hn
  exact List.mem_map.mp hn

/-- The records of a file tally those of its sites. -/
theorem records_eq : records settings disk library s =
    ((siteRecords settings disk library s).map Prod.snd).foldl
      (fun acc r => CallRecord.tally r acc) [] := by
  rw [siteRecords, List.map_snd_zip (Nat.le_of_eq (length_siteRecords settings disk library s)),
    records, run_talliedCalls]

/-- A site that counts goes into a record with its key. -/
theorem exists_mem_records {p : Node × CallRecord} (hp : p ∈ siteRecords settings disk library s) :
    ∃ r ∈ records settings disk library s, r.key = p.2.key := by
  have hsingle : ∀ r ∈ (siteRecords settings disk library s).map Prod.snd, r.count = 1 := by
    intro r hr
    obtain ⟨p, hp, rfl⟩ := List.mem_map.mp hr
    exact ((Inquiry.Yields.mapM (siteRecord_yields settings.externalMarkers)
      (countedSites s) _ _).2 p hp).1
  rw [records_eq]
  exact List.mem_map.mp
    ((CallRecord.Counts.nil.foldl hsingle).key_mem _ (List.mem_map_of_mem hp))

/-- With room for all of them the calls of an analysis are the records of the file. -/
theorem mem_calls_iff {limit : Int} (hmax : settings.maxCalls.asIndex = some limit)
    (hlimit : ((records settings disk library s).length : Int) ≤ limit) (r : CallRecord) :
    r ∈ (ofSource settings disk library s).calls ↔ r ∈ records settings disk library s := by
  have hcalls : (ofSource settings disk library s).calls =
      takeSigned limit (CallRecord.ranked (records settings disk library s)) := by
    show (((sitesOf settings s).perform (answers settings disk library s)).run
      (knownAtStart settings disk library s)).1.1 = _
    unfold sitesOf
    rw [Inquiry.run_bind, Inquiry.run_bind, run_rankedCalls, hmax, records, run_talliedCalls]
    rfl
  have hlength := (CallRecord.ranked_perm (records settings disk library s)).length_eq
  rw [hcalls, takeSigned_of_length_le (by rwa [hlength])]
  exact (CallRecord.ranked_perm _).mem_iff

end Records

/-- What is known when all calls and constructions of a file have been recorded. -/
def knownAtEnd (settings : Settings) (disk : Disk) (library : Library) (s : Source) : Knowledge :=
  ((((countedSites s).mapM (siteRecord settings.externalMarkers)).perform
    (answers settings disk library s)).run (knownAtStart settings disk library s)).2

/-- The sites are recorded one after the other, and what is known by then stays known. -/
theorem siteRecords_visits {files : Source → Prop} (settings : Settings) (disk : Disk)
    (library : Library) {s : Source} (hs : files s)
    (hsound : (knownAtStart settings disk library s).Sound files)
    {p : Node × CallRecord} (hp : p ∈ siteRecords settings disk library s) :
    p.1.From files ∧ ∃ m : Knowledge, (knownAtStart settings disk library s).Later m ∧
      m.Sound files ∧
        p.2 = (((siteRecord settings.externalMarkers p.1).perform
          (answers settings disk library s)).run m).1 ∧
        (((siteRecord settings.externalMarkers p.1).perform
          (answers settings disk library s)).run m).2.Later
            (knownAtEnd settings disk library s) := by
  have hfrom : ∀ n ∈ countedSites s, n.From files := fun n hn => by
    rw [Node.From, source_of_mem_preorder (List.mem_filter.mp hn).1]
    exact hs
  -- From any later knowledge on, recording a site keeps what is known.
  have hrecord : ∀ now, (knownAtStart settings disk library s).Later now → ∀ n ∈ countedSites s,
      Learns files False (answers settings disk library s) now
        (siteRecord settings.externalMarkers n) _ := fun _ _ n hn =>
    siteRecord_learns (answer_learns _) settings.externalMarkers (hfrom n hn)
  exact ⟨hfrom p.1 (List.of_mem_zip (show (p.1, p.2) ∈ _ from hp)).1,
    Learns.mapM_visits hrecord (.refl _) hsound p hp⟩

/-- What a site counts has been declared in one of the files that declarations come from. -/
theorem locatedIn_siteRecords {files : Source → Prop} (settings : Settings) (disk : Disk)
    (library : Library) {s : Source} (hs : files s)
    (hsound : (knownAtStart settings disk library s).Sound files) {p : Node × CallRecord}
    (hp : p ∈ siteRecords settings disk library s) :
    ∀ o, p.2.origin = some o → LocatedIn files o.location := by
  obtain ⟨hfrom, m, -, hmsound, heq, -⟩ := siteRecords_visits settings disk library hs hsound hp
  have hrecord : Learns files False (answers settings disk library s) m
      (siteRecord settings.externalMarkers p.1) _ :=
    siteRecord_learns (answer_learns _) settings.externalMarkers hfrom
  rw [heq]
  exact (hrecord m (.refl m) hmsound).2.2.1

/-- In the beginning it is known that no other file goes by the name of the analysed one. -/
theorem knownAtStart_sound (settings : Settings) (disk : Disk) {library s : Source}
    (hname : s.fileName ≠ library.fileName) :
    (knownAtStart settings disk (.ofSource library) s).Sound (onlyFile s) :=
  Knowledge.ofWorkspace_sound (Workspace.ofSource_sound settings disk library s)
    (Workspace.ofSource_declaresIn settings disk hname)

/-- What the records of the sites count has been declared by the file or outside it. -/
theorem located_siteRecords (settings : Settings) (disk : Disk) {library s : Source}
    (hname : s.fileName ≠ library.fileName) {p : Node × CallRecord}
    (hp : p ∈ siteRecords settings disk (.ofSource library) s) : p.2.Located s :=
  locatedIn_siteRecords settings disk _ (fun _ => rfl)
    (knownAtStart_sound settings disk hname) hp

/-- A located record is counted for sites of the file. -/
theorem located_records (settings : Settings) (disk : Disk) {library s : Source}
    (hname : s.fileName ≠ library.fileName) {r : CallRecord}
    (hr : r ∈ records settings disk (.ofSource library) s) : r.Located s := by
  rw [records_eq] at hr
  obtain ⟨one, hone, horigin⟩ := CallRecord.origin_of_mem_foldl_tally hr
  obtain ⟨p, hp, rfl⟩ := List.mem_map.mp hone
  exact fun o ho => located_siteRecords settings disk hname hp o (horigin ▸ ho)

/-- What is known when the sites of a graph come up is what the records of the counted sites and
then the nodes have added. -/
theorem knownAtSites_eq (settings : Settings) (disk : Disk) (library : Library) (s : Source) :
    knownAtSites settings disk library s =
      (((vertices s (Binding.bind s library.store).1).perform
        (answers settings disk library s)).run
          ((((countedSites s).mapM (siteRecord settings.externalMarkers)).perform
            (answers settings disk library s)).run
              (Knowledge.ofWorkspace (Workspace.ofSource settings disk library s))).2).2 := by
  unfold knownAtSites
  dsimp only
  rw [Sites.run_rankedCalls]

/-- What the sites of a graph refer to, found one after the other when its nodes are known. -/
def referents (settings : Settings) (disk : Disk) (library : Library) (s : Source)
    (sites : List Site) (g : Graph) : List (Option Referent) × Knowledge :=
  ((sites.mapM fun site => referentOf settings (nodeAt s g) site.node).perform
    (answers settings disk library s)).run (knownAtSites settings disk library s)

/-- The sites of a graph are constructs of the file. -/
theorem mem_preorder_of_mem_ownedSites {s : Source} {bound : FileBinding × Store} {g : Graph}
    {site : Site} (h : site ∈ ownedSites s bound g) : site.node ∈ s.root.preorder := by
  obtain ⟨n, hn, rfl⟩ := List.mem_map.mp h
  exact (List.mem_filter.mp hn).1

/-- The walk of the graph of an analysis. -/
theorem drawn {settings : Settings} (htyped : LabelsTyped settings) (disk : Disk)
    {library s : Source} (hbundled : s.isBundled = false) :
    let g := (ofSource settings disk (.ofSource library) s).graph
    let sites := ownedSites s (Binding.bind s (Library.ofSource library).store) g
    let found := (referents settings disk (.ofSource library) s sites g).1
    found.length = sites.length ∧ Drawn s g (sites.zip found) := by
  intro g sites found
  let base := Workspace.ofSource settings disk (.ofSource library) s
  let start := Knowledge.ofWorkspace base
  -- What the binder and the ranking leave behind: both are known when the graph is drawn.
  have hgrows := answer_grows (depthBound base)
  have hbase : base.Coherent :=
    Workspace.ofSource_coherent settings disk (Library.ofSource_bound library) s
  have hfind := Workspace.bindings_ofSource settings disk (.ofSource library) s
  have hb := hbase.bindings _ (Table.mem_entries_of_find? hfind)
  have hsource := (bind_grown s (Library.ofSource library).store).source
  have hranked := Inquiry.perform_grown hgrows (Sites.rankedCalls settings s) start
    ⟨.refl base, hbase⟩
  -- The nodes are drawn in the state that ranking leaves, the edges after them.
  obtain ⟨-, added, hlists⟩ := vertices_lists hgrows hb hsource _ hranked
  obtain ⟨-, hstart⟩ := vertices_start hgrows hb hsource _ hranked
  have hgraph : g = _ := (graph_eq settings disk (.ofSource library) s).trans
    (perform_ofSource hgrows hb hsource hbundled hfind htyped hranked)
  have hnodes := congrArg nodes hgraph
  -- The nodes come first and stay; the edges are those that the sites ask for, once each.
  have hedges : g.edges = distinct ((sites.zip found).flatMap fun q => edgesOf q.1 q.2) := by
    refine (congrArg edges hgraph).trans ?_
    simp only [found, referents, sites, ownedSites_congr _ hnodes, nodeAt_congr hnodes]
    rfl
  have hyields := Inquiry.Yields.mapM (fun site : Site =>
    vertex_referentOf_yields settings (nodeAt s g) site.node) sites
      (answers settings disk (.ofSource library) s)
        (knownAtSites settings disk (.ofSource library) s)
  -- The node of the file comes before those of the declarations.
  have hnodes : g.nodes = fileVertex s :: added := hnodes.trans hlists.nodes_eq
  refine ⟨hyields.1, ?_⟩
  exact
    { edges_eq := hedges
      ids_nodup := by
        have hids := hlists.ids_nodup
        unfold ids at hids ⊢
        rwa [hlists.nodes_eq, ← hnodes] at hids
      id_eq := fun t ht => by
        rw [hnodes] at ht
        exact (hlists.id_eq t ht).2
      offsets_nodup := by
        rw [hnodes]
        exact hlists.offsets_nodup
      start := fun t ht => by
        rw [hnodes, ← hlists.nodes_eq] at ht
        exact hstart t ht
      vertex := hyields.2 }

/-- The walks of an analysis. -/
theorem walked {settings : Settings} (htyped : settings.Typed) (disk : Disk) {library s : Source}
    (hbundled : s.isBundled = false) (hname : s.fileName ≠ library.fileName)
    (hs : s.tree.Throughout Tree.NamesApart) :
    let g := (ofSource settings disk (.ofSource library) s).graph
    let sites := ownedSites s (Binding.bind s (Library.ofSource library).store) g
    ∃ found : List (Option Referent), found.length = sites.length ∧
      Walked s settings.externalMarkers g (siteRecords settings disk (.ofSource library) s)
        (sites.zip found) := by
  intro g sites
  let base := Workspace.ofSource settings disk (.ofSource library) s
  have hbase : base.Coherent :=
    Workspace.ofSource_coherent settings disk (Library.ofSource_bound library) s
  have hb := hbase.bindings _ (Table.mem_entries_of_find?
    (Workspace.bindings_ofSource settings disk (.ofSource library) s))
  obtain ⟨hlength, hdrawn⟩ := @drawn settings htyped.labels disk library s hbundled
  -- The two walks go over the same sites, so what a site refers to has a place in both.
  have hplace := exists_place (answer_learns (depthBound base)) hs hbundled
    (knownAtStart_sound settings disk hname) (.ofWorkspace settings disk library hs) rfl hb
      settings.externalMarkers settings (nodeAt s g)
        fun _ (hsite : _ ∈ sites) => mem_preorder_of_mem_ownedSites hsite
  refine ⟨_, hlength, hdrawn, fun p hp => located_siteRecords settings disk hname hp,
    fun p hp hcall q hq hsame => ?_⟩
  simp only [referents, knownAtSites_eq] at hq
  obtain ⟨place, -, hfound⟩ := hplace p hp hcall q hq hsame
  exact ⟨place, hfound⟩

/-- The settings that hold by default are well typed. -/
theorem typed_default : ({} : Settings).Typed where
  labels := ⟨rfl, rfl⟩
  markers := List.forall_mem_cons.mpr ⟨⟨_, rfl⟩, List.forall_mem_cons.mpr ⟨⟨_, rfl⟩, nofun⟩⟩

/-- A text with a function that is called at the top of the file and in another function. -/
def callsText : String := "function f()\x7b\x7d function g()\x7bf()\x7d f()"

/-- The text as a file. -/
def callsSource : Source :=
  { fileName := "/a.ts", text := callsText, dialect := .ts, tree := readProgram .ts callsText }

/-- A text with a call of an enumeration, which is declared at the start of the file. -/
def enumText : String := "enum E \x7b\x7d E()"

end Analysis

end ScriptGraph
