import ScriptGraph.Graph.Dot
import ScriptGraph.Proofs.Graph.WellFormed

/-!
# Reading DOT texts

The DOT text of a graph tells its nodes and edges. A line feed is escaped wherever it stands, so
each statement has a line of its own; backslashes and quotation marks are escaped as well, so a
quoted text ends at the first mark that is not escaped, and its escapes can be undone. What comes
after the first quoted text of a line tells nodes from edges, and a node's label is its kind up to
the first line feed.

- `readQuoted_escaped`: a quoted text is read back
- `readStatement_dotLine`: a line is read back
- `toDot_tells`: a text is read back, line by line
-/

namespace ScriptGraph.Graph

/-! ## A reader -/

/-- What a statement of a text tells. -/
inductive Statement
  | node (id : String) (kind : NodeKind) (name : String)
  | edge (source target : String) (kind : EdgeKind) (label : String)
deriving DecidableEq, Repr

/-- The character that a backslash and a character stand for. -/
def unescapedChar (c : Char) : Char :=
  if c = 'n' then '\n' else c

/-- The text up to a quotation mark that is not escaped, and what follows the mark. -/
def readQuoted : List Char → Option (List Char × List Char)
  | [] => none
  | '"' :: rest => some ([], rest)
  | '\\' :: c :: rest => (readQuoted rest).map fun p => (unescapedChar c :: p.1, p.2)
  | c :: rest => (readQuoted rest).map fun p => (c :: p.1, p.2)

/-- What follows a lead. -/
def after (lead : String) (text : List Char) : Option (List Char) :=
  if lead.toList.isPrefixOf text then some (text.drop lead.toList.length) else none

/-- What the label of a node tells of the node. -/
def readLabel (id : String) (label : List Char) : Statement :=
  .node id (.ofName (String.ofList (label.takeWhile (· ≠ '\n'))))
    (String.ofList (label.dropWhile (· ≠ '\n')).tail)

/-- What follows the source of an edge. -/
def readEdge (source : String) (text : List Char) : Option Statement := do
  let (target, rest) ← readQuoted (← after " -> \"" text)
  let (label, rest) ← readQuoted (← after " [label=\"" rest)
  let style ← after ", style=" rest
  let kind ← EdgeKind.produced.find? fun k => (k.style ++ "];").toList = style
  return .edge source (String.ofList target) kind (String.ofList label)

/-- What a line tells. -/
def readStatement (line : List Char) : Option Statement := do
  let (first, rest) ← readQuoted (← after "  \"" line)
  match after " [label=\"" rest with
  | some rest => return readLabel (String.ofList first) (← readQuoted rest).1
  | none => readEdge (String.ofList first) rest

/-- The lines of a text. -/
def textLines (text : String) : List (List Char) :=
  text.toList.splitOn '\n'

/-- What the lines between the first two and the last one tell. -/
def readDot (text : String) : Option (List Statement) :=
  ((textLines text).drop 2).dropLast.mapM readStatement

/-! ## What is written -/

/-- The kinds of nodes that a label tells. -/
def NodeKind.known : List NodeKind :=
  [file, function, method, «class», external]

/-- What a node is written as. -/
def Vertex.statement (v : Vertex) : Statement :=
  .node v.id v.kind v.name

/-- What an edge is written as. An edge without a label shows its kind. -/
def Edge.statement (e : Edge) : Statement :=
  .edge e.source e.target e.kind (e.label.getD e.kind.name)

/-- What the statements of a graph tell: its nodes, and the edges that join them. -/
def statements (g : Graph) : List Statement :=
  g.nodes.map Vertex.statement ++
    (g.edges.filter fun e => e.source ∈ g.ids ∧ e.target ∈ g.ids).map Edge.statement

/-- The lines of the statements of a graph. -/
def statementLines (g : Graph) : List String :=
  g.nodes.map Vertex.dotLine ++ (innerEdges g).map Edge.dotLine

/-- The lines of a graph. -/
def dotLines (g : Graph) : List String :=
  "digraph CodeGraph \x7b" :: "  rankdir=LR;" :: (g.statementLines ++ ["\x7d"])

/-! ## Escapes -/

/-- A text is escaped character by character. -/
theorem toList_escaped (text : String) : (escaped text).toList = text.toList.flatMap escapedChar :=
  String.toList_ofList

/-- Two texts are escaped one after the other. -/
theorem escaped_append (a b : String) : escaped (a ++ b) = escaped a ++ escaped b := by
  refine String.toList_inj.mp ?_
  rw [String.toList_append, toList_escaped, toList_escaped, toList_escaped, String.toList_append,
    List.flatMap_append]

/-- No escaped character is a line break. -/
theorem newline_notMem_escapedChar (c : Char) : '\n' ∉ escapedChar c := by
  by_cases hline : c = '\n'
  · subst hline
    decide
  · unfold escapedChar
    split
    · decide
    · split <;> simp [hline, Ne.symm hline]

/-- A line feed is escaped. -/
theorem newline_notMem_escaped (text : String) : '\n' ∉ (escaped text).toList := by
  rw [toList_escaped]
  intro h
  obtain ⟨c, -, hc⟩ := List.mem_flatMap.mp h
  exact newline_notMem_escapedChar c hc

/-- A quoted text is read back, whatever follows it. -/
theorem readQuoted_flatMap (text rest : List Char) :
    readQuoted (text.flatMap escapedChar ++ '"' :: rest) = some (text, rest) := by
  -- One case for each character that is escaped, and one for all the others.
  induction text with
  | nil => rfl
  | cons c text ih =>
    rw [List.flatMap_cons, List.append_assoc, escapedChar]
    by_cases hslash : c = '\\'
    · subst hslash
      simp [readQuoted, unescapedChar, ih]
    · by_cases hquote : c = '"'
      · subst hquote
        simp [readQuoted, unescapedChar, ih]
      · by_cases hline : c = '\n'
        · subst hline
          simp [readQuoted, unescapedChar, ih]
        · simp [readQuoted, hslash, hquote, hline, ih]

/-- A quoted text is read back. -/
theorem readQuoted_escaped (text : String) (rest : List Char) :
    readQuoted ((escaped text).toList ++ '"' :: rest) = some (text.toList, rest) := by
  rw [toList_escaped, readQuoted_flatMap]

/-! ## Lines -/

/-- What follows a lead is what remains after it. -/
theorem after_append (lead : String) (rest : List Char) :
    after lead (lead.toList ++ rest) = some rest := by
  rw [after, if_pos (List.isPrefixOf_iff_prefix.mpr (List.prefix_append _ _)), List.drop_left]

/-- The line of a node. -/
theorem Vertex.toList_dotLine (v : Vertex) : v.dotLine.toList =
    "  \"".toList ++ ((escaped v.id).toList ++ '"' :: (" [label=\"".toList ++
      ((escaped (v.kind.name ++ "\n" ++ v.name)).toList ++
        '"' :: (", shape=" ++ v.kind.shape ++ "];").toList))) := by
  have hline : escaped "\n" = "\\n" := rfl
  simp [Vertex.dotLine, escaped_append, hline]

/-- The line of an edge. -/
theorem Edge.toList_dotLine (e : Edge) : e.dotLine.toList =
    "  \"".toList ++ ((escaped e.source).toList ++ '"' :: (" -> \"".toList ++
      ((escaped e.target).toList ++ '"' :: (" [label=\"".toList ++
        ((escaped (e.label.getD e.kind.name)).toList ++
          '"' :: (", style=".toList ++ (e.kind.style ++ "];").toList)))))) := by
  simp [Edge.dotLine]

/-- Kinds have names without line feeds, by which they are found. -/
theorem NodeKind.name_of_known : ∀ kind ∈ NodeKind.known,
    '\n' ∉ kind.name.toList ∧ NodeKind.ofName kind.name = kind := by
  decide

/-- The styles of edges tell their kinds. -/
theorem EdgeKind.find?_style : ∀ kind ∈ EdgeKind.produced, EdgeKind.produced.find?
    (fun k => (k.style ++ "];").toList = (kind.style ++ "];").toList) = some kind := by
  decide

/-- The kind of a node is what comes before the first line feed of its label. -/
theorem readLabel_eq {v : Vertex} (h : v.kind ∈ NodeKind.known) :
    readLabel v.id (v.kind.name ++ "\n" ++ v.name).toList = v.statement := by
  obtain ⟨hline, hkind⟩ := NodeKind.name_of_known v.kind h
  have hlabel : (v.kind.name ++ "\n" ++ v.name).toList =
      v.kind.name.toList ++ '\n' :: v.name.toList := by simp
  have hbefore : ∀ c ∈ v.kind.name.toList, decide (c ≠ '\n') = true := fun c hc =>
    decide_eq_true fun he => hline (he ▸ hc)
  rw [readLabel, hlabel, List.takeWhile_append_of_pos hbefore, List.dropWhile_append_of_pos hbefore]
  simp [Vertex.statement, hkind]

/-- The line of a node is read back. -/
theorem readStatement_vertex {v : Vertex} (h : v.kind ∈ NodeKind.known) :
    readStatement v.dotLine.toList = some v.statement := by
  simp only [readStatement, v.toList_dotLine, after_append, readQuoted_escaped,
    Option.bind_eq_bind, Option.bind_some, String.ofList_toList, readLabel_eq h, Option.pure_def]

/-- The line of an edge is read back. -/
theorem readStatement_edge {e : Edge} (h : e.kind ∈ EdgeKind.produced) :
    readStatement e.dotLine.toList = some e.statement := by
  -- What follows the source is no label.
  have hother : ∀ rest, after " [label=\"" (" -> \"".toList ++ rest) = none := fun _ => rfl
  simp only [readStatement, e.toList_dotLine, after_append, readQuoted_escaped,
    Option.bind_eq_bind, Option.bind_some, hother, readEdge, EdgeKind.find?_style _ h,
    String.ofList_toList, Option.pure_def, Edge.statement]

/-! ## Texts -/

/-- The edges that are written are those that join nodes of the graph. -/
theorem innerEdges_eq (g : Graph) :
    innerEdges g = g.edges.filter fun e => e.source ∈ g.ids ∧ e.target ∈ g.ids := by
  refine List.filter_congr fun e _ => ?_
  rw [Bool.decide_and, List.contains_eq_mem, List.contains_eq_mem]
  rfl

/-- No statement runs over a line break. -/
theorem newline_notMem_statementLines {g : Graph} :
    ∀ line ∈ g.statementLines, '\n' ∉ line.toList := by
  intro line hline
  rcases List.mem_append.mp hline with hline | hline
  · obtain ⟨v, -, rfl⟩ := List.mem_map.mp hline
    have hshape : '\n' ∉ v.kind.shape.toList := by cases v.kind <;> simp [NodeKind.shape]
    simp [Vertex.dotLine, newline_notMem_escaped, hshape]
  · obtain ⟨e, -, rfl⟩ := List.mem_map.mp hline
    have hstyle : '\n' ∉ e.kind.style.toList := by cases e.kind <;> simp [EdgeKind.style]
    simp [Edge.dotLine, newline_notMem_escaped, hstyle]

/-- Each statement of a graph has a line of its text. -/
theorem textLines_toDot (g : Graph) : textLines (toDot g) = g.dotLines.map String.toList := by
  -- Each line is free of line ends, so splitting takes back what joining did.
  have hlines : (toDot g).toList = ['\n'].intercalate (g.dotLines.map String.toList) := by
    rw [toDot, String.toList_intercalate]
    simp [dotLines, statementLines]
  rw [textLines, hlines, List.splitOn_intercalate]
  · intro line hline
    obtain ⟨text, htext, rfl⟩ := List.mem_map.mp hline
    simp only [dotLines, List.mem_cons, List.mem_append, List.not_mem_nil, or_false] at htext
    rcases htext with rfl | rfl | htext | rfl
    · decide
    · decide
    · exact newline_notMem_statementLines text htext
    · decide
  · simp [dotLines]

/-- Lines that are read back one by one. -/
theorem mapM_readStatement {α : Type} {write : α → String} {tell : α → Statement} {items : List α}
    (h : ∀ a ∈ items, readStatement (write a).toList = some (tell a)) :
    ((items.map write).map String.toList).mapM readStatement = some (items.map tell) := by
  induction items with
  | nil => rfl
  | cons a rest ih =>
    rw [List.map_cons, List.map_cons, List.mapM_cons, h a List.mem_cons_self,
      ih fun b hb => h b (List.mem_cons_of_mem _ hb)]
    rfl

/-- The text of a graph is read back. -/
theorem readDot_toDot {g : Graph} (hnodes : ∀ v ∈ g.nodes, v.kind ∈ NodeKind.known)
    (hedges : ∀ e ∈ g.edges, e.kind ∈ EdgeKind.produced) :
    readDot (toDot g) = some g.statements := by
  have hbody : ((textLines (toDot g)).drop 2).dropLast =
      (g.nodes.map Vertex.dotLine).map String.toList ++
        ((innerEdges g).map Edge.dotLine).map String.toList := by
    rw [textLines_toDot, dotLines]
    simp [statementLines]
  have hinner : ∀ e ∈ innerEdges g, readStatement e.dotLine.toList = some e.statement :=
    fun e he => readStatement_edge (hedges e (List.mem_filter.mp he).1)
  rw [readDot, hbody, List.mapM_append, mapM_readStatement fun v hv =>
    readStatement_vertex (hnodes v hv), mapM_readStatement hinner, innerEdges_eq]
  rfl

/-- Whether a statement tells of a node. -/
def Statement.isNode : Statement → Bool
  | node _ _ _ => true
  | edge _ _ _ _ => false

/-- The nodes of a graph are told apart from its edges. -/
theorem filter_isNode (g : Graph) :
    g.statements.filter Statement.isNode = g.nodes.map Vertex.statement := by
  rw [statements, List.filter_append, List.filter_eq_self.mpr, List.filter_eq_nil_iff.mpr,
    List.append_nil]
  · intro s hs
    obtain ⟨e, -, rfl⟩ := List.mem_map.mp hs
    exact Bool.false_ne_true
  · intro s hs
    obtain ⟨v, -, rfl⟩ := List.mem_map.mp hs
    rfl

/-- Graphs whose statements tell the same have the same nodes and the same edges between them. -/
theorem map_statement_eq {g g' : Graph} (h : g.statements = g'.statements) :
    g.nodes.map Vertex.statement = g'.nodes.map Vertex.statement ∧
      (g.edges.filter fun e => e.source ∈ g.ids ∧ e.target ∈ g.ids).map Edge.statement =
        (g'.edges.filter fun e => e.source ∈ g'.ids ∧ e.target ∈ g'.ids).map Edge.statement := by
  have hnodes := (filter_isNode g).symm.trans ((congrArg _ h).trans (filter_isNode g'))
  rw [statements, statements, hnodes] at h
  exact ⟨hnodes, List.append_cancel_left h⟩

/-- A graph whose nodes and edges are of the known kinds is told by its DOT text, whatever
characters its identifiers, names and labels have. Each statement has one line, and reading the
lines gives the identifier, the kind and the name of each node, and the source, the target, the kind
and the label of each edge that joins nodes, in their order. So graphs with one text agree in all of
these. -/
theorem toDot_tells {g : Graph} (hnodes : ∀ v ∈ g.nodes, v.kind ∈ NodeKind.known)
    (hedges : ∀ e ∈ g.edges, e.kind ∈ EdgeKind.produced) :
    textLines (toDot g) = ("digraph CodeGraph \x7b" :: "  rankdir=LR;" ::
      (g.nodes.map Vertex.dotLine ++ (innerEdges g).map Edge.dotLine ++ ["\x7d"])).map
        String.toList ∧
    readDot (toDot g) = some (g.nodes.map (fun v => .node v.id v.kind v.name) ++
      (g.edges.filter fun e => e.source ∈ g.ids ∧ e.target ∈ g.ids).map fun e =>
        .edge e.source e.target e.kind (e.label.getD e.kind.name)) ∧
    ∀ g' : Graph, (∀ v ∈ g'.nodes, v.kind ∈ NodeKind.known) →
      (∀ e ∈ g'.edges, e.kind ∈ EdgeKind.produced) → toDot g = toDot g' →
        g.nodes.map Vertex.statement = g'.nodes.map Vertex.statement ∧
          (g.edges.filter fun e => e.source ∈ g.ids ∧ e.target ∈ g.ids).map Edge.statement =
            (g'.edges.filter fun e => e.source ∈ g'.ids ∧ e.target ∈ g'.ids).map
              Edge.statement := by
  refine ⟨textLines_toDot g, readDot_toDot hnodes hedges, fun g' hnodes' hedges' htext => ?_⟩
  -- Both texts are read by the same reader.
  have hread := readDot_toDot hnodes hedges
  rw [htext, readDot_toDot hnodes' hedges'] at hread
  exact map_statement_eq (Option.some.inj hread).symm

/-- A graph with quotation marks, backslashes and line feeds in its texts, one of which looks like a
statement, and with an edge to something that is no node. -/
def quotedGraph : Graph where
  nodes := [⟨"a\"", .file, "\\n\n\"];", "/a", default, none⟩,
    ⟨"  \"b\" -> \"c\";\n\\", .function, "é", "/a", default, none⟩]
  edges := [⟨"1", .calls, "a\"", "  \"b\" -> \"c\";\n\\", none⟩,
    ⟨"2", .dataflow, "a\"", "a\"", some "x\n\\\""⟩, ⟨"3", .constructs, "a\"", "c", none⟩]

/-- Its texts are read back, and the edge to something else is left out. -/
theorem toDot_tells_quoted :
    (∀ v ∈ quotedGraph.nodes, v.kind ∈ NodeKind.known) ∧
    (∀ e ∈ quotedGraph.edges, e.kind ∈ EdgeKind.produced) ∧
    (textLines (toDot quotedGraph)).length = 7 ∧
    readDot (toDot quotedGraph) = some
      [.node "a\"" .file "\\n\n\"];", .node "  \"b\" -> \"c\";\n\\" .function "é",
        .edge "a\"" "  \"b\" -> \"c\";\n\\" .calls "calls",
        .edge "a\"" "a\"" .dataflow "x\n\\\""] := by
  have hnodes : ∀ v ∈ quotedGraph.nodes, v.kind ∈ NodeKind.known := by decide
  have hedges : ∀ e ∈ quotedGraph.edges, e.kind ∈ EdgeKind.produced := by decide
  -- The text is never worked out; the theorem tells what reading it gives.
  obtain ⟨hlines, hread, -⟩ := toDot_tells hnodes hedges
  refine ⟨hnodes, hedges, ?_, ?_⟩
  · rw [hlines]
    decide
  · rw [hread]
    decide

end ScriptGraph.Graph
