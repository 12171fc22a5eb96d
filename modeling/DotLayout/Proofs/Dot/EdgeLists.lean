import DotLayout.Proofs.Dot.Edits
import DotLayout.Proofs.Dot.Naming
import DotLayout.Proofs.Dot.NodeStatement

/-! # Attribute lists behind operators

    The attribute lists of an edge are for the edge alone.  To see what a list does to the nodes, it
    is taken out of its statement: `Document.without` does so for the statements that are chosen.

    * `nodes_graph` : every node of a description is what its entries make of its id.
    * `nodes_without_iff` : so without some lists the nodes are the same if and only if they are
      told the same, and `nodes_without_edges` has the lists of edges, which never count.
    * `graph_withoutDangling` : an operator that leads nowhere leaves no trace in the graph.
    * `edge_lists` : so the lists behind an operator change no node, unless it is the only one of
      its chain and leads nowhere.  Then they are those of the node in front of it, and
      `restyled_behind_operator` has such a node. -/

namespace DotLayout

open OrderedMap

/-! ## Nodes from entries -/

/-- What entries make of a new node. -/
def Node.told (id : String) (entries : List (String × String)) : Node where
  id := id
  label := (lastGiven? "label" entries).getD id
  size := Node.defaultSize
  position := .origin
  style :=
    { stroke := lastGiven? "color" entries
      background := lastGiven? "fillcolor" entries
      style := lastGiven? "style" entries
      shape := lastGiven? "shape" entries
      extra := .ofList (otherEntries entries) }

theorem Node.eq_told {n : Node} {entries : List (String × String)} (h : n.Shows entries)
    (hsize : n.size = Node.defaultSize) (hposition : n.position = .origin) :
    n = Node.told n.id entries := by
  obtain ⟨hlabel, hstroke, hbackground, hstyle, hshape, hextra⟩ := h
  obtain ⟨id, label, size, position, style⟩ := n
  obtain ⟨stroke, background, style, shape, extra⟩ := style
  simp_all [Node.told]

namespace Dot

open Text

/-- The nodes of a description are its ids with what it says about them. -/
theorem nodes_graph (d : Document) :
    d.graph.nodes = d.graph.ids.map fun id => Node.told id (d.entriesFor id) := by
  have htold : ∀ n ∈ d.graph.nodes, n = Node.told n.id (d.entriesFor n.id) := by
    intro n hn
    obtain ⟨hsize, hposition⟩ := (described_graph d).unplaced n hn
    exact Node.eq_told ((shows_graph d).nodes n hn) hsize hposition
  rw [Graph.ids, List.map_map]
  exact (List.map_id _).symm.trans (List.map_congr_left htold)

/-! ## Statements without their lists -/

/-- Takes the attribute lists out of a chain. -/
def Statement.withoutLists : Statement → Statement
  | .chain head hops dangling _ => .chain head hops dangling []
  | s => s

/-- Takes the operator that leads nowhere out of a chain. -/
def Statement.withoutDangling : Statement → Statement
  | .chain head hops _ lists => .chain head hops none lists
  | s => s

/-- Whether a statement stands for edges. -/
def Statement.isEdge : Statement → Bool
  | .chain _ (_ :: _) _ _ => true
  | _ => false

/-- Whether an operator stands in a statement. -/
def Statement.hasLink (s : Statement) : Bool := s.tokens.any fun t => t.link?.isSome

/-- A description whose statements are replaced one by one. -/
def Document.mapStatements (d : Document) (f : Statement → Statement) : Document :=
  { d with statements := d.statements.map f }

/-- A description without the attribute lists of the chains that are chosen. -/
def Document.without (d : Document) (chosen : Statement → Bool) : Document :=
  d.mapStatements fun s => if chosen s then s.withoutLists else s

/-- A description without operators that lead nowhere. -/
def Document.withoutDangling (d : Document) : Document := d.mapStatements Statement.withoutDangling

section

variable {d : Document} {chosen : Statement → Bool}

theorem nodeWords_without (s : Statement) :
    (if chosen s then s.withoutLists else s).nodeWords = s.nodeWords := by
  cases s <;> split <;> rfl

theorem ids_without (d : Document) (chosen : Statement → Bool) :
    (d.without chosen).graph.ids = d.graph.ids := by
  rw [ids_graph, ids_graph]
  show (idsOf ((d.statements.map _).flatMap Statement.nodeWords)).eraseDups = _
  rw [List.flatMap_map, funext nodeWords_without]

/-- Without some lists, the nodes are the same if and only if they are told the same. -/
theorem nodes_without_iff (d : Document) (chosen : Statement → Bool) :
    (d.without chosen).graph.nodes = d.graph.nodes ↔ ∀ id ∈ d.graph.ids,
      Node.told id ((d.without chosen).entriesFor id) = Node.told id (d.entriesFor id) := by
  rw [nodes_graph, nodes_graph d, ids_without, List.map_inj_left]

/-- An edge says nothing about a node, with its lists or without them. -/
theorem entriesFor_edge {s : Statement} (h : s.isEdge = true) (id : String) :
    s.withoutLists.entriesFor id = s.entriesFor id := by
  cases s with
  | chain head hops dangling lists =>
      cases hops with
      | nil => exact nomatch h
      | cons hop hops => rfl
  | _ => rfl

/-- Without lists of edges, the nodes are the same. -/
theorem nodes_without_edges (h : ∀ s ∈ d.statements, chosen s = true → s.isEdge = true) :
    (d.without chosen).graph.nodes = d.graph.nodes := by
  have hentries : ∀ id, (d.without chosen).entriesFor id = d.entriesFor id := by
    intro id
    show (d.statements.map _).flatMap (Statement.entriesFor id) = _
    rw [List.flatMap_map]
    refine List.flatMap_congr fun s hs => ?_
    split
    · rename_i hchosen
      exact entriesFor_edge (h s hs hchosen) id
    · rfl
  rw [nodes_without_iff]
  intro id _
  rw [hentries]

/-- An operator that leads nowhere leaves no trace in the graph. -/
theorem graph_withoutDangling (d : Document) : d.withoutDangling.graph = d.graph := by
  have hsettings : ∀ s : Statement, s.withoutDangling.settings = s.settings := by
    intro s
    cases s <;> rfl
  have hadd : ∀ (kind : EdgeKind) (g : Graph) (s : Statement),
      s.withoutDangling.addTo kind g = s.addTo kind g := by
    intro kind g s
    cases s with
    | chain head hops dangling lists => cases hops <;> rfl
    | _ => rfl
  have hattributes : d.withoutDangling.attributes = d.attributes := by
    show OrderedMap.ofList (((d.statements.map _).flatMap Statement.settings).map _) = _
    rw [List.flatMap_map, funext hsettings]
    rfl
  have hkind : d.withoutDangling.edgeKind = d.edgeKind := by
    rw [Document.edgeKind, hattributes]
    rfl
  rw [Document.graph, hattributes, hkind]
  show (d.statements.map Statement.withoutDangling).foldl (Statement.addTo d.edgeKind) _ = _
  rw [List.foldl_map]
  simp only [hadd]
  rfl

/-! ## Where operators and lists stand -/

/-- An operator stands in an edge, behind a word without a way to another one, or alone. -/
theorem shape_of_hasLink {text : List Char} {s : Statement}
    (hs : s ∈ (Document.ofText text).statements) (hlink : s.hasLink = true) :
    s.isEdge = true ∨ (∃ head l lists, s = .chain head [] (some l) lists) ∨
      ∃ l, s = .noSource l := by
  obtain ⟨t, ht, hsome⟩ := List.any_eq_true.1 hlink
  obtain ⟨l, hl⟩ := Option.isSome_iff_exists.1 hsome
  have hmem : l ∈ s.fates.map Prod.fst := by
    rw [fst_fates (link?_of_mem_document hs)]
    exact List.mem_filterMap.2 ⟨t, ht, hl⟩
  cases s with
  | noSource l => exact .inr (.inr ⟨l, rfl⟩)
  | chain head hops dangling lists =>
      cases hops with
      | cons hop hops => exact .inl rfl
      | nil =>
          cases dangling with
          | none => exact nomatch hmem
          | some l => exact .inr (.inl ⟨head, l, lists, rfl⟩)
  | _ => exact nomatch hmem

theorem not_mem_of_append {front back before after : List Token} {b : Bracket}
    (hfront : ∀ list, Token.bracket list ∉ front) (hback : ∀ l, Token.link l ∉ back)
    (h : front ++ back = before ++ .bracket b :: after) (l : Link) : Token.link l ∉ after := by
  rcases List.append_eq_append_iff.1 h with ⟨middle, -, hsplit⟩ | ⟨middle, rfl, hsplit⟩
  · intro hl
    refine hback l ?_
    rw [hsplit]
    exact List.mem_append_right _ (List.mem_cons_of_mem _ hl)
  · cases middle with
    | nil =>
        intro hl
        refine hback l ?_
        rw [← List.nil_append back, ← hsplit]
        exact List.mem_cons_of_mem _ hl
    | cons t middle =>
        obtain rfl := (List.cons.inj hsplit).1
        exact absurd (List.mem_append_right _ List.mem_cons_self) (hfront b)

/-- Behind an attribute list no operator of the same statement follows. -/
theorem not_link_behind_list {s : Statement} {before after : List Token} {b : Bracket}
    (h : s.tokens = before ++ .bracket b :: after) (l : Link) : Token.link l ∉ after := by
  have hmem : Token.bracket b ∈ s.tokens := by
    rw [h]
    exact List.mem_append_right _ List.mem_cons_self
  cases s with
  | chain head hops dangling lists =>
      refine not_mem_of_append ?_ (fun _ => not_link_mem_brackets) h l
      intro list hlist
      simp [Statement.hopTokens] at hlist
  | defaults keyword ofGraph lists =>
      have hword : ∀ list, Token.bracket list ∉ [Token.word keyword] := by
        intro list hlist
        cases List.mem_singleton.1 hlist
      exact not_mem_of_append hword (fun _ => not_link_mem_brackets) h l
  | misplaced t why =>
      cases before with
      | nil =>
          rw [← (List.cons.inj h).2]
          exact List.not_mem_nil
      | cons t before => simp [Statement.tokens] at h
  | subgraph keyword name => cases name <;> simp [Statement.tokens] at hmem
  | _ => simp [Statement.tokens] at hmem

end

/-! ## Texts -/

/-- **Which lists restyle a node.**  An attribute list behind an operator belongs to an edge, or to
    a word without a way to another one.  The lists of edges, however many of them are chosen, leave
    all nodes as they are.  The operator behind a word that goes nowhere leaves no trace, so its
    lists are those of the node.  Therefore the lists behind operators change no node if and only if
    the others alone tell the same about each of them. -/
theorem edge_lists {source : String} {p : Parsed} (h : parse source = .ok p) :
    let d := Document.ofText (stripComments source.toList)
    (∀ s ∈ d.statements, s.hasLink = true →
      s.isEdge = true ∨ (∃ head l lists, s = .chain head [] (some l) lists) ∨
        ∃ l, s = .noSource l) ∧
    (∀ s ∈ d.statements, ∀ before b after, s.tokens = before ++ .bracket b :: after →
      ∀ l, Token.link l ∉ after) ∧
    (∀ chosen : Statement → Bool, (∀ s ∈ d.statements, chosen s = true → s.isEdge = true) →
      (d.without chosen).graph.nodes = p.graph.nodes) ∧
    d.withoutDangling.graph = p.graph ∧
    ((d.without Statement.hasLink).graph.nodes = p.graph.nodes ↔ ∀ id ∈ p.graph.ids,
      Node.told id ((d.without Statement.hasLink).entriesFor id)
        = Node.told id (d.entriesFor id)) := by
  intro d
  have hgraph : p.graph = d.graph := congrArg Parsed.graph (eq_of_parse h)
  rw [hgraph]
  refine ⟨fun _ => shape_of_hasLink, fun _ _ _ _ _ => not_link_behind_list, ?_,
    graph_withoutDangling d, nodes_without_iff d Statement.hasLink⟩
  intro chosen hedges
  exact nodes_without_edges hedges

/-- Edges with lists on both ends of a node, and an operator without a target behind a node that its
    own statement gives the same color. -/
theorem edge_lists_repeated :
    let source := "digraph \x7b A -> B [label=e, color=red] B [shape=box] -> C
      A [color=blue] A -> [color=blue] D -> E -> [label=f, color=green] \x7d"
    let d := Document.ofText (stripComments source.toList)
    ∃ p, parse source = .ok p ∧
      p.graph.nodes.map (fun n => (n.id, n.label, n.style.stroke))
        = [("A", "A", some "blue"), ("B", "B", none), ("C", "C", none), ("D", "D", none),
          ("E", "E", none)] ∧
      (d.without Statement.isEdge).graph.nodes = p.graph.nodes ∧
      d.withoutDangling.graph = p.graph ∧
      (d.without Statement.hasLink).graph.nodes = p.graph.nodes := by
  intro source d
  have facts : (parse source).toOption.map (fun p => (p.graph.ids, p.graph.nodes.map (fun n =>
      (n.id, n.label, n.style.stroke))))
      = some (["A", "B", "C", "D", "E"], [("A", "A", some "blue"), ("B", "B", none),
          ("C", "C", none), ("D", "D", none), ("E", "E", none)]) := by
    decide +kernel
  have entries : ["A", "B", "C", "D", "E"].map
      (fun id => ((d.without Statement.hasLink).entriesFor id, d.entriesFor id))
      = [([("color", "blue")], [("color", "blue"), ("color", "blue")]),
        ([("shape", "box")], [("shape", "box")]), ([], []), ([], []), ([], [])] := by
    decide +kernel
  obtain ⟨p, h, hfacts⟩ := exists_parsed facts
  obtain ⟨hids, hnodes⟩ := Prod.mk.inj hfacts
  obtain ⟨-, -, hedges, hdangling, hiff⟩ := edge_lists h
  refine ⟨p, h, hnodes, hedges Statement.isEdge fun _ _ hchosen => hchosen, hdangling, ?_⟩
  refine hiff.2 ?_
  show ∀ id ∈ p.graph.ids, Node.told id ((d.without Statement.hasLink).entriesFor id)
    = Node.told id (d.entriesFor id)
  rw [hids]
  simp only [List.map_cons, List.map_nil, List.cons.injEq, Prod.mk.injEq] at entries
  simp only [List.forall_mem_cons, entries]
  exact ⟨rfl, trivial, trivial, trivial, trivial, fun _ hid => nomatch hid⟩

/-- A list behind an operator without a target colors the node in front of it. -/
theorem restyled_behind_operator :
    let source := "digraph \x7b A -> [color=red] \x7d"
    let d := Document.ofText (stripComments source.toList)
    (parse source).toOption.map (fun p => (p.graph.nodes.map fun n => (n.id, n.style.stroke),
        p.warnings.map Diagnostic.code))
      = some ([("A", some "red")], [some .incompleteEdge]) ∧
      d.statements.map Statement.hasLink = [true] ∧
      (d.without Statement.hasLink).graph.nodes.map (fun n => (n.id, n.style.stroke))
        = [("A", none)] := by
  intro source d
  refine ⟨?_, ?_, ?_⟩ <;> decide +kernel

end Dot

end DotLayout
