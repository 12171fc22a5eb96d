import DotLayout.Proofs.Dot.NodeStatement
import DotLayout.Proofs.Dot.OnePass

/-! # The kinds of edges

    An edge has the kind that its own statement asks for.  If that asks for none, it has the kind
    that the graph asks for, wherever in the text this stands, and if the graph asks for none
    either, it is a curve.

    * `kind_ofPairs` : an attribute list asks for the last kind that it names, and values that name
      no kind do not count.
    * `kinds_addTo` : what kinds the edges of one statement have; `kinds_foldl_addTo` is the run of
      all statements.
    * `edge_kinds` : the rule, for every text that is read, and the flags that a pass keeps. -/

namespace DotLayout.Dot

open Text OrderedMap

/-- The ends of an edge and its kind. -/
def endsAndKind (e : Edge) : (String × String) × EdgeKind := (ends e, e.kind)

/-- The kind that the edges of a statement ask for: the last of the `splines` values in its
    attribute lists that names a kind. -/
def Statement.ownKind? : Statement → Option EdgeKind
  | .chain _ _ _ lists =>
    ((given "splines" (entriesOf lists)).filterMap EdgeKind.ofName?).getLast?
  | _ => none

/-- The graph attributes that a description gives, in the order of the text. -/
def Document.graphEntries (d : Document) : List (String × String) :=
  (d.statements.flatMap Statement.settings).map Pair.entry

/-! ## One statement -/

/-- One more pair settles the kind of an edge if it asks for one that there is. -/
theorem kind_add (s : EdgeSettings) (p : Pair) :
    (s.add p).kind
      = if p.key = "splines" then (EdgeKind.ofName? p.value).or s.kind else s.kind := by
  rw [EdgeSettings.add]
  split
  iterate 3
    · rename_i hkey
      rw [hkey, if_neg (by decide)]
  · rename_i hkey
    rw [if_pos hkey]
    cases EdgeKind.ofName? p.value <;> rfl
  · rename_i hkey
    rw [if_neg hkey]

/-- The last value that is accepted is the new one, or the last one before. -/
theorem getLast?_filterMap_concat {α β : Type} (f : α → Option β) (values : List α) (value : α) :
    ((values ++ [value]).filterMap f).getLast? = (f value).or (values.filterMap f).getLast? := by
  rw [List.getLast?_filterMap, List.getLast?_filterMap, List.reverse_concat, List.findSome?_cons]
  cases f value <;> rfl

/-- The last value that names a kind counts. -/
theorem kind_ofPairs (pairs : List Pair) :
    (EdgeSettings.ofPairs pairs).kind
      = ((given "splines" (pairs.map Pair.entry)).filterMap EdgeKind.ofName?).getLast? := by
  induction pairs using List.reverseRecOn with
  | nil => rfl
  | append_singleton pairs p ih =>
      have step : EdgeSettings.ofPairs (pairs ++ [p]) = (EdgeSettings.ofPairs pairs).add p := by
        rw [EdgeSettings.ofPairs, List.foldl_append, List.foldl_cons, List.foldl_nil,
          EdgeSettings.ofPairs]
      rw [step, kind_add, ih, List.map_append, given_append]
      by_cases hkey : p.key = "splines"
      · have last : given "splines" ([p].map Pair.entry) = [p.value] := by
          simp [given, Pair.entry, hkey]
        rw [if_pos hkey, last, getLast?_filterMap_concat]
      · have others : given "splines" ([p].map Pair.entry) = [] := by
          simp [given, Pair.entry, hkey]
        rw [if_neg hkey, others, List.append_nil]

/-- The kind that the lists of a statement ask for is the last one in them that there is. -/
theorem kind_edgeSettings (s : Statement) : s.edgeSettings.kind = s.ownKind? := by
  cases s with
  | chain head hops dangling lists => exact kind_ofPairs (pairsOf lists)
  | _ => rfl

/-- A chain adds edges of one kind between the words on both sides of its operators. -/
theorem kinds_addHops (attributes : EdgeAttributes) (kind : EdgeKind) (g : Graph) (source : Word)
    (hops : List Hop) :
    (Statement.addHops attributes kind g source hops).edges.map endsAndKind
      = g.edges.map endsAndKind ++ (joined (hopFates source hops)).map fun ends => (ends, kind) := by
  induction hops generalizing g source with
  | nil => exact (List.append_nil _).symm
  | cons hop hops ih =>
      rw [Statement.addHops, ih, Graph.connect, Graph.edges_pushEdge, List.map_append,
        List.append_assoc]
      rfl

/-- The edges that a statement adds have the kind that it asks for, or else the given one. -/
theorem kinds_addTo (kind : EdgeKind) (g : Graph) (s : Statement) :
    (s.addTo kind g).edges.map endsAndKind
      = g.edges.map endsAndKind
        ++ (joined s.fates).map fun ends => (ends, s.ownKind?.getD kind) := by
  cases s with
  | chain head hops dangling lists =>
      rw [Draft.joined_fates_chain]
      cases hops with
      | nil =>
          show ((g.ensureNode head.text).redefineNode _ _ _).edges.map endsAndKind = _ ++ []
          rw [Graph.edges_redefineNode, Graph.edges_ensureNode, List.append_nil]
      | cons hop hops =>
          rw [← kind_edgeSettings]
          exact kinds_addHops _ _ g head (hop :: hops)
  | _ => exact (List.append_nil _).symm

/-! ## Runs of statements -/

/-- Some statements add edges with the kind that each statement asks for, or else the given one. -/
theorem kinds_foldl_addTo (kind : EdgeKind) (g : Graph) (ss : List Statement) :
    (ss.foldl (Statement.addTo kind) g).edges.map endsAndKind
      = g.edges.map endsAndKind
        ++ ss.flatMap fun s => (joined s.fates).map fun ends => (ends, s.ownKind?.getD kind) := by
  induction ss generalizing g with
  | nil => exact (List.append_nil _).symm
  | cons s ss ih =>
      rw [List.foldl_cons, ih, kinds_addTo, List.flatMap_cons, List.append_assoc]

/-- Statements add no attribute to the graph when they add nodes and edges. -/
theorem attributes_foldl_addTo (kind : EdgeKind) (g : Graph) (ss : List Statement) :
    (ss.foldl (Statement.addTo kind) g).attributes = g.attributes := by
  induction ss generalizing g with
  | nil => rfl
  | cons s ss ih => rw [List.foldl_cons, ih, attributes_addTo]

/-- A draft knows of each edge whether its statement asked for a kind. -/
theorem asked_foldl_add (r : Draft) (ss : List Statement) :
    (ss.foldl Draft.add r).asked
      = r.asked ++ ss.flatMap fun s => (joined s.fates).map fun _ => s.ownKind?.isSome := by
  induction ss generalizing r with
  | nil => exact (List.append_nil _).symm
  | cons s ss ih =>
      rw [List.foldl_cons, ih, List.flatMap_cons, ← List.append_assoc, ← kind_edgeSettings]
      rfl

/-! ## Descriptions -/

/-- The graph asks for the last value that is given to `splines` anywhere in the text. -/
theorem splines_graph (d : Document) :
    d.graph.attribute? "splines" = lastGiven? "splines" d.graphEntries := by
  rw [Graph.attribute?, Document.graph, attributes_foldl_addTo]
  exact get?_ofList _ _

/-- The edges of a document have the kind of their statement, or that of the graph, or are
    curves. -/
theorem kinds_graph (d : Document) :
    d.graph.edges.map endsAndKind
      = d.statements.flatMap fun s => (joined s.fates).map fun ends =>
          (ends, (s.ownKind?.or
            ((d.graph.attribute? "splines").bind EdgeKind.ofName?)).getD .curved) := by
  have asked : d.graph.attribute? "splines" = d.attributes.get? "splines" := by
    rw [Graph.attribute?, Document.graph, attributes_foldl_addTo]
  rw [asked]
  simp only [Option.getD_or]
  exact kinds_foldl_addTo d.edgeKind _ d.statements

/-- **An edge gets the kind that it asks for, or else the kind of the graph, or else a curve.**  The
    edges of a graph that was read are those of its statements, in order.  Their kind is the last
    one that the attribute lists of their statement name; or else the one that the final value of
    `splines` names, which is the last one given to the graph anywhere in the text; or else they
    are curves.  A pass that keeps one flag for each edge and settles the kinds in the end comes
    to the same graph, and its flags are those of the edges, in order. -/
theorem edge_kinds {source : String} {p : Parsed} (h : parse source = .ok p) :
    let text := stripComments source.toList
    let d := Document.ofText text
    let r := Draft.ofText text (byteLength source.toList)
    p.graph.edges.map endsAndKind
      = d.statements.flatMap (fun s => (joined s.fates).map fun ends =>
          (ends, (s.ownKind?.or
            ((p.graph.attribute? "splines").bind EdgeKind.ofName?)).getD .curved)) ∧
    p.graph.attribute? "splines" = lastGiven? "splines" d.graphEntries ∧
    p.graph = r.settle ∧ r.asked.length = p.graph.edges.length ∧
    r.asked = d.statements.flatMap fun s => (joined s.fates).map fun _ => s.ownKind?.isSome := by
  intro text d r
  obtain rfl := eq_of_parse h
  have flags : r.asked = d.statements.flatMap fun s =>
      (joined s.fates).map fun _ => s.ownKind?.isSome := by
    rw [show r = _ from ofText_eq text _, asked_foldl_add]
    rfl
  refine ⟨kinds_graph d, splines_graph d, (settle_ofText text _).symm, ?_, flags⟩
  have edges := congrArg List.length (kinds_graph d)
  rw [List.length_map, List.length_flatMap] at edges
  rw [flags, List.length_flatMap]
  refine Eq.trans ?_ edges.symm
  simp only [List.length_map]

/-- A chain that names two kinds and something else, an edge that asks for none, and two values
    for the graph behind them. -/
theorem edge_kinds_late :
    let source := "digraph \x7b A -> B -> C [splines=ortho splines=true splines=zigzag]
      D -> E splines=line graph [splines=elbow] \x7d"
    ∃ p, parse source = .ok p ∧ p.graph.attribute? "splines" = some "elbow" ∧
      p.graph.edges.map endsAndKind
        = [(("A", "B"), .curved), (("B", "C"), .curved), (("D", "E"), .orthogonal)] := by
  intro source
  let d := Document.ofText (stripComments source.toList)
  have facts : (parse source).toOption.map (fun _ => (lastGiven? "splines" d.graphEntries,
      d.statements.map fun s => (joined s.fates, s.ownKind?)))
      = some (some "elbow", [([("A", "B"), ("B", "C")], some .curved), ([("D", "E")], none),
        ([], none), ([], none)]) := by
    decide +kernel
  cases h : parse source with
  | error e =>
      rw [h] at facts
      exact nomatch facts
  | ok p =>
      rw [h] at facts
      obtain ⟨hlast, hstatements⟩ := Prod.mk.inj (Option.some.inj facts)
      obtain ⟨hkinds, hsplines, -⟩ := edge_kinds h
      rw [hlast] at hsplines
      refine ⟨p, rfl, hsplines, ?_⟩
      have kinds : ((d.statements.map fun s => (joined s.fates, s.ownKind?)).flatMap fun s =>
          s.1.map fun ends => (ends, (s.2.or (EdgeKind.ofName? "elbow")).getD .curved))
          = [(("A", "B"), .curved), (("B", "C"), .curved), (("D", "E"), .orthogonal)] := by
        rw [hstatements]
        decide
      rw [List.flatMap_map] at kinds
      rw [hkinds, hsplines]
      exact kinds

end DotLayout.Dot
