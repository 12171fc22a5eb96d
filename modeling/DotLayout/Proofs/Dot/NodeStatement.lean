import DotLayout.Proofs.Dot.Calls
import DotLayout.Proofs.Dot.EdgeOperator
import DotLayout.Proofs.Graph.GivenValues

/-! # What node statements say

    The looks of a node come from its node statements alone: the chains that are its id and nothing
    else.  Their attribute lists, one after the other, are what is said about the node, and the
    last word counts for each key.

    * `Node.Shows` : a node looks as some entries say; `shows_redefine` says how a repeated
      definition adds to them.
    * `shows_addTo` : each statement adds its entries for an id to the node with this id, and
      leaves all other nodes alone; `shows_foldl_addTo` is the run of all statements.
    * `node_shows_last_values` : so a node of a graph that was read has the last value that its
      node statements give for each key. -/

namespace DotLayout

open OrderedMap

/-! ## Nodes and entries -/

/-- The keys that set a field of a node.  All others are kept under their own names. -/
def nodeKeys : List String := ["label", "color", "fillcolor", "style", "shape"]

/-- The entries that are kept under their own names. -/
def otherEntries (entries : List (String × String)) : List (String × String) :=
  entries.filter fun entry => !nodeKeys.contains entry.1

/-- A style has the last value of each key of some entries. -/
structure NodeStyle.Shows (s : NodeStyle) (entries : List (String × String)) : Prop where
  stroke : s.stroke = lastGiven? "color" entries
  background : s.background = lastGiven? "fillcolor" entries
  style : s.style = lastGiven? "style" entries
  shape : s.shape = lastGiven? "shape" entries
  extra : s.extra = .ofList (otherEntries entries)

/-- A node looks as some entries say, and has its id for a label if they give none. -/
structure Node.Shows (n : Node) (entries : List (String × String)) : Prop where
  label : n.label = (lastGiven? "label" entries).getD n.id
  style : n.style.Shows entries

theorem Node.shows_named (id : String) : (Node.named id).Shows [] where
  label := rfl
  style := ⟨rfl, rfl, rfl, rfl, rfl⟩

theorem otherEntries_append (a b : List (String × String)) :
    otherEntries (a ++ b) = otherEntries a ++ otherEntries b :=
  List.filter_append ..

/-- Styles on top of each other show what was said about them one after the other. -/
theorem NodeStyle.shows_merge {older newer : NodeStyle} {a b : List (String × String)}
    (ha : older.Shows a) (hb : newer.Shows b) : (older.merge newer).Shows (a ++ b) where
  stroke := by rw [lastGiven?_append, ← ha.stroke, ← hb.stroke]; rfl
  background := by rw [lastGiven?_append, ← ha.background, ← hb.background]; rfl
  style := by rw [lastGiven?_append, ← ha.style, ← hb.style]; rfl
  shape := by rw [lastGiven?_append, ← ha.shape, ← hb.shape]; rfl
  extra := by rw [otherEntries_append, ofList_append, ← ha.extra, ← hb.extra]; rfl

/-- A repeated definition adds to what was said before. -/
theorem Node.shows_redefine {n : Node} {style : NodeStyle} {a b : List (String × String)}
    (hn : n.Shows a) (hstyle : style.Shows b) :
    (n.redefine (lastGiven? "label" b) style).Shows (a ++ b) where
  label := by
    show (lastGiven? "label" b).getD n.label = (lastGiven? "label" (a ++ b)).getD n.id
    rw [lastGiven?_append, hn.label]
    cases lastGiven? "label" b <;> rfl
  style := NodeStyle.shows_merge hn.style hstyle

namespace Graph

variable {g : Graph} {said : String → List (String × String)}

/-- Every node of a graph shows what was said about its id, and nothing was said about the ids
    that have no node. -/
structure Shows (g : Graph) (said : String → List (String × String)) : Prop where
  nodes : ∀ n ∈ g.nodes, n.Shows (said n.id)
  absent : ∀ id, id ∉ g.ids → said id = []

/-- A graph without nodes shows that nothing was said. -/
theorem shows_empty (directed : Bool) (name : Option String) (attributes : OrderedMap String) :
    Shows { empty directed name with attributes := attributes } fun _ => [] where
  nodes := fun _ hn => nomatch hn
  absent := fun _ _ => rfl

/-- Making sure of a node says nothing about any node. -/
theorem shows_ensureNode (h : g.Shows said) (id : String) : (g.ensureNode id).Shows said where
  nodes := by
    intro n hn
    by_cases hid : id ∈ g.ids
    · rw [ensureNode_of_mem hid] at hn
      exact h.nodes n hn
    · rcases mem_nodes_ensureNode hn with hold | rfl
      · exact h.nodes n hold
      · rw [show (Node.named id).id = id from rfl, h.absent id hid]
        exact Node.shows_named id
  absent := fun other hother =>
    h.absent other fun hmem => hother ((g.prefix_ensureNode id).subset hmem)

/-- Adding an edge says nothing about its ends. -/
theorem shows_connect (h : g.Shows said) (source target : String) (attributes : EdgeAttributes)
    (kind : EdgeKind) : (g.connect source target attributes kind).Shows said :=
  have ends := shows_ensureNode (shows_ensureNode h source) target
  ⟨ends.nodes, ends.absent⟩

/-- Defining a node again shows what is said about it then. -/
theorem shows_redefineNode (h : g.Shows said) {id : String} (hid : id ∈ g.ids) {style : NodeStyle}
    {entries : List (String × String)} (hstyle : style.Shows entries) :
    (g.redefineNode id (lastGiven? "label" entries) style).Shows
      fun other => said other ++ if id = other then entries else [] where
  nodes := by
    intro n hn
    obtain ⟨m, hm, rfl⟩ := List.mem_map.1 hn
    dsimp only
    by_cases hmid : m.id = id
    · rw [if_pos (beq_iff_eq.2 hmid)]
      show (m.redefine _ style).Shows (said m.id ++ if id = m.id then entries else [])
      rw [if_pos hmid.symm]
      exact Node.shows_redefine (h.nodes m hm) hstyle
    · rw [if_neg fun heq => hmid (beq_iff_eq.1 heq), if_neg fun heq => hmid heq.symm,
        List.append_nil]
      exact h.nodes m hm
  absent := by
    intro other hother
    rw [ids_redefineNode] at hother
    have hne : id ≠ other := by
      rintro rfl
      exact hother hid
    rw [h.absent other hother, if_neg hne]
    rfl

end Graph

namespace Dot

open Text

variable {g : Graph} {said : String → List (String × String)}

/-! ## Statements -/

/-- The key and the value of a pair. -/
def Pair.entry (p : Pair) : String × String := (p.key, p.value)

/-- The entries of attribute lists, in the order of the text. -/
def entriesOf (lists : List Bracket) : List (String × String) := (pairsOf lists).map Pair.entry

/-- What a statement says about the node with an id: the attributes of a chain that is this one
    word.  A longer chain says nothing about its words, and neither does any other statement. -/
def Statement.entriesFor (id : String) : Statement → List (String × String)
  | .chain head [] _ lists => if head.text = id then entriesOf lists else []
  | _ => []

/-- All that a document says about a node, in order. -/
def Document.entriesFor (d : Document) (id : String) : List (String × String) :=
  d.statements.flatMap (Statement.entriesFor id)

/-- The settings of a node show the pairs that they were made of. -/
structure NodeSettings.Shows (s : NodeSettings) (entries : List (String × String)) : Prop where
  label : s.label = lastGiven? "label" entries
  style : s.style.Shows entries

/-- One more pair is shown as the last one. -/
theorem shows_add {s : NodeSettings} {entries : List (String × String)} (h : s.Shows entries)
    (p : Pair) : (s.add p).Shows (entries ++ [p.entry]) := by
  obtain ⟨hlabel, hstroke, hbackground, hstyle, hshape, hextra⟩ := h
  have hlast : ∀ key, lastGiven? key (entries ++ [p.entry])
      = if p.key = key then some p.value else lastGiven? key entries := by
    intro key
    rw [lastGiven?_append, lastGiven?_singleton]
    show (if p.key = key then some p.value else none).or _ = _
    split <;> rfl
  have hothers : otherEntries (entries ++ [p.entry])
      = otherEntries entries ++ if nodeKeys.contains p.key then [] else [p.entry] := by
    rw [otherEntries_append]
    by_cases hkey : p.key ∈ nodeKeys <;> simp [otherEntries, Pair.entry, hkey]
  have hmap : ∀ others, OrderedMap.ofList (otherEntries entries ++ others)
      = s.style.extra.insertAll others := by
    intro others
    rw [hextra, OrderedMap.ofList, insertAll_append]
    rfl
  rw [NodeSettings.add]
  -- one case for each key with a field, and one for all others
  split <;> rename_i hkey <;>
    refine ⟨?_, ?_, ?_, ?_, ?_, ?_⟩ <;> simp_all [nodeKeys, Pair.entry, insertAll]

/-- The settings of a node have the last value of each key. -/
theorem shows_ofPairs (pairs : List Pair) :
    (NodeSettings.ofPairs pairs).Shows (pairs.map Pair.entry) := by
  induction pairs using List.reverseRecOn with
  | nil => exact ⟨rfl, rfl, rfl, rfl, rfl, rfl⟩
  | append_singleton pairs p ih =>
      have step : NodeSettings.ofPairs (pairs ++ [p]) = (NodeSettings.ofPairs pairs).add p :=
        List.foldl_append
      rw [step, List.map_append]
      exact shows_add ih p

/-- A chain says nothing about any node. -/
theorem shows_addHops (h : g.Shows said) (attributes : EdgeAttributes) (kind : EdgeKind)
    (source : Word) (hops : List Hop) :
    (Statement.addHops attributes kind g source hops).Shows said := by
  induction hops generalizing g source with
  | nil => exact h
  | cons hop hops ih => exact ih (Graph.shows_connect h _ _ attributes kind) hop.target

/-- What a statement adds to what the nodes show. -/
theorem shows_addTo (h : g.Shows said) (kind : EdgeKind) (s : Statement) :
    (s.addTo kind g).Shows fun id => said id ++ s.entriesFor id := by
  have silent : ∀ {g' : Graph}, g'.Shows said → g'.Shows fun id => said id ++ [] := by
    intro g' h'
    simpa only [List.append_nil] using h'
  cases s with
  | chain head hops dangling lists =>
      cases hops with
      | nil =>
          obtain ⟨hlabel, hstyle⟩ := shows_ofPairs (pairsOf lists)
          have hnode := Graph.shows_redefineNode (Graph.shows_ensureNode h head.text)
            (g.mem_ids_ensureNode head.text) hstyle
          rw [← hlabel] at hnode
          exact hnode
      | cons hop hops => exact silent (shows_addHops h _ _ head (hop :: hops))
  | _ => exact silent h

/-- After some statements, a graph shows what they say about each node. -/
theorem shows_foldl_addTo (h : g.Shows said) (kind : EdgeKind) (ss : List Statement) :
    (ss.foldl (Statement.addTo kind) g).Shows
      fun id => said id ++ ss.flatMap (Statement.entriesFor id) := by
  induction ss generalizing g said with
  | nil => simpa only [List.foldl_nil, List.flatMap_nil, List.append_nil] using h
  | cons s ss ih =>
      have hrest := ih (shows_addTo h kind s)
      simpa only [List.foldl_cons, List.flatMap_cons, List.append_assoc] using hrest

/-! ## Descriptions -/

/-- Every node of the graph of a description shows what is said about its id. -/
theorem shows_graph (d : Document) : d.graph.Shows d.entriesFor := by
  have start := Graph.shows_empty d.directed (d.header.bind Header.name) d.attributes
  exact shows_foldl_addTo start d.edgeKind d.statements

/-- The statements of a text follow each other as their tokens do. -/
theorem pairwise_statements (text : List Char) :
    (((Document.ofText text).statements.flatMap Statement.tokens).map Token.place).Pairwise
      fun a b => a.stop ≤ b.start := by
  have tokens : (Document.ofText text).statements.flatMap Statement.tokens
      = (Document.ofText text).tokens.flatten := by
    rw [statements_ofText, List.flatMap_assoc, List.flatMap]
    congr 1
    exact (List.map_congr_left fun ts _ => tokens_statements ts).trans (List.map_id _)
  rw [tokens]
  exact pairwise_tokens _

/-- The keys of the entries that are kept under their own names are the others. -/
theorem keys_otherEntries (entries : List (String × String)) :
    (otherEntries entries).map Prod.fst
      = (entries.map Prod.fst).filter fun key => !nodeKeys.contains key := by
  rw [otherEntries, List.filter_map]
  rfl

/-- Under a key of its own a node has no other entry. -/
theorem lastGiven?_otherEntries (key : String) (entries : List (String × String)) :
    lastGiven? key (otherEntries entries)
      = if key ∈ nodeKeys then none else lastGiven? key entries := by
  by_cases h : key ∈ nodeKeys
  · rw [if_pos h, lastGiven?, List.getLast?_eq_none_iff, given, List.map_eq_nil_iff,
      List.filter_eq_nil_iff]
    intro entry hentry hkey
    have hother := (List.mem_filter.1 hentry).2
    rw [eq_of_beq hkey, List.contains_iff_mem.2 h] at hother
    exact absurd hother Bool.false_ne_true
  · rw [if_neg h]
    have hkept : (!nodeKeys.contains key) = true := by simpa using h
    exact lastGiven?_filter (fun key => !nodeKeys.contains key) hkept entries

/-- **The last word on a node counts.**  In a graph that was read, the label of a node is the last
    one that its node statements give in the order of the text, or its id if they give none; line
    color, fill color, style and shape are the last values of their keys; and the other attributes
    are all the other keys, in the order in which they come up first, each with its last value.
    Longer chains, defaults and graph attributes do not count. -/
theorem node_shows_last_values {source : String} {p : Parsed} (h : parse source = .ok p) :
    let d := Document.ofText (stripComments source.toList)
    ((d.statements.flatMap Statement.tokens).map Token.place).Pairwise
        (fun a b => a.stop ≤ b.start) ∧
    ∀ n ∈ p.graph.nodes,
      let entries := d.entriesFor n.id
      n.label = (lastGiven? "label" entries).getD n.id ∧
      n.style.stroke = lastGiven? "color" entries ∧
      n.style.background = lastGiven? "fillcolor" entries ∧
      n.style.style = lastGiven? "style" entries ∧
      n.style.shape = lastGiven? "shape" entries ∧
      n.style.extra.keys
        = ((entries.map Prod.fst).filter fun key => !nodeKeys.contains key).eraseDups ∧
      ∀ key, n.style.extra.get? key
        = if key ∈ nodeKeys then none else lastGiven? key entries := by
  intro d
  refine ⟨pairwise_statements _, fun n hn => ?_⟩
  have shows : n.Shows (d.entriesFor n.id) := by
    rw [eq_of_parse h] at hn
    exact (shows_graph d).nodes n hn
  obtain ⟨hlabel, hstroke, hbackground, hstyle, hshape, hextra⟩ := shows
  refine ⟨hlabel, hstroke, hbackground, hstyle, hshape, ?_, fun key => ?_⟩
  · rw [hextra, keys_ofList, keys_otherEntries]
  · rw [hextra, get?_ofList, lastGiven?_otherEntries]

/-- A node that an edge mentions first and that is defined twice, with two lists and in front of an
    operator that leads nowhere, between a default, an edge and a graph attribute of the same
    keys. -/
theorem node_shows_last_values_mixed :
    let source := "digraph \x7b node [label=d] B -> A [label=e]
      A [label=x, w=1, label=y] [h=2, w=3] A -> [color=u, h=4] graph [w=g] \x7d"
    ∃ p, parse source = .ok p ∧ ∃ n ∈ p.graph.nodes, n.id = "A" ∧ n.label = "y" ∧
      n.style.stroke = some "u" ∧ n.style.background = none ∧
      n.style.style = none ∧ n.style.shape = none ∧
      n.style.extra.keys = ["w", "h"] ∧
      n.style.extra.get? "w" = some "3" ∧ n.style.extra.get? "label" = none := by
  intro source
  have facts : (parse source).toOption.map
      (fun p => (p.graph.ids, (Document.ofText (stripComments source.toList)).entriesFor "A"))
      = some (["B", "A"], [("label", "x"), ("w", "1"), ("label", "y"), ("h", "2"), ("w", "3"),
        ("color", "u"), ("h", "4")]) := by
    decide +kernel
  cases h : parse source with
  | error e =>
      rw [h] at facts
      exact nomatch facts
  | ok p =>
      rw [h] at facts
      obtain ⟨hids, entries⟩ := Prod.mk.inj (Option.some.inj facts)
      have hmem : "A" ∈ p.graph.ids := by
        rw [show p.graph.ids = ["B", "A"] from hids]
        decide
      obtain ⟨n, hn, hid⟩ := List.mem_map.1 hmem
      obtain ⟨hlabel, hstroke, hbackground, hstyle, hshape, hkeys, hvalues⟩ :=
        (node_shows_last_values h).2 n hn
      rw [hid, entries] at hlabel hstroke hbackground hstyle hshape hkeys hvalues
      refine ⟨p, rfl, n, hn, hid, hlabel, hstroke, hbackground, hstyle, hshape, ?_, ?_, ?_⟩
      · rw [hkeys]
        decide
      · rw [hvalues]
        decide
      · rw [hvalues]
        decide

end Dot

end DotLayout
