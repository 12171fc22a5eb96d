import DotLayout.Proofs.Graph.Calls

/-! # Graphs as maps of nodes

    A graph can also be kept as a map, in which a call looks up the node that it changes by a key.
    Nothing in such a map forces a node to stand under its own id, or keeps it in its place: that
    is left to the calls.

    * `entries_modify` : changing the value of a key leaves all keys in their places.
    * `ofGraph_on` : a call does to the map of a graph what it does to the graph.
    * `built_by_calls` : so whatever calls build is sound. -/

namespace DotLayout

namespace OrderedMap

variable {α : Type} {m m' : OrderedMap α}

/-- Changes the value of a name in place, if it has one. -/
def modify (m : OrderedMap α) (key : String) (f : α → α) : OrderedMap α :=
  match m.get? key with
  | some value => m.insert key (f value)
  | none => m

/-- Changes all values in place. -/
def mapValues (m : OrderedMap α) (f : α → α) : OrderedMap α where
  entries := m.entries.map fun entry => (entry.1, f entry.2)
  keys_nodup := by
    rw [List.map_map]
    exact m.keys_nodup

theorem entries_mapValues (m : OrderedMap α) (f : α → α) :
    (m.mapValues f).entries = m.entries.map fun entry => (entry.1, f entry.2) := rfl

/-- Maps with the same entries are the same. -/
theorem ext_entries (h : m.entries = m'.entries) : m = m' := by
  obtain ⟨entries, _⟩ := m
  obtain ⟨entries', _⟩ := m'
  obtain rfl : entries = entries' := h
  rfl

/-- A new value for a name that is there takes the place of the old one. -/
theorem put_of_lookup {key : String} {value value' : α} {entries : List (String × α)}
    (hnodup : (entries.map Prod.fst).Nodup) (h : entries.lookup key = some value) :
    put key value' entries
      = entries.map fun entry => if entry.1 == key then (entry.1, value') else entry := by
  induction entries with
  | nil => exact nomatch h
  | cons entry rest ih =>
    obtain ⟨hhead, hrest⟩ := List.nodup_cons.1 hnodup
    by_cases hkey : entry.1 = key
    · -- no later entry has the name
      have hsame : ∀ e ∈ rest, (if e.1 == key then (e.1, value') else e) = e := by
        intro e he
        have hne : ¬ (e.1 == key) = true := by
          intro heq
          exact hhead (hkey.trans (eq_of_beq heq).symm ▸ List.mem_map_of_mem he)
        rw [if_neg hne]
      rw [put, if_pos hkey, List.map_cons, List.map_congr_left hsame, List.map_id',
        if_pos (beq_iff_eq.2 hkey), hkey]
    · have hbeq : (key == entry.1) = false := by
        rw [beq_eq_false_iff_ne]
        exact fun heq => hkey heq.symm
      have hlookup : rest.lookup key = some value := by
        rw [← h, List.lookup_cons, hbeq]
      rw [put, if_neg hkey, ih hrest hlookup, List.map_cons,
        if_neg fun heq => hkey (eq_of_beq heq)]

/-- Changing the value of a name leaves every name in its place. -/
theorem entries_modify (m : OrderedMap α) (key : String) (f : α → α) :
    (m.modify key f).entries
      = m.entries.map fun entry => if entry.1 == key then (entry.1, f entry.2) else entry := by
  rw [modify]
  cases hvalue : m.get? key with
  | none =>
    -- an entry with this key would have been found
    have hsame : ∀ e ∈ m.entries, (if e.1 == key then (e.1, f e.2) else e) = e := by
      intro e he
      have hne : ¬ (e.1 == key) = true := by
        intro heq
        have hmem : (key, e.2) ∈ m.entries := by
          rw [← eq_of_beq heq]
          exact he
        exact nomatch hvalue.symm.trans (get?_eq_some_iff.2 hmem)
      rw [if_neg hne]
    rw [List.map_congr_left hsame, List.map_id']
  | some value =>
    refine (put_of_lookup m.keys_nodup hvalue).trans ?_
    refine List.map_congr_left fun e he => ?_
    by_cases hkey : (e.1 == key) = true
    · -- the value that was looked up is the one that stands there
      have hmem : (key, e.2) ∈ m.entries := by
        rw [← eq_of_beq hkey]
        exact he
      have hsame := (get?_eq_some_iff.2 hmem).symm.trans hvalue
      rw [if_pos hkey, if_pos hkey, Option.some.inj hsame]
    · rw [if_neg hkey, if_neg hkey]

end OrderedMap

/-- A graph whose nodes are the values of a map. -/
structure KeyedGraph where
  name : Option String
  directed : Bool
  nodes : OrderedMap Node
  edges : List Edge
  attributes : OrderedMap String
  connections : Nat

namespace KeyedGraph

/-- A map without nodes. -/
def empty (directed : Bool) (name : Option String) : KeyedGraph where
  name := name
  directed := directed
  nodes := {}
  edges := []
  attributes := {}
  connections := 0

/-- Adds a node with default values under an id, unless there is one. -/
def ensureNode (k : KeyedGraph) (id : String) : KeyedGraph :=
  match k.nodes.get? id with
  | some _ => k
  | none => { k with nodes := k.nodes.insert id (.named id) }

/-- Changes the node under an id, if there is one. -/
def modifyNode (k : KeyedGraph) (id : String) (f : Node → Node) : KeyedGraph :=
  { k with nodes := k.nodes.modify id f }

/-- Puts a node under its id behind all others, or defines the node that is there again. -/
def insertNode (k : KeyedGraph) (n : Node) : KeyedGraph :=
  match k.nodes.get? n.id with
  | some _ => k.modifyNode n.id (·.redefine (some n.label) n.style)
  | none => { k with nodes := k.nodes.insert n.id n }

/-- Adds an edge behind all others, and its ends where they are missing. -/
def pushEdge (k : KeyedGraph) (e : Edge) : KeyedGraph :=
  let k := (k.ensureNode e.source).ensureNode e.target
  { k with edges := k.edges ++ [e], connections := k.connections + 1 }

/-- Joins two ids by a new edge, whose id counts the edges before it. -/
def connect (k : KeyedGraph) (source target : String) (attributes : EdgeAttributes)
    (kind : EdgeKind) : KeyedGraph :=
  let k := (k.ensureNode source).ensureNode target
  let arrow := if k.directed then "->" else "--"
  let id := source ++ arrow ++ target ++ "#" ++ toString k.connections
  { k with
    edges := k.edges ++ [⟨id, source, target, attributes, kind⟩]
    connections := k.connections + 1 }

/-- Sets an attribute of the graph. -/
def setAttribute (k : KeyedGraph) (key value : String) : KeyedGraph :=
  { k with attributes := k.attributes.insert key value }

/-- Moves every node that has a position under its id, whatever its key is. -/
def applyPositions (k : KeyedGraph) (positions : Positions) : KeyedGraph :=
  { k with
    nodes := k.nodes.mapValues fun n =>
      match positions.get? n.id with
      | some position => { n with position := position }
      | none => n }

/-- The graph after a call. -/
def afterCall (k : KeyedGraph) : Call → KeyedGraph
  | .insertNode n => k.insertNode n
  | .ensureNode id => k.ensureNode id
  | .connect source target attributes kind => k.connect source target attributes kind
  | .pushEdge e => k.pushEdge e
  | .setAttribute key value => k.setAttribute key value
  | .redefineNode id label style => k.modifyNode id (·.redefine label style)
  | .setLabel id label => k.modifyNode id fun n => { n with label := label }
  | .setPosition id position => k.modifyNode id fun n => { n with position := position }
  | .setSize id size => k.modifyNode id fun n => { n with size := size }
  | .applyPositions positions => k.applyPositions positions

/-- The graph after calls, one after the other. -/
def after (k : KeyedGraph) (calls : List Call) : KeyedGraph := calls.foldl afterCall k

/-- A graph as a map, with each node under its id. -/
def ofGraph (g : Graph) : KeyedGraph where
  name := g.name
  directed := g.directed
  nodes := ⟨g.nodes.map fun n => (n.id, n), by
    rw [List.map_map]
    exact g.ids_nodup⟩
  edges := g.edges
  attributes := g.attributes
  connections := g.connections

/-! ## A call on the map of a graph -/

/-- The map of a graph has every node under its id, in order. -/
theorem entries_ofGraph (g : Graph) :
    (ofGraph g).nodes.entries = g.nodes.map fun n => (n.id, n) := rfl

/-- Looking up the key is looking for the id. -/
theorem lookup_map_id (nodes : List Node) (id : String) :
    (nodes.map fun n => (n.id, n)).lookup id = nodes.find? fun n => n.id == id := by
  induction nodes with
  | nil => rfl
  | cons n rest ih =>
    have hswap : (n.id == id) = (id == n.id) := Bool.beq_comm
    rw [List.map_cons, List.lookup_cons, List.find?_cons, ih, hswap]

/-- What a map of a graph holds under an id is the node with that id. -/
theorem get?_ofGraph (g : Graph) (id : String) : (ofGraph g).nodes.get? id = g.node? id :=
  lookup_map_id g.nodes id

/-- The map of a graph holds a node under every id of the graph. -/
theorem get?_ofGraph_of_contains {g : Graph} {id : String} (h : g.contains id = true) :
    ∃ n, (ofGraph g).nodes.get? id = some n := by
  rw [get?_ofGraph, ← Option.isSome_iff_exists, Graph.node?, List.find?_isSome]
  exact List.any_eq_true.1 h

/-- The map of a graph holds nothing under any other id. -/
theorem get?_ofGraph_of_not_contains {g : Graph} {id : String} (h : ¬ g.contains id = true) :
    (ofGraph g).nodes.get? id = none := by
  rw [get?_ofGraph, Graph.node?, List.find?_eq_none]
  intro n hn hid
  exact h (List.any_eq_true.2 ⟨n, hn, hid⟩)

/-- A node that is added last is added under its id. -/
theorem ofGraph_addNew (g : Graph) (n : Node) (h : n.id ∉ g.ids) :
    ofGraph (g.addNew n h) = { ofGraph g with nodes := (ofGraph g).nodes.insert n.id n } := by
  have hkeys : (ofGraph g).nodes.entries.map Prod.fst = g.ids := by
    rw [entries_ofGraph, List.map_map]
    rfl
  have hnew : n.id ∉ (ofGraph g).nodes.entries.map Prod.fst := by
    rw [hkeys]
    exact h
  have hentries : (ofGraph (g.addNew n h)).nodes.entries
      = (ofGraph g).nodes.entries ++ [(n.id, n)] := List.map_append
  have hnodes : (ofGraph (g.addNew n h)).nodes = (ofGraph g).nodes.insert n.id n :=
    OrderedMap.ext_entries (hentries.trans (OrderedMap.put_of_notMem hnew).symm)
  exact congrArg (fun nodes => { ofGraph g with nodes := nodes }) hnodes

/-- Nodes that keep their ids stay under their keys. -/
theorem ofGraph_mapNodes {g : Graph} {f : Node → Node} (h : ∀ n, (f n).id = n.id)
    {nodes : OrderedMap Node} (hentries : nodes.entries = g.nodes.map fun n => (n.id, f n)) :
    ofGraph (g.mapNodes f h) = { ofGraph g with nodes := nodes } := by
  have hnodes : (ofGraph (g.mapNodes f h)).nodes = nodes := by
    refine OrderedMap.ext_entries ?_
    rw [hentries, entries_ofGraph, Graph.mapNodes, List.map_map]
    exact List.map_congr_left fun n _ => congrArg (·, f n) (h n)
  exact congrArg (fun nodes => { ofGraph g with nodes := nodes }) hnodes

/-- Changing the node with an id is changing what the map holds under it. -/
theorem ofGraph_modifyNode (g : Graph) (id : String) (f : Node → Node)
    (h : ∀ n, (f n).id = n.id) :
    ofGraph (g.modifyNode id f h) = (ofGraph g).modifyNode id f := by
  refine ofGraph_mapNodes _ ?_
  rw [OrderedMap.entries_modify, entries_ofGraph, List.map_map]
  refine List.map_congr_left fun n _ => ?_
  rw [Function.comp_apply]
  split <;> rfl

/-- Defining a node again is changing what the map holds under its id. -/
theorem ofGraph_redefineNode (g : Graph) (id : String) (label : Option String)
    (style : NodeStyle) : ofGraph (g.redefineNode id label style)
      = (ofGraph g).modifyNode id (·.redefine label style) :=
  ofGraph_modifyNode g id (·.redefine label style) fun _ => rfl

/-- Applying positions to a graph is applying them to its map. -/
theorem ofGraph_applyPositions (g : Graph) (positions : Positions) :
    ofGraph (g.applyPositions positions) = (ofGraph g).applyPositions positions := by
  refine ofGraph_mapNodes _ ?_
  rw [OrderedMap.entries_mapValues, entries_ofGraph, List.map_map]
  rfl

/-- Making sure of a node in a graph is making sure of it in its map. -/
theorem ofGraph_ensureNode (g : Graph) (id : String) :
    ofGraph (g.ensureNode id) = (ofGraph g).ensureNode id := by
  rw [ensureNode, Graph.ensureNode]
  by_cases hc : g.contains id = true
  · obtain ⟨n, hn⟩ := get?_ofGraph_of_contains hc
    rw [dif_pos hc, hn]
  · rw [dif_neg hc, get?_ofGraph_of_not_contains hc, ofGraph_addNew]
    rfl

/-- Inserting a node into a graph is inserting it into its map. -/
theorem ofGraph_insertNode (g : Graph) (n : Node) :
    ofGraph (g.insertNode n) = (ofGraph g).insertNode n := by
  rw [insertNode, Graph.insertNode]
  by_cases hc : g.contains n.id = true
  · obtain ⟨n', hn'⟩ := get?_ofGraph_of_contains hc
    rw [dif_pos hc, hn']
    exact ofGraph_redefineNode g n.id (some n.label) n.style
  · rw [dif_neg hc, get?_ofGraph_of_not_contains hc, ofGraph_addNew]

/-- Adding an edge to a graph is adding it to its map. -/
theorem ofGraph_pushEdge (g : Graph) (e : Edge) :
    ofGraph (g.pushEdge e) = (ofGraph g).pushEdge e := by
  rw [pushEdge, ← ofGraph_ensureNode, ← ofGraph_ensureNode]
  rfl

/-- Joining two ids in a graph is joining them in its map. -/
theorem ofGraph_connect (g : Graph) (source target : String) (attributes : EdgeAttributes)
    (kind : EdgeKind) : ofGraph (g.connect source target attributes kind)
      = (ofGraph g).connect source target attributes kind := by
  have hid : ((g.ensureNode source).ensureNode target).nextEdgeId source target
      = g.nextEdgeId source target := by
    simp only [Graph.nextEdgeId, Graph.arrow, Graph.directed_ensureNode,
      Graph.connections_ensureNode]
  rw [connect, ← ofGraph_ensureNode, ← ofGraph_ensureNode, Graph.connect, ← hid]
  rfl

/-- A call does to the map of a graph what it does to the graph. -/
theorem ofGraph_on (g : Graph) (c : Call) : ofGraph (c.on g) = (ofGraph g).afterCall c := by
  cases c with
  | insertNode n => exact ofGraph_insertNode g n
  | ensureNode id => exact ofGraph_ensureNode g id
  | connect source target attributes kind => exact ofGraph_connect g source target attributes kind
  | pushEdge e => exact ofGraph_pushEdge g e
  | setAttribute key value => rfl
  | redefineNode id label style => exact ofGraph_redefineNode g id label style
  | setLabel id label =>
    exact ofGraph_modifyNode g id (fun n => { n with label := label }) fun _ => rfl
  | setPosition id position =>
    exact ofGraph_modifyNode g id (fun n => { n with position := position }) fun _ => rfl
  | setSize id size => exact ofGraph_modifyNode g id (fun n => { n with size := size }) fun _ => rfl
  | applyPositions positions => exact ofGraph_applyPositions g positions

/-- A sequence of calls does to the map of a graph what it does to the graph. -/
theorem ofGraph_after (g : Graph) (calls : List Call) :
    ofGraph (g.after calls) = (ofGraph g).after calls := by
  induction calls generalizing g with
  | nil => rfl
  | cons c calls ih => exact (ih (c.on g)).trans (congrArg (after · calls) (ofGraph_on g c))

end KeyedGraph

/-- **Whatever calls build is sound.**  Kept as a map, the graph has every node under its own id;
    the ends of every edge are nodes; a node that is there has the same number after all calls
    that follow; and every `connect` gave its edge an id that no other `connect` of the run gave,
    whatever the endpoints are called and whatever edges are pushed in between. -/
theorem built_by_calls (directed : Bool) (name : Option String) (calls : List Call) :
    let start := Graph.empty directed name
    let g := start.after calls
    let k := (KeyedGraph.empty directed name).after calls
    (k = .ofGraph g ∧ ∀ entry ∈ k.nodes.entries, entry.1 = entry.2.id)
      ∧ (∀ e ∈ g.edges, e.source ∈ g.ids ∧ e.target ∈ g.ids)
      ∧ (∀ id i, g.indexOf? id = some i → ∀ more, (g.after more).indexOf? id = some i)
      ∧ (start.issued calls).Nodup
      ∧ (start.issued calls).length = calls.countP Call.isConnect
      ∧ (start.issued calls).Sublist (g.edges.map Edge.id) := by
  intro start g k
  have hkeyed : k = .ofGraph g := (KeyedGraph.ofGraph_after start calls).symm
  have hkeys : ∀ entry ∈ k.nodes.entries, entry.1 = entry.2.id := by
    intro entry hentry
    rw [hkeyed] at hentry
    obtain ⟨n, -, rfl⟩ := List.mem_map.1 hentry
    rfl
  have hclosed : g.Closed := Graph.closed_after (Graph.closed_empty directed name) calls
  exact ⟨⟨hkeyed, hkeys⟩, hclosed, fun _ _ h more => Graph.indexOf?_after h more,
    start.nodup_issued calls, start.length_issued calls, start.issued_sublist calls⟩

end DotLayout
