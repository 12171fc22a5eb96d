import DotLayout.Graph.Basic

/-! # Moving and resizing nodes

    What places the nodes of a graph changes each node by itself: its position, perhaps its size,
    and nothing else.

    * `node?_mapNodes` : the node with an id afterwards is the changed one.
    * `SameButPlaces` : what moving and resizing leaves as it was.
    * `sameButPlaces_applyPositions` : positions are applied in this way. -/

namespace DotLayout.Graph

variable {g g' g'' : Graph} {f f' : Node → Node}

/-! ## Changing each node by itself -/

theorem ids_mapNodes (g : Graph) (h : ∀ n, (f n).id = n.id) : (g.mapNodes f h).ids = g.ids := by
  rw [ids, mapNodes, List.map_map]
  exact List.map_congr_left fun n _ => h n

theorem ids_modifyNode (g : Graph) (id : String) (h : ∀ n, (f n).id = n.id) :
    (g.modifyNode id f h).ids = g.ids :=
  ids_mapNodes g _

/-- After a change of every node, the node with an id is the one with that id, changed. -/
theorem node?_mapNodes (g : Graph) (h : ∀ n, (f n).id = n.id) (id : String) :
    (g.mapNodes f h).node? id = (g.node? id).map f := by
  rw [node?, node?, mapNodes, List.find?_map]
  have hsame : (fun n => n.id == id) ∘ f = fun n => n.id == id := by
    funext n
    exact congrArg (· == id) (h n)
  rw [hsame]

/-- Two changes of every node, one after the other, are one change. -/
theorem mapNodes_mapNodes (g : Graph) (h : ∀ n, (f n).id = n.id) (h' : ∀ n, (f' n).id = n.id) :
    (g.mapNodes f h).mapNodes f' h'
      = g.mapNodes (fun n => f' (f n)) fun n => (h' (f n)).trans (h n) := by
  simp only [mapNodes, List.map_map, Function.comp_def]

/-- Changes that change no node change nothing. -/
theorem mapNodes_eq_self (h : ∀ n, (f n).id = n.id) (hf : ∀ n ∈ g.nodes, f n = n) :
    g.mapNodes f h = g := by
  have hnodes : g.nodes.map f = g.nodes := by
    rw [List.map_congr_left hf, List.map_id']
  simp only [mapNodes, hnodes]

theorem contains_congr (h : g'.ids = g.ids) (id : String) : g'.contains id = g.contains id := by
  rw [Bool.eq_iff_iff, contains_iff, contains_iff, h]

theorem id_of_node? {id : String} {n : Node} (h : g.node? id = some n) : n.id = id := by
  have hfound := List.find?_some h
  exact eq_of_beq hfound

/-- For every id of a graph there is a node, and it is found. -/
theorem exists_node?_of_mem {id : String} (h : id ∈ g.ids) :
    ∃ n ∈ g.nodes, g.node? id = some n := by
  obtain ⟨n, hn, rfl⟩ := List.mem_map.1 h
  have hfound : (g.node? n.id).isSome = true := by
    rw [node?, List.find?_isSome]
    exact ⟨n, hn, beq_self_eq_true _⟩
  obtain ⟨m, hm⟩ := Option.isSome_iff_exists.1 hfound
  exact ⟨m, List.mem_of_find?_eq_some hm, hm⟩

/-! ## What stays -/

/-- Whether a graph differs from another one in nothing but the positions and sizes of its
    nodes. -/
structure SameButPlaces (g g' : Graph) : Prop where
  name : g'.name = g.name
  directed : g'.directed = g.directed
  attributes : g'.attributes = g.attributes
  edges : g'.edges = g.edges
  connections : g'.connections = g.connections
  ids : g'.ids = g.ids
  labels : g'.nodes.map Node.label = g.nodes.map Node.label
  styles : g'.nodes.map Node.style = g.nodes.map Node.style

theorem SameButPlaces.refl (g : Graph) : g.SameButPlaces g :=
  ⟨rfl, rfl, rfl, rfl, rfl, rfl, rfl, rfl⟩

theorem SameButPlaces.trans (h : g.SameButPlaces g') (h' : g'.SameButPlaces g'') :
    g.SameButPlaces g'' where
  name := h'.name.trans h.name
  directed := h'.directed.trans h.directed
  attributes := h'.attributes.trans h.attributes
  edges := h'.edges.trans h.edges
  connections := h'.connections.trans h.connections
  ids := h'.ids.trans h.ids
  labels := h'.labels.trans h.labels
  styles := h'.styles.trans h.styles

/-- Changes of nothing but positions and sizes leave the rest as it was. -/
theorem sameButPlaces_mapNodes (g : Graph) (h : ∀ n, (f n).id = n.id)
    (hplaces : ∀ n, ∃ position size, f n = { n with position := position, size := size }) :
    g.SameButPlaces (g.mapNodes f h) where
  name := rfl
  directed := rfl
  attributes := rfl
  edges := rfl
  connections := rfl
  ids := ids_mapNodes g h
  labels := by
    rw [mapNodes, List.map_map]
    refine List.map_congr_left fun n _ => ?_
    obtain ⟨position, size, hn⟩ := hplaces n
    rw [Function.comp_apply, hn]
  styles := by
    rw [mapNodes, List.map_map]
    refine List.map_congr_left fun n _ => ?_
    obtain ⟨position, size, hn⟩ := hplaces n
    rw [Function.comp_apply, hn]

/-- Positions are applied to the places of nodes, and nothing else changes. -/
theorem sameButPlaces_applyPositions (g : Graph) (positions : Positions) :
    g.SameButPlaces (g.applyPositions positions) := by
  refine sameButPlaces_mapNodes g _ ?_
  intro n
  split
  · exact ⟨_, n.size, rfl⟩
  · exact ⟨n.position, n.size, rfl⟩

end DotLayout.Graph
