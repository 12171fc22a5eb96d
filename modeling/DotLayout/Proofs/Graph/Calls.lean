import DotLayout.Proofs.Graph.Placement
import DotLayout.Proofs.Layout.Positions

/-! # Graphs as calls build them

    A graph starts empty and is built by calls.  A call may add nodes after those that are there,
    add one edge after those that are there, or change nodes and attributes; no call takes
    anything away.

    * `prefix_on`, `edges_on`, `connections_on` : what one call does to ids, edges and counter.
    * `indexOf?_after` : a node keeps its number.
    * `nodes_foldl_ensureNode` : making sure of names adds a node for every new one.
    * `closed_after` : every edge has both of its ends.
    * `nodup_issued` : no two edges that were made by `connect` have the same id. -/

namespace DotLayout

/-- What can be asked of a graph. -/
inductive Call where
  | insertNode (n : Node)
  | ensureNode (id : String)
  | connect (source target : String) (attributes : EdgeAttributes) (kind : EdgeKind)
  | pushEdge (e : Edge)
  | setAttribute (key value : String)
  | redefineNode (id : String) (label : Option String) (style : NodeStyle)
  | setLabel (id label : String)
  | setPosition (id : String) (position : Point)
  | setSize (id : String) (size : Size)
  | applyPositions (positions : Positions)

namespace Call

/-- The graph after a call. -/
def on (g : Graph) : Call → Graph
  | insertNode n => g.insertNode n
  | ensureNode id => g.ensureNode id
  | connect source target attributes kind => g.connect source target attributes kind
  | pushEdge e => g.pushEdge e
  | setAttribute key value => g.setAttribute key value
  | redefineNode id label style => g.redefineNode id label style
  | setLabel id label => g.setLabel id label
  | setPosition id position => g.setPosition id position
  | setSize id size => g.setSize id size
  | applyPositions positions => g.applyPositions positions

/-- Whether a call joins two ids. -/
def isConnect : Call → Bool
  | connect .. => true
  | _ => false

/-- The edge that a call adds to a graph. -/
def edge? (g : Graph) : Call → Option Edge
  | connect source target attributes kind =>
    some ⟨g.nextEdgeId source target, source, target, attributes, kind⟩
  | pushEdge e => some e
  | _ => none

/-- The id of the edge that `connect` hands back: it is the last one of the graph then. -/
def issued? (g : Graph) (c : Call) : Option String :=
  if c.isConnect then ((c.on g).edges.getLast?).map Edge.id else none

end Call

namespace Graph

variable {g g' : Graph}

/-- The graph after calls, one after the other. -/
def after (g : Graph) (calls : List Call) : Graph := calls.foldl Call.on g

/-- The ids that `connect` gave to edges, call by call. -/
def issued (g : Graph) : List Call → List String
  | [] => []
  | c :: calls => (c.issued? g).toList ++ (c.on g).issued calls

/-- Whether both ends of every edge are nodes. -/
def Closed (g : Graph) : Prop := ∀ e ∈ g.edges, e.source ∈ g.ids ∧ e.target ∈ g.ids

/-! ## What one call does -/

/-- The ids of a graph begin with the same ids. -/
theorem prefix_of_ids_eq (h : g'.ids = g.ids) : g.ids <+: g'.ids :=
  ⟨[], by rw [List.append_nil, h]⟩

/-- Making sure of a node keeps the ids in front. -/
theorem prefix_ensureNode (g : Graph) (id : String) : g.ids <+: (g.ensureNode id).ids := by
  by_cases h : id ∈ g.ids
  · exact prefix_of_ids_eq (congrArg ids (ensureNode_of_mem h))
  · rw [ids, ids, nodes_ensureNode h, List.map_append]
    exact List.prefix_append _ _

/-- After making sure of a node it is there. -/
theorem mem_ids_ensureNode (g : Graph) (id : String) : id ∈ (g.ensureNode id).ids := by
  by_cases h : id ∈ g.ids
  · rwa [ensureNode_of_mem h]
  · rw [ids, nodes_ensureNode h, List.map_append]
    exact List.mem_append_right _ (List.mem_singleton.2 rfl)

theorem prefix_pushEdge (g : Graph) (e : Edge) : g.ids <+: (g.pushEdge e).ids :=
  (g.prefix_ensureNode e.source).trans ((g.ensureNode e.source).prefix_ensureNode e.target)

/-- After adding an edge both of its ends are there. -/
theorem ends_mem_ids_pushEdge (g : Graph) (e : Edge) :
    e.source ∈ (g.pushEdge e).ids ∧ e.target ∈ (g.pushEdge e).ids :=
  ⟨((g.ensureNode e.source).prefix_ensureNode e.target).subset (g.mem_ids_ensureNode e.source),
    (g.ensureNode e.source).mem_ids_ensureNode e.target⟩

theorem prefix_modifyNode (g : Graph) (id : String) {f : Node → Node} (h : ∀ n, (f n).id = n.id) :
    g.ids <+: (g.modifyNode id f h).ids :=
  prefix_of_ids_eq (ids_modifyNode g id h)

theorem ids_redefineNode (g : Graph) (id : String) (label : Option String) (style : NodeStyle) :
    (g.redefineNode id label style).ids = g.ids :=
  ids_modifyNode g id _

/-- Inserting a node keeps the ids in front. -/
theorem prefix_insertNode (g : Graph) (n : Node) : g.ids <+: (g.insertNode n).ids := by
  rw [insertNode]
  split
  · rw [redefineNode]
    exact g.prefix_modifyNode n.id _
  · rw [ids, ids, addNew, List.map_append]
    exact List.prefix_append _ _

/-- A call leaves the ids that are there in their places. -/
theorem prefix_on (g : Graph) (c : Call) : g.ids <+: (c.on g).ids := by
  cases c with
  | insertNode n => exact g.prefix_insertNode n
  | ensureNode id => exact g.prefix_ensureNode id
  | connect source target attributes kind => exact g.prefix_pushEdge _
  | pushEdge e => exact g.prefix_pushEdge e
  | setAttribute key value => exact List.prefix_refl _
  | redefineNode id label style =>
    rw [Call.on, redefineNode]
    exact g.prefix_modifyNode id _
  | setLabel id label =>
    rw [Call.on, setLabel]
    exact g.prefix_modifyNode id _
  | setPosition id position =>
    rw [Call.on, setPosition]
    exact g.prefix_modifyNode id _
  | setSize id size =>
    rw [Call.on, setSize]
    exact g.prefix_modifyNode id _
  | applyPositions positions =>
    exact prefix_of_ids_eq (g.sameButPlaces_applyPositions positions).ids

/-- A call leaves the edges that are there in their places, and adds its own edge. -/
theorem edges_on (g : Graph) (c : Call) : (c.on g).edges = g.edges ++ (c.edge? g).toList := by
  cases c with
  | insertNode n => simp [Call.on, Call.edge?]
  | ensureNode id => simp [Call.on, Call.edge?]
  | connect source target attributes kind => simp [Call.on, Call.edge?, connect]
  | pushEdge e => simp [Call.on, Call.edge?]
  | _ => exact (List.append_nil _).symm

/-- The counter counts the edges that are added. -/
theorem connections_on (g : Graph) (c : Call) :
    (c.on g).connections = g.connections + (c.edge? g).toList.length := by
  cases c with
  | insertNode n => simp [Call.on, Call.edge?]
  | ensureNode id => simp [Call.on, Call.edge?]
  | connect source target attributes kind => simp [Call.on, Call.edge?, connect]
  | pushEdge e => simp [Call.on, Call.edge?]
  | _ => rfl

/-- Both ends of the edge that a call adds are nodes then. -/
theorem ends_mem_ids_on {c : Call} {e : Edge} (h : c.edge? g = some e) :
    e.source ∈ (c.on g).ids ∧ e.target ∈ (c.on g).ids := by
  cases c with
  | connect source target attributes kind =>
    obtain rfl := Option.some.inj h
    exact g.ends_mem_ids_pushEdge _
  | pushEdge e' =>
    obtain rfl := Option.some.inj h
    exact g.ends_mem_ids_pushEdge _
  | _ => exact nomatch h

/-- A call keeps the ends of all edges among the nodes. -/
theorem closed_on (h : g.Closed) (c : Call) : (c.on g).Closed := by
  intro e he
  rw [edges_on, List.mem_append, Option.mem_toList] at he
  rcases he with hold | hnew
  · obtain ⟨hsource, htarget⟩ := h e hold
    exact ⟨(g.prefix_on c).subset hsource, (g.prefix_on c).subset htarget⟩
  · exact ends_mem_ids_on hnew

/-! ## What calls do one after the other -/

/-- Calls keep the ids in front. -/
theorem prefix_after (g : Graph) (calls : List Call) : g.ids <+: (g.after calls).ids := by
  induction calls generalizing g with
  | nil => exact List.prefix_refl _
  | cons c calls ih => exact (g.prefix_on c).trans (ih (c.on g))

/-- A node keeps its number, whatever is called. -/
theorem indexOf?_after {id : String} {i : Nat} (h : g.indexOf? id = some i) (calls : List Call) :
    (g.after calls).indexOf? id = some i := by
  obtain ⟨added, hids⟩ := g.prefix_after calls
  rw [indexOf?_eq_some_iff] at h ⊢
  obtain ⟨hlt, -⟩ := List.getElem?_eq_some_iff.1 h
  rw [← hids, List.getElem?_append_left hlt, h]

/-- Calls keep the ends of all edges among the nodes. -/
theorem closed_after (h : g.Closed) (calls : List Call) : (g.after calls).Closed := by
  induction calls generalizing g with
  | nil => exact h
  | cons c calls ih => exact ih (closed_on h c)

/-- A graph without edges has all ends among its nodes. -/
theorem closed_empty (directed : Bool) (name : Option String) : (empty directed name).Closed :=
  fun _ he => nomatch he

/-! ## Making sure of names -/

/-- Making sure of names adds a node for every new one. -/
theorem nodes_foldl_ensureNode (g : Graph) (names : List String) :
    (names.foldl ensureNode g).nodes
      = g.nodes ++ (names.filter fun id => !g.contains id).eraseDups.map Node.named := by
  -- from the last name backwards: a name that came before has its node already
  induction names using List.reverseRecOn with
  | nil => simp
  | append_singleton names name ih =>
    have hids : (names.foldl ensureNode g).ids
        = g.ids ++ (names.filter fun id => !g.contains id).eraseDups := by
      rw [ids, ih, List.map_append, List.map_map]
      congr 1
      exact List.map_id' _
    rw [List.foldl_append, List.foldl_cons, List.foldl_nil, List.filter_append]
    cases hknown : g.contains name with
    | true =>
      have hmem : name ∈ (names.foldl ensureNode g).ids := by
        rw [hids]
        exact List.mem_append_left _ (contains_iff.1 hknown)
      rw [ensureNode_of_mem hmem, ih]
      simp [hknown]
    | false =>
      have hfree : name ∉ g.ids := fun h => by simp [contains_iff.2 h] at hknown
      have hlast : [name].filter (fun id => !g.contains id) = [name] := by simp [hknown]
      rw [hlast, Layout.eraseDups_concat]
      by_cases hseen : name ∈ names.filter fun id => !g.contains id
      · have hmem : name ∈ (names.foldl ensureNode g).ids := by
          rw [hids]
          exact List.mem_append_right _ (List.mem_eraseDups.2 hseen)
        rw [ensureNode_of_mem hmem, ih, if_pos (List.contains_iff_mem.2 hseen)]
      · have hnew : name ∉ (names.foldl ensureNode g).ids := by
          rw [hids, List.mem_append, List.mem_eraseDups]
          exact not_or.2 ⟨hfree, hseen⟩
        rw [nodes_ensureNode hnew, ih, if_neg fun h => hseen (List.contains_iff_mem.1 h)]
        simp

/-- Which nodes are there in the end depends on nothing but the nodes that are there at first. -/
theorem nodes_foldl_ensureNode_congr (h : g.nodes = g'.nodes) (names : List String) :
    (names.foldl ensureNode g).nodes = (names.foldl ensureNode g').nodes := by
  have hknown : g.contains = g'.contains := by
    funext id
    rw [contains, contains, h]
  rw [nodes_foldl_ensureNode, nodes_foldl_ensureNode, h, hknown]

/-- Making sure of some nodes adds the new ones behind the others, each of them once. -/
theorem ids_foldl_ensureNode (g : Graph) (names : List String) :
    (names.foldl ensureNode g).ids
      = g.ids ++ (names.filter fun id => !g.contains id).eraseDups := by
  rw [ids, nodes_foldl_ensureNode, List.map_append, List.map_map]
  congr 1
  exact List.map_id' _

/-- Which nodes are added depends on the ids alone. -/
theorem ids_foldl_ensureNode_congr (h : g.ids = g'.ids) (names : List String) :
    (names.foldl ensureNode g).ids = (names.foldl ensureNode g').ids := by
  have hknown : g.contains = g'.contains := funext (contains_congr h)
  rw [ids_foldl_ensureNode, ids_foldl_ensureNode, h, hknown]

/-- Names make a graph without nodes have them as its ids, each once. -/
theorem ids_foldl_ensureNode_of_nil (h : g.nodes = []) (names : List String) :
    (names.foldl ensureNode g).ids = names.eraseDups := by
  have hnew : (names.filter fun id => !g.contains id) = names := by
    simp [contains, h]
  rw [ids_foldl_ensureNode, hnew, ids, h]
  rfl

/-! ## The ids of edges -/

/-- What stands behind the last `#` of two texts is the same in both. -/
theorem eq_of_append_hash {before before' after after' : List Char} (h : '#' ∉ after)
    (h' : '#' ∉ after') (heq : before ++ '#' :: after = before' ++ '#' :: after') :
    after = after' := by
  rcases List.append_eq_append_iff.1 heq with ⟨gap, -, hrest⟩ | ⟨gap, -, hrest⟩
  · cases gap with
    | nil => exact (List.cons.inj hrest).2
    | cons c gap =>
      obtain rfl := (List.cons.inj hrest).2
      exact absurd (List.mem_append_right gap List.mem_cons_self) h
  · cases gap with
    | nil => exact (List.cons.inj hrest).2.symm
    | cons c gap =>
      obtain rfl := (List.cons.inj hrest).2
      exact absurd (List.mem_append_right gap List.mem_cons_self) h'

/-- A counter behind a `#` can be read off an id, whatever stands in front. -/
theorem counter_inj {start start' : String} {n n' : Nat}
    (h : start ++ "#" ++ toString n = start' ++ "#" ++ toString n') : n = n' := by
  have hfree : ∀ k : Nat, '#' ∉ Nat.toDigits 10 k := by
    intro k hk
    have hdigit := Nat.isDigit_of_mem_toDigits (by decide) (by decide) hk
    exact absurd hdigit (by decide)
  have hlist : start.toList ++ '#' :: Nat.toDigits 10 n
      = start'.toList ++ '#' :: Nat.toDigits 10 n' := by
    simpa [Nat.toString_eq_repr, Nat.toList_repr] using congrArg String.toList h
  have hread := congrArg (fun digits => Nat.ofDigitChars 10 digits 0)
    (eq_of_append_hash (hfree n) (hfree n') hlist)
  simpa using hread

/-- Joining two ids issues the next id for an edge. -/
theorem issued?_connect (g : Graph) (source target : String) (attributes : EdgeAttributes)
    (kind : EdgeKind) : (Call.connect source target attributes kind).issued? g
      = some (g.nextEdgeId source target) := by
  have hlast := g.edges_on (.connect source target attributes kind)
  have hconnect : (Call.connect source target attributes kind).isConnect = true := rfl
  rw [Call.issued?, if_pos hconnect, hlast, Call.edge?, Option.toList_some, List.getLast?_concat]
  rfl

/-- An id that is given carries the counter as it is at that time. -/
theorem exists_counter_of_issued {calls : List Call} {id : String} (h : id ∈ g.issued calls) :
    ∃ start n, g.connections ≤ n ∧ id = start ++ "#" ++ toString n := by
  induction calls generalizing g with
  | nil => exact nomatch h
  | cons c calls ih =>
    rw [issued, List.mem_append, Option.mem_toList] at h
    rcases h with hnow | hlater
    · cases c with
      | connect source target attributes kind =>
        rw [issued?_connect] at hnow
        exact ⟨_, g.connections, Nat.le_refl _, (Option.some.inj hnow).symm⟩
      | _ => exact nomatch hnow
    · obtain ⟨start, n, hle, heq⟩ := ih hlater
      have hgrown : g.connections ≤ (c.on g).connections := by
        rw [connections_on]
        exact Nat.le_add_right _ _
      exact ⟨start, n, Nat.le_trans hgrown hle, heq⟩

/-- The ids that `connect` gives are distinct. -/
theorem nodup_issued (g : Graph) (calls : List Call) : (g.issued calls).Nodup := by
  induction calls generalizing g with
  | nil => exact List.nodup_nil
  | cons c calls ih =>
    rw [issued]
    cases hnow : c.issued? g with
    | none => exact ih _
    | some id =>
      refine List.nodup_cons.2 ⟨?_, ih _⟩
      intro hlater
      -- a later id carries a counter that is larger than the one of this call
      cases c with
      | connect source target attributes kind =>
        rw [issued?_connect] at hnow
        obtain ⟨start, n, hle, heq⟩ := exists_counter_of_issued hlater
        have hcounter : g.connections = n :=
          counter_inj ((Option.some.inj hnow).trans heq)
        rw [connections_on, Call.edge?, Option.toList_some, List.length_singleton] at hle
        omega
      | _ => exact nomatch hnow

/-- Every `connect` gives an id. -/
theorem length_issued (g : Graph) (calls : List Call) :
    (g.issued calls).length = calls.countP Call.isConnect := by
  induction calls generalizing g with
  | nil => rfl
  | cons c calls ih =>
    rw [issued, List.length_append, ih, List.countP_cons, Nat.add_comm]
    cases c with
    | connect source target attributes kind =>
      rw [issued?_connect]
      rfl
    | _ => rfl

/-- The edges that `connect` made are all there at the end, with their ids. -/
theorem issued_sublist (g : Graph) (calls : List Call) :
    (g.edges.map Edge.id ++ g.issued calls).Sublist ((g.after calls).edges.map Edge.id) := by
  induction calls generalizing g with
  | nil => simp [issued, after]
  | cons c calls ih =>
    have hstep : (g.edges.map Edge.id ++ (c.issued? g).toList).Sublist
        ((c.on g).edges.map Edge.id) := by
      rw [edges_on, List.map_append]
      refine List.Sublist.append (List.Sublist.refl _) ?_
      cases c with
      | connect source target attributes kind =>
        rw [issued?_connect]
        exact List.Sublist.refl _
      | _ => exact List.nil_sublist _
    rw [issued, ← List.append_assoc]
    exact (List.Sublist.append hstep (List.Sublist.refl _)).trans (ih (c.on g))

end Graph

end DotLayout
