import DotLayout.Proofs.Exchange.Builtin
import DotLayout.Proofs.Exchange.Runs
import DotLayout.Proofs.Graph.Calls
import DotLayout.Routing.Resolver

/-! # Edges whose ends are missing

    An edge that was put in the place of another one may name ids that no node has.  The layouts
    leave such an edge out, and it has no way.  The collaborator of this library does not leave it
    out: the graph that it builds from a request gets a node for every missing end, so the answer
    places nodes that the graph does not have, and is refused.

    * `nodes_graph_missing` : the second graph has the nodes of the first one, then one for every
      missing end.
    * `validate_unknownNode_iff` : the answer is refused for the first missing end, unless a number
      for a node of the graph itself is not finite.
    * `unknownNode_iff_missing` : when a run with this collaborator fails in this way. -/

namespace DotLayout

/-- The ids of the ends of edges that no node has, in the order of the edges. -/
def Graph.missing (g : Graph) : List String :=
  (g.edges.flatMap fun e => [e.source, e.target]).filter fun id => !g.contains id

theorem Graph.notMem_ids_of_mem_missing {g : Graph} {id : String} (h : id ∈ g.missing) :
    id ∉ g.ids := by
  intro hid
  have hfree := (List.mem_filter.1 h).2
  rw [contains_iff.2 hid] at hfree
  exact nomatch hfree

theorem Graph.SameButPlaces.missing {g g' : Graph} (h : g.SameButPlaces g') :
    g'.missing = g.missing := by
  rw [Graph.missing, Graph.missing, h.edges]
  congr 1
  funext id
  rw [Graph.contains_congr h.ids]

theorem head?_eraseDups {α : Type} [BEq α] [LawfulBEq α] (l : List α) :
    l.eraseDups.head? = l.head? := by
  cases l with
  | nil => rfl
  | cons a l => rw [List.eraseDups_cons, List.head?_cons, List.head?_cons]

end DotLayout

namespace DotLayout.Exchange

open Layout

variable {g : Graph} {q : Params} {options : OrderedMap String} {answer : Response}

/-! ## The nodes of the second graph -/

/-- Adding edges creates the nodes that making sure of their ends would create. -/
theorem nodes_pushEdges_eq (g : Graph) (edges : List EdgeRef) :
    (pushEdges g edges).nodes
      = ((edges.flatMap fun e => [e.source, e.target]).foldl Graph.ensureNode g).nodes := by
  induction edges generalizing g with
  | nil => rfl
  | cons e edges ih =>
    have hnodes : (g.pushEdge e.edge).nodes
        = ((g.ensureNode e.source).ensureNode e.target).nodes := rfl
    calc (pushEdges (g.pushEdge e.edge) edges).nodes
        = ((edges.flatMap fun e => [e.source, e.target]).foldl Graph.ensureNode
            (g.pushEdge e.edge)).nodes := ih _
      _ = ((edges.flatMap fun e => [e.source, e.target]).foldl Graph.ensureNode
            ((g.ensureNode e.source).ensureNode e.target)).nodes :=
          Graph.nodes_foldl_ensureNode_congr hnodes _

/-- The second graph has the nodes of the first one, and then a node for every missing end. -/
theorem nodes_graph_missing (g : Graph) (options : OrderedMap String) :
    (Request.ofGraph g options).graph.nodes
      = (g.nodes.map fun n => { Node.named n.id with size := n.size })
        ++ g.missing.eraseDups.map Node.named := by
  have hids : (insertNodes (.empty true none) (Request.ofGraph g options).nodes).ids = g.ids := by
    rw [Graph.ids, nodes_insertNodes_ofGraph, List.map_map]
    rfl
  have hends : (Request.ofGraph g options).edges.flatMap (fun e => [e.source, e.target])
      = g.edges.flatMap fun e => [e.source, e.target] := by
    rw [Request.ofGraph, List.flatMap_map]
    rfl
  have hknown : ∀ id, (insertNodes (.empty true none) (Request.ofGraph g options).nodes).contains id
      = g.contains id := Graph.contains_congr hids
  rw [graph_eq, nodes_pushEdges_eq, Graph.nodes_foldl_ensureNode, nodes_insertNodes_ofGraph, hends]
  simp only [hknown, Graph.missing]

/-! ## The answer -/

/-- An answer places the nodes of the graph, in order, and then one node for every missing end. -/
theorem ids_answer (h : builtin q (.ofGraph g options) = .ok answer) :
    answer.nodes.map ResponseNode.id = g.ids ++ g.missing.eraseDups := by
  have hids : (Request.ofGraph g options).graph.ids = g.ids ++ g.missing.eraseDups := by
    rw [Graph.ids, nodes_graph_missing, List.map_append, List.map_map, List.map_map]
    congr 1
    exact List.map_id' _
  rw [builtin] at h
  cases hlayout : (Request.ofGraph g options).algorithm.layout (Request.ofGraph g options).graph
      ((Request.ofGraph g options).paramsOver q) with
  | error fault =>
    rw [hlayout] at h
    cases h
  | ok positions =>
    rw [hlayout] at h
    obtain rfl := Except.ok.inj h
    obtain ⟨point, hpoint⟩ := exists_point_of_layout hlayout
    rw [← hids, Response.ofPositions, Graph.ids, List.map_filterMap, ← List.filterMap_eq_map']
    refine List.filterMap_congr fun n hn => ?_
    rw [hpoint n hn]
    rfl

/-- This collaborator fails only where a layout does. -/
theorem eq_noRoom_of_builtin {r : Request} {e : CollaboratorError} (h : builtin q r = .error e) :
    ∃ fault, e = .noRoom fault := by
  rw [builtin] at h
  generalize r.algorithm.layout r.graph (r.paramsOver q) = outcome at h
  cases outcome with
  | error fault => exact ⟨fault, (Except.error.inj h).symm⟩
  | ok positions => cases h

/-- Of entries for known nodes followed by entries for unknown ones, the first of the unknown ones
    is the first fault, if the known ones are finite. -/
theorem findSome?_fault?_append {own extra : List ResponseNode}
    (hown : ∀ entry ∈ own, entry.id ∈ g.ids) (hextra : ∀ entry ∈ extra, entry.id ∉ g.ids)
    {id : String} :
    (own ++ extra).findSome? (ResponseNode.fault? g) = some (.unknownNode id) ↔
      (extra.map ResponseNode.id).head? = some id ∧ ∀ entry ∈ own, entry.isFinite = true := by
  rw [List.findSome?_append]
  cases hfault : own.findSome? (ResponseNode.fault? g) with
  | some e =>
    -- a fault of a known node is reported first, and it is of the other kind
    obtain ⟨entry, hentry, he⟩ := List.exists_of_findSome?_eq_some hfault
    constructor
    · intro h
      obtain rfl : e = .unknownNode id := Option.some.inj h
      obtain ⟨rfl, hnot⟩ := fault?_eq_unknownNode_iff.1 he
      exact absurd (hown entry hentry) hnot
    · rintro ⟨-, hfinite⟩
      have hnone := fault?_eq_none_iff.2 ⟨hown entry hentry, hfinite entry hentry⟩
      exact nomatch hnone.symm.trans he
  | none =>
    have hfinite : ∀ entry ∈ own, entry.isFinite = true := by
      intro entry hentry
      exact (fault?_eq_none_iff.1 (List.findSome?_eq_none_iff.1 hfault entry hentry)).2
    rw [Option.none_or]
    cases extra with
    | nil => simp
    | cons entry extra =>
      have hunknown : entry.fault? g = some (.unknownNode entry.id) :=
        fault?_eq_unknownNode_iff.2 ⟨rfl, hextra entry List.mem_cons_self⟩
      rw [List.findSome?_cons, hunknown]
      constructor
      · intro h
        obtain rfl := CollaboratorError.unknownNode.inj (Option.some.inj h)
        exact ⟨rfl, hfinite⟩
      · rintro ⟨h, -⟩
        obtain rfl := Option.some.inj h
        rfl

/-- An answer is refused for the first missing end, unless a number for a node of the graph itself
    is not finite. -/
theorem validate_unknownNode_iff (h : builtin q (.ofGraph g options) = .ok answer) {id : String} :
    answer.validate g = .error (.unknownNode id) ↔
      g.missing.head? = some id ∧
        ∀ entry ∈ answer.nodes, entry.id ∈ g.ids → entry.isFinite = true := by
  obtain ⟨own, extra, hnodes, hownIds, hextraIds⟩ := List.map_eq_append_iff.1 (ids_answer h)
  have hown : ∀ entry ∈ own, entry.id ∈ g.ids := by
    intro entry hentry
    rw [← hownIds]
    exact List.mem_map_of_mem hentry
  have hextra : ∀ entry ∈ extra, entry.id ∉ g.ids := by
    intro entry hentry
    have hmem : entry.id ∈ extra.map ResponseNode.id := List.mem_map_of_mem hentry
    rw [hextraIds, List.mem_eraseDups] at hmem
    exact Graph.notMem_ids_of_mem_missing hmem
  have hfinite : (∀ entry ∈ own ++ extra, entry.id ∈ g.ids → entry.isFinite = true)
      ↔ ∀ entry ∈ own, entry.isFinite = true := by
    constructor
    · intro hall entry hentry
      exact hall entry (List.mem_append_left _ hentry) (hown entry hentry)
    · intro hall entry hentry hid
      rcases List.mem_append.1 hentry with hmem | hmem
      · exact hall entry hmem
      · exact absurd hid (hextra entry hmem)
  rw [validate_eq_error_iff, hnodes, findSome?_fault?_append hown hextra, hextraIds,
    head?_eraseDups, hfinite]

/-- An answer can pass the check only if no end is missing. -/
theorem missing_eq_nil_of_validate (h : builtin q (.ofGraph g options) = .ok answer)
    (hvalid : answer.validate g = .ok ()) : g.missing = [] := by
  rw [List.eq_nil_iff_forall_not_mem]
  intro id hid
  have hmem : id ∈ answer.nodes.map ResponseNode.id := by
    rw [ids_answer h]
    exact List.mem_append_right _ (List.mem_eraseDups.2 hid)
  obtain ⟨entry, hentry, rfl⟩ := List.mem_map.1 hmem
  exact Graph.notMem_ids_of_mem_missing hid (validate_eq_ok_iff.1 hvalid entry hentry).1

/-! ## Runs -/

/-- A first layout can only fail for want of room. -/
theorem eq_noRoom_of_prepare {p : Pipeline} {e : CollaboratorError} (h : p.prepare g = .error e) :
    ∃ fault, e = .noRoom fault := by
  rw [Pipeline.prepare] at h
  cases hprepass : p.prepass with
  | none =>
    rw [hprepass] at h
    cases h
  | some algorithm =>
    rw [hprepass] at h
    dsimp only at h
    generalize algorithm.layout g p.params = outcome at h
    cases outcome with
    | error fault => exact ⟨fault, (Except.error.inj h).symm⟩
    | ok positions => cases h

/-- A run with this collaborator says that a node is unknown when the check of an answer does. -/
theorem run_unknownNode_iff {p : Pipeline} (hp : p.collaborator = builtin q) {id : String} :
    (p.run g).2 = .error (.unknownNode id) ↔
      ∃ prepared answer, p.Prepares g prepared ∧
        builtin q (.ofGraph prepared p.options) = .ok answer ∧
        answer.validate prepared = .error (.unknownNode id) := by
  cases hprepare : p.prepare g with
  | error e =>
    obtain ⟨fault, rfl⟩ := eq_noRoom_of_prepare hprepare
    have hend : p.run g = (g, .error (.noRoom fault)) := by rw [Pipeline.run, hprepare]
    rw [hend]
    constructor
    · intro h
      cases h
    · rintro ⟨prepared, -, hprepared, -⟩
      cases (prepares_iff.1 hprepared).symm.trans hprepare
  | ok prepared =>
    have hprepared := prepares_iff.2 hprepare
    rw [outcome_eq_error_iff hprepared, hp]
    constructor
    · rintro (hfailed | ⟨answer, hanswer, hwrong⟩)
      · obtain ⟨fault, hfault⟩ := eq_noRoom_of_builtin hfailed
        cases hfault
      · exact ⟨prepared, answer, hprepared, hanswer, hwrong⟩
    · rintro ⟨prepared', answer, hprepared', hanswer, hwrong⟩
      obtain rfl := Except.ok.inj (hprepare.symm.trans (prepares_iff.1 hprepared'))
      exact .inr ⟨answer, hanswer, hwrong⟩

/-- **A missing end is an unknown node.**  A run with the collaborator of this library says that a
    node is unknown exactly if that node is the first end of an edge that no node has, no layout
    fails, and all numbers for the nodes of the graph itself are finite.  So it never says so of a
    graph whose edges have all of their ends, and it never succeeds on another one. -/
theorem unknownNode_iff_missing (q : Params) (prepass : Option Algorithm) (params : Params)
    (options : OrderedMap String) (g : Graph) :
    let p : Pipeline := ⟨builtin q, prepass, params, options⟩
    (∀ id, (p.run g).2 = .error (.unknownNode id) ↔
      g.missing.head? = some id ∧
        ∃ prepared answer, p.Prepares g prepared ∧
          builtin q (.ofGraph prepared options) = .ok answer ∧
          ∀ entry ∈ answer.nodes, entry.id ∈ g.ids → entry.isFinite = true) ∧
    ∀ count, (p.run g).2 = .ok count → g.missing = [] := by
  intro p
  constructor
  · -- The pre-pass moves nodes only, so ends that are missing are missing on both sides of it.
    intro id
    rw [run_unknownNode_iff (p := p) rfl]
    constructor
    · rintro ⟨prepared, answer, hprepared, hanswer, hwrong⟩
      obtain ⟨hfirst, hfinite⟩ := (validate_unknownNode_iff hanswer).1 hwrong
      rw [hprepared.sameButPlaces.missing] at hfirst
      rw [hprepared.sameButPlaces.ids] at hfinite
      exact ⟨hfirst, prepared, answer, hprepared, hanswer, hfinite⟩
    · rintro ⟨hfirst, prepared, answer, hprepared, hanswer, hfinite⟩
      rw [← hprepared.sameButPlaces.missing] at hfirst
      rw [← hprepared.sameButPlaces.ids] at hfinite
      exact ⟨prepared, answer, hprepared, hanswer,
        (validate_unknownNode_iff hanswer).2 ⟨hfirst, hfinite⟩⟩
  · -- a run that ends well has validated, and validation asks for every end
    intro count hcount
    cases hprepare : p.prepare g with
    | error e => simp [Pipeline.run, hprepare] at hcount
    | ok prepared =>
      have hprepared := prepares_iff.2 hprepare
      obtain ⟨e, -, hend⟩ | ⟨answer, hanswer, hvalid, -⟩ := run_cases hprepared
      · rw [hend] at hcount
        cases hcount
      · rw [← hprepared.sameButPlaces.missing]
        exact missing_eq_nil_of_validate hanswer hvalid

/-- Two nodes whose edge was replaced by one to a node that is not there. -/
def haunted : Graph :=
  ((Graph.empty true none).connect "a" "b" {} .curved).replaceEdge 0
    { id := "x", source := "a", target := "ghost" }

set_option maxRecDepth 4000 in
/-- The layouts leave a dangling edge out, and it has no way; a run with the collaborator of this
    library fails for the node that is missing. -/
theorem unknownNode_haunted :
    (Scene.ofGraph haunted {}).arrows = [] ∧
      (∃ positions, Algorithm.circular.layout haunted {} = .ok positions) ∧
      haunted.edges.map (Routing.Resolver.resolveEdge {} haunted ·) = [none] ∧
      (Pipeline.run { collaborator := builtin {} } haunted).2 = .error (.unknownNode "ghost") := by
  refine ⟨by decide, ⟨_, rfl⟩, rfl, rfl⟩

end DotLayout.Exchange
