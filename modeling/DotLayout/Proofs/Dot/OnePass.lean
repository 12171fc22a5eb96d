import DotLayout.Proofs.Dot.Draft
import DotLayout.Proofs.Dot.Severity
import DotLayout.Proofs.Graph.GivenValues

/-! # Reading in one pass

    `readOnce` reads a description in one pass.  An edge that asks for no kind is a curve at first,
    and gets the kind that the graph asks for when all attributes of the graph are known; the flags
    say which edges these are.  Whether the text is refused is decided by the log in the end.

    * `Draft.settled_add` : settling commutes with every statement, as long as there is a flag for
      each edge; `Draft.settled_foldl_add` is the run of all statements.
    * `settle_ofText` : so the settled draft of a text is the graph of its document, in which the
      kind is known from the start.
    * `readOnce_eq` : the pass and `parse` read the same. -/

namespace DotLayout

open OrderedMap

/-! ## Settling the kinds -/

/-- Gives a kind to the edges whose flags say that they did not ask for one.  Edges without a flag
    keep their kinds. -/
def settleKinds (kind : EdgeKind) : List Edge → List Bool → List Edge
  | e :: edges, asked :: flags =>
    (if asked then e else { e with kind := kind }) :: settleKinds kind edges flags
  | edges, _ => edges

/-- A graph with other attributes and with its kinds settled. -/
def Graph.settled (g : Graph) (kind : EdgeKind) (attributes : OrderedMap String)
    (flags : List Bool) : Graph :=
  { g with edges := settleKinds kind g.edges flags, attributes := attributes }

section

variable {kind : EdgeKind} {attributes : OrderedMap String} {flags : List Bool} {g : Graph}

/-- Edges one behind the other are settled one behind the other. -/
theorem settleKinds_append {edges : List Edge} (h : flags.length = edges.length)
    (edges' : List Edge) (flags' : List Bool) :
    settleKinds kind (edges ++ edges') (flags ++ flags')
      = settleKinds kind edges flags ++ settleKinds kind edges' flags' := by
  induction edges generalizing flags with
  | nil =>
      rw [List.length_eq_zero_iff.1 h]
      rfl
  | cons e edges ih =>
      cases flags with
      | nil => exact nomatch h
      | cons asked flags => exact congrArg (List.cons _) (ih (Nat.succ.inj h))

namespace Graph

/-- Settling the kinds of edges does not see a new node. -/
theorem settled_ensureNode (id : String) :
    (g.ensureNode id).settled kind attributes flags
      = (g.settled kind attributes flags).ensureNode id := by
  by_cases h : g.contains id
  · have same : (g.settled kind attributes flags).contains id := h
    rw [ensureNode, dif_pos h, ensureNode, dif_pos same]
  · have same : ¬ (g.settled kind attributes flags).contains id := h
    rw [ensureNode, dif_neg h, ensureNode, dif_neg same]
    rfl

/-- An edge may get the kind of the graph at once or later. -/
theorem settled_connect (h : flags.length = g.edges.length) (source target : String)
    (edge : EdgeAttributes) (own : Option EdgeKind) :
    (g.connect source target edge (own.getD .curved)).settled kind attributes
        (flags ++ [own.isSome])
      = (g.settled kind attributes flags).connect source target edge (own.getD kind) := by
  let e : Edge := ⟨g.nextEdgeId source target, source, target, edge, own.getD .curved⟩
  have last : settleKinds kind [e] [own.isSome] = [{ e with kind := own.getD kind }] := by
    cases own <;> rfl
  have ends : ((g.settled kind attributes flags).ensureNode source).ensureNode target
      = ((g.ensureNode source).ensureNode target).settled kind attributes flags := by
    rw [settled_ensureNode, settled_ensureNode]
  have edges : ((g.ensureNode source).ensureNode target).edges = g.edges := by
    rw [edges_ensureNode, edges_ensureNode]
  rw [connect, connect, pushEdge, pushEdge]
  simp only [ends]
  simp only [settled, edges]
  rw [settleKinds_append h, last]
  rfl

end Graph

end

namespace Dot

open Text

section

variable {kind : EdgeKind} {attributes : OrderedMap String} {flags : List Bool} {g : Graph}

/-- Settling what a chain adds is adding the chain to what is settled. -/
theorem settled_addHops (h : flags.length = g.edges.length) (edge : EdgeAttributes)
    (own : Option EdgeKind) (source : Word) (hops : List Hop) :
    (Statement.addHops edge (own.getD .curved) g source hops).settled kind attributes
        (flags ++ (joined (hopFates source hops)).map fun _ => own.isSome)
      = Statement.addHops edge (own.getD kind) (g.settled kind attributes flags) source hops := by
  induction hops generalizing g flags source with
  | nil =>
      rw [show (joined (hopFates source [])).map (fun _ => own.isSome) = [] from rfl,
        List.append_nil]
      rfl
  | cons hop hops ih =>
      have longer : (flags ++ [own.isSome]).length
          = (g.connect source.text hop.target.text edge (own.getD .curved)).edges.length := by
        rw [Graph.connect, Graph.edges_pushEdge, List.length_append, List.length_append, h]
        rfl
      have rest := ih longer hop.target
      rw [Graph.settled_connect h, List.append_assoc] at rest
      exact rest

/-- Settling commutes with what a statement adds. -/
theorem settled_addTo (h : flags.length = g.edges.length) (s : Statement) :
    (s.addTo .curved g).settled kind attributes
        (flags ++ (joined s.fates).map fun _ => s.edgeSettings.kind.isSome)
      = s.addTo kind (g.settled kind attributes flags) := by
  have silent : flags ++ ([] : List (String × String)).map
      (fun _ => s.edgeSettings.kind.isSome) = flags := List.append_nil _
  cases s with
  | chain head hops dangling lists =>
      rw [Draft.joined_fates_chain]
      cases hops with
      | nil =>
          refine (congrArg (Graph.settled _ kind attributes) silent).trans ?_
          show ((g.ensureNode head.text).settled kind attributes flags).redefineNode _ _ _ = _
          rw [Graph.settled_ensureNode]
          rfl
      | cons hop hops => exact settled_addHops h _ _ head (hop :: hops)
  | _ => exact congrArg (Graph.settled _ kind attributes) silent

/-- A new node leaves the attributes of the graph as they were. -/
theorem attributes_ensureNode (g : Graph) (id : String) :
    (g.ensureNode id).attributes = g.attributes := by
  rw [Graph.ensureNode]
  split <;> rfl

/-- A chain leaves the attributes of the graph as they were. -/
theorem attributes_addHops (edge : EdgeAttributes) (kind : EdgeKind) (g : Graph) (source : Word)
    (hops : List Hop) :
    (Statement.addHops edge kind g source hops).attributes = g.attributes := by
  induction hops generalizing g source with
  | nil => rfl
  | cons hop hops ih =>
      rw [Statement.addHops, ih]
      show ((g.ensureNode _).ensureNode _).attributes = g.attributes
      rw [attributes_ensureNode, attributes_ensureNode]

/-- The nodes and edges of a statement leave the attributes of the graph alone. -/
theorem attributes_addTo (kind : EdgeKind) (g : Graph) (s : Statement) :
    (s.addTo kind g).attributes = g.attributes := by
  cases s with
  | chain head hops dangling lists =>
      cases hops with
      | nil => exact attributes_ensureNode g head.text
      | cons hop hops => exact attributes_addHops _ _ _ _ _
  | _ => rfl

end

/-! ## Statements -/

namespace Draft

/-- There is a flag for each edge, and an edge that did not ask for a kind is a curve. -/
structure Aligned (r : Draft) : Prop where
  flags : r.asked.length = r.graph.edges.length
  curves : settleKinds .curved r.graph.edges r.asked = r.graph.edges

variable {r : Draft}

/-- Setting attributes one by one inserts all of them in order. -/
theorem attributes_foldl_setAttribute (g : Graph) (pairs : List Pair) :
    pairs.foldl (fun g p => g.setAttribute p.key p.value) g
      = { g with attributes := g.attributes.insertAll (pairs.map fun p => (p.key, p.value)) } := by
  induction pairs generalizing g with
  | nil => rfl
  | cons p pairs ih => exact ih (g.setAttribute p.key p.value)

/-- A statement adds its nodes, its edges and its settings to a draft. -/
theorem graph_add (r : Draft) (s : Statement) :
    (r.add s).graph
      = { s.addTo .curved r.graph with
          attributes := r.graph.attributes.insertAll
            (s.settings.map fun p => (p.key, p.value)) } := by
  refine (attributes_foldl_setAttribute _ s.settings).trans ?_
  rw [attributes_addTo]

/-- A statement adds the same edges to a draft as to a graph. -/
theorem edges_add (r : Draft) (s : Statement) :
    (r.add s).graph.edges = (s.addTo .curved r.graph).edges := by
  rw [graph_add]

/-- Settling commutes with a statement. -/
theorem settled_add (h : r.Aligned) (s : Statement) (kind : EdgeKind)
    (attributes : OrderedMap String) :
    (r.add s).graph.settled kind attributes (r.add s).asked
      = s.addTo kind (r.graph.settled kind attributes r.asked) := by
  rw [graph_add]
  exact settled_addTo h.flags s

/-- A statement keeps one flag for each edge. -/
theorem aligned_add (h : r.Aligned) (s : Statement) : (r.add s).Aligned where
  flags := by
    have edges := congrArg List.length (ends_addTo .curved r.graph s)
    rw [List.length_append, List.length_map, List.length_map] at edges
    rw [edges_add, edges, ← h.flags]
    exact List.length_append.trans (congrArg _ (List.length_map _))
  curves := by
    -- settling to curves what is settled to curves commutes with the statement
    have same : r.graph.settled .curved r.graph.attributes r.asked = r.graph := by
      rw [Graph.settled, h.curves]
    have step := settled_add h s .curved r.graph.attributes
    rw [same] at step
    exact (congrArg Graph.edges step).trans (edges_add r s).symm

/-! ## Runs of statements -/

/-- Some statements keep one flag for each edge. -/
theorem aligned_foldl_add (h : r.Aligned) (ss : List Statement) : (ss.foldl add r).Aligned := by
  induction ss generalizing r with
  | nil => exact h
  | cons s ss ih => exact ih (aligned_add h s)

/-- Settling commutes with some statements. -/
theorem settled_foldl_add (h : r.Aligned) (ss : List Statement) (kind : EdgeKind)
    (attributes : OrderedMap String) :
    (ss.foldl add r).graph.settled kind attributes (ss.foldl add r).asked
      = ss.foldl (Statement.addTo kind) (r.graph.settled kind attributes r.asked) := by
  induction ss generalizing r with
  | nil => rfl
  | cons s ss ih => rw [List.foldl_cons, List.foldl_cons, ih (aligned_add h s), settled_add h]

/-- Some statements set the attributes of all their settings, in order. -/
theorem attributes_foldl_add (r : Draft) (ss : List Statement) :
    (ss.foldl add r).graph.attributes
      = r.graph.attributes.insertAll
          ((ss.flatMap Statement.settings).map fun p => (p.key, p.value)) := by
  induction ss generalizing r with
  | nil => rfl
  | cons s ss ih =>
      rw [List.foldl_cons, ih, graph_add, List.flatMap_cons, List.map_append, insertAll_append]

/-- A statement leaves the kind of a draft as it was. -/
theorem directed_add (r : Draft) (s : Statement) :
    (r.add s).graph.directed = r.graph.directed := by
  rw [graph_add]
  exact directed_addTo .curved r.graph s

/-- The log of a draft reports what is found in each statement, in order. -/
theorem log_foldl_add (r : Draft) (ss : List Statement) :
    (ss.foldl add r).log
      = r.log.reportAll (ss.flatMap fun s => s.findings r.graph.directed) := by
  induction ss generalizing r with
  | nil => rfl
  | cons s ss ih =>
      rw [List.foldl_cons, ih, directed_add, List.flatMap_cons, Log.reportAll_append]
      rfl

/-- A draft counts the statements that are recognized. -/
theorem recognized_foldl_add (r : Draft) (ss : List Statement) :
    (ss.foldl add r).recognized = r.recognized + ss.countP Statement.recognized := by
  induction ss generalizing r with
  | nil => rfl
  | cons s ss ih =>
      rw [List.foldl_cons, ih, List.countP_cons]
      show r.recognized + (if s.recognized then 1 else 0) + _ = _
      omega

/-! ## Texts -/

/-- The draft of a description in front of its statements. -/
def start (directed : Bool) (header : Option Header) (length : Nat) : Draft where
  graph := .empty directed (header.bind Header.name)
  log :=
    match header with
    | some header =>
      if header.closed then {} else Log.report {} (.unclosedBody length header.opening.span)
    | none => {}

/-- At first the log reports a body that is never closed, and nothing else. -/
theorem log_start (d : Document) (length : Nat) :
    (start d.directed d.header length).log = Log.reportAll {} (d.unclosed length) := by
  obtain ⟨header, tokens, directed, statements⟩ := d
  cases header with
  | none => rfl
  | some header =>
      show (if header.closed then _ else _) = Log.reportAll {} (if header.closed then _ else _)
      cases header.closed <;> rfl

/-- The draft of a text of so many bytes, chunk by chunk. -/
def ofText (text : List Char) (length : Nat) : Draft :=
  let header := readHeader? text
  let chunked := (chunks (bodyOf text header)).map Dot.tokens
  chunked.foldl (fun r ts => r.run ts 0)
    (.start (isDirected text header chunked.flatten) header length)

/-- The graph of a draft, with the kind that the graph asks for given to the edges that ask for
    none. -/
def settle (r : Draft) : Graph :=
  match (r.graph.attribute? "splines").bind EdgeKind.ofName? with
  | some kind => { r.graph with edges := settleKinds kind r.graph.edges r.asked }
  | none => r.graph

end Draft

/-- What comes out of a draft of so many bytes: it is unreadable if it has neither a header nor a
    recognized statement, and it is refused if an error was reported. -/
def Draft.verdict (r : Draft) (header : Option Header) (length : Nat) :
    Except (List Diagnostic) (Graph × List Diagnostic) :=
  let r := if header.isNone && r.recognized == 0 then r.report (.unreadable length) else r
  r.log.finish.map fun warnings => (r.settle, warnings)

/-- Reads a graph description in one pass. -/
def readOnce (source : String) : Except (List Diagnostic) (Graph × List Diagnostic) :=
  let text := stripComments source.toList
  let length := byteLength source.toList
  if (trim text).isEmpty then .error [(Finding.emptyInput length).diagnostic]
  else (Draft.ofText text length).verdict (readHeader? text) length

section

variable (text : List Char) (length : Nat)

/-- The draft of a text takes in the statements of its document, in order. -/
theorem ofText_eq :
    Draft.ofText text length
      = (Document.ofText text).statements.foldl Draft.add
          (.start (Document.ofText text).directed (readHeader? text) length) := by
  have run : (fun (r : Draft) ts => r.run ts 0)
      = fun r ts => (statements ts).foldl Draft.add r := by
    funext r ts
    exact Draft.run_eq r ts 0
  rw [Draft.ofText, run]
  exact List.foldl_flatMap.symm

/-- The draft of a text has one flag for each edge. -/
theorem aligned_ofText : (Draft.ofText text length).Aligned := by
  rw [ofText_eq]
  exact Draft.aligned_foldl_add ⟨rfl, rfl⟩ _

/-- The attributes of the draft are those of the document. -/
theorem attributes_ofText :
    (Draft.ofText text length).graph.attributes = (Document.ofText text).attributes := by
  rw [ofText_eq, Draft.attributes_foldl_add]
  rfl

/-- The kinds may be settled in the end: the graph is the one in which each edge has its kind from
    the start. -/
theorem settle_ofText : (Draft.ofText text length).settle = (Document.ofText text).graph := by
  let d := Document.ofText text
  have aligned := aligned_ofText text length
  have settled : (Draft.ofText text length).graph.settled d.edgeKind d.attributes
      (Draft.ofText text length).asked = d.graph := by
    rw [ofText_eq, Draft.settled_foldl_add ⟨rfl, rfl⟩]
    rfl
  rw [Draft.settle, Graph.attribute?, attributes_ofText, ← settled]
  cases hkind : (d.attributes.get? "splines").bind EdgeKind.ofName? with
  | some kind =>
      have hedge : d.edgeKind = kind := by rw [Document.edgeKind, hkind]; rfl
      rw [hedge, Graph.settled, ← attributes_ofText text length]
  | none =>
      -- all edges that ask for no kind are curves already
      have hedge : d.edgeKind = .curved := by rw [Document.edgeKind, hkind]; rfl
      rw [hedge, Graph.settled, ← attributes_ofText text length, aligned.curves]

/-- The log of a text reports what is found in its document. -/
theorem log_ofText :
    (Draft.ofText text length).log = Log.reportAll {} ((Document.ofText text).findings length) := by
  have start := Draft.log_start (Document.ofText text) length
  rw [ofText_eq, Draft.log_foldl_add, Document.findings, Log.reportAll_append, ← start]
  rfl

/-- A text is recognized in one pass exactly if a statement of its document is. -/
theorem recognized_ofText :
    ((Draft.ofText text length).recognized == 0)
      = !(Document.ofText text).statements.any Statement.recognized := by
  rw [ofText_eq, Draft.recognized_foldl_add]
  show (0 + _ == 0) = _
  rw [Nat.zero_add, Bool.eq_iff_iff, beq_iff_eq, List.countP_eq_zero, Bool.not_eq_true',
    List.any_eq_false]

/-- The log of a text has failed once the text is found to be unreadable, and not before. -/
theorem failed_findings :
    (Log.reportAll {} ((Document.ofText text).findings length)).failed = false := by
  rw [Log.failed_reportAll, Bool.false_or, List.any_eq_false]
  intro f hf
  rw [error_diagnostic, fatal_findings f hf]
  exact Bool.false_ne_true

/-- A result with what was found put into words. -/
def inWords (result : Except ParseError Parsed) :
    Except (List Diagnostic) (Graph × List Diagnostic) :=
  (result.mapError ParseError.diagnostics).map fun p => (p.graph, p.warnings)

/-- The log decides as the findings do whether a text is refused. -/
theorem verdict_ofText :
    (Draft.ofText text length).verdict (readHeader? text) length
      = inWords ((Document.ofText text).verdict length) := by
  have log := log_ofText text length
  have found := Log.diagnostics_reportAll {} ((Document.ofText text).findings length)
  have failed := failed_findings text length
  rw [Draft.verdict, recognized_ofText, Document.verdict]
  by_cases refused : ((Document.ofText text).header.isNone
      && !(Document.ofText text).statements.any Statement.recognized) = true
  · rw [if_pos refused]
    refine (congrArg (fun r : Draft => r.log.finish.map (r.settle, ·)) (if_pos refused)).trans ?_
    have now : ((Draft.ofText text length).report (.unreadable length)).log.failed = true :=
      Bool.or_true _
    rw [Log.finish, if_pos now]
    refine congrArg Except.error ?_
    show (Draft.ofText text length).log.diagnostics ++ _ = _
    rw [log, found, ParseError.diagnostics, ParseError.findings, List.map_append]
    rfl
  · rw [if_neg refused]
    refine (congrArg (fun r : Draft => r.log.finish.map (r.settle, ·)) (if_neg refused)).trans ?_
    show (Draft.ofText text length).log.finish.map _ = _
    rw [settle_ofText, log, Log.finish, failed, found]
    rfl

end

/-- **One pass reads what `parse` reads.**  Reading statement by statement with a log that remembers
    errors, with flags for the edges and with the kinds settled in the end gives the same graph and
    the same warnings, and refuses the same texts with the same diagnostics. -/
theorem readOnce_eq (source : String) : readOnce source = inWords (parse source) := by
  rw [readOnce, parse]
  by_cases blank : (trim (stripComments source.toList)).isEmpty = true
  · rw [if_pos blank, if_pos blank]
    rfl
  · rw [if_neg blank, if_neg blank]
    exact verdict_ofText _ _

end Dot

end DotLayout
