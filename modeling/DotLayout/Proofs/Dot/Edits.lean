import DotLayout.Proofs.Dot.EdgeOperator

/-! # Moved and changed tokens

    What tokens say does not depend on where they stand, and of an edge operator only its place
    among the others counts.  An `Edit` moves all places by as many bytes and puts other operators
    in the place of the ones there.

    * `statements_map` : edited tokens are read as edited statements; by one lemma for each reader.
    * `graph_edit` : edited statements make the same graph.
    * `complaints_edit` and `crossings_edit` : what is reported about them is edited as well. -/

namespace DotLayout.Dot

open Text

/-- A change of tokens. -/
structure Edit where
  /-- By how many bytes everything but the operators moves. -/
  shift : Nat
  /-- What an operator becomes. -/
  link : Link → Link

namespace Statement

/-- The operators of a statement that belong to the other kind of graph. -/
def crossings (directed : Bool) : Statement → List Link
  | .chain _ hops _ _ => (hops.map Hop.link).filter fun link => link.op != .ofGraph directed
  | _ => []

/-- What else is to be reported about a statement, in a graph of either kind. -/
def complaints : Statement → List Finding
  | .chain _ _ dangling lists =>
    (dangling.map Finding.noTarget).toList ++ lists.flatMap Bracket.findings
  | s => s.findings true

/-- What is reported about a statement is its operators of the other kind, and then the rest. -/
theorem findings_eq (directed : Bool) (s : Statement) :
    s.findings directed = (s.crossings directed).map (.mismatch · directed) ++ s.complaints := by
  cases s with
  | chain head hops dangling lists => exact List.append_assoc ..
  | _ => rfl

end Statement

namespace Edit

variable (e : Edit)

/-- A part of a text, moved. -/
def excerpt (place : Excerpt) : Excerpt := ⟨place.start + e.shift, place.chars⟩

/-- A range of bytes, moved at both ends. -/
def span (s : Span) : Span where
  start := s.start + e.shift
  stop := s.stop + e.shift
  start_le_stop := Nat.add_le_add_right s.start_le_stop e.shift

/-- A word, moved with its text and its quotes. -/
def word (w : Word) : Word := { w with place := e.excerpt w.place }

/-- An attribute list, moved with its content. -/
def bracket (b : Bracket) : Bracket := ⟨e.excerpt b.content, b.closed, e.excerpt b.place⟩

/-- One step of a chain, with its operator replaced and its target moved. -/
def hop (h : Hop) : Hop := ⟨e.link h.link, e.word h.target⟩

/-- An entry of an attribute list, moved. -/
def entry : Entry → Entry
  | .pair p place => .pair p (e.excerpt place)
  | .junk place => .junk (e.excerpt place)

/-- A token, edited: an operator is replaced and anything else is moved. -/
def token : Token → Token
  | .word w => .word (e.word w)
  | .link l => .link (e.link l)
  | .bracket b => .bracket (e.bracket b)
  | .equals place => .equals (e.excerpt place)
  | .openString place => .openString (e.excerpt place)
  | .stray place => .stray (e.excerpt place)

/-- A statement, edited by editing all of its tokens. -/
def statement : Statement → Statement
  | .assignment key equals value => .assignment (e.word key) (e.excerpt equals) (e.word value)
  | .keyOnly key equals => .keyOnly (e.word key) (e.excerpt equals)
  | .defaults keyword ofGraph lists => .defaults (e.word keyword) ofGraph (lists.map e.bracket)
  | .subgraph keyword name => .subgraph (e.word keyword) (name.map e.word)
  | .chain head hops dangling lists =>
    .chain (e.word head) (hops.map e.hop) (dangling.map e.link) (lists.map e.bracket)
  | .noSource link => .noSource (e.link link)
  | .openString place => .openString (e.excerpt place)
  | .misplaced token why => .misplaced (e.token token) why

/-- What is reported about a text as a whole stays. -/
def finding : Finding → Finding
  | .misplaced place why => .misplaced (e.excerpt place) why
  | .malformed place => .malformed (e.excerpt place)
  | .noValue key span => .noValue key (e.span span)
  | .noSource link => .noSource (e.link link)
  | .noTarget link => .noTarget (e.link link)
  | .openBracket b => .openBracket (e.bracket b)
  | .openString place => .openString (e.excerpt place)
  | .mismatch link directed => .mismatch (e.link link) directed
  | f => f

theorem stop_excerpt (place : Excerpt) : (e.excerpt place).stop = place.stop + e.shift :=
  Nat.add_right_comm ..

theorem span_excerpt (place : Excerpt) : (e.excerpt place).span = e.span place.span := by
  simp only [Excerpt.span, span, stop_excerpt]
  rfl

/-- The range that covers two ranges moves with them. -/
theorem union_span (a b : Span) : (e.span a).union (e.span b) = e.span (a.union b) := by
  simp only [Span.union, span, Nat.add_min_add_right, Nat.add_max_add_right]

@[simp] theorem word_text (w : Word) : (e.word w).text = w.text := rfl

@[simp] theorem word_quoted (w : Word) : (e.word w).quoted = w.quoted := rfl

/-! ## Statements -/

/-- Edited tokens begin with the edited lists. -/
theorem readLists_map (ts : List Token) :
    readLists (ts.map e.token)
      = ((readLists ts).1.map e.bracket, (readLists ts).2.map e.token) := by
  fun_induction readLists ts with
  | case1 b rest ih =>
      show readLists (.bracket (e.bracket b) :: rest.map e.token) = _
      rw [readLists, ih]
      rfl
  | case2 ts hts =>
      cases ts with
      | nil => rfl
      | cons t rest =>
          cases t with
          | bracket b => exact absurd rfl (hts b rest)
          | _ => rfl

/-- Edited tokens begin with the edited steps of a chain. -/
theorem readHops_map (ts : List Token) :
    readHops (ts.map e.token) = ((readHops ts).1.map e.hop, (readHops ts).2.1.map e.link,
      (readHops ts).2.2.map e.token) := by
  fun_induction readHops ts with
  | case1 link target rest ih =>
      show readHops (.link (e.link link) :: .word (e.word target) :: rest.map e.token) = _
      rw [readHops, ih]
      rfl
  | case2 link rest hrest =>
      cases rest with
      | nil => rfl
      | cons t rest =>
          cases t with
          | word w => exact absurd rfl (hrest w rest)
          | _ => rfl
  | case3 ts _ hts =>
      cases ts with
      | nil => rfl
      | cons t rest =>
          cases t with
          | link l => exact absurd rfl (hts l rest)
          | _ => rfl

/-- Whether tokens begin with an operator stays. -/
theorem startsLink_map (ts : List Token) : startsLink (ts.map e.token) = startsLink ts := by
  cases ts with
  | nil => rfl
  | cons t ts => cases t <;> rfl

/-- A word and what follows it are read as the edited chain or assignment. -/
theorem readChain_map (head : Word) (rest : List Token) :
    Statement.readChain (e.word head) (rest.map e.token)
      = (e.statement (Statement.readChain head rest).1,
        (Statement.readChain head rest).2.map e.token) := by
  simp only [Statement.readChain, readHops_map, readLists_map]
  rfl

/-- The statement of a keyword with lists, or of one that stands alone. -/
theorem readKeyword_lists_map {keyword : Keyword}
    (h : keyword = .node ∨ keyword = .edge ∨ keyword = .graph) (w : Word) (rest : List Token) :
    Statement.readKeyword keyword (e.word w) (rest.map e.token)
      = (e.statement (Statement.readKeyword keyword w rest).1,
        (Statement.readKeyword keyword w rest).2.map e.token) := by
  have read : ∀ (w : Word) (rest : List Token), Statement.readKeyword keyword w rest
      = if (readLists rest).1 = [] then (.misplaced (.word w) .keywordAlone, rest)
        else (.defaults w (keyword == .graph) (readLists rest).1, (readLists rest).2) := by
    intro w rest
    rcases h with rfl | rfl | rfl <;> rw [Statement.readKeyword] <;>
      rcases readLists rest with ⟨_ | _, after⟩ <;> rfl
  simp only [read, readLists_map, List.map_eq_nil_iff]
  split <;> rfl

/-- A keyword and what follows it are read as the edited statement of that keyword. -/
theorem readKeyword_map (keyword : Keyword) (w : Word) (rest : List Token) :
    Statement.readKeyword keyword (e.word w) (rest.map e.token)
      = (e.statement (Statement.readKeyword keyword w rest).1,
        (Statement.readKeyword keyword w rest).2.map e.token) := by
  cases keyword with
  | node => exact readKeyword_lists_map e (.inl rfl) w rest
  | edge => exact readKeyword_lists_map e (.inr (.inl rfl)) w rest
  | graph => exact readKeyword_lists_map e (.inr (.inr rfl)) w rest
  | subgraph =>
      cases rest with
      | nil => rfl
      | cons t rest =>
          cases t with
          | word name =>
              show (if startsLink (rest.map e.token) then _ else _) = _
              rw [startsLink_map, Statement.readKeyword]
              split <;> rfl
          | _ => rfl
  | digraph => rfl
  | strict => rfl

/-- A word and what follows it are read as the edited statement that begins with it. -/
theorem readWord_map (w : Word) (rest : List Token) :
    Statement.readWord (e.word w) (rest.map e.token)
      = (e.statement (Statement.readWord w rest).1,
        (Statement.readWord w rest).2.map e.token) := by
  by_cases hequals : ∃ equals after, rest = .equals equals :: after
  · obtain ⟨equals, after, rfl⟩ := hequals
    cases after with
    | nil => rfl
    | cons t after => cases t <;> rfl
  · have hne : ∀ equals after, rest ≠ .equals equals :: after :=
      fun equals after hrest => hequals ⟨equals, after, hrest⟩
    have hne' : ∀ equals after, rest.map e.token ≠ .equals equals :: after := by
      intro equals after hmap
      obtain ⟨t, ts, rfl, ht, -⟩ := List.map_eq_cons_iff.1 hmap
      cases t with
      | equals place => exact hne place ts rfl
      | _ => exact nomatch ht
    rw [Statement.readWord_of_ne hne, Statement.readWord_of_ne hne', readChain_map, startsLink_map,
      word_text, word_quoted]
    split
    · rfl
    cases Keyword.ofWord? w.text with
    | some keyword => exact readKeyword_map e keyword w rest
    | none =>
        dsimp only
        split <;> rfl

/-- A first token and what follows it are read as the edited statement. -/
theorem read_map (t : Token) (rest : List Token) :
    Statement.read (e.token t) (rest.map e.token)
      = (e.statement (Statement.read t rest).1, (Statement.read t rest).2.map e.token) := by
  cases t with
  | word w => exact readWord_map e w rest
  | _ => rfl

/-- Edited tokens are read as edited statements. -/
theorem statements_map (ts : List Token) :
    statements (ts.map e.token) = (statements ts).map e.statement := by
  fun_induction statements ts with
  | case1 => rw [List.map_nil, statements]; rfl
  | case2 t rest ih => rw [List.map_cons, statements, read_map, ih, List.map_cons]

/-! ## Graphs -/

/-- The blank text between two pairs is moved with the list it is in. -/
theorem junkIn_excerpt (gap : Excerpt) : junkIn (e.excerpt gap) = (junkIn gap).map e.entry := by
  have trimmed : (e.excerpt gap).trimWhere isSeparator = e.excerpt (gap.trimWhere isSeparator) :=
    congrArg (Excerpt.mk · _) (Nat.add_right_comm ..)
  simp only [junkIn, trimmed]
  show (if (gap.trimWhere isSeparator).chars.isEmpty then _ else _) = _
  split <;> rfl

/-- The entries behind a place of a list are moved with that place. -/
theorem entriesAfter_shift (start : Nat) (gap text : List Char) :
    entriesAfter (start + e.shift) gap text = (entriesAfter start gap text).map e.entry := by
  fun_induction entriesAfter start gap text with
  | case1 start gap =>
      rw [entriesAfter]
      exact junkIn_excerpt e ⟨start, gap.reverse⟩
  | case2 start gap c rest hc key afterKey reading h before place ih =>
      have hplace : place = ⟨Excerpt.stop ⟨start, gap.reverse⟩, key ++ reading.written⟩ := by
        simp [place, before]
      have hstop := stop_excerpt e ⟨start, gap.reverse⟩
      have hgap := junkIn_excerpt e ⟨start, gap.reverse⟩
      rw [hplace, ← stop_excerpt] at ih
      simp only [excerpt] at hstop hgap ih
      rw [entriesAfter, if_pos hc]
      simp only
      -- the shift moves positions only, so the value reader finds the same on both sides
      split
      · rename_i reading' h'
        obtain rfl := Option.some.inj (h.symm.trans h')
        rw [List.map_append, List.map_cons, ← ih, ← hgap, hstop]
        rfl
      · rename_i h'
        exact nomatch h.symm.trans h'
  | case3 start gap c rest hc key afterKey h ih =>
      rw [entriesAfter, if_pos hc]
      simp only
      split
      · rename_i reading h'
        exact nomatch h.symm.trans h'
      · exact ih
  | case4 start gap c rest hc ih => rw [entriesAfter, if_neg hc, ih]

/-- The entries of a list that is moved are its entries, moved. -/
theorem readEntries_excerpt (content : Excerpt) :
    readEntries (e.excerpt content) = (readEntries content).map e.entry :=
  entriesAfter_shift e content.start [] content.chars

/-- Lists that are moved give the same pairs. -/
theorem pairsOf_map (lists : List Bracket) : pairsOf (lists.map e.bracket) = pairsOf lists := by
  have pair : Entry.pair? ∘ e.entry = Entry.pair? := by
    funext entry
    cases entry <;> rfl
  rw [pairsOf, pairsOf, List.flatMap_map]
  refine congrArg (List.flatMap · lists) (funext fun b => ?_)
  show (readEntries (e.excerpt b.content)).filterMap Entry.pair? = _
  rw [readEntries_excerpt, List.filterMap_map, pair]

/-- A statement sets the same attributes of the graph after an edit. -/
theorem settings_statement (s : Statement) : (e.statement s).settings = s.settings := by
  cases s with
  | defaults keyword ofGraph lists =>
      cases ofGraph with
      | true => exact pairsOf_map e lists
      | false => rfl
  | _ => rfl

theorem recognized_statement (s : Statement) : (e.statement s).recognized = s.recognized := by
  cases s <;> rfl

/-- The edges of a chain depend on the ids of its words alone, and not on where these stand. -/
theorem addHops_map (attributes : EdgeAttributes) (kind : EdgeKind) (g : Graph) (source : Word)
    (hops : List Hop) :
    Statement.addHops attributes kind g (e.word source) (hops.map e.hop)
      = Statement.addHops attributes kind g source hops := by
  induction hops generalizing g source with
  | nil => rfl
  | cons hop hops ih => exact ih _ hop.target

/-- An edited statement adds the same nodes and edges to a graph. -/
theorem addTo_statement (kind : EdgeKind) (g : Graph) (s : Statement) :
    (e.statement s).addTo kind g = s.addTo kind g := by
  cases s with
  | chain head hops dangling lists =>
      cases hops with
      | nil => simp only [statement, List.map_nil, Statement.addTo, pairsOf_map, word_text]
      | cons hop hops =>
          simp only [statement, List.map_cons, Statement.addTo, pairsOf_map]
          exact addHops_map e _ _ g head (hop :: hops)
  | _ => rfl

/-- Documents with the same statements, edits apart, stand for the same graph. -/
theorem graph_edit {d d' : Document} (hdirected : d'.directed = d.directed)
    (hname : d'.header.bind Header.name = d.header.bind Header.name)
    (hstatements : d'.statements = d.statements.map e.statement) : d'.graph = d.graph := by
  have settings : Statement.settings ∘ e.statement = Statement.settings :=
    funext (settings_statement e)
  have attributes : d'.attributes = d.attributes := by
    rw [Document.attributes, Document.attributes, hstatements, List.flatMap_map]
    exact congrArg (fun f => OrderedMap.ofList ((d.statements.flatMap f).map _)) settings
  have kind : d'.edgeKind = d.edgeKind := by rw [Document.edgeKind, Document.edgeKind, attributes]
  have add : (fun g s => (e.statement s).addTo d.edgeKind g) = Statement.addTo d.edgeKind := by
    funext g s
    exact addTo_statement e _ g s
  rw [Document.graph, Document.graph, hdirected, hname, hstatements, attributes, kind,
    List.foldl_map, add]

/-! ## Reports -/

/-- What is no pair in a list is moved with the list. -/
theorem junk_excerpt (content : Excerpt) :
    (readEntries (e.excerpt content)).filterMap Entry.junk?
      = ((readEntries content).filterMap Entry.junk?).map e.excerpt := by
  have junk : Entry.junk? ∘ e.entry = fun entry => (Entry.junk? entry).map e.excerpt := by
    funext entry
    cases entry <;> rfl
  rw [readEntries_excerpt, List.filterMap_map, junk, List.map_filterMap]

/-- What is reported about a list is moved with it. -/
theorem findings_bracket (b : Bracket) : (e.bracket b).findings = b.findings.map e.finding := by
  rw [Bracket.findings, Bracket.findings, List.map_append]
  refine congr_arg₂ (· ++ ·) ?_ ?_
  · show (if b.closed then _ else _) = _
    split <;> rfl
  · show ((readEntries (e.excerpt b.content)).filterMap Entry.junk?).map _ = _
    rw [junk_excerpt, List.map_map, List.map_map]
    rfl

/-- Apart from operators of the other kind, what is reported about a statement is edited with it. -/
theorem complaints_edit {s : Statement} (h : ∀ t why, s = .misplaced t why → t.link? = none) :
    (e.statement s).complaints = s.complaints.map e.finding := by
  have lists : ∀ lists : List Bracket, (lists.map e.bracket).flatMap Bracket.findings
      = (lists.flatMap Bracket.findings).map e.finding := by
    intro lists
    rw [List.flatMap_map, List.map_flatMap]
    exact congrArg (List.flatMap · lists) (funext (findings_bracket e))
  cases s with
  | assignment => rfl
  | keyOnly key equals =>
      show [Finding.noValue key.text ((e.excerpt key.place).span.union (e.excerpt equals).span)] = _
      rw [span_excerpt, span_excerpt, union_span]
      rfl
  | defaults keyword ofGraph ls => exact lists ls
  | subgraph => rfl
  | chain head hops dangling ls =>
      show ((dangling.map e.link).map Finding.noTarget).toList ++ _ = _
      rw [lists]
      cases dangling <;> simp [Statement.complaints, finding]
  | noSource => rfl
  | openString => rfl
  | misplaced t why =>
      -- an edit may change the operator that a finding quotes, but no link is out of place
      have ht := h t why rfl
      cases t with
      | link l => exact nomatch ht
      | _ => rfl

/-- The operators of the other kind are replaced with the statement, if none of them changes its
    kind. -/
theorem crossings_edit (hop : ∀ l, (e.link l).op = l.op) (directed : Bool) (s : Statement) :
    (e.statement s).crossings directed = (s.crossings directed).map e.link := by
  cases s with
  | chain head hops dangling lists =>
      have links : (hops.map e.hop).map Hop.link = (hops.map Hop.link).map e.link := by
        rw [List.map_map, List.map_map]
        rfl
      show ((hops.map e.hop).map Hop.link).filter _ = ((hops.map Hop.link).filter _).map e.link
      rw [links, List.filter_map]
      refine congrArg (List.map e.link) (congrArg (List.filter · _) (funext fun l => ?_))
      rw [Function.comp, hop]
  | _ => rfl

/-- What is reported about a statement is edited with it, if operators stay what they are. -/
theorem findings_edit (hop : ∀ l, (e.link l).op = l.op) (directed : Bool) {s : Statement}
    (h : ∀ t why, s = .misplaced t why → t.link? = none) :
    (e.statement s).findings directed = (s.findings directed).map e.finding := by
  rw [Statement.findings_eq, Statement.findings_eq, crossings_edit e hop, complaints_edit e h,
    List.map_append, List.map_map, List.map_map]
  rfl

end Edit

/-- No operator is misplaced in what tokens are read as. -/
theorem link?_of_mem_statements {ts : List Token} {s : Statement} (hs : s ∈ statements ts) :
    ∀ t why, s = .misplaced t why → t.link? = none := by
  fun_induction statements ts with
  | case1 => cases hs
  | case2 token rest ih =>
      rcases List.mem_cons.1 hs with rfl | hs
      · exact fun t why hmisplaced => link?_of_misplaced token rest hmisplaced
      · exact ih hs

/-- No operator is misplaced in the statements of a text. -/
theorem link?_of_mem_document {text : List Char} {s : Statement}
    (hs : s ∈ (Document.ofText text).statements) :
    ∀ t why, s = .misplaced t why → t.link? = none := by
  rw [statements_ofText] at hs
  obtain ⟨ts, -, hs⟩ := List.mem_flatMap.1 hs
  exact link?_of_mem_statements hs

end DotLayout.Dot
