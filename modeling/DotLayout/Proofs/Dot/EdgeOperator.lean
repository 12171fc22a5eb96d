import DotLayout.Proofs.Dot.Scanning

/-! # No edge operator is lost

    Every edge operator of a text either becomes one edge, which joins the words right before and
    after it, or is reported once as incomplete.

    * `Statement.fates` says for each operator of a statement which of the two it is; `fst_fates`
      and `fst_fates_statements` say that it leaves out none and adds none.
    * `ends_addTo` and `reports_incomplete` compare this with the edges that a statement adds and
      with what is reported about it; `reports_mismatch` does the same for the operators of the
      other kind of graph.
    * `EdgeAccount` collects what follows for a whole text. -/

namespace DotLayout.Dot

open Text

/-- The operator that a token is, if it is one. -/
def Token.link? : Token → Option Link
  | .link l => some l
  | _ => none

/-- What becomes of an edge operator. -/
inductive Fate where
  /-- An edge between the words around it. -/
  | edge (source target : Word)
  /-- It has no source or no target. -/
  | lost
  deriving DecidableEq

/-- The ids that an operator joins, if it becomes an edge. -/
def Fate.ends? : Fate → Option (String × String)
  | .edge source target => some (source.text, target.text)
  | .lost => none

/-- What becomes of the operators of a chain that goes on from a word. -/
def hopFates : Word → List Hop → List (Link × Fate)
  | _, [] => []
  | source, hop :: hops => (hop.link, .edge source hop.target) :: hopFates hop.target hops

/-- What becomes of each operator of a statement, in order. -/
def Statement.fates : Statement → List (Link × Fate)
  | .chain head hops dangling _ => hopFates head hops ++ (dangling.map fun l => (l, .lost)).toList
  | .noSource link => [(link, .lost)]
  | _ => []

/-! ## Operators and tokens -/

/-- Every step of a chain has the fate of its operator, and there is no other one. -/
theorem fst_hopFates (source : Word) (hops : List Hop) :
    (hopFates source hops).map Prod.fst = hops.map Hop.link := by
  induction hops generalizing source with
  | nil => rfl
  | cons hop hops ih => rw [hopFates, List.map_cons, List.map_cons, ih]

/-- The operators among the tokens of a chain are those of its steps. -/
theorem links_hopTokens (hops : List Hop) :
    (hops.flatMap Statement.hopTokens).filterMap Token.link? = hops.map Hop.link := by
  induction hops with
  | nil => rfl
  | cons hop hops ih =>
      rw [List.flatMap_cons, List.filterMap_append, ih]
      rfl

theorem links_brackets (lists : List Bracket) :
    (lists.map Token.bracket).filterMap Token.link? = [] := by
  simp [List.filterMap_map, Function.comp_def, Token.link?]

/-- The fates of a statement are those of its operators, unless an operator is misplaced. -/
theorem fst_fates {s : Statement} (h : ∀ t why, s = .misplaced t why → t.link? = none) :
    s.fates.map Prod.fst = s.tokens.filterMap Token.link? := by
  cases s with
  | assignment => rfl
  | keyOnly => rfl
  | defaults keyword ofGraph lists => exact (links_brackets lists).symm
  | subgraph keyword name => cases name <;> rfl
  | chain head hops dangling lists =>
      have dangling_links : (dangling.map Token.link).toList.filterMap Token.link?
          = dangling.toList := by
        cases dangling <;> rfl
      simp only [Statement.fates, Statement.tokens, List.map_append, fst_hopFates,
        List.cons_append, List.filterMap_cons, Token.link?, List.filterMap_append,
        links_hopTokens, links_brackets, dangling_links, List.append_nil]
      cases dangling <;> rfl
  | noSource => rfl
  | openString => rfl
  | misplaced t why =>
      have ht := h t why rfl
      simp [Statement.fates, Statement.tokens, ht]

/-- A misplaced token is never an operator. -/
theorem link?_of_misplaced (token : Token) (rest : List Token) {t : Token} {why : Misplacement}
    (h : (Statement.read token rest).1 = .misplaced t why) : t.link? = none := by
  cases token with
  | word w =>
      -- a word that is misplaced is reported as itself, whatever follows it
      suffices t = .word w by rw [this]; rfl
      revert h
      simp only [Statement.read, Statement.readWord, Statement.readChain, Statement.readKeyword]
      grind
  | link => cases h
  | bracket => cases h; rfl
  | equals => cases h; rfl
  | openString => cases h
  | stray => cases h; rfl

/-- The statements of some tokens are made of these tokens, in order. -/
theorem tokens_statements (ts : List Token) : (statements ts).flatMap Statement.tokens = ts := by
  fun_induction statements ts with
  | case1 => rfl
  | case2 token rest ih => rw [List.flatMap_cons, ih, Statement.tokens_read]

/-- The fates of the statements that tokens are read as are those of the operators among the
    tokens, in order. -/
theorem fst_fates_statements (ts : List Token) :
    ((statements ts).flatMap Statement.fates).map Prod.fst = ts.filterMap Token.link? := by
  fun_induction statements ts with
  | case1 => rfl
  | case2 token rest ih =>
      have read := fst_fates fun t why h => link?_of_misplaced token rest h
      rw [List.flatMap_cons, List.map_append, ih, read, ← List.filterMap_append,
        Statement.tokens_read]

/-- An operator that becomes an edge stands between the words that the edge joins. -/
theorem infix_of_mem_hopFates {source s t : Word} {l : Link} {hops : List Hop}
    (h : (l, Fate.edge s t) ∈ hopFates source hops) :
    [.word s, .link l, .word t] <:+: .word source :: hops.flatMap Statement.hopTokens := by
  -- the target of a hop is the source of the next one
  induction hops generalizing source with
  | nil => exact nomatch h
  | cons hop hops ih =>
      rcases List.mem_cons.1 h with heq | hmem
      · cases heq
        exact ⟨[], hops.flatMap Statement.hopTokens, rfl⟩
      · obtain ⟨before, after, hsplit⟩ := ih hmem
        refine ⟨.word source :: .link hop.link :: before, after, ?_⟩
        rw [List.flatMap_cons, ← List.singleton_append, Statement.hopTokens]
        simpa using hsplit

/-- An operator of a statement that becomes an edge stands between the two words that it joins. -/
theorem infix_of_mem_fates {stmt : Statement} {s t : Word} {l : Link}
    (h : (l, Fate.edge s t) ∈ stmt.fates) : [.word s, .link l, .word t] <:+: stmt.tokens := by
  cases stmt with
  | chain head hops dangling lists =>
      have hmem : (l, Fate.edge s t) ∈ hopFates head hops := by
        rcases List.mem_append.1 h with hmem | hlost
        · exact hmem
        · cases dangling <;> simp at hlost
      refine (infix_of_mem_hopFates hmem).trans ⟨[], (dangling.map Token.link).toList
        ++ lists.map Token.bracket, ?_⟩
      simp [Statement.tokens]
  | noSource => simp [Statement.fates] at h
  | _ => cases h

/-- An operator that becomes an edge stands between the two words that it joins, among the tokens of
    all statements. -/
theorem infix_of_mem_fates_statements {ts : List Token} {s t : Word} {l : Link}
    (h : (l, Fate.edge s t) ∈ (statements ts).flatMap Statement.fates) :
    [.word s, .link l, .word t] <:+: ts := by
  obtain ⟨stmt, hstmt, hmem⟩ := List.mem_flatMap.1 h
  obtain ⟨before, after, hsplit⟩ := List.append_of_mem hstmt
  refine (infix_of_mem_fates hmem).trans ?_
  rw [← tokens_statements ts, hsplit, List.flatMap_append, List.flatMap_cons]
  exact ⟨before.flatMap Statement.tokens, after.flatMap Statement.tokens, by simp⟩

/-! ## Operators and edges -/

/-- The ids of the two ends of an edge. -/
def ends (e : Edge) : String × String := (e.source, e.target)

/-- The ids that operators join, in order. -/
def joined (fates : List (Link × Fate)) : List (String × String) :=
  fates.filterMap fun f => f.2.ends?

@[simp] theorem joined_nil : joined [] = [] := rfl

@[simp] theorem joined_append (a b : List (Link × Fate)) : joined (a ++ b) = joined a ++ joined b :=
  List.filterMap_append

/-- The edges of a chain join the words on both sides of its operators, in order. -/
theorem ends_addHops (attributes : EdgeAttributes) (kind : EdgeKind) (g : Graph) (source : Word)
    (hops : List Hop) :
    (Statement.addHops attributes kind g source hops).edges.map ends
      = g.edges.map ends ++ joined (hopFates source hops) := by
  induction hops generalizing g source with
  | nil => simp [Statement.addHops, hopFates]
  | cons hop hops ih =>
      rw [Statement.addHops, ih]
      simp [Graph.connect, ends, hopFates, joined, Fate.ends?]

/-- Adding a chain leaves the kind of the graph as it was. -/
theorem directed_addHops (attributes : EdgeAttributes) (kind : EdgeKind) (g : Graph)
    (source : Word) (hops : List Hop) :
    (Statement.addHops attributes kind g source hops).directed = g.directed := by
  induction hops generalizing g source with
  | nil => rfl
  | cons hop hops ih => rw [Statement.addHops, ih, Graph.directed_connect]

/-- A statement adds the edges that its operators become, in order. -/
theorem ends_addTo (kind : EdgeKind) (g : Graph) (s : Statement) :
    (s.addTo kind g).edges.map ends = g.edges.map ends ++ joined s.fates := by
  cases s with
  | chain head hops dangling lists =>
      -- a chain without hops is a node, and the operator behind it adds no edge
      have hlost : joined ((dangling.map fun l => (l, Fate.lost)).toList) = [] := by
        cases dangling <;> rfl
      cases hops with
      | nil => simp [Statement.addTo, Statement.fates, hlost, hopFates]
      | cons hop hops =>
          rw [Statement.fates, joined_append, hlost, List.append_nil]
          exact ends_addHops _ _ _ _ _
  | _ => simp [Statement.addTo, Statement.fates, joined, Fate.ends?]

/-- Adding a statement leaves the kind of the graph as it was. -/
theorem directed_addTo (kind : EdgeKind) (g : Graph) (s : Statement) :
    (s.addTo kind g).directed = g.directed := by
  cases s with
  | chain head hops dangling lists =>
      cases hops with
      | nil => simp [Statement.addTo]
      | cons hop hops => exact directed_addHops _ _ _ _ _
  | _ => rfl

/-- The edges of some statements join what their operators join, in order. -/
theorem ends_foldl_addTo (kind : EdgeKind) (g : Graph) (ss : List Statement) :
    (ss.foldl (Statement.addTo kind) g).edges.map ends
      = g.edges.map ends ++ joined (ss.flatMap Statement.fates) := by
  induction ss generalizing g with
  | nil => simp
  | cons s ss ih =>
      rw [List.foldl_cons, ih, ends_addTo, List.flatMap_cons, joined_append, List.append_assoc]

/-- Adding some statements leaves the kind of the graph as it was. -/
theorem directed_foldl_addTo (kind : EdgeKind) (g : Graph) (ss : List Statement) :
    (ss.foldl (Statement.addTo kind) g).directed = g.directed := by
  induction ss generalizing g with
  | nil => rfl
  | cons s ss ih => rw [List.foldl_cons, ih, directed_addTo]

/-! ## Operators and reports -/

/-- The places that the diagnostics of one kind point at, in order. -/
def reports (code : Code) (ds : List Diagnostic) : List (List Span) :=
  (ds.filter fun d => d.code == some code).map fun d => d.labels.map Label.span

@[simp] theorem reports_nil (code : Code) : reports code [] = [] := rfl

@[simp] theorem reports_append (code : Code) (a b : List Diagnostic) :
    reports code (a ++ b) = reports code a ++ reports code b := by
  simp [reports]

/-- Diagnostics of other kinds are no reports of a kind. -/
theorem reports_eq_nil {code : Code} {ds : List Diagnostic} (h : ∀ d ∈ ds, d.code ≠ some code) :
    reports code ds = [] := by
  simpa [reports] using h

theorem length_reports (code : Code) (ds : List Diagnostic) :
    (reports code ds).length = ds.countP fun d => d.code == some code := by
  simp [reports, List.countP_eq_length_filter]

/-- The places of some operators, as labels of one diagnostic each. -/
def pointAt (links : List Link) : List (List Span) := links.map fun l => [l.place.span]

/-- The operators whose fates are chosen. -/
def linksWith (choose : Link × Fate → Bool) (fates : List (Link × Fate)) : List Link :=
  (fates.filter choose).map Prod.fst

/-- The operators that become no edge. -/
def lostLinks (fates : List (Link × Fate)) : List Link := linksWith (fun f => f.2 = .lost) fates

/-- The operators of the other kind of graph that become edges. -/
def foreignLinks (directed : Bool) (fates : List (Link × Fate)) : List Link :=
  linksWith (fun f => f.2 ≠ .lost ∧ f.1.op ≠ .ofGraph directed) fates

@[simp] theorem linksWith_append (choose : Link × Fate → Bool) (a b : List (Link × Fate)) :
    linksWith choose (a ++ b) = linksWith choose a ++ linksWith choose b := by
  simp [linksWith]

@[simp] theorem pointAt_append (a b : List Link) : pointAt (a ++ b) = pointAt a ++ pointAt b :=
  List.map_append

/-- No operator between two words is lost. -/
theorem lostLinks_hopFates (source : Word) (hops : List Hop) :
    lostLinks (hopFates source hops) = [] := by
  induction hops generalizing source with
  | nil => rfl
  | cons hop hops ih => exact ih hop.target

/-- The operators of the other kind in a chain are found among its steps. -/
theorem foreignLinks_hopFates (directed : Bool) (source : Word) (hops : List Hop) :
    foreignLinks directed (hopFates source hops)
      = (hops.map Hop.link).filter fun l => l.op != .ofGraph directed := by
  induction hops generalizing source with
  | nil => rfl
  | cons hop hops ih =>
      rw [List.map_cons, List.filter_cons, ← ih hop.target]
      by_cases h : hop.link.op = .ofGraph directed <;> simp [foreignLinks, linksWith, hopFates, h]

/-- The findings about an attribute list concern no operator. -/
theorem code_bracketFindings {lists : List Bracket} :
    ∀ d ∈ (lists.flatMap Bracket.findings).map Finding.diagnostic,
      d.code = some .unterminated ∨ d.code = some .malformedAttribute := by
  intro d hd
  obtain ⟨f, hf, rfl⟩ := List.mem_map.1 hd
  obtain ⟨b, -, hb⟩ := List.mem_flatMap.1 hf
  rcases List.mem_append.1 hb with hopen | hjunk
  · cases hclosed : b.closed with
    | true => simp [hclosed] at hopen
    | false =>
        obtain rfl : f = .openBracket b := by simpa [hclosed] using hopen
        exact Or.inl rfl
  · obtain ⟨place, -, rfl⟩ := List.mem_map.1 hjunk
    exact Or.inr rfl

/-- No report about a list is about an operator. -/
theorem reports_bracketFindings {code : Code} (lists : List Bracket)
    (h : code = .incompleteEdge ∨ code = .operatorMismatch) :
    reports code ((lists.flatMap Bracket.findings).map Finding.diagnostic) = [] := by
  refine reports_eq_nil fun d hd => ?_
  rcases h with rfl | rfl <;> rcases code_bracketFindings d hd with hc | hc <;> simp [hc]

/-- What is reported about a statement as incomplete are its lost operators, in order. -/
theorem reports_incomplete (directed : Bool) (s : Statement) :
    reports .incompleteEdge ((s.findings directed).map Finding.diagnostic)
      = pointAt (lostLinks s.fates) := by
  cases s with
  | defaults keyword ofGraph lists => exact reports_bracketFindings lists (Or.inl rfl)
  | chain head hops dangling lists =>
      have mismatches : ∀ links : List Link, reports .incompleteEdge
          ((links.map (Finding.mismatch · directed)).map Finding.diagnostic) = [] := by
        intro links
        refine reports_eq_nil ?_
        simp [Finding.diagnostic, Diagnostic.about, Diagnostic.advise]
      have hops_lost := lostLinks_hopFates head hops
      rw [lostLinks] at hops_lost ⊢
      simp only [Statement.findings, Statement.fates, List.map_append, reports_append, mismatches,
        reports_bracketFindings lists (Or.inl rfl), linksWith_append, hops_lost,
        List.nil_append, List.append_nil]
      cases dangling <;> rfl
  | misplaced token why => rfl
  | _ => rfl

/-- What is reported about a statement as a mismatch are its operators of the other kind of graph
    that become edges, in order. -/
theorem reports_mismatch (directed : Bool) (s : Statement) :
    reports .operatorMismatch ((s.findings directed).map Finding.diagnostic)
      = pointAt (foreignLinks directed s.fates) := by
  cases s with
  | defaults keyword ofGraph lists => exact reports_bracketFindings lists (Or.inr rfl)
  | chain head hops dangling lists =>
      have mismatches : ∀ links : List Link, reports .operatorMismatch
          ((links.map (Finding.mismatch · directed)).map Finding.diagnostic) = pointAt links := by
        intro links
        induction links with
        | nil => rfl
        | cons l links ih => exact congrArg (List.cons [l.place.span]) ih
      have hops_foreign := foreignLinks_hopFates directed head hops
      rw [foreignLinks] at hops_foreign ⊢
      simp only [Statement.findings, Statement.fates, List.map_append, reports_append, mismatches,
        reports_bracketFindings lists (Or.inr rfl), linksWith_append, hops_foreign,
        pointAt_append, List.append_nil]
      cases dangling <;> rfl
  | misplaced token why => rfl
  | _ => rfl

/-! ## A whole text -/

/-- The operators of a description, in order. -/
def Document.operators (d : Document) : List Link := d.tokens.flatten.filterMap Token.link?

/-- What becomes of each operator of a document, in order. -/
def Document.fates (d : Document) : List (Link × Fate) := d.statements.flatMap Statement.fates

/-- The statements of a text are those of the tokens of its chunks. -/
theorem statements_ofText (text : List Char) :
    (Document.ofText text).statements = (Document.ofText text).tokens.flatMap statements := rfl

/-- Every operator of a text has one fate, and there is no other one. -/
theorem fst_fates_ofText (text : List Char) :
    (Document.ofText text).fates.map Prod.fst = (Document.ofText text).operators := by
  rw [Document.fates, Document.operators, statements_ofText]
  generalize (Document.ofText text).tokens = chunks
  induction chunks with
  | nil => rfl
  | cons ts chunks ih =>
      rw [List.flatMap_cons, List.flatMap_append, List.map_append, ih, fst_fates_statements,
        List.flatten_cons, List.filterMap_append]

/-- An operator of a text that becomes an edge stands between the two words that it joins, in one
    chunk. -/
theorem infix_of_mem_fates_ofText {text : List Char} {s t : Word} {l : Link}
    (h : (l, Fate.edge s t) ∈ (Document.ofText text).fates) :
    ∃ ts ∈ (Document.ofText text).tokens, [.word s, .link l, .word t] <:+: ts := by
  rw [Document.fates, statements_ofText, List.flatMap_assoc] at h
  obtain ⟨ts, hts, hmem⟩ := List.mem_flatMap.1 h
  exact ⟨ts, hts, infix_of_mem_fates_statements hmem⟩

/-- A token with an operator is that operator. -/
theorem link?_eq_some {t : Token} {l : Link} (h : t.link? = some l) : t = .link l := by
  cases t with
  | link => exact congrArg Token.link (Option.some.inj h)
  | _ => exact nomatch h

/-- The operators of a text start at different positions, in order. -/
theorem pairwise_operators (text : List Char) :
    (Document.ofText text).operators.Pairwise fun a b => a.place.start < b.place.start := by
  have tokens := List.pairwise_map.1 (pairwise_tokens (bodyOf text (readHeader? text)))
  -- a token is not empty, and ends before the next one starts
  refine List.pairwise_filterMap.2 (tokens.imp_of_mem ?_)
  intro a b ha _ hab l hl m hm
  have nonempty := start_lt_stop_of_mem ha
  rw [link?_eq_some hl] at nonempty hab
  rw [link?_eq_some hm] at hab
  exact Nat.lt_of_lt_of_le nonempty hab

/-- What is reported about the end of a body is a missing brace. -/
theorem code_unclosed {d : Document} {length : Nat} :
    ∀ f ∈ d.unclosed length, f.diagnostic.code = some .unclosedBody := by
  intro f hf
  rw [Document.unclosed] at hf
  split at hf
  · split at hf
    · exact nomatch hf
    · obtain rfl := List.mem_singleton.1 hf
      rfl
  · exact nomatch hf

/-- What is reported about the end of a body is no report of another kind. -/
theorem reports_unclosed {code : Code} (d : Document) (length : Nat) (h : code ≠ .unclosedBody) :
    reports code ((d.unclosed length).map Finding.diagnostic) = [] := by
  refine reports_eq_nil fun diagnostic hd => ?_
  obtain ⟨f, hf, rfl⟩ := List.mem_map.1 hd
  rw [code_unclosed f hf]
  exact fun heq => h (Option.some.inj heq).symm

/-- What is reported about a description is what is reported about its statements, the end of the
    body apart. -/
theorem reports_findings {code : Code} (d : Document) (length : Nat) (h : code ≠ .unclosedBody) :
    reports code ((d.findings length).map Finding.diagnostic)
      = d.statements.flatMap fun s =>
          reports code ((s.findings d.directed).map Finding.diagnostic) := by
  rw [Document.findings, List.map_append, reports_append, reports_unclosed d length h,
    List.nil_append]
  induction d.statements with
  | nil => rfl
  | cons s ss ih => rw [List.flatMap_cons, List.map_append, reports_append, ih, List.flatMap_cons]

/-- The chosen operators of some statements are pointed at statement by statement. -/
theorem pointAt_linksWith_flatMap (choose : Link × Fate → Bool) (ss : List Statement) :
    pointAt (linksWith choose (ss.flatMap Statement.fates))
      = ss.flatMap fun s => pointAt (linksWith choose s.fates) := by
  induction ss with
  | nil => rfl
  | cons s ss ih => rw [List.flatMap_cons, linksWith_append, pointAt_append, ih, List.flatMap_cons]

/-- Where the edge operators of a text went: `fates` says it for each of them. -/
structure EdgeAccount (d : Document) (p : Parsed) (fates : List (Link × Fate)) : Prop where
  /-- Every operator is accounted for once, in the order of the text. -/
  operators : fates.map Prod.fst = d.operators
  /-- The places of the operators tell them apart. -/
  apart : d.operators.Pairwise fun a b => a.place.start < b.place.start
  /-- The operators that become edges become those of the graph, in order. -/
  edges : p.graph.edges.map ends = joined fates
  /-- An edge joins the words right before and after its operator. -/
  around : ∀ l s t, (l, Fate.edge s t) ∈ fates →
    ∃ ts ∈ d.tokens, [.word s, .link l, .word t] <:+: ts
  /-- The other operators are reported, each once and in order. -/
  incomplete : reports .incompleteEdge p.warnings = pointAt (lostLinks fates)
  /-- The operators of edges that are not those of the graph are reported, each once and in
      order. -/
  mismatch : reports .operatorMismatch p.warnings = pointAt (foreignLinks p.graph.directed fates)

/-- The account of a text that is not refused. -/
theorem edgeAccount_ofText (text : List Char) (length : Nat) :
    let d := Document.ofText text
    EdgeAccount d ⟨d.graph, d.findings length⟩ d.fates := by
  intro d
  -- the kind of the graph is settled before the first statement adds to it
  have directed : d.graph.directed = d.directed := directed_foldl_addTo _ _ _
  refine ⟨fst_fates_ofText text, pairwise_operators text, ?_, ?_, ?_, ?_⟩
  · exact ends_foldl_addTo d.edgeKind _ d.statements
  · intro l s t h
    exact infix_of_mem_fates_ofText h
  · show reports _ ((d.findings length).map Finding.diagnostic) = _
    rw [reports_findings d length (by decide), Document.fates, lostLinks,
      pointAt_linksWith_flatMap]
    exact congrArg (List.flatMap · d.statements) (funext (reports_incomplete d.directed))
  · show reports _ ((d.findings length).map Finding.diagnostic)
      = pointAt (foreignLinks d.graph.directed d.fates)
    rw [directed, reports_findings d length (by decide), Document.fates, foreignLinks,
      pointAt_linksWith_flatMap]
    exact congrArg (List.flatMap · d.statements) (funext (reports_mismatch d.directed))

/-- An operator is lost or joins two words. -/
theorem length_joined_add (fates : List (Link × Fate)) :
    (joined fates).length + (lostLinks fates).length = fates.length := by
  induction fates with
  | nil => rfl
  | cons f fates ih =>
      obtain ⟨l, fate⟩ := f
      rw [List.length_cons, ← ih]
      cases fate with
      | edge source target =>
          show (joined fates).length + 1 + (lostLinks fates).length = _
          omega
      | lost => rfl

/-- **No edge operator is lost.**  In every text that is not refused, each edge operator either
    becomes one edge of the graph or is reported by one warning as incomplete, and the edges whose
    operator is not the graph's own are those reported as a mismatch.  So edges and warnings add
    up. -/
theorem edge_operators_accounted {source : String} {p : Parsed} (h : parse source = .ok p) :
    let d := Document.ofText (stripComments source.toList)
    ∃ fates, EdgeAccount d p fates ∧
      p.graph.edges.length + p.warnings.countP (fun w => w.code == some .incompleteEdge)
        = d.operators.length ∧
      p.warnings.countP (fun w => w.code == some .operatorMismatch)
        = (foreignLinks p.graph.directed fates).length := by
  intro d
  have account : EdgeAccount d p d.fates := by
    rw [eq_of_parse h]
    exact edgeAccount_ofText _ _
  refine ⟨d.fates, account, ?_, ?_⟩
  · have edges := congrArg List.length account.edges
    have lost := congrArg List.length account.incomplete
    have operators := congrArg List.length account.operators
    rw [List.length_map] at edges operators
    rw [length_reports, pointAt, List.length_map] at lost
    rw [edges, lost, ← operators]
    exact length_joined_add d.fates
  · have mismatch := congrArg List.length account.mismatch
    rwa [length_reports, pointAt, List.length_map] at mismatch

/-- A text with edges of both kinds, and with operators that lack a source or a target. -/
theorem edge_operators_accounted_mixed :
    let source := "digraph \x7b A -> B -- C; -> D; E -> ; F = G -- H \x7d"
    let d := Document.ofText (stripComments source.toList)
    ∃ p, parse source = .ok p ∧ ∃ fates, EdgeAccount d p fates ∧
      p.graph.edges.length + p.warnings.countP (fun w => w.code == some .incompleteEdge)
        = d.operators.length ∧
      p.warnings.countP (fun w => w.code == some .operatorMismatch)
        = (foreignLinks p.graph.directed fates).length := by
  intro source d
  have ok : (parse source).toOption.isSome = true := by decide +kernel
  cases h : parse source with
  | error e =>
      rw [h] at ok
      exact nomatch ok
  | ok p => exact ⟨p, rfl, edge_operators_accounted h⟩

end DotLayout.Dot
