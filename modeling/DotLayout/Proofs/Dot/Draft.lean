import DotLayout.Proofs.Dot.EdgeOperator

/-! # Reading token by token

    A description can also be read in one pass that goes through the tokens of each chunk by their
    numbers.  A `Draft` is what such a pass knows in the middle: the graph so far, a log of what was
    reported, a flag for each edge that says whether it asked for a kind of its own, and the number
    of statements that were recognized.

    * `Draft.statement` reads the statement at a token and says which token is next, and
      `Draft.run` goes on until no token is left.
    * `Draft.add` is what one `Statement` does to a draft; `statement_eq` and `run_eq` say that a
      pass reads the statements that `statements` reads, one after the other. -/

namespace DotLayout.Dot

open Text

/-- What was reported so far, and whether an error was among it. -/
structure Log where
  diagnostics : List Diagnostic := []
  failed : Bool := false

namespace Log

/-- Adds a finding to the log, which remembers whether any was an error. -/
def report (log : Log) (f : Finding) : Log where
  diagnostics := log.diagnostics ++ [f.diagnostic]
  failed := log.failed || f.diagnostic.severity == .error

/-- Adds some findings to the log, in order. -/
def reportAll (log : Log) (fs : List Finding) : Log := fs.foldl report log

/-- What was reported: all of it is a failure if an error is among it. -/
def finish (log : Log) : Except (List Diagnostic) (List Diagnostic) :=
  if log.failed then .error log.diagnostics else .ok log.diagnostics

@[simp] theorem reportAll_append (log : Log) (fs fs' : List Finding) :
    log.reportAll (fs ++ fs') = (log.reportAll fs).reportAll fs' :=
  List.foldl_append

/-- A log holds the diagnostics of its findings, in order. -/
theorem diagnostics_reportAll (log : Log) (fs : List Finding) :
    (log.reportAll fs).diagnostics = log.diagnostics ++ fs.map Finding.diagnostic := by
  induction fs generalizing log with
  | nil => exact (List.append_nil _).symm
  | cons f fs ih => exact (ih (log.report f)).trans (List.append_assoc ..)

/-- A log has failed once an error was reported. -/
theorem failed_reportAll (log : Log) (fs : List Finding) :
    (log.reportAll fs).failed
      = (log.failed || fs.any fun f => f.diagnostic.severity == .error) := by
  induction fs generalizing log with
  | nil => exact (Bool.or_false _).symm
  | cons f fs ih => exact (ih (log.report f)).trans (Bool.or_assoc ..)

end Log

/-- What is known in the middle of a description. -/
@[ext]
structure Draft where
  graph : Graph
  log : Log := {}
  /-- For each edge, whether it asked for a kind of its own. -/
  asked : List Bool := []
  /-- How many statements said something about the graph. -/
  recognized : Nat := 0

namespace Draft

/-- Reports a finding. -/
def report (r : Draft) (f : Finding) : Draft := { r with log := r.log.report f }

/-- Reports some findings, in order. -/
def reportAll (r : Draft) (fs : List Finding) : Draft := { r with log := r.log.reportAll fs }

/-- Counts one more statement that is recognized. -/
def recognize (r : Draft) : Draft := { r with recognized := r.recognized + 1 }

/-- Sets an attribute of the graph. -/
def setAttribute (r : Draft) (p : Pair) : Draft :=
  { r with graph := r.graph.setAttribute p.key p.value }

/-- Makes sure of a node and redefines it. -/
def define (r : Draft) (pairs : List Pair) (id : String) : Draft :=
  let settings := NodeSettings.ofPairs pairs
  { r with graph := (r.graph.ensureNode id).redefineNode id settings.label settings.style }

/-- Adds an edge; one that asks for no kind is a curve for now. -/
def connect (settings : EdgeSettings) (r : Draft) (ends : String × String) : Draft :=
  { r with
    graph := r.graph.connect ends.1 ends.2 settings.attributes (settings.kind.getD .curved)
    asked := r.asked ++ [settings.kind.isSome] }

/-- Adds an edge from each of some ids to the next one. -/
def join (r : Draft) (pairs : List Pair) (ids : List String) : Draft :=
  (ids.zip ids.tail).foldl (connect (.ofPairs pairs)) r

/-! ## Tokens by their numbers -/

/-- Takes an entry of an attribute list: a pair is collected, and junk is reported. -/
def entry (state : Draft × List Pair) : Entry → Draft × List Pair
  | .pair p _ => (state.1, state.2 ++ [p])
  | .junk place => (state.1.report (.malformed place), state.2)

/-- Takes in an attribute list: its pairs are collected, and what is no pair is reported. -/
def list (r : Draft) (pairs : List Pair) (b : Bracket) : Draft × List Pair :=
  let r := if b.closed then r else r.report (.openBracket b)
  (readEntries b.content).foldl entry (r, pairs)

/-- Reads attribute lists as long as there are any, from token number `i` on. -/
def lists (r : Draft) (pairs : List Pair) (ts : List Token) (i : Nat) :
    Draft × List Pair × Nat :=
  match _h : ts[i]? with
  | some (.bracket b) =>
    let (r, pairs) := r.list pairs b
    r.lists pairs ts (i + 1)
  | _ => (r, pairs, i)
  termination_by ts.length - i
  decreasing_by
    have := (List.getElem?_eq_some_iff.1 _h).1
    omega

/-- Reads hops as long as there are any, from token number `i` on, and collects their targets.
    An operator without a target is taken, too, and ends them. -/
def hops (r : Draft) (ids : List String) (ts : List Token) (i : Nat) :
    Draft × List String × Nat :=
  match _h : ts[i]? with
  | some (.link link) =>
    match ts[i + 1]? with
    | some (.word target) =>
      let r :=
        if link.op = .ofGraph r.graph.directed then r
        else r.report (.mismatch link r.graph.directed)
      r.hops (ids ++ [target.text]) ts (i + 2)
    | _ => (r.report (.noTarget link), ids, i + 1)
  | _ => (r, ids, i)
  termination_by ts.length - i
  decreasing_by
    have := (List.getElem?_eq_some_iff.1 _h).1
    omega

/-- Reads the node or the chain of edges that starts with the word at token number `i`. -/
def chain (r : Draft) (head : Word) (ts : List Token) (i : Nat) : Draft × Nat :=
  let (r, ids, afterHops) := r.hops [head.text] ts (i + 1)
  let (r, pairs, next) := r.lists [] ts afterHops
  let r := r.recognize
  if ids.length = 1 then (r.define pairs head.text, next) else (r.join pairs ids, next)

/-- Takes in an assignment, and gives the number of the token behind it. -/
def assignment (r : Draft) (key : Word) (equals : Excerpt) (ts : List Token) (i : Nat) :
    Draft × Nat :=
  match ts[i + 2]? with
  | some (.word value) => ((r.setAttribute ⟨key.text, value.text⟩).recognize, i + 3)
  | _ => (r.report (.noValue key.text (key.place.span.union equals.span)), i + 2)

/-- Whether there is an edge operator. -/
def isLink : Option Token → Bool
  | some (.link _) => true
  | _ => false

/-- Reads the attribute lists behind a keyword; those of the graph are attributes of the graph. -/
def defaults (r : Draft) (w : Word) (ofGraph : Bool) (ts : List Token) (i : Nat) : Draft × Nat :=
  match ts[i + 1]? with
  | some (.bracket _) =>
    let (r, pairs, next) := r.lists [] ts (i + 1)
    let r := if ofGraph then pairs.foldl setAttribute r else r
    (r.recognize, next)
  | _ => (r.report (.misplaced w.place .keywordAlone), i + 1)

/-- Takes in the statement of a keyword, and gives the number of the token behind it. -/
def keyword (r : Draft) (keyword : Keyword) (w : Word) (ts : List Token) (i : Nat) : Draft × Nat :=
  match keyword with
  | .node | .edge => r.defaults w false ts i
  | .graph => r.defaults w true ts i
  | .subgraph =>
    match ts[i + 1]? with
    | some (.word _) => if isLink ts[i + 2]? then (r, i + 1) else (r, i + 2)
    | _ => (r, i + 1)
  | .digraph | .strict => (r.report (.misplaced w.place .headerKeyword), i + 1)

/-- Takes in what begins with a word, and gives the number of the token behind it. -/
def word (r : Draft) (w : Word) (ts : List Token) (i : Nat) : Draft × Nat :=
  match ts[i + 1]? with
  | some (.equals equals) => r.assignment w equals ts i
  | next =>
    if w.quoted then r.chain w ts i
    else
      match Keyword.ofWord? w.text with
      | some keyword => r.keyword keyword w ts i
      | none =>
        if isGraphSetting w.text && !isLink next then
          (r.report (.misplaced w.place .settingAlone), i + 1)
        else
          r.chain w ts i

/-- Reads the statement that starts with a token, which has number `i`.  The result has the number
    of the token behind the statement. -/
def statement (r : Draft) (token : Token) (ts : List Token) (i : Nat) : Draft × Nat :=
  match token with
  | .word w => r.word w ts i
  | .link link => (r.report (.noSource link), i + 1)
  | .bracket b => (r.report (.misplaced b.place .bracketAlone), i + 1)
  | .equals place => (r.report (.misplaced place .equalsAlone), i + 1)
  | .openString place => (r.report (.openString place), i + 1)
  | .stray place => (r.report (.misplaced place .strayCharacter), i + 1)

end Draft

/-- What the attribute lists of a chain say about its edges. -/
def Statement.edgeSettings : Statement → EdgeSettings
  | .chain _ _ _ lists => .ofPairs (pairsOf lists)
  | _ => {}

/-- The draft after a statement. -/
def Draft.add (r : Draft) (s : Statement) : Draft where
  graph := s.settings.foldl (fun g p => g.setAttribute p.key p.value) (s.addTo .curved r.graph)
  log := r.log.reportAll (s.findings r.graph.directed)
  asked := r.asked ++ (joined s.fates).map fun _ => s.edgeSettings.kind.isSome
  recognized := r.recognized + if s.recognized then 1 else 0

namespace Draft

variable {ts rest : List Token} {i : Nat} {r : Draft}

/-! ## Lists and hops -/

theorem getElem?_of_drop (h : ts.drop i = rest) (k : Nat) : ts[i + k]? = rest[k]? := by
  rw [← h, List.getElem?_drop]

/-- If there is a first token, the rest is behind it. -/
theorem exists_cons {token : Token} (h : rest[0]? = some token) :
    ∃ after, rest = token :: after := by
  rw [← List.head?_eq_getElem?] at h
  exact List.head?_eq_some_iff.1 h

/-- Behind one token, the rest is left. -/
theorem drop_of_drop_cons {token : Token} (h : ts.drop i = token :: rest) :
    ts.drop (i + 1) = rest := by
  rw [← List.drop_drop, h]
  rfl

/-- Taking in entries collects their pairs and reports all else, in order. -/
theorem foldl_entry (r : Draft) (pairs : List Pair) (entries : List Entry) :
    entries.foldl entry (r, pairs)
      = (r.reportAll ((entries.filterMap Entry.junk?).map .malformed),
        pairs ++ entries.filterMap Entry.pair?) := by
  induction entries generalizing r pairs with
  | nil => exact Prod.ext rfl (List.append_nil pairs).symm
  | cons e entries ih =>
      cases e with
      | pair p place =>
          refine (ih r (pairs ++ [p])).trans ?_
          rw [List.append_assoc]
          rfl
      | junk place => exact ih (r.report (.malformed place)) pairs

/-- Taking in a list reports what is found in it and collects its pairs. -/
theorem list_eq (r : Draft) (pairs : List Pair) (b : Bracket) :
    r.list pairs b = (r.reportAll b.findings, pairs ++ pairsOf [b]) := by
  rw [list, foldl_entry, Bracket.findings, pairsOf, List.flatMap_singleton]
  cases b.closed <;> rfl

/-- Findings one behind the other are reported one behind the other. -/
theorem reportAll_append (r : Draft) (fs fs' : List Finding) :
    r.reportAll (fs ++ fs') = (r.reportAll fs).reportAll fs' := by
  rw [reportAll, Log.reportAll_append]
  rfl

/-- The lists from a token on are those that the rest of the tokens starts with. -/
theorem lists_eq (h : ts.drop i = rest) (r : Draft) (pairs : List Pair) :
    r.lists pairs ts i
      = (r.reportAll ((readLists rest).1.flatMap Bracket.findings),
        pairs ++ pairsOf (readLists rest).1, i + (readLists rest).1.length) := by
  have first : ts[i]? = rest[0]? := getElem?_of_drop h 0
  fun_induction readLists rest generalizing i r pairs with
  | case1 b rest ih =>
      have next := drop_of_drop_cons h
      rw [lists]
      split
      · rename_i b' hb
        obtain rfl : b' = b := by simpa [first] using hb.symm
        have others := ih next (r.reportAll b'.findings) (pairs ++ pairsOf [b'])
          (getElem?_of_drop next 0)
        have collected : pairsOf (b' :: (readLists rest).1)
            = pairsOf [b'] ++ pairsOf (readLists rest).1 := by
          simp [pairsOf]
        rw [list_eq]
        refine others.trans ?_
        rw [← reportAll_append, collected, List.append_assoc, Nat.add_assoc, Nat.add_comm 1]
        rfl
      · rename_i hno
        exact absurd first (hno b)
  | case2 rest hrest =>
      rw [lists]
      split
      · rename_i b hb
        obtain ⟨after, hafter⟩ := exists_cons (first.symm.trans hb)
        exact absurd hafter (hrest b after)
      · exact Prod.ext rfl (Prod.ext (List.append_nil pairs).symm rfl)

/-- What is reported about the operators of hops. -/
def mismatches (directed : Bool) (hops : List Hop) : List Finding :=
  ((hops.map Hop.link).filter fun link => link.op != .ofGraph directed).map (.mismatch · directed)

/-- The mismatches of a chain are those of its first step, and then those of the others. -/
theorem mismatches_cons (directed : Bool) (hop : Hop) (hops : List Hop) :
    mismatches directed (hop :: hops)
      = (if hop.link.op = .ofGraph directed then [] else [.mismatch hop.link directed])
        ++ mismatches directed hops := by
  by_cases h : hop.link.op = .ofGraph directed <;> simp [mismatches, h]

/-- The hops from a token on are those that the rest of the tokens starts with. -/
theorem hops_eq (h : ts.drop i = rest) (r : Draft) (ids : List String) :
    r.hops ids ts i
      = (r.reportAll (mismatches r.graph.directed (readHops rest).1
            ++ ((readHops rest).2.1.map .noTarget).toList),
        ids ++ (readHops rest).1.map (·.target.text),
        i + ((readHops rest).1.flatMap Statement.hopTokens
            ++ ((readHops rest).2.1.map Token.link).toList).length) := by
  -- The loop looks its tokens up by number and the reader matches on the list, so the branches that
  -- the other one excludes are refuted by these two.
  have first : ts[i]? = rest[0]? := getElem?_of_drop h 0
  have second : ts[i + 1]? = rest[1]? := getElem?_of_drop h 1
  fun_induction readHops rest generalizing i r ids with
  | case1 link target rest ih =>
      have next : ts.drop (i + 2) = rest := drop_of_drop_cons (drop_of_drop_cons h)
      rw [hops]
      split
      · rename_i link' hlink
        obtain rfl : link' = link := by simpa [first] using hlink.symm
        split
        · rename_i target' htarget
          obtain rfl : target' = target := by simpa [second] using htarget.symm
          have others := fun r : Draft => ih next r (ids ++ [target'.text])
            (getElem?_of_drop next 0) (getElem?_of_drop next 1)
          -- the report of a mismatch leaves the graph, and the later reports stand behind it
          refine (others _).trans ?_
          have graph : (if link'.op = .ofGraph r.graph.directed then r
              else r.report (.mismatch link' r.graph.directed)).graph = r.graph := by
            split <;> rfl
          have reports : ∀ fs, (if link'.op = .ofGraph r.graph.directed then r
              else r.report (.mismatch link' r.graph.directed)).reportAll fs
              = r.reportAll ((if link'.op = .ofGraph r.graph.directed then []
                else [.mismatch link' r.graph.directed]) ++ fs) := by
            intro fs
            split <;> rfl
          rw [graph, reports, ← List.append_assoc, ← mismatches_cons _ ⟨link', target'⟩,
            List.append_assoc ids, Nat.add_assoc, Nat.add_comm 2]
          rfl
        · rename_i hno
          exact absurd second (hno target)
      · rename_i hno
        exact absurd first (hno link)
  | case2 link rest hrest =>
      rw [hops]
      split
      · rename_i link' hlink
        obtain rfl : link' = link := by simpa [first] using hlink.symm
        split
        · rename_i target htarget
          obtain ⟨after, hafter⟩ := exists_cons (second.symm.trans htarget)
          exact absurd hafter (hrest target after)
        · exact Prod.ext rfl (Prod.ext (List.append_nil ids).symm rfl)
      · rename_i hno
        exact absurd first (hno link)
  | case3 rest hword hrest =>
      rw [hops]
      split
      · rename_i link hlink
        obtain ⟨after, hafter⟩ := exists_cons (first.symm.trans hlink)
        exact absurd hafter (hrest link after)
      · exact Prod.ext rfl (Prod.ext (List.append_nil ids).symm rfl)

/-! ## Statements -/

/-- The operator that leads nowhere joins nothing. -/
theorem joined_fates_chain (head : Word) (hops : List Hop) (dangling : Option Link)
    (lists : List Bracket) :
    joined (Statement.chain head hops dangling lists).fates = joined (hopFates head hops) := by
  rw [Statement.fates, joined_append]
  cases dangling <;> exact List.append_nil _

/-- Joining the words of a chain adds its edges, and a flag for each of them. -/
theorem join_eq (settings : EdgeSettings) (r : Draft) (source : Word) (hops : List Hop) :
    ((source.text :: hops.map (·.target.text)).zip (hops.map (·.target.text))).foldl
        (connect settings) r
      = { r with
          graph := Statement.addHops settings.attributes (settings.kind.getD .curved) r.graph
            source hops
          asked := r.asked ++ (joined (hopFates source hops)).map fun _ => settings.kind.isSome } := by
  induction hops generalizing r source with
  | nil => simp [Statement.addHops, hopFates]
  | cons hop hops ih =>
      refine (ih (connect settings r (source.text, hop.target.text)) hop.target).trans ?_
      simp [connect, Statement.addHops, hopFates, joined, Fate.ends?]

theorem drop_of_drop_append {before after : List Token} (h : ts.drop i = before ++ after) :
    ts.drop (i + before.length) = after := by
  rw [← List.drop_drop, h, List.drop_left]

/-- A chain of one word defines a node. -/
theorem add_node (r : Draft) (head : Word) (dangling : Option Link) (lists : List Bracket) :
    r.add (.chain head [] dangling lists)
      = (r.reportAll ((Statement.chain head [] dangling lists).findings
          r.graph.directed)).recognize.define (pairsOf lists) head.text := by
  have flags : r.asked ++ (joined (Statement.chain head [] dangling lists).fates).map
      (fun _ => (Statement.chain head [] dangling lists).edgeSettings.kind.isSome) = r.asked := by
    rw [joined_fates_chain]
    exact List.append_nil _
  exact Draft.ext rfl rfl flags rfl

/-- A longer chain joins its words. -/
theorem add_edges (r : Draft) (head : Word) (hop : Hop) (hops : List Hop) (dangling : Option Link)
    (lists : List Bracket) :
    r.add (.chain head (hop :: hops) dangling lists)
      = (r.reportAll ((Statement.chain head (hop :: hops) dangling lists).findings
          r.graph.directed)).recognize.join (pairsOf lists)
            (head.text :: (hop :: hops).map (·.target.text)) := by
  rw [join, List.tail_cons, join_eq, add, joined_fates_chain]
  rfl

/-- Reading a chain by token numbers does what the chain does, and ends behind its last token. -/
theorem chain_eq (h : ts.drop (i + 1) = rest) (r : Draft) (head : Word) :
    r.chain head ts i = (r.add (Statement.readChain head rest).1,
      i + (Statement.readChain head rest).1.tokens.length) := by
  have whole := Statement.tokens_readHops rest
  have hhops := hops_eq h r [head.text]
  rcases hread : readHops rest with ⟨found, dangling, behind⟩
  rw [hread] at whole hhops
  rw [← List.append_assoc] at whole
  -- the lists follow the dangling operator, where the hops ended
  have hlists := lists_eq (drop_of_drop_append (h.trans whole.symm))
    (r.reportAll (mismatches r.graph.directed found ++ (dangling.map .noTarget).toList)) []
  have hchain : Statement.readChain head rest
      = (.chain head found dangling (readLists behind).1, (readLists behind).2) := by
    rw [Statement.readChain, hread]
  have next : i + 1 + (found.flatMap Statement.hopTokens
      ++ (dangling.map Token.link).toList).length + (readLists behind).1.length
      = i + (Statement.chain head found dangling (readLists behind).1).tokens.length := by
    simp only [Statement.tokens, List.cons_append, List.length_cons, List.length_append,
      List.length_map]
    omega
  rw [hchain, chain, hhops]
  simp only [hlists]
  rw [next, ← reportAll_append, List.nil_append]
  -- without a hop the lists go to the node, otherwise to the edges
  cases found with
  | nil =>
      rw [add_node]
      rfl
  | cons hop found =>
      rw [add_edges, if_neg (by simp)]
      rfl

/-- The first token is an operator exactly if the tokens start with one. -/
theorem isLink_head? (rest : List Token) : isLink rest[0]? = startsLink rest := by
  cases rest with
  | nil => rfl
  | cons t rest => cases t <;> rfl

/-- Setting attributes changes the graph of a draft and nothing else. -/
theorem foldl_setAttribute (r : Draft) (pairs : List Pair) :
    pairs.foldl setAttribute r
      = { r with graph := pairs.foldl (fun g p => g.setAttribute p.key p.value) r.graph } := by
  induction pairs generalizing r with
  | nil => rfl
  | cons p pairs ih => exact ih (r.setAttribute p)

/-- Attribute lists behind a keyword are reported about, and those of the graph are set. -/
theorem add_defaults (r : Draft) (w : Word) (ofGraph : Bool) (lists : List Bracket) :
    r.add (.defaults w ofGraph lists)
      = (if ofGraph then (pairsOf lists).foldl setAttribute
          (r.reportAll (lists.flatMap Bracket.findings))
        else r.reportAll (lists.flatMap Bracket.findings)).recognize := by
  rw [foldl_setAttribute]
  cases ofGraph <;> exact Draft.ext rfl rfl (List.append_nil _) rfl

/-- A statement that is one token is reported, and nothing else is done about it. -/
theorem add_misplaced (r : Draft) (t : Token) (why : Misplacement) :
    r.add (.misplaced t why) = r.report (.misplaced t.place why) :=
  Draft.ext rfl rfl (List.append_nil _) rfl

/-- What the attribute lists behind a keyword are read as. -/
theorem defaults_eq (h : ts.drop (i + 1) = rest) (r : Draft) (w : Word) (ofGraph : Bool) :
    let s : Statement :=
      if (readLists rest).1 = [] then .misplaced (.word w) .keywordAlone
      else .defaults w ofGraph (readLists rest).1
    r.defaults w ofGraph ts i = (r.add s, i + s.tokens.length) := by
  have first : ts[i + 1]? = rest[0]? := getElem?_of_drop h 0
  rw [defaults, first]
  cases rest with
  | nil => exact Prod.ext (add_misplaced r (.word w) _).symm rfl
  | cons t rest =>
      cases t with
      | bracket b =>
          intro s
          have hs : s = .defaults w ofGraph (b :: (readLists rest).1) :=
            if_neg (List.cons_ne_nil _ _)
          rw [hs, add_defaults]
          simp only [List.getElem?_cons_zero, lists_eq h, readLists, List.nil_append,
            Statement.tokens, List.length_cons, List.length_map]
          rw [Nat.add_assoc, Nat.add_comm 1]
      | _ => exact Prod.ext (add_misplaced r (.word w) _).symm rfl

/-- A keyword with lists sets defaults, and without lists it is misplaced. -/
theorem readKeyword_lists (keyword : Keyword) (w : Word) (rest : List Token)
    (h : keyword = .node ∨ keyword = .edge ∨ keyword = .graph) :
    (Statement.readKeyword keyword w rest).1
      = if (readLists rest).1 = [] then .misplaced (.word w) .keywordAlone
        else .defaults w (keyword == .graph) (readLists rest).1 := by
  rcases h with rfl | rfl | rfl <;> rw [Statement.readKeyword] <;>
    rcases readLists rest with ⟨_ | ⟨b, lists⟩, after⟩ <;> rfl

/-- A keyword is taken in as the statement that it is read as. -/
theorem keyword_eq (h : ts.drop (i + 1) = rest) (r : Draft) (keyword : Keyword) (w : Word) :
    r.keyword keyword w ts i = (r.add (Statement.readKeyword keyword w rest).1,
      i + (Statement.readKeyword keyword w rest).1.tokens.length) := by
  have first : ts[i + 1]? = rest[0]? := getElem?_of_drop h 0
  have second : ts[i + 2]? = rest[1]? := getElem?_of_drop h 1
  -- a subgraph adds nothing to the draft, with or without a name
  have unchanged : ∀ name, r.add (.subgraph w name) = r := fun name =>
    Draft.ext rfl rfl (List.append_nil _) rfl
  cases keyword with
  | node =>
      rw [readKeyword_lists .node w rest (.inl rfl)]
      exact defaults_eq h r w false
  | edge =>
      rw [readKeyword_lists .edge w rest (.inr (.inl rfl))]
      exact defaults_eq h r w false
  | graph =>
      rw [readKeyword_lists .graph w rest (.inr (.inr rfl))]
      exact defaults_eq h r w true
  | subgraph =>
      cases rest with
      | nil =>
          rw [Draft.keyword, first]
          exact Prod.ext (unchanged none).symm rfl
      | cons t rest =>
          cases t with
          | word name =>
              rw [Draft.keyword, Statement.readKeyword, first, second, List.getElem?_cons_zero,
                List.getElem?_cons_succ, isLink_head?]
              cases startsLink rest with
              | true => exact Prod.ext (unchanged none).symm rfl
              | false => exact Prod.ext (unchanged (some name)).symm rfl
          | _ =>
              rw [Draft.keyword, first]
              exact Prod.ext (unchanged none).symm rfl
  | digraph => exact Prod.ext (add_misplaced r (.word w) _).symm rfl
  | strict => exact Prod.ext (add_misplaced r (.word w) _).symm rfl

/-- An assignment is taken in as the statement that it is read as. -/
theorem assignment_eq {equals : Excerpt} (h : ts.drop (i + 2) = rest) (r : Draft) (w : Word) :
    r.assignment w equals ts i = (r.add (Statement.readWord w (.equals equals :: rest)).1,
      i + (Statement.readWord w (.equals equals :: rest)).1.tokens.length) := by
  have first : ts[i + 2]? = rest[0]? := getElem?_of_drop h 0
  have flags : r.asked ++ [] = r.asked := List.append_nil _
  rw [assignment, first]
  cases rest with
  | nil => exact Prod.ext (Draft.ext rfl rfl flags.symm rfl) rfl
  | cons t rest => cases t <;> exact Prod.ext (Draft.ext rfl rfl flags.symm rfl) rfl

/-- A statement that starts with a word, which no `=` follows. -/
theorem word_eq_of_ne (h : ts.drop (i + 1) = rest) (hne : ∀ e after, rest ≠ .equals e :: after)
    (r : Draft) (w : Word) :
    r.word w ts i = (r.add (Statement.readWord w rest).1,
      i + (Statement.readWord w rest).1.tokens.length) := by
  have first : ts[i + 1]? = rest[0]? := getElem?_of_drop h 0
  rw [word, first, Statement.readWord]
  · split
    · rename_i e he
      obtain ⟨after, hafter⟩ := exists_cons he
      exact absurd hafter (hne e after)
    split
    · exact chain_eq h r w
    cases Keyword.ofWord? w.text with
    | some keyword => exact keyword_eq h r keyword w
    | none =>
        simp only [isLink_head?]
        split
        · exact Prod.ext (add_misplaced r (.word w) _).symm rfl
        · exact chain_eq h r w
  · exact fun e _ after => hne e _
  · exact fun e after => hne e after

/-- Reading the statement that starts with a word by token numbers. -/
theorem word_eq (h : ts.drop (i + 1) = rest) (r : Draft) (w : Word) :
    r.word w ts i = (r.add (Statement.readWord w rest).1,
      i + (Statement.readWord w rest).1.tokens.length) := by
  by_cases hequals : ∃ e after, rest = .equals e :: after
  · obtain ⟨e, after, rfl⟩ := hequals
    have first : ts[i + 1]? = some (.equals e) := getElem?_of_drop h 0
    rw [word, first]
    exact assignment_eq (drop_of_drop_cons h) r w
  · exact word_eq_of_ne h (fun e after hrest => hequals ⟨e, after, hrest⟩) r w

/-- **A pass reads the statements that tokens are read as.**  At the number of a token, it does what
    the statement does that starts there, and goes on behind the last token of the statement. -/
theorem statement_eq {token : Token} (h : ts.drop i = token :: rest) (r : Draft) :
    r.statement token ts i = (r.add (Statement.read token rest).1,
      i + (Statement.read token rest).1.tokens.length) := by
  have flags : r.asked ++ [] = r.asked := List.append_nil _
  cases token with
  | word w => exact word_eq (drop_of_drop_cons h) r w
  | link link => exact Prod.ext (Draft.ext rfl rfl flags.symm rfl) rfl
  | bracket b => exact Prod.ext (add_misplaced r (.bracket b) _).symm rfl
  | equals place => exact Prod.ext (add_misplaced r (.equals place) _).symm rfl
  | openString place => exact Prod.ext (Draft.ext rfl rfl flags.symm rfl) rfl
  | stray place => exact Prod.ext (add_misplaced r (.stray place) _).symm rfl

/-- A statement that is read takes at least one token. -/
theorem lt_statement (r : Draft) (hi : i < ts.length) : i < (r.statement ts[i] ts i).2 := by
  rw [statement_eq (List.drop_eq_getElem_cons hi)]
  exact Nat.lt_add_of_pos_right (List.length_pos_iff.2 (Statement.tokens_ne_nil _))

/-- Reads statements from token number `i` on until no token is left. -/
def run (r : Draft) (ts : List Token) (i : Nat) : Draft :=
  if h : i < ts.length then
    (r.statement ts[i] ts i).1.run ts (r.statement ts[i] ts i).2
  else r
  termination_by ts.length - i
  decreasing_by
    have := r.lt_statement h
    omega

/-- The tokens behind a statement are those that reading it leaves. -/
theorem drop_read {token : Token} (h : ts.drop i = token :: rest) :
    ts.drop (i + (Statement.read token rest).1.tokens.length) = (Statement.read token rest).2 :=
  drop_of_drop_append (h.trans (Statement.tokens_read token rest).symm)

/-- Reading all tokens does what their statements do, one after the other. -/
theorem run_eq (r : Draft) (ts : List Token) (i : Nat) :
    r.run ts i = (statements (ts.drop i)).foldl add r := by
  fun_induction run r ts i with
  | case1 r i h ih =>
      have first := List.drop_eq_getElem_cons h
      rw [ih, statement_eq first, drop_read first, first, statements, List.foldl_cons]
  | case2 r i h =>
      rw [List.drop_eq_nil_of_le (Nat.le_of_not_lt h), statements]
      rfl

end Draft

end DotLayout.Dot
