import DotLayout.Proofs.Dot.Calls
import DotLayout.Proofs.Dot.EdgeOperator
import DotLayout.Proofs.Dot.Rounds

/-! # Which words name nodes

    The tokens of a chunk are read as statements, and a word names a node if it is the first word
    of a chain or the target of one of its operators.  A `Mark` says of a token whether a statement
    starts with it and whether it names a node.

    * `ids_ofText` : the nodes of a description are the words that name one, each once, in order.
    * `names_iff_of_opens` : a word that starts a statement names a node if it leads a chain.
    * `names_iff_of_not_opens` : any other token names one if it is a word behind an operator, and
      the token in front of the operator names one, too.
    * `opens_iff_of_subgraph` : the word behind `subgraph` starts a statement of its own if and only
      if the keyword does not. -/

namespace DotLayout

namespace Dot

open Text

/-! ## The words of chains -/

/-- The words of a chain. -/
def Statement.nodeWords : Statement → List Word
  | .chain head hops _ _ => head :: hops.map Hop.target
  | _ => []

/-- The ids that words stand for. -/
def idsOf (words : List Word) : List String := words.map Word.text

section

variable {g : Graph} {attributes : EdgeAttributes} {kind : EdgeKind}

/-- The target of a new edge is a node. -/
theorem target_mem_ids_connect (g : Graph) (source target : String) (attributes : EdgeAttributes)
    (kind : EdgeKind) : target ∈ (g.connect source target attributes kind).ids :=
  (g.ends_mem_ids_pushEdge ⟨_, source, target, attributes, kind⟩).2

/-- A chain that goes on from a node creates nodes for the words that follow. -/
theorem nodes_addHops_of_mem {source : Word} (h : source.text ∈ g.ids) (hops : List Hop) :
    (Statement.addHops attributes kind g source hops).nodes
      = ((idsOf (hops.map Hop.target)).foldl Graph.ensureNode g).nodes := by
  induction hops generalizing g source with
  | nil => rfl
  | cons hop hops ih =>
      have hnodes : (g.connect source.text hop.target.text attributes kind).nodes
          = (g.ensureNode hop.target.text).nodes := by
        show ((g.ensureNode source.text).ensureNode hop.target.text).nodes = _
        rw [Graph.ensureNode_of_mem h]
      rw [Statement.addHops, ih (target_mem_ids_connect ..)]
      exact Graph.nodes_foldl_ensureNode_congr hnodes _

/-- A chain of several words creates nodes for its words, and changes no node. -/
theorem nodes_addHops (g : Graph) (source : Word) (hop : Hop) (hops : List Hop) :
    (Statement.addHops attributes kind g source (hop :: hops)).nodes
      = ((idsOf (source :: (hop :: hops).map Hop.target)).foldl Graph.ensureNode g).nodes := by
  have hnodes : (g.connect source.text hop.target.text attributes kind).nodes
      = ((g.ensureNode source.text).ensureNode hop.target.text).nodes := rfl
  rw [Statement.addHops, nodes_addHops_of_mem (target_mem_ids_connect ..)]
  exact Graph.nodes_foldl_ensureNode_congr hnodes _

/-- A statement adds the ids of its chain. -/
theorem ids_addTo (kind : EdgeKind) (g : Graph) (s : Statement) :
    (s.addTo kind g).ids = ((idsOf s.nodeWords).foldl Graph.ensureNode g).ids := by
  cases s with
  | chain head hops dangling lists =>
      cases hops with
      | nil => exact Graph.ids_redefineNode (g.ensureNode head.text) head.text _ _
      | cons hop hops => exact congrArg (List.map Node.id) (nodes_addHops g head hop hops)
  | _ => rfl

/-- Statements add the nodes that they name, in order, and no other ones. -/
theorem ids_foldl_addTo (kind : EdgeKind) (g : Graph) (ss : List Statement) :
    (ss.foldl (Statement.addTo kind) g).ids
      = ((idsOf (ss.flatMap Statement.nodeWords)).foldl Graph.ensureNode g).ids := by
  induction ss generalizing g with
  | nil => rfl
  | cons s ss ih =>
      rw [List.foldl_cons, ih, Graph.ids_foldl_ensureNode_congr (ids_addTo kind g s),
        ← List.foldl_append, List.flatMap_cons]
      exact congrArg (fun names => (List.foldl Graph.ensureNode g names).ids) List.map_append.symm

end

/-! ## Marks -/

/-- A token and what it does in the statement that it is read in. -/
structure Mark where
  token : Token
  /-- Whether the statement starts with it. -/
  opens : Bool
  /-- Whether it names a node. -/
  names : Bool
  deriving Repr, DecidableEq

namespace Mark

/-- A token in the middle of a statement that names no node. -/
def mute (t : Token) : Mark := ⟨t, false, false⟩

/-- The word that names a node. -/
def name? : Mark → Option Word
  | ⟨.word w, _, true⟩ => some w
  | _ => none

end Mark

/-- The marks of a chain that goes on from a word, which may start the statement, and of the tokens
    behind its hops. -/
def chainMarks (opens : Bool) (head : Word) (behind : List Token) : List Hop → List Mark
  | [] => ⟨.word head, opens, true⟩ :: behind.map .mute
  | hop :: hops =>
    ⟨.word head, opens, true⟩ :: .mute (.link hop.link) :: chainMarks false hop.target behind hops

/-- The marks of tokens that are a statement without nodes. -/
def plainMarks : List Token → List Mark
  | [] => []
  | t :: ts => ⟨t, true, false⟩ :: ts.map .mute

/-- What stands behind the hops of a chain. -/
def tailTokens (dangling : Option Link) (lists : List Bracket) : List Token :=
  (dangling.map Token.link).toList ++ lists.map .bracket

/-- The tokens of a statement, marked with what they do. -/
def Statement.marks : Statement → List Mark
  | .chain head hops dangling lists => chainMarks true head (tailTokens dangling lists) hops
  | s => plainMarks s.tokens

/-- The marks of the tokens of a chunk. -/
def marks (ts : List Token) : List Mark := (statements ts).flatMap Statement.marks

/-- A statement starts at a token number. -/
def Opens (ts : List Token) (k : Nat) : Prop := ∃ m, (marks ts)[k]? = some m ∧ m.opens = true

/-- The token with a number names a node. -/
def Names (ts : List Token) (k : Nat) : Prop := ∃ m, (marks ts)[k]? = some m ∧ m.names = true

instance (ts : List Token) (k : Nat) : Decidable (Opens ts k) :=
  decidable_of_iff _ (Option.any_eq_true Mark.opens ((marks ts)[k]?))

instance (ts : List Token) (k : Nat) : Decidable (Names ts k) :=
  decidable_of_iff _ (Option.any_eq_true Mark.names ((marks ts)[k]?))

section

variable {opens : Bool} {head : Word} {behind : List Token} {hops : List Hop} {n : Nat} {m : Mark}

theorem map_mute (ts : List Token) : (ts.map Mark.mute).map Mark.token = ts := by
  rw [List.map_map]
  exact List.map_id' ts

/-- The marks of a chain are on its tokens. -/
theorem map_chainMarks (opens : Bool) (head : Word) (behind : List Token) (hops : List Hop) :
    (chainMarks opens head behind hops).map Mark.token
      = .word head :: hops.flatMap Statement.hopTokens ++ behind := by
  induction hops generalizing opens head with
  | nil => exact congrArg (List.cons _) (map_mute behind)
  | cons hop hops ih =>
      rw [chainMarks, List.map_cons, List.map_cons, ih, List.flatMap_cons]
      rfl

/-- A statement is a chain or has no nodes. -/
theorem marks_cases (s : Statement) :
    (∃ head hops dangling lists, s = .chain head hops dangling lists) ∨
      s.marks = plainMarks s.tokens ∧ s.nodeWords = [] := by
  cases s with
  | chain head hops dangling lists => exact .inl ⟨head, hops, dangling, lists, rfl⟩
  | _ => exact .inr ⟨rfl, rfl⟩

/-- The marks of a statement are on its tokens. -/
theorem map_marks_statement (s : Statement) : s.marks.map Mark.token = s.tokens := by
  have plain : ∀ ts, (plainMarks ts).map Mark.token = ts := by
    intro ts
    cases ts with
    | nil => rfl
    | cons t ts => exact congrArg (List.cons t) (map_mute ts)
  rcases marks_cases s with ⟨head, hops, dangling, lists, rfl⟩ | ⟨hmarks, -⟩
  · refine (map_chainMarks _ _ _ _).trans ?_
    rw [tailTokens, ← List.append_assoc]
    rfl
  · rw [hmarks, plain]

/-- Every token has a mark. -/
theorem map_marks (ts : List Token) : (marks ts).map Mark.token = ts := by
  rw [marks, List.map_flatMap, show (fun s => (Statement.marks s).map Mark.token) = Statement.tokens
    from funext map_marks_statement, tokens_statements]

/-- Muted tokens name no node. -/
theorem filterMap_mute (ts : List Token) : (ts.map Mark.mute).filterMap Mark.name? = [] := by
  rw [List.filterMap_map, List.filterMap_eq_nil_iff]
  intro t _
  cases t <;> rfl

/-- The words that name nodes are those of the chains. -/
theorem filterMap_marks (s : Statement) : s.marks.filterMap Mark.name? = s.nodeWords := by
  have chain : ∀ opens head behind hops, (chainMarks opens head behind hops).filterMap Mark.name?
      = head :: hops.map Hop.target := by
    intro opens head behind hops
    induction hops generalizing opens head with
    | nil => exact congrArg (List.cons head) (filterMap_mute behind)
    | cons hop hops ih => exact congrArg (List.cons head) (ih false hop.target)
  have plain : ∀ ts, (plainMarks ts).filterMap Mark.name? = [] := by
    intro ts
    cases ts with
    | nil => rfl
    | cons t ts =>
        refine Eq.trans ?_ (filterMap_mute ts)
        cases t <;> rfl
  rcases marks_cases s with ⟨head, hops, dangling, lists, rfl⟩ | ⟨hmarks, hwords⟩
  · exact chain _ _ _ _
  · rw [hmarks, hwords, plain]

/-- The ids of the graph of a description are those of its chains, each once. -/
theorem ids_graph (d : Document) :
    d.graph.ids = (idsOf (d.statements.flatMap Statement.nodeWords)).eraseDups := by
  rw [Document.graph, ids_foldl_addTo]
  exact Graph.ids_foldl_ensureNode_of_nil rfl _

/-- **What becomes a node.**  The ids of the graph of a text are what the words stand for that name
    a node, each once, in the order of the text. -/
theorem ids_ofText (text : List Char) :
    (Document.ofText text).graph.ids
      = (idsOf (((Document.ofText text).tokens.flatMap marks).filterMap Mark.name?)).eraseDups := by
  have words : ((Document.ofText text).tokens.flatMap marks).filterMap Mark.name?
      = (Document.ofText text).statements.flatMap Statement.nodeWords := by
    rw [statements_ofText, List.flatMap_assoc, List.filterMap_flatMap]
    refine congrArg (List.flatMap · _) (funext fun ts => ?_)
    rw [marks, List.filterMap_flatMap, funext filterMap_marks]
  rw [words, ids_graph]

/-- The ids of a graph that is read are the names of its marked tokens, each of them once. -/
theorem ids_of_parse {source : String} {p : Parsed} (h : parse source = .ok p) :
    p.graph.ids = (idsOf (((Document.ofText (stripComments source.toList)).tokens.flatMap
      marks).filterMap Mark.name?)).eraseDups := by
  rw [eq_of_parse h]
  exact ids_ofText _

/-! ## Marks by their numbers -/

/-- A muted token opens no statement and names no node. -/
theorem getElem?_mute {ts : List Token} (h : (ts.map Mark.mute)[n]? = some m) :
    m.opens = false ∧ m.names = false := by
  obtain ⟨t, -, rfl⟩ := List.getElem?_map.symm.trans h |> Option.map_eq_some_iff.1
  exact ⟨rfl, rfl⟩

/-- A muted token names no node. -/
theorem not_names_of_mute {ts : List Token} (h : (ts.map Mark.mute)[n]? = some m) :
    m.names ≠ true := by
  rw [(getElem?_mute h).2]
  exact Bool.false_ne_true

/-- The first token of a chain opens it, and no other one. -/
theorem opens_chainMarks (h : (chainMarks opens head behind hops)[n]? = some m) :
    m.opens = true ↔ n = 0 ∧ opens = true := by
  induction hops generalizing opens head n with
  | nil =>
      cases n with
      | zero =>
          obtain rfl := Option.some.inj h
          simp
      | succ n => simp [(getElem?_mute h).1]
  | cons hop hops ih =>
      match n with
      | 0 =>
          obtain rfl := Option.some.inj h
          simp
      | 1 =>
          obtain rfl := Option.some.inj h
          simp [Mark.mute]
      | n + 2 => simpa using ih h

/-- Of a plain statement, the first token opens it and none names a node. -/
theorem marks_plain {ts : List Token} (h : (plainMarks ts)[n]? = some m) :
    (m.opens = true ↔ n = 0) ∧ m.names = false := by
  cases ts with
  | nil => exact nomatch h
  | cons t ts =>
      cases n with
      | zero =>
          obtain rfl := Option.some.inj h
          simp
      | succ n =>
          obtain ⟨hopens, hnames⟩ := getElem?_mute h
          simp [hopens, hnames]

/-- A statement starts with its first token, and nowhere else. -/
theorem opens_marks {s : Statement} (h : s.marks[n]? = some m) : m.opens = true ↔ n = 0 := by
  rcases marks_cases s with ⟨head, hops, dangling, lists, rfl⟩ | ⟨hmarks, -⟩
  · rw [opens_chainMarks h]
    simp
  · rw [hmarks] at h
    exact (marks_plain h).1

/-- What names a node in a chain is a word. -/
theorem word_of_chainMarks (h : (chainMarks opens head behind hops)[n]? = some m)
    (hnames : m.names = true) : ∃ w, m.token = .word w := by
  induction hops generalizing opens head n with
  | nil =>
      cases n with
      | zero =>
          obtain rfl := Option.some.inj h
          exact ⟨head, rfl⟩
      | succ n => exact absurd hnames (not_names_of_mute h)
  | cons hop hops ih =>
      match n with
      | 0 =>
          obtain rfl := Option.some.inj h
          exact ⟨head, rfl⟩
      | 1 =>
          obtain rfl := Option.some.inj h
          exact nomatch hnames
      | n + 2 => exact ih h

/-- A token behind the first one of a chain that names a node is the target of an operator, and the
    word in front of the operator names one, too. -/
theorem exists_source (h : (chainMarks opens head behind hops)[n]? = some m)
    (hnames : m.names = true) (hn : n ≠ 0) :
    ∃ j l source, n = j + 2 ∧ (chainMarks opens head behind hops)[j + 1]? = some (.mute (.link l)) ∧
      (chainMarks opens head behind hops)[j]? = some source ∧ source.names = true := by
  induction hops generalizing opens head n with
  | nil =>
      obtain ⟨n, rfl⟩ := Nat.exists_eq_succ_of_ne_zero hn
      exact absurd hnames (not_names_of_mute h)
  | cons hop hops ih =>
      match n with
      | 1 =>
          obtain rfl := Option.some.inj h
          exact nomatch hnames
      | 2 => exact ⟨0, hop.link, _, rfl, rfl, rfl, rfl⟩
      | n + 3 =>
          obtain ⟨j, l, source, hj, hlink, hsource⟩ := ih h n.succ_ne_zero
          exact ⟨j + 2, l, source, congrArg (· + 2) hj, hlink, hsource⟩

/-- Behind a word of a chain, an operator with a word behind it belongs to the chain. -/
theorem target_of_link {rest : List Token} {l : Link} {w : Word}
    (h : (chainMarks opens head behind (readHops rest).1)[n]? = some m) (hnames : m.names = true)
    (hlink : (.word head :: rest)[n + 1]? = some (.link l))
    (hword : (.word head :: rest)[n + 2]? = some (.word w)) :
    (chainMarks opens head behind (readHops rest).1)[n + 2]? = some ⟨.word w, false, true⟩ := by
  fun_induction readHops rest generalizing opens head n with
  | case1 link target rest ih =>
      cases n with
      | zero =>
          obtain rfl : target = w := Token.word.inj (Option.some.inj hword)
          cases (readHops rest).1 <;> rfl
      | succ n =>
          cases n with
          | zero =>
              obtain rfl := Option.some.inj h
              cases hnames
          | succ n => exact ih h hlink hword
  | case2 link rest hrest =>
      cases n with
      | zero =>
          have first : rest[0]? = some (.word w) := hword
          obtain ⟨after, rfl⟩ := Draft.exists_cons first
          exact absurd rfl (hrest w after)
      | succ n => exact absurd hnames (not_names_of_mute h)
  | case3 rest _ hrest =>
      cases n with
      | zero =>
          have first : rest[0]? = some (.link l) := hlink
          obtain ⟨after, rfl⟩ := Draft.exists_cons first
          exact absurd rfl (hrest l after)
      | succ n => exact absurd hnames (not_names_of_mute h)

end

/-! ## Statements among tokens -/

section

variable {ts : List Token} {token : Token} {rest : List Token} {i k n : Nat} {w : Word}

/-- The marks of tokens are those of the first statement, and then those of the rest. -/
theorem marks_cons (token : Token) (rest : List Token) :
    marks (token :: rest)
      = (Statement.read token rest).1.marks ++ marks (Statement.read token rest).2 := by
  rw [marks, statements, List.flatMap_cons]
  rfl

/-- Every token of a statement has one mark. -/
theorem length_marks (s : Statement) : s.marks.length = s.tokens.length := by
  rw [← map_marks_statement s, List.length_map]

/-- Every token stands in a statement, behind so many tokens of it. -/
theorem exists_statement (hk : k < ts.length) :
    ∃ i n token rest, k = i + n ∧ ts.drop i = token :: rest ∧
      (marks ts).drop i = marks (token :: rest) ∧
      n < (Statement.read token rest).1.tokens.length := by
  fun_induction statements ts generalizing k with
  | case1 => exact absurd hk (Nat.not_lt_zero k)
  | case2 token rest ih =>
      have htokens := Statement.tokens_read token rest
      have hlength := congrArg List.length htokens
      rw [List.length_append] at hlength
      by_cases hfirst : k < (Statement.read token rest).1.tokens.length
      · exact ⟨0, k, token, rest, (Nat.zero_add k).symm, rfl, rfl, hfirst⟩
      · -- behind the first statement the numbers are those of the rest
        obtain ⟨i, n, token', rest', hin, hdrop, hmarks, hn⟩ :=
          ih (k := k - (Statement.read token rest).1.tokens.length) (by omega)
        refine ⟨(Statement.read token rest).1.tokens.length + i, n, token', rest', by omega, ?_, ?_,
          hn⟩
        · rw [← htokens, ← List.drop_drop, List.drop_left, hdrop]
        · rw [marks_cons, ← List.drop_drop, List.drop_left' (length_marks _), hmarks]

/-- Whether a token opens a statement does not depend on the statements before it. -/
theorem opens_of_drop {ts' : List Token} (h : (marks ts).drop i = marks ts') (n : Nat) :
    Opens ts (i + n) ↔ Opens ts' n := by
  rw [Opens, Opens, ← h, List.getElem?_drop]

/-- Whether a token names a node does not depend on the statements before it. -/
theorem names_of_drop {ts' : List Token} (h : (marks ts).drop i = marks ts') (n : Nat) :
    Names ts (i + n) ↔ Names ts' n := by
  rw [Names, Names, ← h, List.getElem?_drop]

/-- The marks of the first statement come first. -/
theorem getElem?_marks_cons (hn : n < (Statement.read token rest).1.tokens.length) :
    (marks (token :: rest))[n]? = (Statement.read token rest).1.marks[n]? := by
  rw [marks_cons, List.getElem?_append_left]
  rwa [length_marks]

/-- Of the tokens of the first statement, only the first one opens a statement. -/
theorem opens_cons (hn : n < (Statement.read token rest).1.tokens.length) :
    Opens (token :: rest) n ↔ n = 0 := by
  have hlt : n < (Statement.read token rest).1.marks.length := by
    rwa [length_marks]
  rw [Opens, getElem?_marks_cons hn, List.getElem?_eq_getElem hlt]
  simp only [Option.some.injEq, exists_eq_left', opens_marks (List.getElem?_eq_getElem hlt)]

/-- A token of the first statement names a node if its mark says so. -/
theorem names_cons (hn : n < (Statement.read token rest).1.tokens.length) :
    Names (token :: rest) n ↔
      ∃ m, (Statement.read token rest).1.marks[n]? = some m ∧ m.names = true := by
  rw [Names, getElem?_marks_cons hn]

/-- Only a token of a chain names a node, and the chain is read as far as it goes. -/
theorem read_of_names {m : Mark} (h : (Statement.read token rest).1.marks[n]? = some m)
    (hnames : m.names = true) :
    ∃ head dangling lists, token = .word head ∧
      (Statement.read token rest).1 = .chain head (readHops rest).1 dangling lists := by
  rcases marks_cases (Statement.read token rest).1 with ⟨head, hops, dangling, lists, hchain⟩ |
    ⟨hplain, -⟩
  · refine ⟨head, dangling, lists, ?_⟩
    cases token with
    | word v =>
        revert hchain
        simp only [Statement.read, Statement.readWord, Statement.readChain, Statement.readKeyword]
        grind
    | _ => cases hchain
  · rw [hplain] at h
    exact absurd ((marks_plain h).2.symm.trans hnames) Bool.false_ne_true

theorem getElem?_token (ts : List Token) (k : Nat) : ts[k]? = ((marks ts)[k]?).map Mark.token := by
  rw [← List.getElem?_map, map_marks]

theorem lt_length_of_getElem? (h : ts[k]? = some token) : k < ts.length :=
  (List.getElem?_eq_some_iff.1 h).1

/-- A mark that is there has a number below the count of tokens. -/
theorem lt_length_of_mark {m : Mark} (h : (marks ts)[k]? = some m) : k < ts.length := by
  have htoken := getElem?_token ts k
  rw [h] at htoken
  exact lt_length_of_getElem? htoken

/-- What names a node stands in a chain, which is read as far as it goes. -/
theorem exists_chain (h : Names ts k) :
    ∃ i n head rest behind, k = i + n ∧ ts.drop i = .word head :: rest ∧
      chainMarks true head behind (readHops rest).1 <+: (marks ts).drop i ∧
      ∃ m, (chainMarks true head behind (readHops rest).1)[n]? = some m ∧ m.names = true := by
  obtain ⟨m, hmark, -⟩ := id h
  obtain ⟨i, n, token, rest, rfl, hdrop, hmarks, hn⟩ := exists_statement (lt_length_of_mark hmark)
  obtain ⟨m, hm, hnames⟩ := (names_cons hn).1 ((names_of_drop hmarks n).1 h)
  obtain ⟨head, dangling, lists, rfl, hread⟩ := read_of_names hm hnames
  rw [hread] at hm
  refine ⟨i, n, head, rest, tailTokens dangling lists, rfl, hdrop, ?_, m, hm, hnames⟩
  rw [hmarks, marks_cons, hread]
  exact List.prefix_append _ _

/-- What stands behind a place among the marks can be looked up from there. -/
theorem getElem?_of_prefix {front : List Mark} {m : Mark} (h : front <+: (marks ts).drop i)
    (hm : front[n]? = some m) : (marks ts)[i + n]? = some m := by
  obtain ⟨behind, hbehind⟩ := h
  have hlt : n < front.length := (List.getElem?_eq_some_iff.1 hm).1
  rw [← List.getElem?_drop, ← hbehind, List.getElem?_append_left hlt, hm]

/-- Only words name nodes. -/
theorem exists_word_of_names (h : Names ts k) : ∃ w, ts[k]? = some (.word w) := by
  obtain ⟨i, n, head, rest, behind, rfl, -, hchain, m, hm, hnames⟩ := exists_chain h
  obtain ⟨w, hw⟩ := word_of_chainMarks hm hnames
  refine ⟨w, ?_⟩
  rw [getElem?_token, getElem?_of_prefix hchain hm, Option.map_some, hw]

/-- Behind a token that names a node, an operator with a word behind it makes the word name one,
    too, in the same statement. -/
theorem marks_target {l : Link} (h : Names ts k) (hlink : ts[k + 1]? = some (.link l))
    (hword : ts[k + 2]? = some (.word w)) : (marks ts)[k + 2]? = some ⟨.word w, false, true⟩ := by
  obtain ⟨i, n, head, rest, behind, rfl, hdrop, hchain, m, hm, hnames⟩ := exists_chain h
  have htokens := Draft.getElem?_of_drop hdrop
  have htarget := target_of_link hm hnames ((htokens (n + 1)).symm.trans hlink)
    ((htokens (n + 2)).symm.trans hword)
  rw [Nat.add_assoc, getElem?_of_prefix hchain htarget]

/-- A token in the middle of a statement names a node if and only if it is a word, stands behind an
    operator, and the token in front of the operator names one. -/
theorem names_iff_of_not_opens (hopens : ¬ Opens ts k) :
    Names ts k ↔ ∃ j l w, k = j + 2 ∧ ts[j + 1]? = some (.link l) ∧ ts[k]? = some (.word w) ∧
      Names ts j := by
  constructor
  · intro h
    obtain ⟨w, hw⟩ := exists_word_of_names h
    obtain ⟨i, n, head, rest, behind, rfl, -, hchain, m, hm, hnames⟩ := exists_chain h
    have hn : n ≠ 0 := by
      intro hzero
      exact hopens ⟨m, getElem?_of_prefix hchain hm, (opens_chainMarks hm).2 ⟨hzero, rfl⟩⟩
    obtain ⟨j, l, source, rfl, hlink, hsource, hnamed⟩ := exists_source hm hnames hn
    refine ⟨i + j, l, w, rfl, ?_, hw, source, getElem?_of_prefix hchain hsource, hnamed⟩
    rw [getElem?_token, Nat.add_assoc, getElem?_of_prefix hchain hlink]
    rfl
  · rintro ⟨j, l, w, rfl, hlink, hword, hnames⟩
    exact ⟨_, marks_target hnames hlink hword, rfl⟩

/-! ## Words that start statements -/

/-- Whether a word that starts a statement leads a chain, given the token behind it: it is no key,
    and if it has no quotes, it is no keyword, and no name of a graph attribute that stands
    alone. -/
def Word.LeadsChain (w : Word) (next : Option Token) : Prop :=
  (∀ place, next ≠ some (.equals place)) ∧
    (w.quoted = true ∨ Keyword.ofWord? w.text = none ∧
      (isGraphSetting w.text = true → ∃ l, next = some (.link l)))

/-- A statement of a keyword names no node. -/
theorem nodeWords_readKeyword (keyword : Keyword) (w : Word) (rest : List Token) :
    (Statement.readKeyword keyword w rest).1.nodeWords = [] := by
  have lists : keyword = .node ∨ keyword = .edge ∨ keyword = .graph →
      (Statement.readKeyword keyword w rest).1.nodeWords = [] := by
    intro h
    rw [Draft.readKeyword_lists keyword w rest h]
    split <;> rfl
  cases keyword with
  | node => exact lists (.inl rfl)
  | edge => exact lists (.inr (.inl rfl))
  | graph => exact lists (.inr (.inr rfl))
  | subgraph =>
      unfold Statement.readKeyword
      grind [Statement.nodeWords]
  | digraph => rfl
  | strict => rfl

/-- Tokens start with an operator exactly if the first one is an operator. -/
theorem startsLink_iff : startsLink rest = true ↔ ∃ l, rest[0]? = some (.link l) := by
  cases rest with
  | nil => simp [startsLink]
  | cons t rest => cases t <;> simp [startsLink]

/-- A word names a node exactly if it leads a chain. -/
theorem nodeWords_readWord (w : Word) (rest : List Token) :
    (Statement.readWord w rest).1.nodeWords ≠ [] ↔ w.LeadsChain rest[0]? := by
  by_cases hequals : ∃ place after, rest = .equals place :: after
  · obtain ⟨place, after, rfl⟩ := hequals
    have hwords : (Statement.readWord w (.equals place :: after)).1.nodeWords = [] := by
      rw [Statement.readWord.eq_def]
      grind [Statement.nodeWords]
    simp [hwords, Word.LeadsChain]
  · have hne : ∀ place after, rest ≠ .equals place :: after := by
      intro place after h
      exact hequals ⟨place, after, h⟩
    have hfirst : ∀ place, rest[0]? ≠ some (.equals place) := by
      intro place h
      obtain ⟨after, hrest⟩ := Draft.exists_cons h
      exact hne place after hrest
    have hchain : (Statement.readChain w rest).1.nodeWords ≠ [] := List.cons_ne_nil _ _
    rw [Statement.readWord_of_ne hne, Word.LeadsChain]
    by_cases hquoted : w.quoted = true
    · simp [hquoted, hfirst, hchain]
    rw [if_neg hquoted]
    -- a keyword names no node, and the name of a graph attribute only in front of an operator
    cases hword : Keyword.ofWord? w.text with
    | some keyword => simp [hquoted, nodeWords_readKeyword]
    | none =>
        have halone : (Statement.misplaced (.word w) .settingAlone).nodeWords = [] := rfl
        simp only [← startsLink_iff]
        cases isGraphSetting w.text <;> cases startsLink rest <;>
          simp [hquoted, hfirst, hchain, halone]

/-- The first token of a statement names a node if the statement has nodes. -/
theorem names_first (s : Statement) :
    (∃ m, s.marks[0]? = some m ∧ m.names = true) ↔ s.nodeWords ≠ [] := by
  rcases marks_cases s with ⟨head, hops, dangling, lists, rfl⟩ | ⟨hmarks, hwords⟩
  · refine iff_of_true ⟨⟨.word head, true, true⟩, ?_, rfl⟩ (List.cons_ne_nil _ _)
    cases hops <;> rfl
  · rw [hmarks, hwords]
    refine iff_of_false ?_ (fun h => h rfl)
    rintro ⟨m, hm, hnames⟩
    exact absurd ((marks_plain hm).2.symm.trans hnames) Bool.false_ne_true

/-- What is read of the tokens from a number on, if a statement starts there. -/
theorem read_of_opens (hopens : Opens ts k) :
    ∃ token rest, ts.drop k = token :: rest ∧ (marks ts).drop k = marks (token :: rest) := by
  obtain ⟨m, hmark, -⟩ := id hopens
  obtain ⟨i, n, token, rest, rfl, hdrop, hmarks, hn⟩ := exists_statement (lt_length_of_mark hmark)
  obtain rfl := (opens_cons hn).1 ((opens_of_drop hmarks n).1 hopens)
  exact ⟨token, rest, hdrop, hmarks⟩

/-- The first token starts a statement. -/
theorem opens_zero (token : Token) (rest : List Token) : Opens (token :: rest) 0 := by
  have hfirst : 0 < (Statement.read token rest).1.tokens.length :=
    List.length_pos_iff.2 (Statement.tokens_ne_nil _)
  exact (opens_cons hfirst).2 rfl

/-- A word that starts a statement names a node if and only if it leads a chain. -/
theorem names_iff_of_opens (hopens : Opens ts k) (hw : ts[k]? = some (.word w)) :
    Names ts k ↔ w.LeadsChain ts[k + 1]? := by
  obtain ⟨token, rest, hdrop, hmarks⟩ := read_of_opens hopens
  have htokens := Draft.getElem?_of_drop hdrop
  obtain rfl : token = .word w := Option.some.inj ((htokens 0).symm.trans hw)
  have hfirst : 0 < (Statement.read (.word w) rest).1.tokens.length :=
    List.length_pos_iff.2 (Statement.tokens_ne_nil _)
  rw [← Nat.add_zero k, names_of_drop hmarks 0, names_cons hfirst, names_first]
  exact (nodeWords_readWord w rest).trans (by rw [htokens 1]; rfl)

/-! ## Words in a row -/

theorem getElem?_read (hn : n < (Statement.read token rest).1.tokens.length) :
    (Statement.read token rest).1.tokens[n]? = (token :: rest)[n]? := by
  rw [← List.getElem?_append_left hn, Statement.tokens_read]

/-- No two words in a row stand in a chain. -/
theorem not_words_of_chain {head v : Word} {hops : List Hop} {tail : List Token}
    (htail : ∀ u, Token.word u ∉ tail)
    (hfirst : (Token.word head :: hops.flatMap Statement.hopTokens ++ tail)[n]?
      = some (.word v)) :
    (Token.word head :: hops.flatMap Statement.hopTokens ++ tail)[n + 1]? ≠ some (.word w) := by
  induction hops generalizing head n with
  | nil => exact fun hsecond => htail w (List.mem_of_getElem? hsecond)
  | cons hop hops ih =>
      match n with
      | 0 => exact fun h => nomatch h
      | 1 => exact nomatch hfirst
      | n + 2 => exact ih hfirst

/-- No attribute list is a word. -/
theorem not_word_of_brackets {lists : List Bracket} :
    (lists.map Token.bracket)[n]? ≠ some (.word w) := by
  intro h
  have hmem := List.mem_of_getElem? h
  simp at hmem

/-- Two words in a row in one statement are its first two tokens. -/
theorem eq_zero_of_words {s : Statement} {v : Word} (hfirst : s.tokens[n]? = some (.word v))
    (hsecond : s.tokens[n + 1]? = some (.word w)) : n = 0 := by
  cases s with
  | chain head hops dangling lists =>
      rw [Statement.tokens, List.append_assoc] at hfirst hsecond
      -- no two words of a chain stand side by side
      have htail : ∀ u, Token.word u ∉ tailTokens dangling lists := by
        intro u h
        simp [tailTokens] at h
      exact absurd hsecond (not_words_of_chain htail hfirst)
  | assignment key place value =>
      cases n with
      | zero => rfl
      | succ n =>
          cases n with
          | zero => cases hfirst
          | succ n => cases hsecond
  | subgraph keyword name =>
      cases n with
      | zero => rfl
      | succ n => cases name <;> cases hsecond
  | defaults keyword ofGraph lists => exact absurd hsecond not_word_of_brackets
  | keyOnly key place =>
      cases n with
      | zero => rfl
      | succ n => cases hsecond
  | _ => cases hsecond

/-- The word behind `subgraph`, if no operator follows it, starts a statement of its own if and only
    if the keyword does not start one. -/
theorem opens_iff_of_subgraph {name : Word} (hw : ts[k]? = some (.word w))
    (hquoted : w.quoted = false) (hkeyword : Keyword.ofWord? w.text = some .subgraph)
    (hname : ts[k + 1]? = some (.word name)) (hlink : ∀ l, ts[k + 2]? ≠ some (.link l)) :
    Opens ts (k + 1) ↔ ¬ Opens ts k := by
  constructor
  · intro hsecond hfirst
    obtain ⟨token, rest, hdrop, hmarks⟩ := read_of_opens hfirst
    have htokens := Draft.getElem?_of_drop hdrop
    obtain rfl : token = .word w := Option.some.inj ((htokens 0).symm.trans hw)
    obtain ⟨after, rfl⟩ := Draft.exists_cons ((htokens 1).symm.trans hname)
    have hafter : startsLink after = false := by
      rw [Bool.eq_false_iff, ne_eq, startsLink_iff]
      rintro ⟨l, hl⟩
      exact hlink l ((htokens 2).trans hl)
    have hread : (Statement.read (.word w) (.word name :: after)).1 = .subgraph w (some name) := by
      simp [Statement.read, Statement.readWord, Statement.readKeyword, hquoted, hkeyword, hafter]
    have hlength : 1 < (Statement.read (.word w) (.word name :: after)).1.tokens.length := by
      rw [hread]
      exact Nat.one_lt_two
    exact absurd ((opens_cons hlength).1 ((opens_of_drop hmarks 1).1 hsecond)) Nat.one_ne_zero
  · intro hfirst
    obtain ⟨i, n, token, rest, hin, hdrop, hmarks, hn⟩ :=
      exists_statement (lt_length_of_getElem? hname)
    rw [hin, opens_of_drop hmarks, opens_cons hn]
    cases n with
    | zero => rfl
    | succ n =>
        -- otherwise both words stand in one statement, which the keyword does not start
        obtain rfl : k = i + n := Nat.succ.inj hin
        have htokens := Draft.getElem?_of_drop hdrop
        have hwords := eq_zero_of_words
          ((getElem?_read (Nat.lt_of_succ_lt hn)).trans ((htokens n).symm.trans hw))
          ((getElem?_read hn).trans ((htokens (n + 1)).symm.trans hname))
        rw [opens_of_drop hmarks, opens_cons (Nat.lt_of_succ_lt hn)] at hfirst
        exact absurd hwords hfirst

end

end Dot

end DotLayout
