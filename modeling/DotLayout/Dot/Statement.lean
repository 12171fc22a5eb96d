import DotLayout.Dot.AttributeList
import DotLayout.Dot.Finding
import DotLayout.Graph.Basic

/-! # Statements

    The tokens of a chunk are read as statements one after the other, each as long as possible,
    so that a chunk may hold several of them.  A token that starts no statement is one on its own,
    which says what is wrong with it.

    * `Statement.read` takes the first statement off a list of tokens, `statements` takes all;
      `Statement.tokens` gives the tokens back, so no token is lost (`tokens_read`).
    * `Statement.findings` says what is to be reported about a statement.
    * `Statement.settings` and `Statement.addTo` say what it adds to a graph. -/

namespace DotLayout.Dot

open Text

/-- The words that structure a description.  Only an unquoted word is a keyword. -/
inductive Keyword where
  | node
  | edge
  | graph
  | digraph
  | subgraph
  | strict
  deriving Repr, DecidableEq

/-- The keyword that a word is, in any case of letters. -/
def Keyword.ofWord? (text : String) : Option Keyword :=
  match asciiLower text with
  | "node" => some .node
  | "edge" => some .edge
  | "graph" => some .graph
  | "digraph" => some .digraph
  | "subgraph" => some .subgraph
  | "strict" => some .strict
  | _ => none

/-- The graph attributes whose bare names are never nodes. -/
def graphSettings : List String :=
  ["layout", "ranksep", "concentrate", "overlap", "splines", "nodesep", "rankdir", "size", "ratio"]

/-- Whether a word is the name of such a graph attribute, in any case of letters. -/
def isGraphSetting (text : String) : Bool := graphSettings.contains (asciiLower text)

/-- An edge operator and the word after it. -/
structure Hop where
  link : Link
  target : Word
  deriving Repr, DecidableEq

/-- What a group of tokens says. -/
inductive Statement where
  /-- `key = value`. -/
  | assignment (key : Word) (equals : Excerpt) (value : Word)
  /-- `key =` without a value. -/
  | keyOnly (key : Word) (equals : Excerpt)
  /-- A keyword with attribute lists; those of `graph` are attributes of the graph. -/
  | defaults (keyword : Word) (ofGraph : Bool) (lists : List Bracket)
  /-- `subgraph` and its name; the body of a subgraph is read as part of the graph. -/
  | subgraph (keyword : Word) (name : Option Word)
  /-- A node, or a chain of edges, with attribute lists.  The operator that may stand between
      them leads nowhere. -/
  | chain (head : Word) (hops : List Hop) (dangling : Option Link) (lists : List Bracket)
  /-- An edge operator without a source. -/
  | noSource (link : Link)
  /-- A string without its closing quote. -/
  | openString (place : Excerpt)
  /-- A token that starts no statement. -/
  | misplaced (token : Token) (why : Misplacement)
  deriving Repr, DecidableEq

/-- Takes the attribute lists that tokens start with. -/
def readLists : List Token → List Bracket × List Token
  | .bracket b :: rest => (b :: (readLists rest).1, (readLists rest).2)
  | rest => ([], rest)

/-- Takes the hops that tokens start with, and an operator that leads nowhere after them. -/
def readHops : List Token → List Hop × Option Link × List Token
  | .link link :: .word target :: rest =>
    (⟨link, target⟩ :: (readHops rest).1, (readHops rest).2)
  | .link link :: rest => ([], some link, rest)
  | rest => ([], none, rest)

/-- Whether tokens start with an edge operator. -/
def startsLink : List Token → Bool
  | .link _ :: _ => true
  | _ => false

namespace Statement

/-- Reads the node or the chain of edges that starts with a word. -/
def readChain (head : Word) (rest : List Token) : Statement × List Token :=
  let (hops, dangling, afterHops) := readHops rest
  let (lists, afterLists) := readLists afterHops
  (.chain head hops dangling lists, afterLists)

/-- Reads the statement that starts with a keyword. -/
def readKeyword (keyword : Keyword) (w : Word) (rest : List Token) : Statement × List Token :=
  match keyword with
  | .node | .edge | .graph =>
    match readLists rest with
    | ([], _) => (.misplaced (.word w) .keywordAlone, rest)
    | (lists, after) => (.defaults w (keyword == .graph) lists, after)
  | .subgraph =>
    match rest with
    | .word name :: after =>
      if startsLink after then (.subgraph w none, rest) else (.subgraph w (some name), after)
    | _ => (.subgraph w none, rest)
  | .digraph | .strict => (.misplaced (.word w) .headerKeyword, rest)

/-- Reads the statement that starts with a word. -/
def readWord (w : Word) (rest : List Token) : Statement × List Token :=
  match rest with
  | .equals equals :: .word value :: after => (.assignment w equals value, after)
  | .equals equals :: after => (.keyOnly w equals, after)
  | _ =>
    if w.quoted then readChain w rest
    else
      match Keyword.ofWord? w.text with
      | some keyword => readKeyword keyword w rest
      | none =>
        if isGraphSetting w.text && !startsLink rest then
          (.misplaced (.word w) .settingAlone, rest)
        else
          readChain w rest

/-- A word that no sign follows starts a chain, or is a keyword, or the name of a graph attribute
    on its own. -/
theorem readWord_of_ne {rest : List Token} (hne : ∀ equals after, rest ≠ .equals equals :: after)
    (w : Word) : readWord w rest
      = if w.quoted then readChain w rest
        else
          match Keyword.ofWord? w.text with
          | some keyword => readKeyword keyword w rest
          | none =>
            if isGraphSetting w.text && !startsLink rest then
              (.misplaced (.word w) .settingAlone, rest)
            else
              readChain w rest := by
  unfold readWord
  split
  · exact absurd rfl (hne _ _)
  · exact absurd rfl (hne _ _)
  · rfl

/-- Reads the statement that starts with a token. -/
def read (token : Token) (rest : List Token) : Statement × List Token :=
  match token with
  | .word w => readWord w rest
  | .link link => (.noSource link, rest)
  | .bracket _ => (.misplaced token .bracketAlone, rest)
  | .equals _ => (.misplaced token .equalsAlone, rest)
  | .openString place => (.openString place, rest)
  | .stray _ => (.misplaced token .strayCharacter, rest)

def hopTokens (hop : Hop) : List Token := [.link hop.link, .word hop.target]

/-- The tokens that a statement was read from. -/
def tokens : Statement → List Token
  | .assignment key equals value => [.word key, .equals equals, .word value]
  | .keyOnly key equals => [.word key, .equals equals]
  | .defaults keyword _ lists => .word keyword :: lists.map .bracket
  | .subgraph keyword name => .word keyword :: (name.map Token.word).toList
  | .chain head hops dangling lists =>
    .word head :: hops.flatMap hopTokens ++ (dangling.map Token.link).toList ++ lists.map .bracket
  | .noSource link => [.link link]
  | .openString place => [.openString place]
  | .misplaced token _ => [token]

theorem tokens_readLists (ts : List Token) :
    (readLists ts).1.map Token.bracket ++ (readLists ts).2 = ts := by
  fun_induction readLists ts with
  | case1 b rest ih => simp [ih]
  | case2 => simp

theorem tokens_readHops (ts : List Token) :
    (readHops ts).1.flatMap hopTokens ++ (((readHops ts).2.1.map Token.link).toList
      ++ (readHops ts).2.2) = ts := by
  fun_induction readHops ts with
  | case1 link target rest ih => simp [hopTokens, ih]
  | case2 => simp
  | case3 => simp

theorem tokens_readChain (head : Word) (rest : List Token) :
    (readChain head rest).1.tokens ++ (readChain head rest).2 = .word head :: rest := by
  have hops := tokens_readHops rest
  have lists := tokens_readLists (readHops rest).2.2
  simp only [readChain, tokens, List.cons_append, List.append_assoc]
  rw [lists, hops]

theorem tokens_read (token : Token) (rest : List Token) :
    (read token rest).1.tokens ++ (read token rest).2 = token :: rest := by
  unfold read
  split
  · rename_i w
    unfold readWord
    split
    · rfl
    · rfl
    · split
      · exact tokens_readChain w rest
      · split
        · rename_i keyword _
          unfold readKeyword
          split
          iterate 3
            split
            · rfl
            · rename_i lists after _ h
              have := tokens_readLists rest
              rw [h] at this
              simp [tokens, this]
          · split
            · split <;> rfl
            · rfl
          · rfl
          · rfl
        · split
          · rfl
          · exact tokens_readChain w rest
  · rfl
  · rfl
  · rfl
  · rfl
  · rfl

/-- Every statement holds at least one token. -/
theorem tokens_ne_nil (s : Statement) : s.tokens ≠ [] := by
  cases s <;> simp [tokens]

theorem length_snd_read (token : Token) (rest : List Token) :
    (read token rest).2.length ≤ rest.length := by
  have lengths := congrArg List.length (tokens_read token rest)
  have positive := List.length_pos_iff.2 (tokens_ne_nil (read token rest).1)
  simp at lengths
  omega

end Statement

/-- The statements that tokens are read as, in order. -/
def statements : List Token → List Statement
  | [] => []
  | token :: rest => (Statement.read token rest).1 :: statements (Statement.read token rest).2
  termination_by ts => ts.length
  decreasing_by
    have := Statement.length_snd_read token rest
    simp
    omega

/-- The pairs of consecutive attribute lists, in order. -/
def pairsOf (lists : List Bracket) : List Pair :=
  lists.flatMap fun b => (readEntries b.content).filterMap Entry.pair?

/-- What is to be reported about an attribute list. -/
def Bracket.findings (b : Bracket) : List Finding :=
  (if b.closed then [] else [.openBracket b])
    ++ ((readEntries b.content).filterMap Entry.junk?).map .malformed

namespace Statement

/-- Whether a statement says something about a graph. -/
def recognized : Statement → Bool
  | .assignment .. | .defaults .. | .chain .. => true
  | _ => false

/-- What is to be reported about a statement in a graph that is directed or not. -/
def findings (directed : Bool) : Statement → List Finding
  | .assignment .. | .subgraph .. => []
  | .keyOnly key equals => [.noValue key.text (key.place.span.union equals.span)]
  | .defaults _ _ lists => lists.flatMap Bracket.findings
  | .chain _ hops dangling lists =>
    let mismatches := (hops.map Hop.link).filter fun link => link.op != .ofGraph directed
    mismatches.map (.mismatch · directed) ++ (dangling.map Finding.noTarget).toList
      ++ lists.flatMap Bracket.findings
  | .noSource link => [.noSource link]
  | .openString place => [.openString place]
  | .misplaced token why => [.misplaced token.place why]

/-- The graph attributes that a statement sets. -/
def settings : Statement → List Pair
  | .assignment key _ value => [⟨key.text, value.text⟩]
  | .defaults _ true lists => pairsOf lists
  | _ => []

/-- Adds the edges of a chain, one per hop. -/
def addHops (attributes : EdgeAttributes) (kind : EdgeKind) (g : Graph) :
    Word → List Hop → Graph
  | _, [] => g
  | source, hop :: hops =>
    addHops attributes kind (g.connect source.text hop.target.text attributes kind) hop.target hops

/-- Adds the nodes and edges of a statement to a graph.  Edges that ask for no kind of their own
    get the given one. -/
def addTo (kind : EdgeKind) (g : Graph) : Statement → Graph
  | .chain head [] _ lists =>
    let settings := NodeSettings.ofPairs (pairsOf lists)
    (g.ensureNode head.text).redefineNode head.text settings.label settings.style
  | .chain head hops _ lists =>
    let settings := EdgeSettings.ofPairs (pairsOf lists)
    addHops settings.attributes (settings.kind.getD kind) g head hops
  | _ => g

end Statement

end DotLayout.Dot
