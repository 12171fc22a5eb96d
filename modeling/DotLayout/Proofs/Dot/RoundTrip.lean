import DotLayout.Proofs.Dot.Written
import DotLayout.Proofs.Text.Escaping

/-! # Written graphs are read back

    A directed graph is written with one line for each labelled node and each labelled edge, all
    ids and labels in quotes.  Whatever the ids and labels hold, as long as they have no
    backslash, `parse` gives the graph back.

    * Each scanner is followed over a whole line: comments (`blankComments_line`), chunks
      (`readChunk_line`), tokens and statements (`statements_line`), and attribute lists
      (`readEntries_labelText`).
    * `statements_lines` puts the lines of a body together, and `parse_printLines` is the round
      trip of lines in any order.
    * `parse_printGraph` is its case of nodes first and edges after them. -/

namespace DotLayout.Dot

open Text

/-- A node or an edge with its label. -/
inductive Line where
  | node (id label : String)
  | edge (source target label : String)

/-- The label as an attribute, with its value in quotes. -/
def labelText (label : String) : List Char :=
  ['l', 'a', 'b', 'e', 'l', '='] ++ quote label.toList

/-- The attribute list that gives a label. -/
def labelList (label : String) : List Char := '[' :: labelText label ++ [']']

namespace Line

/-- How a line is written. -/
def chars : Line → List Char
  | node id label => quote id.toList ++ ' ' :: labelList label
  | edge source target label =>
    quote source.toList ++ (" -> ".toList ++ (quote target.toList ++ ' ' :: labelList label))

/-- Adds to a graph what a line says. -/
def addTo (g : Graph) : Line → Graph
  | node id label => (g.ensureNode id).setLabel id label
  | edge source target label => g.connect source target { label := some label } .curved

/-- Whether a line can be written: a quoted string cannot stand for every backslash. -/
def Plain : Line → Prop
  | node id label => '\\' ∉ id.toList ∧ '\\' ∉ label.toList
  | edge source target label =>
    '\\' ∉ source.toList ∧ '\\' ∉ target.toList ∧ '\\' ∉ label.toList

end Line

/-- Lines as they stand in a body. -/
def linesText (lines : List Line) : List Char := lines.flatMap fun line => line.chars ++ ['\n']

/-- A whole description with the given text between its braces. -/
def braced (body : List Char) : List Char := "digraph \x7b\n".toList ++ (body ++ ['\x7d'])

/-- Lines as a description. -/
def printLines (lines : List Line) : String := String.ofList (braced (linesText lines))

/-! ## Comments -/

/-- What is escaped is the content of a string, if it has no backslash. -/
theorem content_escape {s : List Char} (h : '\\' ∉ s) : Content (escape s) :=
  (escaped_escape h).content

/-- A quoted text is no comment, and behind it the line is not fresh. -/
theorem blankComments_quote {s : List Char} (h : '\\' ∉ s) (fresh : Bool) (rest : List Char) :
    blankComments (.plain fresh) (quote s ++ rest)
      = quote s ++ blankComments (.plain false) rest :=
  blankComments_inQuotes (content_escape h) fresh rest

/-- The list of a label is no comment. -/
theorem blankComments_labelList {label : String} (h : '\\' ∉ label.toList) (rest : List Char) :
    blankComments (.plain false) (' ' :: (labelList label ++ '\n' :: rest))
      = ' ' :: (labelList label ++ '\n' :: blankComments (.plain true) rest) := by
  have opened : ∀ inner, blankComments (.plain false) (" [label=".toList ++ inner)
      = " [label=".toList ++ blankComments (.plain false) inner := fun _ => rfl
  have closed : blankComments (.plain false) (']' :: '\n' :: rest)
      = ']' :: '\n' :: blankComments (.plain true) rest := rfl
  have parts : ∀ rest, ' ' :: (labelList label ++ '\n' :: rest)
      = " [label=".toList ++ (quote label.toList ++ ']' :: '\n' :: rest) := by
    simp [labelList, labelText]
  rw [parts, opened, blankComments_quote h, closed, ← parts]

/-- A line is no comment. -/
theorem blankComments_line {line : Line} (h : line.Plain) (rest : List Char) :
    blankComments (.plain true) (line.chars ++ '\n' :: rest)
      = line.chars ++ '\n' :: blankComments (.plain true) rest := by
  cases line with
  | node id label =>
      obtain ⟨hid, hlabel⟩ := h
      simp only [Line.chars, List.append_assoc, List.cons_append]
      rw [blankComments_quote hid, blankComments_labelList hlabel]
  | edge source target label =>
      obtain ⟨hsource, htarget, hlabel⟩ := h
      have arrow : ∀ inner, blankComments (.plain false) (" -> ".toList ++ inner)
          = " -> ".toList ++ blankComments (.plain false) inner := fun _ => rfl
      simp only [Line.chars, List.append_assoc, List.cons_append]
      rw [blankComments_quote hsource, arrow, blankComments_quote htarget,
        blankComments_labelList hlabel]

/-- Some lines hold no comment. -/
theorem blankComments_lines {lines : List Line} (h : ∀ line ∈ lines, line.Plain)
    (rest : List Char) :
    blankComments (.plain true) (linesText lines ++ rest)
      = linesText lines ++ blankComments (.plain true) rest := by
  induction lines with
  | nil => rfl
  | cons line lines ih =>
      obtain ⟨hline, hlines⟩ := List.forall_mem_cons.1 h
      simp only [linesText, List.flatMap_cons, List.append_assoc, List.cons_append,
        List.nil_append] at ih ⊢
      rw [blankComments_line hline, ih hlines]

/-! ## Chunks -/

theorem readChunk_quote {s : List Char} (h : '\\' ∉ s) (rest : List Char) :
    readChunk (quote s ++ rest) = inFront (quote s) (readChunk rest) :=
  readChunk_inQuotes (content_escape h) rest

/-- A chunk goes on behind the list of a label. -/
theorem readChunk_labelList {label : String} (h : '\\' ∉ label.toList) (rest : List Char) :
    readChunk (labelList label ++ rest) = inFront (labelList label) (readChunk rest) := by
  have list := readChunk_labelEntry (content_escape h) rest
  have whole : labelList label ++ rest
      = '[' :: (labelEntry (escape label.toList) ++ ']' :: rest) := by
    simp [labelList, labelText, labelEntry, inQuotes, quote]
  rw [whole, list]
  rfl

/-- A line is a chunk. -/
theorem readChunk_line {line : Line} (h : line.Plain) (rest : List Char) :
    readChunk (line.chars ++ '\n' :: rest) = (line.chars, '\n' :: rest) := by
  have stop : readChunk ('\n' :: rest) = ([], '\n' :: rest) := readChunk_delimiter rfl rest
  cases line with
  | node id label =>
      obtain ⟨hid, hlabel⟩ := h
      simp only [Line.chars, List.append_assoc, List.cons_append]
      rw [readChunk_quote hid, readChunk_blank, readChunk_labelList hlabel, stop]
      simp [inFront]
  | edge source target label =>
      obtain ⟨hsource, htarget, hlabel⟩ := h
      have arrow : ∀ inner, readChunk (" -> ".toList ++ inner)
          = inFront " -> ".toList (readChunk inner) := readChunk_ordinary (by simp [endsChunk])
      simp only [Line.chars, List.append_assoc, List.cons_append]
      rw [readChunk_quote hsource, arrow, readChunk_quote htarget, readChunk_blank,
        readChunk_labelList hlabel, stop]
      simp [inFront]

/-! ## Tokens -/

/-- The word that a quoted string at a position is. -/
def quotedWord (start : Nat) (s : String) : Word := ⟨s, true, ⟨start, quote s.toList⟩⟩

/-- The attribute list that gives a label, at a position. -/
def labelBracket (start : Nat) (label : String) : Bracket :=
  ⟨⟨start + 1, labelText label⟩, true, ⟨start, labelList label⟩⟩

/-- A quoted text is read as a word. -/
theorem tokensFrom_quote {s : String} (h : '\\' ∉ s.toList) (start : Nat) (rest : List Char) :
    tokensFrom start (quote s.toList ++ ' ' :: rest)
      = .word (quotedWord start s)
        :: tokensFrom ((quotedWord start s).place.stop + 1) rest := by
  have word : wordInQuotes start (escape s.toList) = quotedWord start s := by
    rw [wordInQuotes, (escaped_escape h).unescape, String.ofList_toList]
    rfl
  rw [← word]
  exact tokensFrom_inQuotes (content_escape h) start rest

/-- The arrow of a line is read as an operator. -/
theorem tokensFrom_arrow (start : Nat) (rest : List Char) :
    tokensFrom start ("-> ".toList ++ rest)
      = .link ⟨.directed, ⟨start, "->".toList⟩⟩ :: tokensFrom (start + 3) rest := by
  have token : readToken start '-' ('>' :: ' ' :: rest)
      = (.link ⟨.directed, ⟨start, "->".toList⟩⟩, ' ' :: rest) := rfl
  show tokensFrom start ('-' :: '>' :: ' ' :: rest) = _
  rw [tokensFrom, if_neg (by decide), token, tokensFrom_blank]
  rfl

/-- The list of a label is read as an attribute list. -/
theorem tokensFrom_labelList {label : String} (h : '\\' ∉ label.toList) (start : Nat) :
    tokensFrom start (labelList label) = [.bracket (labelBracket start label)] := by
  have list := tokensFrom_labelEntry (content_escape h) start []
  rw [tokensFrom] at list
  exact list

/-! ## Attribute lists -/

/-- The list that gives a label holds one pair, and nothing else. -/
theorem readEntries_labelText {label : String} (h : '\\' ∉ label.toList) (start : Nat) :
    readEntries ⟨start, labelText label⟩
      = [.pair ⟨"label", label⟩ ⟨start, labelText label⟩] := by
  have escaped := escaped_escape h
  have value := readAssigned_inQuotes escaped.content escaped.continuesLine
  have key : ∀ d ∈ 'l' :: "abel".toList, isKeyChar d = true := List.all_eq_true.1 (by decide)
  have entries := readEntries_pair key value start
  rw [escaped.unescape, String.ofList_toList] at entries
  exact entries

/-- The list of a label holds one pair, with the label as it was. -/
theorem pairsOf_labelBracket {label : String} (h : '\\' ∉ label.toList) (start : Nat) :
    pairsOf [labelBracket start label] = [⟨"label", label⟩] := by
  simp [pairsOf, labelBracket, readEntries_labelText h, Entry.pair?]

/-- Nothing is to be reported about the list of a label. -/
theorem findings_labelBracket {label : String} (h : '\\' ∉ label.toList) (start : Nat) :
    (labelBracket start label).findings = [] := by
  simp [Bracket.findings, labelBracket, readEntries_labelText h, Entry.junk?]

/-! ## Statements -/

/-- The statement that a line is read as. -/
def Line.statement (start : Nat) : Line → Statement
  | node id label =>
    let head := quotedWord start id
    .chain head [] none [labelBracket (head.place.stop + 1) label]
  | edge source target label =>
    let head := quotedWord start source
    let target := quotedWord (head.place.stop + 1 + 3) target
    .chain head [⟨⟨.directed, ⟨head.place.stop + 1, "->".toList⟩⟩, target⟩] none
      [labelBracket (target.place.stop + 1) label]

/-- A line is read as one statement. -/
theorem statements_line {line : Line} (h : line.Plain) (start : Nat) :
    statements (tokens ⟨start, line.chars⟩) = [line.statement start] := by
  cases line with
  | node id label =>
      obtain ⟨hid, hlabel⟩ := h
      show statements (tokensFrom start (quote id.toList ++ ' ' :: labelList label)) = _
      rw [tokensFrom_quote hid, tokensFrom_labelList hlabel]
      simp [statements, Statement.read, Statement.readWord, quotedWord, Statement.readChain,
        readHops, readLists, Line.statement]
  | edge source target label =>
      obtain ⟨hsource, htarget, hlabel⟩ := h
      show statements (tokensFrom start (quote source.toList ++ ' ' :: ("-> ".toList
        ++ (quote target.toList ++ ' ' :: labelList label)))) = _
      rw [tokensFrom_quote hsource, tokensFrom_arrow, tokensFrom_quote htarget,
        tokensFrom_labelList hlabel]
      simp [statements, Statement.read, Statement.readWord, quotedWord, Statement.readChain,
        readHops, readLists, Line.statement]

/-- What a line is read as adds the same to a graph as the line. -/
theorem addTo_statement {line : Line} (h : line.Plain) (start : Nat) (g : Graph) :
    (line.statement start).addTo .curved g = line.addTo g := by
  cases line with
  | node id label =>
      show (g.ensureNode id).redefineNode id
        (NodeSettings.ofPairs (pairsOf [labelBracket _ _])).label
        (NodeSettings.ofPairs (pairsOf [labelBracket _ _])).style = _
      rw [pairsOf_labelBracket h.2]
      rfl
  | edge source target label =>
      show g.connect source target (EdgeSettings.ofPairs (pairsOf [labelBracket _ _])).attributes
        ((EdgeSettings.ofPairs (pairsOf [labelBracket _ _])).kind.getD .curved) = _
      rw [pairsOf_labelBracket h.2.2]
      rfl

/-- Nothing is to be reported about the statement of a line. -/
theorem findings_statement {line : Line} (h : line.Plain) (start : Nat) :
    (line.statement start).findings true = [] := by
  cases line with
  | node id label =>
      simp [Line.statement, Statement.findings, findings_labelBracket h.2]
  | edge source target label =>
      simp [Line.statement, Statement.findings, findings_labelBracket h.2.2, EdgeOp.ofGraph]

/-- The statement of a line sets no attribute of the graph. -/
theorem settings_statement (line : Line) (start : Nat) : (line.statement start).settings = [] := by
  cases line <;> rfl

/-! ## Bodies -/

/-- What the lines of a body are read as where it starts at a position. -/
def lineStatements : Nat → List Line → List Statement
  | _, [] => []
  | start, line :: lines =>
    line.statement start :: lineStatements (start + byteLength line.chars + 1) lines

/-- The chunk of a line is kept. -/
theorem keepChunk_line (start : Nat) (line : Line) :
    keepChunk ⟨start, line.chars⟩ = [⟨start, line.chars⟩] := by
  obtain ⟨rest, hchars⟩ : ∃ rest, line.chars = '"' :: rest := by
    cases line <;> exact ⟨_, rfl⟩
  rw [hchars]
  exact keepChunk_visible ⟨'"', List.mem_cons_self, by decide⟩

/-- The lines of a body are read one after the other. -/
theorem statements_lines {lines : List Line} (h : ∀ line ∈ lines, line.Plain) (start : Nat) :
    ((chunksFrom start (linesText lines)).map tokens).flatMap statements
      = lineStatements start lines := by
  induction lines generalizing start with
  | nil =>
      show ((chunksFrom start []).map tokens).flatMap statements = []
      rw [chunksFrom_nil]
      rfl
  | cons line lines ih =>
      obtain ⟨hline, hlines⟩ := List.forall_mem_cons.1 h
      have split : linesText (line :: lines) = line.chars ++ '\n' :: linesText lines := by
        simp [linesText]
      rw [split, chunksFrom_cons (readChunk_line hline _), keepChunk_line, List.map_append,
        List.flatMap_append, ih hlines, List.map_singleton, List.flatMap_singleton,
        statements_line hline]
      rfl

/-- The statements of some lines add what the lines say. -/
theorem foldl_lineStatements {lines : List Line} (h : ∀ line ∈ lines, line.Plain) (start : Nat)
    (g : Graph) :
    (lineStatements start lines).foldl (Statement.addTo .curved) g = lines.foldl Line.addTo g := by
  induction lines generalizing start g with
  | nil => rfl
  | cons line lines ih =>
      obtain ⟨hline, hlines⟩ := List.forall_mem_cons.1 h
      rw [lineStatements, List.foldl_cons, addTo_statement hline, ih hlines]
      rfl

/-- Every statement of some lines is that of one of them. -/
theorem mem_lineStatements {lines : List Line} {start : Nat} {s : Statement}
    (h : s ∈ lineStatements start lines) : ∃ line ∈ lines, ∃ p, s = line.statement p := by
  induction lines generalizing start with
  | nil => exact nomatch h
  | cons line lines ih =>
      rcases List.mem_cons.1 h with rfl | hmem
      · exact ⟨line, List.mem_cons_self, start, rfl⟩
      · obtain ⟨line', hline', p, rfl⟩ := ih hmem
        exact ⟨line', List.mem_cons_of_mem line hline', p, rfl⟩

/-! ## Descriptions -/

/-- Written lines are read back, and nothing is reported about them. -/
theorem parse_printLines {lines : List Line} (h : ∀ line ∈ lines, line.Plain) :
    parse (printLines lines) = .ok ⟨lines.foldl Line.addTo (.empty true none), []⟩ := by
  have plain : blankComments (.plain false) ('\n' :: linesText lines ++ ['\x7d'])
      = '\n' :: linesText lines ++ ['\x7d'] := by
    show '\n' :: blankComments (.plain true) (linesText lines ++ ['\x7d']) = _
    rw [blankComments_lines h]
    rfl
  have read : ((chunks ⟨9, '\n' :: linesText lines⟩).map tokens).flatMap statements
      = lineStatements 10 lines := by
    -- the line break behind the opening brace ends an empty chunk
    have first := readChunk_delimiter (c := '\n') rfl (linesText lines)
    show ((chunksFrom 9 ('\n' :: linesText lines)).map tokens).flatMap statements = _
    rw [chunksFrom_cons first, List.map_append, List.flatMap_append]
    exact statements_lines h 10
  have settings : (lineStatements 10 lines).flatMap Statement.settings = [] := by
    rw [List.flatMap_eq_nil_iff]
    intro s hs
    obtain ⟨line, -, p, rfl⟩ := mem_lineStatements hs
    exact settings_statement line p
  have findings : (lineStatements 10 lines).flatMap (Statement.findings true) = [] := by
    rw [List.flatMap_eq_nil_iff]
    intro s hs
    obtain ⟨line, hline, p, rfl⟩ := mem_lineStatements hs
    exact findings_statement (h line hline) p
  have parsed := parse_digraph plain read settings
  rw [foldl_lineStatements h, findings] at parsed
  exact parsed

/-! ## Labelled graphs -/

/-- The description of labelled nodes and, after them, labelled edges. -/
def printGraph (nodes : List (String × String)) (edges : List (String × String × String)) :
    String :=
  printLines (nodes.map (fun n => .node n.1 n.2) ++ edges.map fun e => .edge e.1 e.2.1 e.2.2)

/-- The directed graph of labelled nodes and labelled edges, both in order. -/
def labelledGraph (nodes : List (String × String)) (edges : List (String × String × String)) :
    Graph :=
  let withNodes := nodes.foldl (fun g n => (g.ensureNode n.1).setLabel n.1 n.2) (.empty true none)
  edges.foldl (fun g e => g.connect e.1 e.2.1 { label := some e.2.2 } .curved) withNodes

/-- A written graph is read back, whatever the ids and labels hold, as long as they have no
    backslash; an id that is given twice keeps its last label in both. -/
theorem parse_printGraph {nodes : List (String × String)} {edges : List (String × String × String)}
    (hnodes : ∀ n ∈ nodes, '\\' ∉ n.1.toList ∧ '\\' ∉ n.2.toList)
    (hedges : ∀ e ∈ edges, '\\' ∉ e.1.toList ∧ '\\' ∉ e.2.1.toList ∧ '\\' ∉ e.2.2.toList) :
    parse (printGraph nodes edges) = .ok ⟨labelledGraph nodes edges, []⟩ := by
  rw [printGraph, parse_printLines, List.foldl_append, List.foldl_map, List.foldl_map]
  · rfl
  · intro line hline
    rcases List.mem_append.1 hline with hmem | hmem
    · obtain ⟨n, hn, rfl⟩ := List.mem_map.1 hmem
      exact hnodes n hn
    · obtain ⟨e, he, rfl⟩ := List.mem_map.1 hmem
      exact hedges e he

/-- Texts with quotes, comment markers, brackets, braces and line breaks are read back. -/
theorem parse_printGraph_hard :
    let nodes := [("", "// no \"comment\""), ("a]\n\x7d", "/* ; # */"), ("é -> b", "]\x7d\"")]
    let edges := [("a]\n\x7d", "", "x=\"y\", [z"), ("new; node", "new; node", "\n#\n")]
    (∀ n ∈ nodes, '\\' ∉ n.1.toList ∧ '\\' ∉ n.2.toList)
      ∧ (∀ e ∈ edges, '\\' ∉ e.1.toList ∧ '\\' ∉ e.2.1.toList ∧ '\\' ∉ e.2.2.toList)
      ∧ parse (printGraph nodes edges) = .ok ⟨labelledGraph nodes edges, []⟩ :=
  ⟨by decide, by decide, parse_printGraph (by decide) (by decide)⟩

end DotLayout.Dot
