import DotLayout.Proofs.Dot.Calls
import DotLayout.Proofs.Dot.Written

/-! # What quoted strings stand for

    A quoted string can be the id of a node, the label of a node or the name of a graph.  As an id
    it always stands for its unescaped content (`parse_nodeSource`).  In the other two places that
    is so for most strings.

    * `label_eq_id_iff` : a label stands for the same text, unless the string protects a line
      break.  Such a string is no value, and is reported.
    * `name_eq_id_iff` : a name stands for the same text, unless the string ends with a protected
      quote.  That quote is taken off with the closing one, and its backslash is left over. -/

namespace DotLayout.Dot

open Text

/-! ## Bodies of one node -/

theorem readChunk_lastBlank : readChunk [' '] = ([' '], []) := by
  rw [readChunk_blank, readChunk]
  rfl

/-- A body that is one chunk with one node in it is a graph of that node. -/
theorem parse_node {body : List Char} {w : Word} {lists : List Bracket}
    (hplain : blankComments (.plain false) (body ++ ['\x7d']) = body ++ ['\x7d'])
    (hchunk : readChunk body = (body, [])) (hvisible : ∃ c ∈ body, isBlank c = false)
    (hnode : statements (tokensFrom 9 body) = [.chain w [] none lists]) :
    ∃ p, parse (digraph body) = .ok p ∧ p.findings = lists.flatMap Bracket.findings ∧
      p.graph.nodes = [(Node.named w.text).redefine (NodeSettings.ofPairs (pairsOf lists)).label
        (NodeSettings.ofPairs (pairsOf lists)).style] := by
  have read : ((chunks ⟨9, body⟩).map tokens).flatMap statements = [.chain w [] none lists] := by
    rw [chunks, chunksFrom_of_whole hchunk, keepChunk_visible hvisible, List.map_singleton,
      List.flatMap_singleton]
    exact hnode
  refine ⟨_, parse_digraph hplain read rfl, ?_, ?_⟩
  · simp [Statement.findings]
  · simp [Statement.addTo, Graph.redefineNode, Graph.modifyNode, Graph.mapNodes,
      Graph.nodes_ensureNode, Graph.ids, Graph.empty, Node.named]

variable {content : List Char}

/-! ## Ids -/

/-- A description of one node, whose id is a quoted string. -/
def nodeSource (content : List Char) : String := digraph (' ' :: (inQuotes content ++ [' ']))

/-- An id in quotes stands for its unescaped content. -/
theorem parse_nodeSource (h : Content content) :
    ∃ p, parse (nodeSource content) = .ok p ∧ p.graph.ids = [String.ofList (unescape content)] ∧
      p.warnings = [] := by
  have plain : blankComments (.plain false) (' ' :: (inQuotes content ++ [' ']) ++ ['\x7d'])
      = ' ' :: (inQuotes content ++ [' ']) ++ ['\x7d'] := by
    have rest : blankComments (.plain false) ([' '] ++ ['\x7d']) = [' '] ++ ['\x7d'] := rfl
    show ' ' :: blankComments (.plain false) (inQuotes content ++ [' '] ++ ['\x7d']) = _
    rw [List.append_assoc, blankComments_inQuotes h, rest, ← List.append_assoc]
    rfl
  have chunk : readChunk (' ' :: (inQuotes content ++ [' ']))
      = (' ' :: (inQuotes content ++ [' ']), []) := by
    rw [readChunk_blank, readChunk_inQuotes h, readChunk_lastBlank]
    rfl
  have node : statements (tokensFrom 9 (' ' :: (inQuotes content ++ [' '])))
      = [.chain (wordInQuotes 10 content) [] none []] := by
    rw [tokensFrom_blank, tokensFrom_inQuotes h, tokensFrom]
    simp [statements, Statement.read, Statement.readWord, wordInQuotes, Statement.readChain,
      readHops, readLists]
  obtain ⟨p, hparse, hfindings, hnodes⟩ := parse_node plain chunk
    ⟨'"', by simp [inQuotes], by decide⟩ node
  refine ⟨p, hparse, ?_, ?_⟩
  · rw [Graph.ids, hnodes]
    rfl
  · rw [Parsed.warnings, hfindings]
    rfl

/-! ## Labels -/

/-- A letter in front of a blank is a word. -/
theorem tokensFrom_letter (start : Nat) (rest : List Char) :
    tokensFrom start ('A' :: ' ' :: rest)
      = .word ⟨"A", false, ⟨start, ['A']⟩⟩ :: tokensFrom (start + 2) rest := by
  have ports : readPorts (' ' :: rest) = ([], ' ' :: rest) := by simp [readPorts]
  have token : readToken start 'A' (' ' :: rest)
      = (.word ⟨"A", false, ⟨start, ['A']⟩⟩, ' ' :: rest) := by
    simp [readToken, readBareWord, isIdentChar, ports]
  rw [tokensFrom, if_neg (by decide), token, tokensFrom_blank]
  rfl

/-- The body of a description that gives the node `A` an attribute list. -/
def listBody (list : List Char) : List Char := " A [".toList ++ (list ++ "] ".toList)

section ListBody

variable {list : List Char} (h : readBracket (list ++ ']' :: [' ']) = ⟨list, true, [' ']⟩)
include h

/-- A node with a list is one chunk. -/
theorem readChunk_listBody : readChunk (listBody list) = (listBody list, []) := by
  have word : ∀ rest, readChunk (" A ".toList ++ rest) = inFront " A ".toList (readChunk rest) :=
    readChunk_ordinary (by simp [endsChunk])
  have parts : listBody list = " A ".toList ++ ('[' :: (list ++ ']' :: [' '])) := by
    simp [listBody]
  have whole : readChunk (listBody list)
      = (" A ".toList ++ ('[' :: (list ++ [']']) ++ [' ']), []) := by
    rw [parts, word, readChunk_closed h, readChunk_lastBlank]
    rfl
  rw [whole]
  simp [listBody]

/-- A node with a list is one statement. -/
theorem statements_listBody : statements (tokensFrom 9 (listBody list))
    = [.chain ⟨"A", false, ⟨10, ['A']⟩⟩ [] none [bracketAt 12 list]] := by
  have read : tokensFrom 9 (listBody list)
      = [.word ⟨"A", false, ⟨10, ['A']⟩⟩, .bracket (bracketAt 12 list)] := by
    show tokensFrom 9 (' ' :: 'A' :: ' ' :: '[' :: (list ++ ']' :: [' '])) = _
    rw [tokensFrom_blank, tokensFrom_letter, tokensFrom_closed h, tokensFrom_blank, tokensFrom]
  have keyword : Keyword.ofWord? "A" = none := by decide
  have setting : isGraphSetting "A" = false := by decide
  rw [read]
  simp [statements, Statement.read, Statement.readWord, keyword, setting, Statement.readChain,
    readHops, readLists]

end ListBody

/-- The body of a description that gives the node `A` a label in quotes. -/
def labelBody (content : List Char) : List Char :=
  " A [".toList ++ (labelEntry content ++ "] ".toList)

/-- A description of one node with a label. -/
def labelSource (content : List Char) : String := digraph (labelBody content)

/-- A label in quotes is no comment. -/
theorem blankComments_labelBody (h : Content content) :
    blankComments (.plain false) (labelBody content ++ ['\x7d'])
      = labelBody content ++ ['\x7d'] := by
  have opened : ∀ rest, blankComments (.plain false) (" A [label=".toList ++ rest)
      = " A [label=".toList ++ blankComments (.plain false) rest := fun _ => rfl
  have closed : blankComments (.plain false) "] \x7d".toList = "] \x7d".toList := rfl
  have parts : labelBody content ++ ['\x7d']
      = " A [label=".toList ++ (inQuotes content ++ "] \x7d".toList) := by
    simp [labelBody, labelEntry]
  rw [parts, opened, blankComments_inQuotes h, closed]

theorem readChunk_labelBody (h : Content content) :
    readChunk (labelBody content) = (labelBody content, []) :=
  readChunk_listBody (readBracket_labelEntry h [' '])

/-- A node with a label is one statement. -/
theorem statements_labelBody (h : Content content) :
    statements (tokensFrom 9 (labelBody content))
      = [.chain ⟨"A", false, ⟨10, ['A']⟩⟩ [] none [bracketInQuotes 12 content]] :=
  statements_listBody (readBracket_labelEntry h [' '])

/-- The list holds the label and nothing else, or something in it is skipped. -/
theorem readEntries_label (h : Content content) :
    (¬ ProtectsBreak content ∧ readEntries ⟨13, labelEntry content⟩
        = [.pair ⟨"label", String.ofList (unescape content)⟩ ⟨13, labelEntry content⟩]) ∨
      (ProtectsBreak content ∧ ∃ place, .junk place ∈ readEntries ⟨13, labelEntry content⟩) := by
  have key : ∀ c ∈ "label".toList, isKeyChar c = true := List.all_eq_true.1 (by decide)
  rw [← h.continuesLine_iff]
  cases hbreak : continuesLine content with
  | false => exact .inl ⟨nofun, readEntries_pair key (readAssigned_inQuotes h hbreak) 13⟩
  | true => exact .inr ⟨rfl, exists_junk_of_key key (readAssigned_broken h hbreak) 13⟩

/-- What a label in quotes is read as. -/
theorem parse_labelSource (h : Content content) :
    ∃ p, parse (labelSource content) = .ok p ∧
      (¬ ProtectsBreak content → p.warnings = [] ∧
        (p.graph.node? "A").map Node.label = some (String.ofList (unescape content))) ∧
      (ProtectsBreak content → ∃ d ∈ p.warnings, d.code = some .malformedAttribute) := by
  obtain ⟨p, hparse, hfindings, hnodes⟩ := parse_node (blankComments_labelBody h)
    (readChunk_labelBody h) ⟨'A', by simp [labelBody], by decide⟩ (statements_labelBody h)
  refine ⟨p, hparse, fun hplain => ?_, fun hbreak => ?_⟩
  · have entries := ((readEntries_label h).resolve_right fun hbroken => hplain hbroken.1).2
    constructor
    · rw [Parsed.warnings, hfindings]
      simp [Bracket.findings, bracketInQuotes, entries, Entry.junk?]
    · rw [Graph.node?, hnodes]
      simp [pairsOf, bracketInQuotes, entries, Entry.pair?, NodeSettings.ofPairs, NodeSettings.add,
        Node.redefine, Node.named]
  · obtain ⟨place, hplace⟩ :=
      ((readEntries_label h).resolve_left fun hplain => hplain.1 hbreak).2
    refine ⟨(Finding.malformed place).diagnostic, List.mem_map_of_mem ?_, rfl⟩
    rw [hfindings, List.flatMap_singleton, Bracket.findings]
    refine List.mem_append_right _ (List.mem_map_of_mem ?_)
    exact List.mem_filterMap.2 ⟨.junk place, hplace, rfl⟩

/-- **When a label and an id mean the same.**  As an id, a quoted string always stands for its
    unescaped content.  As a label it stands for the same text, with nothing reported as malformed,
    if and only if no backslash in it protects a line break. -/
theorem label_eq_id_iff (h : Content content) :
    ∃ labelled named, parse (labelSource content) = .ok labelled ∧
      parse (nodeSource content) = .ok named ∧
      named.graph.ids = [String.ofList (unescape content)] ∧ named.warnings = [] ∧
      (¬ ProtectsBreak content → labelled.warnings = []) ∧
      (((labelled.graph.node? "A").map Node.label = some (String.ofList (unescape content)) ∧
        ∀ d ∈ labelled.warnings, d.code ≠ some .malformedAttribute) ↔ ¬ ProtectsBreak content) := by
  obtain ⟨labelled, hlabelled, hplain, hbreak⟩ := parse_labelSource h
  obtain ⟨named, hnamed, hids, hwarnings⟩ := parse_nodeSource h
  refine ⟨labelled, named, hlabelled, hnamed, hids, hwarnings, fun h => (hplain h).1, ?_, ?_⟩
  · rintro ⟨-, hnone⟩ hbroken
    obtain ⟨d, hd, hcode⟩ := hbreak hbroken
    exact hnone d hd hcode
  · intro h
    obtain ⟨hsilent, hlabel⟩ := hplain h
    refine ⟨hlabel, fun d hd => ?_⟩
    rw [hsilent] at hd
    exact nomatch hd

/-- A string with a protected quote, a bracket, a line break and a protected carriage return. -/
theorem label_eq_id_iff_hard :
    let content := ['\\', '"', ']', '\n', '\\', '\x0d', '\\', 'n']
    Content content ∧ ∃ labelled named, parse (labelSource content) = .ok labelled ∧
      parse (nodeSource content) = .ok named ∧
      named.graph.ids = [String.ofList (unescape content)] ∧ named.warnings = [] ∧
      (¬ ProtectsBreak content → labelled.warnings = []) ∧
      (((labelled.graph.node? "A").map Node.label = some (String.ofList (unescape content)) ∧
        ∀ d ∈ labelled.warnings, d.code ≠ some .malformedAttribute) ↔ ¬ ProtectsBreak content) := by
  intro content
  have h : Content content :=
    .slash '"' (.char (by decide) (by decide) (.char (by decide) (by decide)
      (.slash '\x0d' (.slash 'n' .nil))))
  exact ⟨h, label_eq_id_iff h⟩

/-- A label with a protected line break is lost: the node keeps its id as its label. -/
theorem label_lost_at_break :
    let content := ['a', '\\', '\n', 'b']
    Content content ∧
      (parse (labelSource content)).toOption.map (fun p =>
        ((p.graph.node? "A").map Node.label, p.warnings.map Diagnostic.code))
        = some (some "A", [some .malformedAttribute]) ∧
      (parse (nodeSource content)).toOption.map (fun p => p.graph.ids) = some ["ab"] := by
  refine ⟨?_, by decide +kernel, by decide +kernel⟩
  exact .char (by decide) (by decide) (.slash '\n' (.char (by decide) (by decide) .nil))

/-! ## Names -/

/-- A directed graph whose name is a quoted string, with anything behind the opening brace. -/
def namedText (content body : List Char) : List Char :=
  "digraph ".toList ++ (inQuotes content ++ ' ' :: '\x7b' :: body)

/-- A description with a name in quotes. -/
def namedSource (content body : List Char) : String := String.ofList (namedText content body)

/-- Of a description with a name, only the body can hold comments. -/
theorem stripComments_namedText (h : Content content) (body : List Char) :
    stripComments (namedText content body)
      = namedText content (blankComments (.plain false) body) := by
  have keyword : ∀ rest, stripComments ("digraph ".toList ++ rest)
      = "digraph ".toList ++ blankComments (.plain false) rest := fun _ => rfl
  have brace : blankComments (.plain false) (' ' :: '\x7b' :: body)
      = ' ' :: '\x7b' :: blankComments (.plain false) body := rfl
  show stripComments ("digraph ".toList ++ (inQuotes content ++ ' ' :: '\x7b' :: body)) = _
  rw [keyword, blankComments_inQuotes h, brace]
  rfl

/-- The name in a header is read as it is written, if it has no line break. -/
theorem readName?_inQuotes (h : Content content) (hline : '\n' ∉ content) (rest : List Char) :
    readName? (inQuotes content ++ ' ' :: '\x7b' :: rest)
      = some (some (nameOf (inQuotes content)), rest) := by
  have unbroken : continuesLine content = false := by
    rw [← Bool.not_eq_true, h.continuesLine_iff]
    rintro ⟨before, behind, rfl, -⟩
    simp at hline
  have read : readQuotedLine (content ++ '"' :: ' ' :: '\x7b' :: rest)
      = some (content, ' ' :: '\x7b' :: rest) := by
    rw [readQuotedLine, h.readQuoted]
    simp [unbroken]
  have brace : afterBrace? (' ' :: '\x7b' :: rest) = some rest := rfl
  have quoted : readQuotedName? ('"' :: (content ++ '"' :: ' ' :: '\x7b' :: rest))
      = some (inQuotes content, rest) := by
    simp [readQuotedName?, read, brace, inQuotes]
  rw [inQuotes_append, readName?, quoted]
  rfl

/-- A name in quotes is read from its string, whatever follows the opening brace. -/
theorem readHeader?_namedText (h : Content content) (hline : '\n' ∉ content) (body : List Char) :
    ∃ header, readHeader? (namedText content body) = some header ∧
      header.name = some (nameOf (inQuotes content)) := by
  have strict : skipStrict (skipBlanks (namedText content body))
      = (false, namedText content body) := rfl
  have kind : readKind? (namedText content body)
      = some (true, ' ' :: (inQuotes content ++ ' ' :: '\x7b' :: body)) := rfl
  have visible : skipBlanks (' ' :: (inQuotes content ++ ' ' :: '\x7b' :: body))
      = inQuotes content ++ ' ' :: '\x7b' :: body := rfl
  have name := readName?_inQuotes h hline body
  simp only [readHeader?, strict, kind, visible, name, Option.bind_eq_bind, Option.bind_some]
  exact ⟨_, rfl, rfl⟩

/-- A graph with a name in quotes is read, and its name comes from that string alone. -/
theorem parse_namedSource (h : Content content) (hline : '\n' ∉ content) (body : List Char) :
    ∃ p, parse (namedSource content body) = .ok p ∧
      p.graph.name = some (nameOf (inQuotes content)) := by
  obtain ⟨header, hheader, hname⟩ :=
    readHeader?_namedText h hline (blankComments (.plain false) body)
  have stripped : stripComments (namedSource content body).toList
      = namedText content (blankComments (.plain false) body) := by
    rw [namedSource, String.toList_ofList, stripComments_namedText h]
  rw [← stripped] at hheader
  refine ⟨_, parse_of_header hheader, ?_⟩
  rw [name_graph]
  show (readHeader? _).bind Header.name = _
  rw [hheader]
  exact hname

/-- Taking the quotes off a quoted string takes the quotes at the end of its content as well. -/
theorem trimWhere_inQuotes (h : Content content) :
    trimWhere (· == '"') (inQuotes content)
      = (content.reverse.dropWhile (· == '"')).reverse := by
  cases h with
  | nil => rfl
  | slash c => simp [trimWhere, inQuotes]
  | char hquote => simp [trimWhere, inQuotes, hquote]

/-- The text that a name in quotes stands for, when it does not end with a protected quote. -/
theorem nameOf_inQuotes (h : Content content) (hlast : content.getLast? ≠ some '"') :
    nameOf (inQuotes content) = String.ofList (unescape content) := by
  have kept : content.reverse.dropWhile (· == '"') = content.reverse := by
    cases hreverse : content.reverse with
    | nil => rfl
    | cons c rest =>
        rw [← List.head?_reverse, hreverse] at hlast
        exact List.dropWhile_cons_of_neg (by simpa using hlast)
  have opened : (inQuotes content).head? = some '"' := rfl
  rw [nameOf, if_pos opened, trimWhere_inQuotes h, kept, List.reverse_reverse]

/-- A protected quote at the end of a name is lost, and its backslash stays. -/
theorem nameOf_inQuotes_quote {inner : List Char} (h : Content (inner ++ ['\\', '"'])) :
    nameOf (inQuotes (inner ++ ['\\', '"'])) = String.ofList (unescape inner ++ ['\\']) := by
  have left : ((inner ++ ['\\', '"']).reverse.dropWhile (· == '"')).reverse
      = inner ++ ['\\'] := by
    simp
  have opened : (inQuotes (inner ++ ['\\', '"'])).head? = some '"' := rfl
  rw [nameOf, if_pos opened, trimWhere_inQuotes h, left, unescape_slash]
  rfl

/-- **When a name and an id mean the same.**  In a header, a quoted string without a line break
    gives the graph the text that the same string is as an id, if and only if it does not end with
    a protected quote.  If it does, the name ends with the backslash instead of the quote. -/
theorem name_eq_id_iff (h : Content content) (hline : '\n' ∉ content) (body : List Char) :
    ∃ titled named, parse (namedSource content body) = .ok titled ∧
      parse (nodeSource content) = .ok named ∧
      named.graph.ids = [String.ofList (unescape content)] ∧
      (titled.graph.name = some (String.ofList (unescape content)) ↔
        content.getLast? ≠ some '"') ∧
      ∀ inner, content = inner ++ ['\\', '"'] →
        unescape content = unescape inner ++ ['"'] ∧
          titled.graph.name = some (String.ofList (unescape inner ++ ['\\'])) := by
  obtain ⟨titled, htitled, hname⟩ := parse_namedSource h hline body
  obtain ⟨named, hnamed, hids, -⟩ := parse_nodeSource h
  have ended : ∀ inner, content = inner ++ ['\\', '"'] →
      unescape content = unescape inner ++ ['"'] ∧
        titled.graph.name = some (String.ofList (unescape inner ++ ['\\'])) := by
    rintro inner rfl
    rw [hname, nameOf_inQuotes_quote h, unescape_slash]
    exact ⟨rfl, rfl⟩
  refine ⟨titled, named, htitled, hnamed, hids, ⟨fun hsame hlast => ?_, fun hlast => ?_⟩, ended⟩
  · obtain ⟨inner, hinner⟩ := h.getLast?_eq_quote hlast
    obtain ⟨htext, hlost⟩ := ended inner hinner
    rw [hsame, htext] at hlost
    have letters := String.ofList_injective (Option.some.inj hlost)
    simp at letters
  · rw [hname, nameOf_inQuotes h hlast]

/-- A name with a protected quote inside, two backslashes in front of a carriage return, and a
    string behind it that is never closed: it means what the same string means as an id. -/
theorem name_eq_id_iff_inside :
    let content := ['\\', '"', 'a', '\\', '\\', '\x0d']
    let body := ['"', '\n', '\x7d', '#']
    Content content ∧ '\n' ∉ content ∧
      ∃ titled named, parse (namedSource content body) = .ok titled ∧
        parse (nodeSource content) = .ok named ∧
        titled.graph.name = some "\"a\\" ∧ named.graph.ids = ["\"a\\"] := by
  intro content body
  have h : Content content := .slash '"' (.char (by decide) (by decide)
    (.slash '\\' (.char (by decide) (by decide) .nil)))
  have hmeant : String.ofList (unescape content) = "\"a\\" := by decide
  obtain ⟨titled, named, htitled, hnamed, hids, hsame, -⟩ := name_eq_id_iff h (by decide) body
  rw [hmeant] at hids hsame
  exact ⟨h, by decide, titled, named, htitled, hnamed, hsame.2 (by decide), hids⟩

/-- A name that ends with a protected quote is not the text that the string is as an id. -/
theorem name_loses_last_quote :
    let content := ['a', '\\', '"']
    Content content ∧ '\n' ∉ content ∧
      (parse (namedSource content [' ', '\x7d'])).toOption.map (fun p => p.graph.name)
        = some (some "a\\") ∧
      (parse (nodeSource content)).toOption.map (fun p => p.graph.ids) = some ["a\""] := by
  refine ⟨?_, by decide, by decide +kernel, by decide +kernel⟩
  exact .char (by decide) (by decide) (.slash '"' .nil)

end DotLayout.Dot
