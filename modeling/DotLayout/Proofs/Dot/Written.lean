import DotLayout.Proofs.Dot.Bytes.Comments
import DotLayout.Proofs.Dot.Header
import DotLayout.Proofs.Dot.Lists

/-! # Written descriptions

    What the scanners make of a description whose parts are known.  A quoted string in it can be
    an id, the value of an attribute or the name of the graph.  Each of these is read by a scanner
    of its own, and every scanner ends the string at the same quote, whatever its content is.

    * `blankComments_inQuotes`, `readChunk_inQuotes`, `readBracket_inQuotes` and
      `tokensFrom_inQuotes` : the scanners of a body, over a quoted string.
    * `readEntries_pair` and `exists_junk_of_key` : a list of one pair, and a list that starts with
      a key without a value.
    * `parse_digraph` : a whole description, from what its body is read as. -/

namespace DotLayout.Dot

open Text

/-- A string with the given content, as it is written. -/
def inQuotes (content : List Char) : List Char := '"' :: (content ++ ['"'])

theorem inQuotes_append (content rest : List Char) :
    inQuotes content ++ rest = '"' :: (content ++ '"' :: rest) := by
  simp [inQuotes]

variable {content : List Char}

/-! ## Bodies -/

/-- Nothing in a quoted string is a comment. -/
theorem blankComments_inQuotes (h : Content content) (fresh : Bool) (rest : List Char) :
    blankComments (.plain fresh) (inQuotes content ++ rest)
      = inQuotes content ++ blankComments (.plain false) rest := by
  rw [inQuotes_append, inQuotes_append, blankComments_opening, blankComments_string,
    h.readQuoted]
  rfl

/-- A chunk goes on behind a text in quotes. -/
theorem readChunk_inQuotes (h : Content content) (rest : List Char) :
    readChunk (inQuotes content ++ rest) = inFront (inQuotes content) (readChunk rest) := by
  rw [inQuotes_append]
  exact readChunk_string (h.readQuoted rest)

/-- A list goes on behind a text in quotes. -/
theorem readBracket_inQuotes (h : Content content) (rest : List Char) :
    readBracket (inQuotes content ++ rest) = (readBracket rest).after (inQuotes content) := by
  rw [inQuotes_append]
  exact readBracket_string (h.readQuoted rest)

/-- Characters without a meaning of their own belong to the chunk that they stand in. -/
theorem readChunk_ordinary {run : List Char}
    (h : ∀ c ∈ run, endsChunk c = false ∧ c ≠ '"' ∧ c ≠ '[') (rest : List Char) :
    readChunk (run ++ rest) = inFront run (readChunk rest) := by
  induction run with
  | nil => rfl
  | cons c run ih =>
      obtain ⟨⟨hend, hquote, hlist⟩, hrun⟩ := List.forall_mem_cons.1 h
      rw [List.cons_append, readChunk_other (by rw [hend]; decide) hquote hlist, ih hrun]
      rfl

theorem readChunk_blank (rest : List Char) :
    readChunk (' ' :: rest) = inFront [' '] (readChunk rest) :=
  readChunk_other (by decide) (by decide) (by decide) rest

/-- Characters without a meaning of their own belong to the list that they stand in. -/
theorem readBracket_ordinary {run : List Char}
    (h : ∀ c ∈ run, endsList c = false ∧ c ≠ '"' ∧ c ≠ ']') (rest : List Char) :
    readBracket (run ++ rest) = (readBracket rest).after run := by
  induction run with
  | nil => rfl
  | cons c run ih =>
      obtain ⟨⟨hend, hquote, hclose⟩, hrun⟩ := List.forall_mem_cons.1 h
      rw [List.cons_append, readBracket, if_neg hclose, if_neg (by rw [hend]; decide),
        if_neg hquote, ih hrun]
      rfl

/-! ## Tokens -/

/-- The word that a quoted string at a position is. -/
def wordInQuotes (start : Nat) (content : List Char) : Word :=
  ⟨String.ofList (unescape content), true, ⟨start, inQuotes content⟩⟩

/-- Blanks are left out between tokens. -/
theorem tokensFrom_blank (start : Nat) (rest : List Char) :
    tokensFrom start (' ' :: rest) = tokensFrom (start + 1) rest := by
  rw [tokensFrom, if_pos (by decide)]
  rfl

/-- A text in quotes is read as a word. -/
theorem tokensFrom_inQuotes (h : Content content) (start : Nat) (rest : List Char) :
    tokensFrom start (inQuotes content ++ ' ' :: rest)
      = .word (wordInQuotes start content)
        :: tokensFrom ((wordInQuotes start content).place.stop + 1) rest := by
  have ports : readPorts (' ' :: rest) = ([], ' ' :: rest) := by simp [readPorts]
  have token : readToken start '"' (content ++ '"' :: ' ' :: rest)
      = (.word (wordInQuotes start content), ' ' :: rest) := by
    simp [readToken, readQuotedWord, h.readQuoted, ports, wordInQuotes, inQuotes]
  rw [inQuotes_append, tokensFrom, if_neg (by decide), token, tokensFrom_blank]
  rfl

/-! ## Attribute lists -/

/-- The attribute list with a content, at a position. -/
def bracketAt (start : Nat) (content : List Char) : Bracket :=
  ⟨⟨start + 1, content⟩, true, ⟨start, '[' :: (content ++ [']'])⟩⟩

section Closed

variable {rest : List Char} (h : readBracket (content ++ ']' :: rest) = ⟨content, true, rest⟩)
include h

/-- A list that ends at its own bracket belongs to the chunk that it stands in. -/
theorem readChunk_closed :
    readChunk ('[' :: (content ++ ']' :: rest))
      = inFront ('[' :: (content ++ [']'])) (readChunk rest) := by
  rw [readChunk_list (by rw [h]), h]
  rfl

/-- A list that is closed is read as a token. -/
theorem tokensFrom_closed (start : Nat) :
    tokensFrom start ('[' :: (content ++ ']' :: rest))
      = .bracket (bracketAt start content)
        :: tokensFrom (bracketAt start content).place.stop rest := by
  have token : readToken start '[' (content ++ ']' :: rest)
      = (.bracket (bracketAt start content), rest) := by
    simp [readToken, readList, h, bracketAt, BracketText.closing]
  rw [tokensFrom, if_neg (by decide), token]
  rfl

end Closed

/-- The list that gives a label in quotes, without its brackets. -/
def labelEntry (content : List Char) : List Char :=
  ['l', 'a', 'b', 'e', 'l', '='] ++ inQuotes content

/-- The list that gives a label ends at its own bracket. -/
theorem readBracket_labelEntry (h : Content content) (rest : List Char) :
    readBracket (labelEntry content ++ ']' :: rest) = ⟨labelEntry content, true, rest⟩ := by
  have closed : readBracket (']' :: rest) = ⟨[], true, rest⟩ := by rw [readBracket, if_pos rfl]
  have key : ∀ c ∈ ['l', 'a', 'b', 'e', 'l', '='], endsList c = false ∧ c ≠ '"' ∧ c ≠ ']' := by
    simp [endsList]
  rw [labelEntry, List.append_assoc, readBracket_ordinary key, readBracket_inQuotes h, closed]
  simp only [BracketText.after, List.append_nil]

/-- A chunk goes on behind a list with a label. -/
theorem readChunk_labelEntry (h : Content content) (rest : List Char) :
    readChunk ('[' :: (labelEntry content ++ ']' :: rest))
      = inFront ('[' :: (labelEntry content ++ [']'])) (readChunk rest) :=
  readChunk_closed (readBracket_labelEntry h rest)

/-- The attribute list that gives a label in quotes, at a position. -/
def bracketInQuotes (start : Nat) (content : List Char) : Bracket :=
  ⟨⟨start + 1, labelEntry content⟩, true, ⟨start, '[' :: (labelEntry content ++ [']'])⟩⟩

/-- A list with a label is read as a token. -/
theorem tokensFrom_labelEntry (h : Content content) (start : Nat) (rest : List Char) :
    tokensFrom start ('[' :: (labelEntry content ++ ']' :: rest))
      = .bracket (bracketInQuotes start content)
        :: tokensFrom (bracketInQuotes start content).place.stop rest :=
  tokensFrom_closed (readBracket_labelEntry h rest) start

/-- A quoted value without a protected line break is read as what it stands for. -/
theorem readAssigned_inQuotes (h : Content content) (hbreak : continuesLine content = false) :
    readAssigned ('=' :: inQuotes content)
      = some ⟨'=' :: inQuotes content, unescape content, []⟩ := by
  have read : readQuotedLine (content ++ ['"']) = some (content, []) := by
    rw [readQuotedLine, h.readQuoted]
    simp [hbreak]
  simp [readAssigned, inQuotes, isBlank, readValue, read]

/-- A quoted value with a protected line break is no value. -/
theorem readAssigned_broken (h : Content content) (hbreak : continuesLine content = true) :
    readAssigned ('=' :: inQuotes content) = none := by
  have read : readQuotedLine (content ++ ['"']) = none := by
    rw [readQuotedLine, h.readQuoted]
    simp [hbreak]
  simp [readAssigned, inQuotes, isBlank, readValue, read]

/-- The end of a key is the sign behind it. -/
theorem span_key {key : List Char} (h : ∀ c ∈ key, isKeyChar c = true) (rest : List Char) :
    (key ++ '=' :: rest).takeWhile isKeyChar = key
      ∧ (key ++ '=' :: rest).dropWhile isKeyChar = '=' :: rest := by
  have sign : ¬ isKeyChar '=' = true := by decide
  constructor
  · rw [List.takeWhile_append_of_pos h, List.takeWhile_cons_of_neg sign, List.append_nil]
  · rw [List.dropWhile_append_of_pos h, List.dropWhile_cons_of_neg sign]

section Pairs

variable {c : Char} {key written value : List Char}

/-- A list of one pair holds that pair, and nothing else. -/
theorem readEntries_pair (hkey : ∀ d ∈ c :: key, isKeyChar d = true)
    (hvalue : readAssigned ('=' :: written) = some ⟨'=' :: written, value, []⟩) (start : Nat) :
    readEntries ⟨start, c :: key ++ '=' :: written⟩
      = [.pair ⟨String.ofList (c :: key), String.ofList value⟩
          ⟨start, c :: key ++ '=' :: written⟩] := by
  obtain ⟨hc, hrest⟩ := List.forall_mem_cons.1 hkey
  obtain ⟨taken, left⟩ := span_key hrest written
  have ended : ∀ p, entriesAfter p [] [] = [] := fun _ => by
    rw [entriesAfter]
    rfl
  show entriesAfter start [] (c :: (key ++ '=' :: written)) = _
  rw [entriesAfter, if_pos hc]
  simp only [taken, left]
  split
  · rename_i reading hread
    rw [left] at hread
    obtain rfl := Option.some.inj (hread.symm.trans hvalue)
    show junkIn ⟨start, []⟩ ++ Entry.pair ⟨String.ofList (c :: key), String.ofList value⟩
      ⟨start, c :: key ++ '=' :: written⟩ :: entriesAfter _ [] [] = _
    rw [ended]
    rfl
  · rename_i hread
    rw [left] at hread
    cases hread.symm.trans hvalue

/-- A gap with anything but separators in it has something that is no pair. -/
theorem exists_junkIn {start : Nat} {gap : List Char} (h : ∃ d ∈ gap, isSeparator d = false) :
    ∃ place, .junk place ∈ junkIn ⟨start, gap.reverse⟩ := by
  obtain ⟨d, hd, hkept⟩ := h
  rw [junkIn]
  split
  · rename_i hnil
    have dropped := forall_of_trimWhere_eq_nil (List.isEmpty_iff.1 hnil) d (List.mem_reverse.2 hd)
    exact absurd (hkept.symm.trans dropped) Bool.false_ne_true
  · exact ⟨_, List.mem_singleton.2 rfl⟩

/-- Once a gap holds something, it is junk, whatever follows. -/
theorem exists_junk {start : Nat} {gap text : List Char} (h : ∃ d ∈ gap, isSeparator d = false) :
    ∃ place, .junk place ∈ entriesAfter start gap text := by
  fun_induction entriesAfter start gap text with
  | case1 => exact exists_junkIn h
  | case2 =>
      obtain ⟨place, hplace⟩ := exists_junkIn h
      exact ⟨place, List.mem_append_left _ hplace⟩
  | case3 _ _ _ _ _ _ _ _ ih =>
      obtain ⟨d, hd, hkept⟩ := h
      exact ih ⟨d, List.mem_append_right _ hd, hkept⟩
  | case4 _ _ _ _ _ ih =>
      obtain ⟨d, hd, hkept⟩ := h
      exact ih ⟨d, List.mem_cons_of_mem _ hd, hkept⟩

/-- A key without a value is junk. -/
theorem exists_junk_of_key (hkey : ∀ d ∈ c :: key, isKeyChar d = true)
    (hvalue : readAssigned ('=' :: written) = none) (start : Nat) :
    ∃ place, .junk place ∈ readEntries ⟨start, c :: key ++ '=' :: written⟩ := by
  obtain ⟨hc, hrest⟩ := List.forall_mem_cons.1 hkey
  obtain ⟨taken, left⟩ := span_key hrest written
  show ∃ place, .junk place ∈ entriesAfter start [] (c :: (key ++ '=' :: written))
  rw [entriesAfter, if_pos hc]
  simp only [taken, left]
  split
  · rename_i reading hread
    rw [left] at hread
    cases hread.symm.trans hvalue
  · rw [entriesAfter, if_neg (by decide)]
    exact exists_junk ⟨'=', List.mem_cons_self, by decide⟩

end Pairs

/-! ## Descriptions -/

theorem chunksFrom_nil (start : Nat) : chunksFrom start [] = [] := by
  have chunk : readChunk [] = ([], []) := by rw [readChunk]
  rw [chunksFrom]
  split
  · rw [chunk]
    rfl
  · rename_i hrest
    rw [chunk] at hrest
    cases hrest

/-- A chunk ends in front of a delimiter, and the next one starts behind it. -/
theorem chunksFrom_cons {start : Nat} {text chunk after : List Char} {c : Char}
    (h : readChunk text = (chunk, c :: after)) :
    chunksFrom start text
      = keepChunk ⟨start, chunk⟩ ++ chunksFrom (start + byteLength chunk + c.utf8Size) after := by
  rw [chunksFrom]
  split
  · rename_i hrest
    rw [h] at hrest
    cases hrest
  · rename_i hrest
    rw [h] at hrest ⊢
    obtain ⟨rfl, rfl⟩ := List.cons.inj hrest
    rfl

/-- A text without delimiters is one chunk. -/
theorem chunksFrom_of_whole {start : Nat} {text : List Char} (h : readChunk text = (text, [])) :
    chunksFrom start text = keepChunk ⟨start, text⟩ := by
  rw [chunksFrom]
  split
  · rw [h]
  · rename_i hrest
    rw [h] at hrest
    cases hrest

/-- A chunk with anything but blanks in it is kept. -/
theorem keepChunk_visible {start : Nat} {text : List Char} (h : ∃ c ∈ text, isBlank c = false) :
    keepChunk ⟨start, text⟩ = [⟨start, text⟩] := by
  obtain ⟨c, hc, hvisible⟩ := h
  rw [keepChunk, if_neg]
  intro hnil
  have blank := forall_of_trimWhere_eq_nil (List.isEmpty_iff.1 hnil) c hc
  exact absurd (hvisible.symm.trans blank) Bool.false_ne_true

/-- A directed graph without a name, with the given text between its braces. -/
def digraphText (body : List Char) : List Char := "digraph \x7b".toList ++ (body ++ ['\x7d'])

/-- A directed graph with a body and no name. -/
def digraph (body : List Char) : String := String.ofList (digraphText body)

/-- The header of such a graph, with its opening and its body in place. -/
def digraphHeader (body : List Char) : Header where
  strict := false
  directed := true
  name := none
  opening := ⟨0, "digraph \x7b".toList⟩
  body := ⟨9, body⟩
  closed := true

/-- The header of such a graph is found. -/
theorem readHeader?_digraph (body : List Char) :
    readHeader? (digraphText body) = some (digraphHeader body) := by
  have strict : skipStrict (skipBlanks (digraphText body)) = (false, digraphText body) := rfl
  have kind : readKind? (digraphText body)
      = some (true, " \x7b".toList ++ (body ++ ['\x7d'])) := rfl
  have name : readName? (skipBlanks (" \x7b".toList ++ (body ++ ['\x7d'])))
      = some (none, body ++ ['\x7d']) := rfl
  have inside : beforeLastBrace? (body ++ ['\x7d']) = some body :=
    beforeLastBrace?_append body List.not_mem_nil
  have opening : (digraphText body).take ((digraphText body).length - (body ++ ['\x7d']).length)
      = "digraph \x7b".toList := take_opening _ _
  simp only [readHeader?, strict, kind, name, Option.bind_eq_bind, Option.bind_some, inside,
    opening]
  rfl

/-- A description without comments whose body sets no attribute of the graph adds what its
    statements add, and reports what they report. -/
theorem parse_digraph {body : List Char} {ss : List Statement}
    (hplain : blankComments (.plain false) (body ++ ['\x7d']) = body ++ ['\x7d'])
    (hread : ((chunks ⟨9, body⟩).map tokens).flatMap statements = ss)
    (hsettings : ss.flatMap Statement.settings = []) :
    parse (digraph body) = .ok ⟨ss.foldl (Statement.addTo .curved) (.empty true none),
      ss.flatMap (Statement.findings true)⟩ := by
  have stripped : stripComments (digraph body).toList = digraphText body := by
    rw [digraph, String.toList_ofList]
    show "digraph \x7b".toList ++ blankComments (.plain false) (body ++ ['\x7d']) = _
    rw [hplain]
    rfl
  have document : Document.ofText (digraphText body)
      = ⟨some (digraphHeader body), (chunks ⟨9, body⟩).map tokens, true, ss⟩ := by
    rw [ofText_of_header (readHeader?_digraph body)]
    show Document.mk _ _ _ (((chunks ⟨9, body⟩).map tokens).flatMap statements) = _
    rw [hread]
    rfl
  have attributes : (Document.ofText (digraphText body)).attributes = {} := by
    rw [Document.attributes, document, hsettings]
    rfl
  -- no statement sets an attribute of the graph, so the edges keep their kind
  have kind : (Document.ofText (digraphText body)).edgeKind = .curved := by
    rw [Document.edgeKind, attributes]
    rfl
  have header := readHeader?_digraph body
  rw [← stripped] at header
  rw [parse_of_header header, stripped]
  simp only [Document.graph, Document.findings, kind, attributes]
  rw [document]
  rfl

end DotLayout.Dot
