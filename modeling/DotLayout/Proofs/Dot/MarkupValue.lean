import DotLayout.Proofs.Dot.BehindBrace
import DotLayout.Proofs.Dot.CommentMarks
import DotLayout.Proofs.Dot.ListContent
import DotLayout.Proofs.Dot.NodeStatement
import DotLayout.Proofs.Dot.QuotedText

/-! # Markup values

    A value may be written in angle brackets, with groups in angle brackets inside.  Only the reader
    of attribute lists knows such values; before it come the scanners of comments, chunks and lists,
    for which the value is text like any other.

    * `Markup` : what may stand between the brackets.  It is read (`Markup.readMarkup`), and nothing
      else is (`markup_of_readMarkup`).
    * `kept_of_unmarked` : a value in which the other scanners find nothing is read as it is.
    * `exists_pair` and `value_infix` : a value of a node comes from an attribute list that has it
      in its text, where brackets and braces would have ended the list.
    * `markup_kept_iff` : so no other value is read as it is. -/

namespace DotLayout.Dot

open Text Text.Quoting

/-! ## Markup -/

/-- What may stand between the angle brackets of a value. -/
inductive Markup : List Char → Prop where
  | nil : Markup []
  | char {c : Char} {value : List Char} (hopen : c ≠ '<') (hclose : c ≠ '>')
      (tail : Markup value) : Markup (c :: value)
  | group {inner value : List Char} (hopen : '<' ∉ inner) (hclose : '>' ∉ inner)
      (tail : Markup value) : Markup ('<' :: (inner ++ '>' :: value))

theorem readMarkup_group {inner rest : List Char} (hopen : '<' ∉ inner) (hclose : '>' ∉ inner) :
    readMarkup true (inner ++ '>' :: rest)
      = (readMarkup false rest).map (inFront (inner ++ ['>'])) := by
  induction inner with
  | nil => rfl
  | cons c inner ih =>
      rw [List.mem_cons, not_or] at hopen hclose
      rw [List.cons_append, readMarkup, if_neg (Ne.symm hclose.1), if_neg (Ne.symm hopen.1),
        ih hopen.2 hclose.2, Option.map_map]
      rfl

/-- Markup is read up to its own bracket, whatever follows. -/
theorem Markup.readMarkup {value : List Char} (h : Markup value) (rest : List Char) :
    readMarkup false (value ++ '>' :: rest) = some (value, rest) := by
  induction h with
  | nil => rfl
  | char hopen hclose _ ih =>
      rw [List.cons_append, Dot.readMarkup, if_neg hclose, if_neg hopen, ih]
      rfl
  | @group inner value hopen hclose _ ih =>
      have hsplit : '<' :: (inner ++ '>' :: value) ++ '>' :: rest
          = '<' :: (inner ++ '>' :: (value ++ '>' :: rest)) := by simp
      rw [hsplit, Dot.readMarkup, if_neg (by decide), if_pos rfl, if_neg (by decide),
        readMarkup_group hopen hclose, ih]
      simp [inFront]

/-- The rest of a group, and the markup behind it. -/
def GroupRest (text : List Char) : Prop :=
  ∃ inner value, text = inner ++ '>' :: value ∧ ('<' ∉ inner ∧ '>' ∉ inner) ∧ Markup value

/-- Nothing else is read as markup. -/
theorem markup_of_readMarkup {inGroup : Bool} {text : List Char} {cut : List Char × List Char}
    (h : readMarkup inGroup text = some cut) :
    match inGroup with
    | false => Markup cut.1
    | true => GroupRest cut.1 := by
  induction text generalizing inGroup cut with
  | nil => exact absurd h.symm (Option.some_ne_none _)
  | cons c rest ih =>
      rw [readMarkup] at h
      split at h
      · -- `>` ends the value, or the group
        subst c
        cases inGroup with
        | false =>
            obtain rfl := Option.some.inj h
            exact .nil
        | true =>
            obtain ⟨inner, hread, rfl⟩ := Option.map_eq_some_iff.1 h
            exact ⟨[], inner.1, rfl, by simp, ih hread⟩
      · rename_i hclose
        -- `<` opens a group, and there is none inside another
        split at h
        · subst c
          cases inGroup with
          | false =>
              obtain ⟨inner, hread, rfl⟩ := Option.map_eq_some_iff.1 h
              obtain ⟨group, value, hsplit, hgroup, hvalue⟩ := ih hread
              rw [inFront_fst, hsplit]
              exact .group hgroup.1 hgroup.2 hvalue
          | true => exact absurd h.symm (Option.some_ne_none _)
        · -- any other character belongs to what is being read
          rename_i hopen
          obtain ⟨inner, hread, rfl⟩ := Option.map_eq_some_iff.1 h
          cases inGroup with
          | false => exact .char hopen hclose (ih hread)
          | true =>
              obtain ⟨group, value, hsplit, hgroup, hvalue⟩ := ih hread
              refine ⟨c :: group, value, by rw [inFront_fst, hsplit]; rfl, ?_, hvalue⟩
              simp [hgroup, Ne.symm hopen, Ne.symm hclose]

instance (value : List Char) : Decidable (Markup value) :=
  decidable_of_iff (readMarkup false (value ++ ['>']) = some (value, []))
    ⟨fun h => markup_of_readMarkup h, fun h => h.readMarkup []⟩

/-- The list that gives a tooltip in markup, without its brackets. -/
def markupEntry (value : List Char) : List Char := "tooltip=<".toList ++ (value ++ ['>'])

/-- A description of the node `A` with a tooltip in markup. -/
def markupSource (value : List Char) : String := digraph (listBody (markupEntry value))

/-- No scanner finds anything in a text: no end of a list, and no comment. -/
structure Unmarked (text : List Char) : Prop where
  lists : ∀ c ∈ text, c ≠ ']' ∧ endsList c = false
  comments : Uncommented false text

/-- Comments are looked for in the value only: none can start or end around it. -/
theorem uncommented_between {a b text : List Char} {fresh : Bool}
    (ha : '"' ∉ a ∧ '/' ∉ a ∧ '#' ∉ a) (hb : '/' ∉ b ∧ '#' ∉ b) (hhead : b.head? ≠ some '*') :
    Uncommented fresh (a ++ (text ++ b)) ↔ Uncommented (lineAfter fresh a) text := by
  have noHash : ∀ {q line} {piece : List Char}, '#' ∉ piece → ¬ HashAt q line piece := by
    rintro q line piece hpiece ⟨front, behind, rfl, -⟩
    exact hpiece (List.mem_append_right _ List.mem_cons_self)
  have hslash : b.head? ≠ some '/' := fun h => hb.1 (List.mem_of_mem_head? h)
  have hhash : HashAt outside fresh (a ++ (text ++ b))
      ↔ HashAt outside (lineAfter fresh a) text := by
    rw [hashAt_append, hashAt_append, after_of_noQuote ha.1, or_iff_right (noHash ha.2.2),
      or_iff_left (noHash hb.2)]
  constructor
  · rintro ⟨hslashes, hblock, hnone⟩
    rw [infix_pair_between ha.2.1 hb.1 hslash] at hslashes
    rw [infix_pair_between ha.2.1 hb.1 hhead] at hblock
    exact ⟨hslashes, hblock, hhash.not.1 hnone⟩
  · rintro ⟨hslashes, hblock, hnone⟩
    refine ⟨?_, ?_, hhash.not.2 hnone⟩
    · rwa [infix_pair_between ha.2.1 hb.1 hslash]
    · rwa [infix_pair_between ha.2.1 hb.1 hhead]

/-! ## Values that are kept -/

section

variable {value : List Char}

theorem markupBody_eq (value : List Char) :
    listBody (markupEntry value) ++ ['\x7d']
      = " A [tooltip=<".toList ++ (value ++ ">] \x7d".toList) := by
  unfold listBody markupEntry
  simp only [List.append_assoc]
  rfl

theorem noQuote_markupBody (hquote : '"' ∉ value) :
    '"' ∉ listBody (markupEntry value) ++ ['\x7d'] := by
  rw [markupBody_eq]
  simp [hquote]

/-- Blanking the comments of the description changes nothing if there is none in the value. -/
theorem blankComments_markup_iff (hquote : '"' ∉ value) :
    blankComments (.plain false) (listBody (markupEntry value) ++ ['\x7d'])
        = listBody (markupEntry value) ++ ['\x7d'] ↔ Uncommented false value := by
  rw [blankComments_eq_self_iff (noQuote_markupBody hquote), markupBody_eq,
    uncommented_between (by decide) (by decide) (by decide)]
  rfl

/-- A list with a markup value that is not marked ends at its own bracket. -/
theorem readBracket_markupEntry (h : Unmarked value) (hquote : '"' ∉ value) (rest : List Char) :
    readBracket (markupEntry value ++ ']' :: rest) = ⟨markupEntry value, true, rest⟩ := by
  have closed : readBracket (']' :: rest) = ⟨[], true, rest⟩ := by rw [readBracket, if_pos rfl]
  have ordinary : ∀ c ∈ markupEntry value, endsList c = false ∧ c ≠ '"' ∧ c ≠ ']' := by
    intro c hc
    unfold markupEntry at hc
    rw [List.mem_append, List.mem_append] at hc
    rcases hc with hkey | hvalue | hclose
    · have key : ∀ c ∈ "tooltip=<".toList, endsList c = false ∧ c ≠ '"' ∧ c ≠ ']' := by
        simp [endsList]
      exact key c hkey
    · exact ⟨(h.lists c hvalue).2, fun heq => hquote (heq ▸ hvalue), (h.lists c hvalue).1⟩
    · obtain rfl := List.mem_singleton.1 hclose
      decide
  rw [readBracket_ordinary ordinary, closed]
  simp only [BracketText.after, List.append_nil]

theorem readEntries_markup (h : Markup value) (start : Nat) :
    readEntries ⟨start, markupEntry value⟩
      = [.pair ⟨"tooltip", String.ofList value⟩ ⟨start, markupEntry value⟩] := by
  have key : ∀ c ∈ "tooltip".toList, isKeyChar c = true := List.all_eq_true.1 (by decide)
  have assigned : readAssigned ('=' :: '<' :: (value ++ ['>']))
      = some ⟨'=' :: '<' :: (value ++ ['>']), value, []⟩ := by
    simp [readAssigned, isBlank, readValue, h.readMarkup]
  exact readEntries_pair key assigned start

/-- A value that is not marked is read as it is, without warnings. -/
theorem kept_of_unmarked {p : Parsed} (h : Markup value) (hquote : '"' ∉ value)
    (hplain : Unmarked value) (hparse : parse (markupSource value) = .ok p) :
    p.warnings = [] ∧ ∃ n ∈ p.graph.nodes, n.id = "A" ∧
      n.style.extra.get? "tooltip" = some (String.ofList value) := by
  have list := readBracket_markupEntry hplain hquote [' ']
  obtain ⟨read, hread, hfindings, hnodes⟩ := parse_node
    ((blankComments_markup_iff hquote).2 hplain.comments) (readChunk_listBody list)
    ⟨'A', by simp [listBody], by decide⟩ (statements_listBody list)
  obtain rfl := Except.ok.inj (hparse.symm.trans hread)
  have entries := readEntries_markup h 13
  constructor
  · rw [Parsed.warnings, hfindings]
    simp [Bracket.findings, bracketAt, entries, Entry.junk?]
  · refine ⟨_, hnodes ▸ List.mem_singleton_self _, rfl, ?_⟩
    simp [pairsOf, bracketAt, entries, Entry.pair?, NodeSettings.ofPairs, NodeSettings.add,
      Node.redefine, Node.named, NodeStyle.merge]
    rfl

end

/-! ## Where values come from -/

section

variable {b : Bracket} {p : Pair} {place content : Excerpt} {text : List Char} {reading : Reading}

/-- A value without quotes stands in what it was read from. -/
theorem value_infix_readValue (h : readValue text = some reading) (hquote : '"' ∉ reading.written) :
    reading.value <:+: reading.written := by
  have bare : ∀ {text}, readBare text = some reading → reading.value <:+: reading.written := by
    intro text hbare
    rw [readBare] at hbare
    split at hbare
    · exact nomatch hbare
    · obtain rfl := Option.some.inj hbare
      exact List.infix_rfl
  rw [readValue.eq_def] at h
  split at h
  · obtain ⟨cut, -, rfl⟩ := Option.map_eq_some_iff.1 h
    exact absurd List.mem_cons_self hquote
  · rcases Option.or_eq_some_iff.1 h with hmarkup | ⟨-, hbare⟩
    · obtain ⟨cut, -, rfl⟩ := Option.map_eq_some_iff.1 hmarkup
      exact ⟨['<'], ['>'], rfl⟩
    · exact bare hbare
  · exact bare h

theorem value_infix (h : .pair p place ∈ readEntries content) (hquote : '"' ∉ place.chars) :
    p.value.toList <:+: place.chars := by
  obtain ⟨c, key, behind, reading, hchars, -, hread, rfl⟩ := exists_assigned h
  rw [hchars, List.mem_append, not_or] at hquote
  rw [hchars, String.toList_ofList]
  refine List.IsInfix.trans ?_ (List.suffix_append _ _).isInfix
  rw [readAssigned] at hread
  split at hread
  · obtain ⟨inner, hvalue, rfl⟩ := Option.map_eq_some_iff.1 hread
    have hinner := hquote.2
    dsimp only at hinner ⊢
    rw [List.mem_append, not_or] at hinner
    exact (value_infix_readValue hvalue hinner.2).trans (List.suffix_append _ _).isInfix
  · exact absurd hread.symm (Option.some_ne_none _)

/-- What an attribute of a node says was read from an attribute list. -/
theorem exists_pair {d : Document} {n : Node} {key value : String} (hn : n ∈ d.graph.nodes)
    (hvalue : n.style.extra.get? key = some value) :
    ∃ s ∈ d.statements, ∃ b, .bracket b ∈ s.tokens ∧
      ∃ place, .pair ⟨key, value⟩ place ∈ readEntries b.content := by
  have hshows := ((shows_graph d).nodes n hn).style.extra
  rw [hshows, OrderedMap.get?_ofList, OrderedMap.lastGiven?] at hvalue
  obtain ⟨entry, hentry, hentryValue⟩ := List.mem_map.1 (List.mem_of_getLast? hvalue)
  obtain ⟨hother, hkey⟩ := List.mem_filter.1 hentry
  obtain ⟨s, hs, hsays⟩ := List.mem_flatMap.1 (List.mem_filter.1 hother).1
  refine ⟨s, hs, ?_⟩
  -- only a chain of one word says anything about a node
  rw [Statement.entriesFor.eq_def] at hsays
  split at hsays
  · rename_i head dangling lists
    split at hsays
    · obtain ⟨pair, hpair, rfl⟩ := List.mem_map.1 hsays
      obtain ⟨b, hb, hread⟩ := List.mem_flatMap.1 hpair
      obtain ⟨e, he, heq⟩ := List.mem_filterMap.1 hread
      refine ⟨b, ?_, ?_⟩
      · simp [Statement.tokens, hb]
      · cases e with
        | junk place => exact absurd heq.symm (Option.some_ne_none _)
        | pair other place =>
            obtain rfl := Option.some.inj heq
            obtain rfl : other.key = key := eq_of_beq hkey
            obtain rfl : other.value = value := hentryValue
            exact ⟨place, he⟩
    · exact absurd hsays List.not_mem_nil
  · exact absurd hsays List.not_mem_nil

/-- Without quotes a list ends at the first bracket or brace. -/
theorem content_ordinary (h : '"' ∉ text) :
    ∀ c ∈ (readBracket text).content, c ≠ ']' ∧ endsList c = false := by
  fun_induction readBracket text with
  | case1 => exact List.forall_mem_nil _
  | case2 => exact List.forall_mem_nil _
  | case3 => exact List.forall_mem_nil _
  | case4 => exact absurd List.mem_cons_self h
  | case5 => exact absurd List.mem_cons_self h
  | case6 c rest hclose hends _ ih =>
      rw [List.mem_cons, not_or] at h
      refine List.forall_mem_cons.2 ⟨⟨hclose, eq_false_of_ne_true hends⟩, ih h.2⟩

/-- In a text without quotes, a value of a node stands in the text, and has nothing that would end
    an attribute list. -/
theorem value_in_text {n : Node} {key value : String} (hquote : '"' ∉ text)
    (hn : n ∈ (Document.ofText text).graph.nodes)
    (hvalue : n.style.extra.get? key = some value) :
    value.toList <:+: text ∧ ∀ c ∈ value.toList, c ≠ ']' ∧ endsList c = false := by
  obtain ⟨s, hs, b, hb, place, hpair⟩ := exists_pair hn hvalue
  have htoken := mem_flatten_of_statements (statements_ofText text ▸ hs) hb
  have infix_of_part : ∀ {e whole : Excerpt}, e.PartOf whole → e.chars <:+: whole.chars := by
    rintro e whole ⟨before, after, hsplit, -⟩
    exact ⟨before, after, by rw [hsplit, List.append_assoc]⟩
  have hplace := infix_of_part ((pieces_entries b.content).partOf place (List.mem_map_of_mem hpair))
  have hsolid := solidToken_document htoken
  have hcontent : b.content.chars <:+: text :=
    infix_of_part ((hsolid.2 b rfl).partOf.trans hsolid.1.partOf)
  have hstands := value_infix hpair fun hmem => hquote ((hplace.trans hcontent).subset hmem)
  refine ⟨hstands.trans (hplace.trans hcontent), fun c hc => ?_⟩
  -- the list was read from a part of the text, which has no quotes either
  obtain ⟨ts, hts, hmem⟩ := List.mem_flatten.1 htoken
  obtain ⟨chunk, hchunk, rfl⟩ := List.mem_map.1 hts
  have hwhole : chunk.chars <:+: text :=
    infix_of_part ((solid_chunks hchunk).partOf.trans (solid_bodyOf text).partOf)
  obtain ⟨front, rest, hsplit, hchars⟩ := exists_readBracket hmem
  have hrest : '"' ∉ rest := by
    intro hmem
    refine hquote (hwhole.subset ?_)
    rw [hsplit]
    exact List.mem_append_right _ (List.mem_cons_of_mem _ hmem)
  refine content_ordinary hrest c ?_
  rw [← hchars]
  exact hplace.subset (hstands.subset hc)

end

/-! ## The description of one node -/

theorem readHeader?_opening (body : List Char) :
    ∃ header, readHeader? ("digraph \x7b".toList ++ body) = some header := by
  have strict : skipStrict (skipBlanks ("digraph \x7b".toList ++ body))
      = (false, "digraph \x7b".toList ++ body) := rfl
  have kind : readKind? ("digraph \x7b".toList ++ body) = some (true, " \x7b".toList ++ body) := rfl
  have name : readName? (skipBlanks (" \x7b".toList ++ body)) = some (none, body) := rfl
  simp only [readHeader?, strict, kind, name, Option.bind_eq_bind, Option.bind_some]
  exact ⟨_, rfl⟩

section

variable {value : List Char}

theorem stripComments_digraph (body : List Char) :
    stripComments (digraph body).toList
      = "digraph \x7b".toList ++ blankComments (.plain false) (body ++ ['\x7d']) := by
  rw [digraph, String.toList_ofList]
  rfl

/-- A value that is read from the description without its comments had none in it. -/
theorem uncommented_of_infix (hquote : '"' ∉ value)
    (h : value <:+: stripComments (markupSource value).toList) : Uncommented false value := by
  rw [← blankComments_markup_iff hquote]
  refine blankComments_eq_self_of_countP ?_
  have hcount := h.sublist.countP_le (p := isMark)
  rw [markupSource, stripComments_digraph, List.countP_append] at hcount
  have hfront : "digraph \x7b".toList.countP isMark = 0 := by decide
  have hbefore : " A [tooltip=<".toList.countP isMark = 0 := by decide
  have hbehind : ">] \x7d".toList.countP isMark = 0 := by decide
  have hall : (listBody (markupEntry value) ++ ['\x7d']).countP isMark = value.countP isMark := by
    rw [markupBody_eq, List.countP_append, List.countP_append, hbefore, hbehind, Nat.zero_add,
      Nat.add_zero]
  omega

/-- **Which markup values are kept.**  The description of a node with a tooltip in angle brackets,
    with groups in angle brackets and without quotes, is never refused.  The node has the tooltip
    exactly as it is written if and only if the tooltip has no square brackets, braces and comments,
    and then there are no warnings.  A comment starts with two slashes, with a slash and a star, or
    with a `#` that has nothing but blanks in front of it on a later line of the tooltip. -/
theorem markup_kept_iff (h : Markup value) (hquote : '"' ∉ value) :
    ∃ p, parse (markupSource value) = .ok p ∧
      ((∃ n ∈ p.graph.nodes, n.id = "A" ∧
        n.style.extra.get? "tooltip" = some (String.ofList value)) ↔ Unmarked value) ∧
      (Unmarked value → p.warnings = []) := by
  obtain ⟨header, hheader⟩ := readHeader?_opening
    (blankComments (.plain false) (listBody (markupEntry value) ++ ['\x7d']))
  rw [← stripComments_digraph] at hheader
  have hparse := parse_of_header hheader
  refine ⟨_, hparse, ⟨?_, fun hplain => (kept_of_unmarked h hquote hplain hparse).2⟩,
    fun hplain => (kept_of_unmarked h hquote hplain hparse).1⟩
  rintro ⟨n, hn, -, hvalue⟩
  have hstripped : '"' ∉ stripComments (markupSource value).toList := by
    rw [markupSource, stripComments_digraph, List.mem_append, not_or]
    exact ⟨by decide, not_mem_blankComments (by decide) (noQuote_markupBody hquote)⟩
  obtain ⟨hstands, hlists⟩ := value_in_text hstripped hn hvalue
  rw [String.toList_ofList] at hstands hlists
  exact ⟨hlists, uncommented_of_infix hquote hstands⟩

end

theorem markup_kept_lines :
    let value := "a <b>c</b>;\n d # e".toList
    Markup value ∧ '"' ∉ value ∧
      ∃ p, parse (markupSource value) = .ok p ∧ p.warnings = [] ∧
        ∃ n ∈ p.graph.nodes, n.id = "A" ∧
          n.style.extra.get? "tooltip" = some (String.ofList value) := by
  intro value
  have quotes : '"' ∉ value := by decide
  have markup : Markup value := by decide
  have unmarked : Unmarked value := by
    refine ⟨?_, (blankComments_eq_self_iff quotes false).1 (by decide +kernel)⟩
    simp [value, endsList]
  obtain ⟨p, hparse, hkept, hsilent⟩ := markup_kept_iff markup quotes
  exact ⟨markup, quotes, p, hparse, hsilent unmarked, hkept.2 unmarked⟩

/-- A tooltip with a bracket ends at the bracket, and what is behind it is another node. -/
theorem markup_cut_at_bracket :
    Markup "a]b".toList ∧ '"' ∉ "a]b".toList ∧
      (parse (markupSource "a]b".toList)).toOption.map
          (fun p => (p.graph.nodes.map fun n => (n.id, n.style.extra.get? "tooltip"),
            p.warnings.map Diagnostic.code))
        = some ([("A", some "<a"), ("b", none)],
          [some .unexpectedToken, some .unexpectedToken]) := by
  exact ⟨by decide, by decide, by decide +kernel⟩

end DotLayout.Dot
