import DotLayout.Proofs.Dot.EdgeOperator
import DotLayout.Proofs.Dot.Header

/-! # Labels stand between characters

    The labels of what is reported about a source were found in the text without its comments.
    Their ends are firm there, so that they are boundaries of the source as well.

    * `solid_chunks`, `solid_tokensFrom`, `solid_content` and `solid_junk`: what the scanners find
      is solid, because on one side of each of its ends there is no space.
    * `label_of_statement` : what the labels of a statement are about.  By it, `firm_statement` and
      `firm_findings` carry this over to what is reported.
    * `firm_diagnostics` says it of every label, of warnings and of errors. -/

namespace DotLayout.Dot

open Text

/-! ## Comments -/

/-- A character that is blanked stands in front of a blanked text. -/
theorem blanked_blankOut {text blanked : List Char} (h : Blanked text blanked) (c : Char) :
    Blanked (c :: text) (blankOut c ++ blanked) := by
  by_cases hc : c = '\n'
  · rw [blankOut, if_pos hc, hc]
    exact .keep '\n' h
  · rw [blankOut, if_neg hc]
    exact .blank c h

/-- Blanking comments changes characters to spaces, in any state of the scanner. -/
theorem blanked_blankComments (region : Region) (text : List Char) :
    Blanked text (blankComments region text) := by
  fun_induction blankComments region text with
  | case1 => exact .nil
  | case2 c rest ih => exact .keep '\\' (.keep c ih)
  | case3 rest ih => exact .keep '"' ih
  | case4 c rest _ _ ih => exact .keep c ih
  | case5 rest ih => exact .keep '\n' ih
  | case6 c rest _ ih => exact blanked_blankOut ih c
  | case7 fresh rest ih => exact .blank '*' (.blank '/' ih)
  | case8 fresh c rest _ ih => exact blanked_blankOut ih c
  | case9 fresh rest ih => exact .keep '"' ih
  | case10 fresh rest ih => exact .blank '/' (.blank '/' ih)
  | case11 rest ih => exact .blank '#' ih
  | case12 fresh rest ih => exact .blank '/' (.blank '*' ih)
  | case13 fresh rest ih => exact .keep '\n' ih
  | case14 fresh c rest _ _ _ _ _ ih => exact .keep c ih

/-- Taking comments out of a text blanks some of its characters. -/
theorem blanked_stripComments (text : List Char) : Blanked text (stripComments text) := by
  cases text with
  | nil => exact .nil
  | cons c rest =>
      rw [stripComments]
      split
      · exact blanked_blankOut (blanked_blankComments _ rest) c
      · exact blanked_blankComments _ (c :: rest)

/-! ## Chunks -/

theorem ne_space_of_endsChunk {c : Char} (h : endsChunk c = true) : c ≠ ' ' := by
  rintro rfl
  exact nomatch h

/-- Chunks are solid, as a delimiter or the end of the body stands on both sides. -/
theorem solid_chunksFrom {start : Nat} {text : List Char} {chunk : Excerpt}
    (h : chunk ∈ chunksFrom start text) : chunk.Solid ⟨start, text⟩ := by
  have whole := readChunk_append text
  fun_induction chunksFrom start text with
  | case1 start text first hrest =>
      rw [hrest, List.append_nil] at whole
      obtain rfl := eq_of_mem_keepChunk h
      rw [← whole]
      exact .refl _
  | case2 start text first c after hrest ih =>
      have hc := ne_space_of_endsChunk (endsChunk_of_readChunk hrest)
      rw [hrest] at whole
      rcases List.mem_append.1 h with hfirst | hafter
      · obtain rfl := eq_of_mem_keepChunk hfirst
        exact Excerpt.solid_of_split [] (c :: after) whole.symm rfl (.inl (by simp))
          (.inr (by simpa using hc))
      · -- the rest starts behind the delimiter, which is no space
        refine (ih hafter (readChunk_append after)).trans ?_
        refine Excerpt.solid_of_split (first.chars ++ [c]) [] ?_ ?_ (.inl ?_) (.inr (by simp))
        · show text = first.chars ++ [c] ++ (after ++ [])
          rw [List.append_nil, List.append_assoc]
          exact whole.symm
        · simp [Excerpt.stop, first, Nat.add_assoc]
        · simpa using hc

/-- Every chunk of a body is solid in it. -/
theorem solid_chunks {body chunk : Excerpt} (h : chunk ∈ chunks body) : chunk.Solid body :=
  solid_chunksFrom h

/-! ## Tokens -/

/-- A text that is put together of two that do not end with a space does not end with one. -/
theorem getLast?_append_ne {a b : List Char} (ha : a.getLast? ≠ some ' ')
    (hb : b.getLast? ≠ some ' ') : (a ++ b).getLast? ≠ some ' ' := by
  rw [List.getLast?_append]
  intro h
  rcases Option.or_eq_some_iff.1 h with hlast | ⟨-, hlast⟩
  · exact hb hlast
  · exact ha hlast

/-- A text does not end with a space if its last character is none. -/
theorem getLast?_concat_ne (text : List Char) {c : Char} (hc : c ≠ ' ') :
    (text ++ [c]).getLast? ≠ some ' ' := by
  rw [List.getLast?_concat]
  exact fun h => hc (Option.some.inj h)

/-- A word does not end with a space. -/
theorem getLast?_ne_of_isIdentChar {name : List Char} (h : ∀ c ∈ name, isIdentChar c = true) :
    name.getLast? ≠ some ' ' := by
  intro hlast
  exact nomatch h ' ' (List.mem_of_getLast? hlast)

/-- Ports do not end with a space. -/
theorem getLast?_readPorts (text : List Char) : (readPorts text).1.getLast? ≠ some ' ' := by
  fun_induction readPorts text with
  | case1 rest content after h ih =>
      exact getLast?_append_ne (getLast?_concat_ne (':' :: '"' :: content) (by decide)) ih
  | case2 => simp
  | case3 c rest _ hc ih =>
      have name : (c :: rest.takeWhile isIdentChar).getLast? ≠ some ' ' := by
        refine getLast?_ne_of_isIdentChar fun d hd => ?_
        rcases List.mem_cons.1 hd with rfl | hd
        · exact hc
        · exact List.mem_takeWhile_imp hd
      exact getLast?_append_ne (getLast?_append_ne (a := [':']) (by simp) name) ih
  | case4 => simp
  | case5 => simp

/-- What is left behind an open list does not begin with a space. -/
theorem head?_rest_readBracket {text : List Char} (h : (readBracket text).closed = false) :
    (readBracket text).rest.head? ≠ some ' ' := by
  fun_induction readBracket text with
  | case1 => simp
  | case2 => cases h
  | case3 c rest _ hc =>
      rintro hspace
      obtain rfl := Option.some.inj hspace
      cases hc
  | case4 rest content after _ _ _ ih => exact ih h
  | case5 => simp
  | case6 c rest _ _ _ ih => exact ih h

/-- A token does not end with a space, or none follows. -/
theorem firm_readToken (start : Nat) {c : Char} (hc : c ≠ ' ') (rest : List Char) :
    (readToken start c rest).1.place.chars.getLast? ≠ some ' '
      ∨ (readToken start c rest).2.head? ≠ some ' ' := by
  rw [readToken]
  iterate 3
    split
    · exact .inl (by simp [Token.place, *])
  split
  · cases hclosed : (readBracket rest).closed with
    | true =>
        left
        show ('[' :: (readBracket rest).content ++ (readBracket rest).closing).getLast? ≠ _
        rw [BracketText.closing, if_pos hclosed]
        exact getLast?_concat_ne _ (by decide)
    -- an open list stops before a bracket or brace, or at the end
    | false => exact .inr (head?_rest_readBracket hclosed)
  split
  · rw [readQuotedWord]
    split
    · rename_i content behind _
      have place := getLast?_append_ne (getLast?_concat_ne ('"' :: content) (c := '"') (by decide))
        (getLast?_readPorts behind)
      exact .inl (by simpa [Token.place] using place)
    · exact .inr (by simp)
  split
  · rename_i hident
    have name : (c :: rest.takeWhile isIdentChar).getLast? ≠ some ' ' := by
      refine getLast?_append_ne (a := [c]) (by simpa using hc)
        (getLast?_ne_of_isIdentChar fun d hd => List.mem_takeWhile_imp hd)
    exact .inl (getLast?_append_ne name (getLast?_readPorts _))
  · exact .inl (by simpa [Token.place] using hc)

/-- A token starts with the character that it is read from. -/
theorem chars_place_readToken (start : Nat) (c : Char) (rest : List Char) :
    ∃ cs, (readToken start c rest).1.place.chars = c :: cs := by
  obtain ⟨d, cs, hchars⟩ := List.exists_cons_of_ne_nil (place_readToken_ne_nil start c rest)
  have whole := place_readToken_append start c rest
  rw [hchars] at whole
  exact ⟨cs, (List.cons.inj whole).1 ▸ hchars⟩

/-- A token that begins with anything but a space is solid. -/
theorem solid_readToken (start : Nat) {c : Char} (hc : c ≠ ' ') (rest : List Char) :
    (readToken start c rest).1.place.Solid ⟨start, c :: rest⟩ := by
  obtain ⟨cs, hchars⟩ := chars_place_readToken start c rest
  refine Excerpt.solid_of_split [] (readToken start c rest).2 ?_ ?_ (.inl (by simp)) ?_
  · exact (place_readToken_append start c rest).symm
  · exact start_place_readToken start c rest
  · exact firm_readToken start hc rest

/-- Every token is solid, and it begins with anything but a space. -/
theorem solid_tokensFrom {start : Nat} {text : List Char} {t : Token}
    (h : t ∈ tokensFrom start text) :
    t.place.Solid ⟨start, text⟩ ∧ ∃ c cs, t.place.chars = c :: cs ∧ c ≠ ' ' := by
  fun_induction tokensFrom start text with
  | case1 => cases h
  | case2 start c rest _ ih =>
      obtain ⟨hsolid, d, ds, hchars, hd⟩ := ih h
      have hsolid : t.place.Solid ⟨start + byteLength [c], rest⟩ := hsolid
      exact ⟨hsolid.prepend hchars hd, d, ds, hchars, hd⟩
  | case3 start c rest hblank ih =>
      have hc : c ≠ ' ' := by
        rintro rfl
        exact hblank rfl
      rcases List.mem_cons.1 h with rfl | htail
      · obtain ⟨cs, hchars⟩ := chars_place_readToken start c rest
        exact ⟨solid_readToken start hc rest, c, cs, hchars, hc⟩
      · obtain ⟨hsolid, d, ds, hchars, hd⟩ := ih htail
        rw [Excerpt.stop, start_place_readToken] at hsolid
        rw [← place_readToken_append start c rest]
        exact ⟨hsolid.prepend hchars hd, d, ds, hchars, hd⟩

/-- The content of a list is solid in the list. -/
theorem solid_content_readToken {start : Nat} {c : Char} {rest : List Char} {b : Bracket}
    (h : (readToken start c rest).1 = .bracket b) : b.content.Solid b.place := by
  obtain rfl := Token.bracket.inj (eq_of_readToken_bracket h).2
  refine Excerpt.solid_of_split ['['] (readBracket rest).closing rfl rfl (.inl (by simp)) (.inr ?_)
  rw [BracketText.closing]
  split <;> simp

/-- The content of every list among the tokens is solid in it. -/
theorem solid_content {start : Nat} {text : List Char} {b : Bracket}
    (h : .bracket b ∈ tokensFrom start text) : b.content.Solid b.place := by
  fun_induction tokensFrom start text with
  | case1 => cases h
  | case2 _ _ _ _ ih => exact ih h
  | case3 start c rest _ ih =>
      rcases List.mem_cons.1 h with hb | htail
      · exact solid_content_readToken hb.symm
      · exact ih htail

/-! ## Entries -/

/-- Junk is trimmed on both sides, so it is solid. -/
theorem solid_junk {content place : Excerpt} (h : .junk place ∈ readEntries content) :
    place.Solid content := by
  obtain ⟨hne, hhead, hlast⟩ := ends_of_junk h
  have part := (pieces_entries content).partOf place (List.mem_map.2 ⟨_, h, rfl⟩)
  refine Excerpt.solid_of_ends part hne (fun hspace => ?_) (fun hspace => ?_)
  · exact nomatch hhead ' ' hspace
  · exact nomatch hlast ' ' hspace

/-! ## Findings -/

/-- A range of bytes whose two ends are firm. -/
def FirmSpan (text : List Char) (span : Span) : Prop :=
  Excerpt.Firm ⟨0, text⟩ span.start ∧ Excerpt.Firm ⟨0, text⟩ span.stop

variable {text : List Char}

theorem firmSpan_of_solid {e : Excerpt} (h : e.Solid ⟨0, text⟩) : FirmSpan text e.span :=
  ⟨h.start, h.stop⟩

/-- The range that covers two firm ranges is firm. -/
theorem firmSpan_union {s t : Span} (hs : FirmSpan text s) (ht : FirmSpan text t) :
    FirmSpan text (s.union t) := by
  constructor
  · show Excerpt.Firm ⟨0, text⟩ (min s.start t.start)
    rcases Nat.le_total s.start t.start with hle | hle
    · rw [Nat.min_eq_left hle]
      exact hs.1
    · rw [Nat.min_eq_right hle]
      exact ht.1
  · show Excerpt.Firm ⟨0, text⟩ (max s.stop t.stop)
    rcases Nat.le_total s.stop t.stop with hle | hle
    · rw [Nat.max_eq_right hle]
      exact ht.2
    · rw [Nat.max_eq_left hle]
      exact hs.2

section Reports

variable {P : Span → Prop}

/-- A finding with a single label is about the place of that label. -/
theorem label_of_single {f : Finding} {span : Span} {message : String} {primary : Bool}
    (hf : f.diagnostic.labels = [⟨span, message, primary⟩]) (hspan : P span) :
    ∀ label ∈ f.diagnostic.labels, P label.span := by
  intro label hlabel
  rw [hf] at hlabel
  obtain rfl := List.mem_singleton.1 hlabel
  exact hspan

/-- What is reported about lists is about the lists and about what is no pair in them. -/
theorem label_of_brackets {lists : List Bracket} (hplace : ∀ b ∈ lists, P b.place.span)
    (hjunk : ∀ b ∈ lists, ∀ place, .junk place ∈ readEntries b.content → P place.span) :
    ∀ f ∈ lists.flatMap Bracket.findings, ∀ label ∈ f.diagnostic.labels, P label.span := by
  intro f hf
  obtain ⟨b, hb, hfb⟩ := List.mem_flatMap.1 hf
  rw [Bracket.findings] at hfb
  rcases List.mem_append.1 hfb with hopen | hskipped
  · split at hopen
    · exact nomatch hopen
    · obtain rfl := List.mem_singleton.1 hopen
      exact label_of_single rfl (hplace b hb)
  · obtain ⟨place, hmem, rfl⟩ := List.mem_map.1 hskipped
    obtain ⟨entry, hentry, hentry'⟩ := List.mem_filterMap.1 hmem
    cases entry with
    | pair => exact nomatch hentry'
    | junk place' =>
        obtain rfl := Option.some.inj hentry'
        exact label_of_single rfl (hjunk b hb place' hentry)

/-- What is said about a statement is said about its tokens, about junk in its attribute lists, or
    about a range from one token to another. -/
theorem label_of_statement {s : Statement} {directed : Bool}
    (hunion : ∀ a b, P a → P b → P (a.union b)) (hplace : ∀ t ∈ s.tokens, P t.place.span)
    (hjunk : ∀ b, .bracket b ∈ s.tokens → ∀ place, .junk place ∈ readEntries b.content →
      P place.span) :
    ∀ f ∈ s.findings directed, ∀ label ∈ f.diagnostic.labels, P label.span := by
  have ofLists : ∀ lists : List Bracket, (∀ b ∈ lists, .bracket b ∈ s.tokens) →
      ∀ f ∈ lists.flatMap Bracket.findings, ∀ label ∈ f.diagnostic.labels, P label.span :=
    fun lists h => label_of_brackets (fun b hb => hplace _ (h b hb)) fun b hb => hjunk b (h b hb)
  intro f hf
  cases s with
  | assignment => cases hf
  | subgraph => cases hf
  | keyOnly key equals =>
      obtain rfl := List.mem_singleton.1 hf
      have hkey := hplace (.word key) (by simp [Statement.tokens])
      have hequals := hplace (.equals equals) (by simp [Statement.tokens])
      -- the label of the warning joins key and sign
      exact label_of_single rfl (hunion _ _ hkey hequals)
  | defaults keyword ofGraph lists =>
      refine ofLists lists (fun b hb => ?_) f hf
      exact List.mem_cons_of_mem _ (List.mem_map_of_mem hb)
  | chain head hops dangling lists =>
      -- findings of a chain: links of the other kind, a link without a target, then the lists
      rcases List.mem_append.1 hf with hlinks | hlists
      · rcases List.mem_append.1 hlinks with hmismatch | hdangling
        · obtain ⟨l, hl, rfl⟩ := List.mem_map.1 hmismatch
          obtain ⟨hop, hhop, rfl⟩ := List.mem_map.1 (List.mem_filter.1 hl).1
          refine label_of_single rfl (hplace (.link hop.link) ?_)
          have hmem : Token.link hop.link ∈ hops.flatMap Statement.hopTokens :=
            List.mem_flatMap.2 ⟨hop, hhop, by simp [Statement.hopTokens]⟩
          simp [Statement.tokens, hmem]
        · cases dangling with
          | none => cases hdangling
          | some l =>
              obtain rfl := List.mem_singleton.1 hdangling
              exact label_of_single rfl (hplace (.link l) (by simp [Statement.tokens]))
      · refine ofLists lists (fun b hb => ?_) f hlists
        exact List.mem_append_right _ (List.mem_map_of_mem hb)
  | noSource l =>
      obtain rfl := List.mem_singleton.1 hf
      exact label_of_single rfl (hplace (.link l) (by simp [Statement.tokens]))
  | openString p =>
      obtain rfl := List.mem_singleton.1 hf
      exact label_of_single rfl (hplace (.openString p) (by simp [Statement.tokens]))
  | misplaced token why =>
      obtain rfl := List.mem_singleton.1 hf
      exact label_of_single rfl (hplace token (by simp [Statement.tokens]))

end Reports

/-- All labels of a finding have firm spans. -/
def FirmFinding (text : List Char) (f : Finding) : Prop :=
  ∀ label ∈ f.diagnostic.labels, FirmSpan text label.span

/-- A token and, in an attribute list, its content are solid. -/
def SolidToken (text : List Char) (t : Token) : Prop :=
  t.place.Solid ⟨0, text⟩ ∧ ∀ b, t = .bracket b → b.content.Solid b.place

/-- What is reported about a statement has firm labels if its tokens are solid. -/
theorem firm_statement {s : Statement} {directed : Bool} (h : ∀ t ∈ s.tokens, SolidToken text t) :
    ∀ f ∈ s.findings directed, FirmFinding text f := by
  refine label_of_statement (fun _ _ => firmSpan_union) (fun t ht => ?_) fun b hb place hplace => ?_
  · exact firmSpan_of_solid (h t ht).1
  · have whole : b.place.Solid ⟨0, text⟩ := (h _ hb).1
    exact firmSpan_of_solid ((solid_junk hplace).trans (((h _ hb).2 b rfl).trans whole))

/-! ## Documents -/

/-- The body is solid in its text. -/
theorem solid_bodyOf (text : List Char) : (bodyOf text (readHeader? text)).Solid ⟨0, text⟩ := by
  cases h : readHeader? text with
  | none => exact .refl _
  | some header => exact solid_body h

/-- The tokens of a body, and the contents of its attribute lists, are solid. -/
theorem solid_tokens {body : Excerpt} {t : Token} (h : t ∈ ((chunks body).map tokens).flatten) :
    t.place.Solid body ∧ ∀ b, t = .bracket b → b.content.Solid b.place := by
  obtain ⟨ts, hts, ht⟩ := List.mem_flatten.1 h
  obtain ⟨chunk, hchunk, rfl⟩ := List.mem_map.1 hts
  refine ⟨(solid_tokensFrom ht).1.trans (solid_chunks hchunk), ?_⟩
  rintro b rfl
  exact solid_content ht

/-- Every token of a text is solid in it. -/
theorem solidToken_document {t : Token} (h : t ∈ (Document.ofText text).tokens.flatten) :
    SolidToken text t := by
  obtain ⟨hplace, hcontent⟩ := solid_tokens h
  exact ⟨hplace.trans (solid_bodyOf text), hcontent⟩

/-- The tokens of statements are tokens of the chunks that these are read from. -/
theorem mem_flatten_of_statements {chunked : List (List Token)} {s : Statement} {t : Token}
    (hs : s ∈ chunked.flatMap statements) (ht : t ∈ s.tokens) : t ∈ chunked.flatten := by
  obtain ⟨ts, hts, hmem⟩ := List.mem_flatMap.1 hs
  refine List.mem_flatten.2 ⟨ts, hts, ?_⟩
  rw [← tokens_statements ts]
  exact List.mem_flatMap.2 ⟨s, hmem, ht⟩

/-- A range between firm places is firm. -/
theorem firmSpan_between {p q : Nat} (hp : Excerpt.Firm ⟨0, text⟩ p)
    (hq : Excerpt.Firm ⟨0, text⟩ q) : FirmSpan text (.between p q) := by
  refine ⟨hp, ?_⟩
  show Excerpt.Firm ⟨0, text⟩ (max q p)
  rcases Nat.le_total q p with hle | hle
  · rw [Nat.max_eq_right hle]
    exact hp
  · rw [Nat.max_eq_left hle]
    exact hq

/-- The end of a text is firm. -/
theorem firm_length (text : List Char) : Excerpt.Firm ⟨0, text⟩ (byteLength text) := by
  have stop := Excerpt.firm_stop ⟨0, text⟩
  rwa [Excerpt.stop, Nat.zero_add] at stop

theorem firmSpan_whole (text : List Char) : FirmSpan text (.between 0 (byteLength text)) :=
  firmSpan_between (Excerpt.firm_start ⟨0, text⟩) (firm_length text)

/-- Everything that is reported about a text has firm labels. -/
theorem firm_findings (text : List Char) :
    ∀ f ∈ (Document.ofText text).findings (byteLength text), FirmFinding text f := by
  intro f hf
  rcases List.mem_append.1 hf with hunclosed | hstatement
  · rw [Document.unclosed] at hunclosed
    split at hunclosed
    · rename_i header hheader
      split at hunclosed
      · cases hunclosed
      · obtain rfl := List.mem_singleton.1 hunclosed
        intro label hlabel
        rcases List.mem_cons.1 hlabel with rfl | hlabel
        · exact firmSpan_between (firm_length text) (firm_length text)
        · obtain rfl := List.mem_singleton.1 hlabel
          exact firmSpan_of_solid (solid_opening hheader)
    · cases hunclosed
  · obtain ⟨s, hs, hfs⟩ := List.mem_flatMap.1 hstatement
    exact firm_statement (fun t ht => solidToken_document (mem_flatten_of_statements hs ht)) f hfs

/-- Everything that is said about a source, whether it is refused or not. -/
def diagnostics (source : String) : List Diagnostic :=
  match parse source with
  | .ok parsed => parsed.warnings
  | .error e => e.diagnostics

/-- Every diagnostic is made of a finding about the text without its comments, or about the
    whole. -/
theorem exists_finding {source : String} {d : Diagnostic} (h : d ∈ diagnostics source) :
    ∃ f, d = f.diagnostic ∧ (f = .emptyInput (byteLength source.toList)
      ∨ f = .unreadable (byteLength source.toList)
      ∨ f ∈ (Document.ofText (stripComments source.toList)).findings
          (byteLength source.toList)) := by
  simp only [diagnostics, parse, Document.verdict] at h
  split at h
  · rename_i parsed hparsed
    obtain ⟨f, hf, rfl⟩ := List.mem_map.1 h
    split at hparsed
    · cases hparsed
    split at hparsed
    · cases hparsed
    · obtain rfl := Except.ok.inj hparsed
      exact ⟨f, rfl, .inr (.inr hf)⟩
  · rename_i e he
    obtain ⟨f, hf, rfl⟩ := List.mem_map.1 h
    split at he
    · obtain rfl := Except.error.inj he
      exact ⟨f, rfl, .inl (List.mem_singleton.1 hf)⟩
    split at he
    · obtain rfl := Except.error.inj he
      rcases List.mem_append.1 hf with hskipped | hlast
      · exact ⟨f, rfl, .inr (.inr hskipped)⟩
      · exact ⟨f, rfl, .inr (.inl (List.mem_singleton.1 hlast))⟩
    · cases he

/-- Every label of a source has firm ends in the text without comments. -/
theorem firm_diagnostics {source : String} {d : Diagnostic} (h : d ∈ diagnostics source) :
    ∀ label ∈ d.labels, FirmSpan (stripComments source.toList) label.span := by
  have length := (blanked_stripComments source.toList).byteLength_eq
  have whole := firmSpan_whole (stripComments source.toList)
  have findings := firm_findings (stripComments source.toList)
  rw [length] at whole findings
  obtain ⟨f, rfl, rfl | rfl | hf⟩ := exists_finding h
  · exact label_of_single rfl whole
  · exact label_of_single rfl whole
  · exact findings f hf

end DotLayout.Dot
