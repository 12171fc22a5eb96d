import DotLayout.Proofs.Dot.ClosingBrace
import DotLayout.Proofs.Dot.Cuts

/-! # Behind the closing brace

    What stands behind the closing brace of a body is never looked at.

    * `exists_cut` : that brace is a brace of the source, and whatever follows it there, the text in
      front of it stays the same when comments are blanked.
    * `readHeader?_behind` : nor does the header change, unless a later quote makes a name of it.
    * `label_le_stop_body` : what is reported about a body stands in it.
    * `text_behind_brace` puts these together. -/

namespace DotLayout.Dot

open Text

/-! ## Comments around a brace -/

/-- A cut at a character that is not in the second part of a text is a cut of the first part. -/
theorem exists_append_of_not_mem_right {c : Char} {a b front rest : List Char} (hc : c ∉ b)
    (h : front ++ b = a ++ c :: rest) :
    ∃ inner, front = a ++ c :: inner ∧ rest = inner ++ b := by
  rcases List.append_eq_append_iff.1 h with ⟨inner, -, hb⟩ | ⟨inner, hfront, hrest⟩
  · exact absurd (hb ▸ List.mem_append_right inner List.mem_cons_self) hc
  · cases inner with
    | nil =>
        have hb : c :: rest = b := hrest
        exact absurd (hb ▸ List.mem_cons_self) hc
    | cons d inner =>
        obtain ⟨rfl, htail⟩ := List.cons.inj hrest
        exact ⟨inner, hfront, htail⟩

/-- Every closing brace of a text without comments is one of the text, and what stands in front of
    it does not depend on what stands behind it. -/
theorem exists_cut {text front behind : List Char}
    (h : stripComments text = front ++ '\x7d' :: behind) :
    ∃ kept dropped after, text = kept ++ '\x7d' :: dropped ∧ byteLength kept = byteLength front ∧
      ∀ more, stripComments (kept ++ '\x7d' :: more)
        = front ++ '\x7d' :: blankComments after more := by
  obtain ⟨kept, dropped, after, htext, hkept, hmore⟩ := exists_cut_at (by decide) h
  exact ⟨kept, dropped, after, htext, hkept, hmore '\x7d' (by decide)⟩

/-! ## Headers in front of other texts -/

theorem skipBlanks_append (front rest : List Char) :
    skipBlanks (front ++ '\x7b' :: rest) = skipBlanks front ++ '\x7b' :: rest := by
  rw [skipBlanks, List.dropWhile_append]
  split
  · rename_i hnil
    rw [skipBlanks, List.isEmpty_iff.1 hnil, List.dropWhile_cons_of_neg (by decide)]
    rfl
  · rfl

/-- A keyword that has no brace in it ends in front of every brace. -/
theorem afterKeyword?_append {keyword : List Char} (h : '\x7b' ∉ keyword)
    (front rest : List Char) :
    afterKeyword? keyword (front ++ '\x7b' :: rest)
      = (afterKeyword? keyword front).map (· ++ '\x7b' :: rest) := by
  induction keyword generalizing front with
  | nil => simp [afterKeyword?]
  | cons k keyword ih =>
      cases front with
      | nil =>
          have hk : foldCase '\x7b' ≠ k := fun hk => h (hk ▸ List.mem_cons_self)
          exact if_neg hk
      | cons c front =>
          rw [List.cons_append, afterKeyword?, afterKeyword?]
          split
          · exact ih (fun hkeyword => h (List.mem_cons_of_mem k hkeyword)) front
          · rfl

theorem skipStrict_append (front rest : List Char) :
    skipStrict (front ++ '\x7b' :: rest)
      = ((skipStrict front).1, (skipStrict front).2 ++ '\x7b' :: rest) := by
  rw [skipStrict, skipStrict, afterKeyword?_append (by simp)]
  cases afterKeyword? "strict".toList front with
  | none => rfl
  | some behind =>
      cases behind with
      | nil => rfl
      | cons c behind =>
          dsimp only [Option.map_some, List.cons_append]
          split
          · rw [skipBlanks_append]
          · rfl

theorem startsWord_append (text rest : List Char) :
    startsWord (text ++ '\x7b' :: rest) = startsWord text := by
  cases text with
  | nil => exact (by decide : isWordChar '\x7b' = false)
  | cons => rfl

theorem readKind?_append (front rest : List Char) :
    readKind? (front ++ '\x7b' :: rest)
      = (readKind? front).map fun kind => (kind.1, kind.2 ++ '\x7b' :: rest) := by
  rw [readKind?, readKind?, afterKeyword?_append (by simp), afterKeyword?_append (by simp)]
  cases afterKeyword? "digraph".toList front with
  | some behind =>
      simp only [Option.map_some, Option.filter_some, startsWord_append]
      split <;> rfl
  | none =>
      cases afterKeyword? "graph".toList front with
      | none => rfl
      | some behind =>
          simp only [Option.map_some, Option.map_none, Option.filter_some, startsWord_append]
          split <;> rfl

/-- What stands behind a closing brace cannot make a quoted name of a text, unless it has a quote
    itself. -/
theorem readQuotedName?_eq_none {front more more' : List Char} (hquote : '"' ∉ more')
    (h : readQuotedName? (front ++ '\x7d' :: more) = none) :
    readQuotedName? (front ++ '\x7d' :: more') = none := by
  rw [Option.eq_none_iff_forall_ne_some]
  rintro ⟨written, rest⟩ hread
  obtain ⟨content, blanks, rfl, htext, hcontent, hline, hblank⟩ :=
    readQuotedName?_eq_some_iff.1 hread
  have htext : front ++ '\x7d' :: more' = '"' :: content ++ '"' :: (blanks ++ '\x7b' :: rest) := by
    rw [htext, List.append_assoc]
    rfl
  have hbehind : '"' ∉ '\x7d' :: more' := by simpa using hquote
  have hblanks : '\x7d' ∉ blanks := fun hmem => nomatch hblank _ hmem
  -- neither the closing quote nor the opening brace stands behind the closing brace
  obtain ⟨inner, rfl, hinner⟩ := exists_append_of_not_mem_right hbehind htext
  obtain ⟨between, rfl, hbetween⟩ := exists_append_of_not_mem hblanks hinner
  cases between with
  | nil => exact nomatch (List.cons.inj hbetween).1
  | cons c between =>
      obtain ⟨rfl, -⟩ := List.cons.inj hbetween
      have named : readQuotedName? ('"' :: content ++ '"' :: (blanks ++ '\x7b' :: between)
          ++ '\x7d' :: more) = some ('"' :: content ++ ['"'], between ++ '\x7d' :: more) := by
        refine readQuotedName?_eq_some_iff.2 ⟨content, blanks, rfl, ?_, hcontent, hline, hblank⟩
        simp
      exact nomatch h.symm.trans named

/-- The name in a header does not depend on what stands behind the opening brace, as long as that
    makes no quoted name of it. -/
theorem readName?_of_unquoted {front rest rest' : List Char} {name : Option String}
    (unquoted : readQuotedName? (front ++ '\x7b' :: rest) = none →
      readQuotedName? (front ++ '\x7b' :: rest') = none)
    (h : readName? (front ++ '\x7b' :: rest) = some (name, rest)) :
    readName? (front ++ '\x7b' :: rest') = some (name, rest') := by
  -- what stands in front of the opening brace is known in each case
  have cancel : ∀ {taken : List Char}, front ++ '\x7b' :: rest = taken ++ '\x7b' :: rest →
      front = taken := List.append_cancel_right
  rw [readName?_eq_some_iff] at h ⊢
  rcases h with ⟨written, hname, hquoted⟩ | ⟨hnone, hrest⟩
  · obtain ⟨content, blanks, hwritten, htext, hcontent, hline, hblank⟩ :=
      readQuotedName?_eq_some_iff.1 hquoted
    rw [← List.append_assoc] at htext
    obtain rfl := cancel htext
    refine .inl ⟨written, hname, readQuotedName?_eq_some_iff.2 ?_⟩
    exact ⟨content, blanks, hwritten, List.append_assoc .., hcontent, hline, hblank⟩
  refine .inr ⟨unquoted hnone, ?_⟩
  rcases hrest with ⟨written, hname, hbare⟩ | ⟨-, hname, hbrace⟩
  · obtain ⟨hne, hchars, blanks, htext, hblank⟩ := readBareName?_eq_some_iff.1 hbare
    rw [← List.append_assoc] at htext
    obtain rfl := cancel htext
    refine .inl ⟨written, hname, readBareName?_eq_some_iff.2 ?_⟩
    exact ⟨hne, hchars, blanks, List.append_assoc .., hblank⟩
  · obtain ⟨blanks, htext, hblank⟩ := afterBrace?_eq_some_iff.1 hbrace
    obtain rfl := cancel htext
    refine .inr ⟨readBareName?_eq_none hblank _, hname, afterBrace?_eq_some_iff.2 ?_⟩
    exact ⟨front, rfl, hblank⟩

/-- Nor does a header, its body apart. -/
theorem readHeader?_of_unquoted {front rest rest' : List Char} {header : Header}
    (h : readHeader? (front ++ '\x7b' :: rest) = some header)
    (hopening : header.opening = ⟨0, front ++ ['\x7b']⟩)
    (unquoted : ∀ inner, readQuotedName? (inner ++ '\x7b' :: rest) = none →
      readQuotedName? (inner ++ '\x7b' :: rest') = none) :
    readHeader? (front ++ '\x7b' :: rest') = some { header with
      body := ⟨header.opening.stop, (beforeLastBrace? rest').getD rest'⟩
      closed := (beforeLastBrace? rest').isSome } := by
  obtain ⟨front', found, directed, afterKind, name, htext, hkind, hname, rfl⟩ :=
    readHeader?_eq_some_iff.1 h
  obtain rfl : front' = front := List.append_cancel_right (congrArg Excerpt.chars hopening)
  obtain rfl : rest = found := (List.cons.inj (List.append_cancel_left htext)).2
  rw [skipBlanks_append, skipStrict_append, readKind?_append] at hkind
  obtain ⟨⟨directed, behind⟩, hfront, heq⟩ := Option.map_eq_some_iff.1 hkind
  obtain ⟨rfl, rfl⟩ := Prod.mk.inj heq
  rw [skipBlanks_append] at hname
  have name' := readName?_of_unquoted (unquoted _) hname
  refine readHeader?_eq_some_iff.2 ⟨front', rest', directed, behind ++ '\x7b' :: rest', name, rfl,
    ?_, ?_, ?_⟩
  · rw [skipBlanks_append, skipStrict_append, readKind?_append, hfront]
    rfl
  · rw [skipBlanks_append]
    exact name'
  · rw [skipBlanks_append, skipStrict_append, skipBlanks_append, skipStrict_append]

/-- A header is the same whatever stands behind the closing brace of its body, as long as that has
    neither a closing brace nor a quote. -/
theorem readHeader?_behind {front body more more' : List Char} {header : Header}
    (h : readHeader? (front ++ '\x7b' :: (body ++ '\x7d' :: more)) = some header)
    (hopening : header.opening = ⟨0, front ++ ['\x7b']⟩) (hmore : '\x7d' ∉ more)
    (hbrace : '\x7d' ∉ more') (hquote : '"' ∉ more') :
    readHeader? (front ++ '\x7b' :: (body ++ '\x7d' :: more')) = some header := by
  have unquoted : ∀ inner,
      readQuotedName? (inner ++ '\x7b' :: (body ++ '\x7d' :: more)) = none →
      readQuotedName? (inner ++ '\x7b' :: (body ++ '\x7d' :: more')) = none := by
    intro inner
    have stays : readQuotedName? ((inner ++ '\x7b' :: body) ++ '\x7d' :: more) = none →
        readQuotedName? ((inner ++ '\x7b' :: body) ++ '\x7d' :: more') = none :=
      readQuotedName?_eq_none hquote
    simpa using stays
  have same := readHeader?_of_unquoted h hopening unquoted
  have old := readHeader?_of_unquoted h hopening fun _ => id
  rw [beforeLastBrace?_append body hbrace] at same
  rw [beforeLastBrace?_append body hmore] at old
  exact same.trans (old.symm.trans h)

/-! ## What is read and reported -/

theorem not_mem_blankComments {region : Region} {text : List Char} {c : Char} (hc : c ≠ ' ')
    (h : c ∉ text) : c ∉ blankComments region text := by
  intro hmem
  exact h ((blanked_blankComments region text).mem_of_ne_space hc hmem)

/-- What is reported about the statements of a body stands in it. -/
theorem label_le_stop_body {body : Excerpt} {s : Statement} {directed : Bool}
    (hs : s ∈ ((chunks body).map tokens).flatMap statements) :
    ∀ f ∈ s.findings directed, ∀ label ∈ f.diagnostic.labels, label.span.stop ≤ body.stop := by
  have solid : ∀ t ∈ s.tokens, t.place.Solid body ∧
      ∀ b, t = .bracket b → b.content.Solid b.place :=
    fun t ht => solid_tokens (mem_flatten_of_statements hs ht)
  have within : ∀ e : Excerpt, e.Solid body → e.span.stop ≤ body.stop :=
    fun e he => he.partOf.stop_le
  refine label_of_statement (P := fun span => span.stop ≤ body.stop)
    (fun a b ha hb => Nat.max_le.2 ⟨ha, hb⟩) (fun t ht => within _ (solid t ht).1) ?_
  intro b hb place hplace
  have whole : b.place.Solid body := (solid _ hb).1
  exact within _ ((solid_junk hplace).trans (((solid _ hb).2 b rfl).trans whole))

/-- Two sources with the same header, and a closed body, are read as the same. -/
theorem parse_eq_of_header {source source' : String} {header : Header}
    (h : readHeader? (stripComments source.toList) = some header)
    (h' : readHeader? (stripComments source'.toList) = some header)
    (hclosed : header.closed = true) : parse source = parse source' := by
  rw [parse_of_header h, parse_of_header h', findings_of_closed h hclosed,
    findings_of_closed h' hclosed, ofText_of_header h, ofText_of_header h']

/-- **What stands behind the closing brace.**  Where a header is found and the body is closed,
    nothing behind its closing brace is reported or read: every label ends in front of that brace,
    and the result stays the same when the text behind it is replaced by any other text without
    closing braces and quotes. -/
theorem text_behind_brace {source : String} {header : Header}
    (h : readHeader? (stripComments source.toList) = some header) (hclosed : header.closed = true) :
    ∃ p kept dropped, parse source = .ok p ∧ source.toList = kept ++ '\x7d' :: dropped ∧
      byteLength kept = header.body.stop ∧
      (∀ d ∈ p.warnings, ∀ label ∈ d.labels, label.span.stop ≤ byteLength kept) ∧
      ∀ more, '\x7d' ∉ more → '"' ∉ more →
        parse (String.ofList (kept ++ '\x7d' :: more)) = .ok p := by
  obtain ⟨front, rest, htext, hopening, hbody, hlast⟩ := split_of_readHeader? h
  rw [hclosed] at hlast
  obtain ⟨inside, hinside⟩ := Option.isSome_iff_exists.1 hlast.symm
  obtain ⟨behind, rfl, hbehind⟩ := split_of_beforeLastBrace? hinside
  -- stripping comments keeps positions, so the brace is at the same place in the source
  have cut : stripComments source.toList = (front ++ '\x7b' :: inside) ++ '\x7d' :: behind := by
    rw [htext, List.append_assoc, List.cons_append]
  obtain ⟨kept, dropped, after, hsource, hkept, hmore⟩ := exists_cut cut
  have stop : byteLength kept = header.body.stop := by
    rw [hkept, hbody, hopening, hinside]
    simp [Excerpt.stop, Nat.add_assoc]
  refine ⟨_, kept, dropped, parse_of_header h, hsource, stop, ?_, ?_⟩
  · -- the body ends in front of the brace, and every label lies in the body
    intro d hd label hlabel
    obtain ⟨f, hf, rfl⟩ := List.mem_map.1 hd
    rw [findings_of_closed h hclosed] at hf
    obtain ⟨s, hs, hfs⟩ := List.mem_flatMap.1 hf
    rw [stop]
    exact label_le_stop_body hs f hfs label hlabel
  · -- without a brace or a quote behind it the closing brace stays the last one
    intro more hbrace hquote
    have header' : readHeader? (stripComments (String.ofList (kept ++ '\x7d' :: more)).toList)
        = some header := by
      rw [htext] at h
      rw [String.toList_ofList, hmore, List.append_assoc, List.cons_append]
      exact readHeader?_behind h hopening hbehind (not_mem_blankComments (by decide) hbrace)
        (not_mem_blankComments (by decide) hquote)
    rw [← parse_eq_of_header h header' hclosed]
    exact parse_of_header h

/-- A body with a string that holds a brace, with more text and a comment behind it. -/
theorem text_behind_brace_string :
    let source := "digraph G \x7b a -> \"\x7b\"; b [c \x7d B -> C /* \x7d */ [x"
    ∃ header, readHeader? (stripComments source.toList) = some header ∧ header.closed = true ∧
      ∃ p kept dropped, parse source = .ok p ∧ source.toList = kept ++ '\x7d' :: dropped ∧
        byteLength kept = header.body.stop ∧
        (∀ d ∈ p.warnings, ∀ label ∈ d.labels, label.span.stop ≤ byteLength kept) ∧
        ∀ more, '\x7d' ∉ more → '"' ∉ more →
          parse (String.ofList (kept ++ '\x7d' :: more)) = .ok p := by
  intro source
  have closed : (readHeader? (stripComments source.toList)).map Header.closed = some true := by
    decide +kernel
  obtain ⟨header, h, hclosed⟩ := Option.map_eq_some_iff.1 closed
  exact ⟨header, h, hclosed, text_behind_brace h hclosed⟩

/-- A statement behind the closing brace is lost without a warning. -/
theorem statement_lost_behind_brace :
    (parse "digraph \x7b A \x7d B -> C").toOption.map (fun p => (p.graph.ids, p.warnings))
      = some (["A"], []) ∧
    (readHeader? (stripComments "digraph \x7b A \x7d B -> C".toList)).map
      (fun header => (header.closed, header.body.stop)) = some (true, 12) := by
  constructor <;> decide +kernel

end DotLayout.Dot
