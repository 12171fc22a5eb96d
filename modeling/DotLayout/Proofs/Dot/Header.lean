import DotLayout.Proofs.Dot.Scanning
import DotLayout.Proofs.Text.Boundary
import DotLayout.Proofs.Text.Quoting

/-! # Where the body of a graph is

    A header ends with an opening brace, and the body reaches from there to the last closing brace
    of the text, or to its end.

    * `afterBrace?_eq_some_iff`, `readQuotedName?_eq_some_iff` and `readBareName?_eq_some_iff` : the
      texts that the end of a header is read from.
    * `split_of_readHeader?` splits a text behind its header, and `solid_body` says that the body is
      a solid part of it.
    * A source with a header is never refused (`parse_of_header`). -/

namespace DotLayout.Dot

open Text

/-! ## What a header leaves over -/

theorem skipBlanks_suffix (text : List Char) : skipBlanks text <:+ text :=
  List.dropWhile_suffix isBlank

/-- What follows a keyword is an end of the text. -/
theorem afterKeyword?_suffix {keyword text rest : List Char}
    (h : afterKeyword? keyword text = some rest) : rest <:+ text := by
  fun_induction afterKeyword? keyword text with
  | case1 text => exact Option.some.inj h ▸ List.suffix_refl text
  | case2 => exact nomatch h
  | case3 k keyword text ih => exact (ih h).trans (List.suffix_cons _ text)
  | case4 => exact nomatch h

/-- What follows the optional first keyword is an end of the text. -/
theorem skipStrict_suffix (text : List Char) : (skipStrict text).2 <:+ text := by
  rw [skipStrict]
  split
  · rename_i c rest h
    split
    · exact (skipBlanks_suffix rest).trans
        ((List.suffix_cons c rest).trans (afterKeyword?_suffix h))
    · exact List.suffix_refl text
  · exact List.suffix_refl text

/-- What follows the keyword for the kind of graph is an end of the text. -/
theorem readKind?_suffix {text rest : List Char} {directed : Bool}
    (h : readKind? text = some (directed, rest)) : rest <:+ text := by
  obtain ⟨hfound, -⟩ := Option.filter_eq_some_iff.1 h
  split at hfound
  · rename_i rest' hkeyword
    obtain ⟨-, rfl⟩ := Prod.mk.inj (Option.some.inj hfound)
    exact afterKeyword?_suffix hkeyword
  · obtain ⟨rest', hkeyword, heq⟩ := Option.map_eq_some_iff.1 hfound
    obtain ⟨-, rfl⟩ := Prod.mk.inj heq
    exact afterKeyword?_suffix hkeyword

/-- The opening brace of a header stands behind nothing but blanks. -/
theorem afterBrace?_eq_some_iff {text rest : List Char} :
    afterBrace? text = some rest ↔
      ∃ blanks, text = blanks ++ '\x7b' :: rest ∧ ∀ c ∈ blanks, isBlank c = true := by
  constructor
  · intro h
    rw [afterBrace?] at h
    split at h
    · rename_i hskip
      obtain rfl := Option.some.inj h
      refine ⟨text.takeWhile isBlank, ?_, fun c hc => List.mem_takeWhile_imp hc⟩
      rw [← hskip, skipBlanks, List.takeWhile_append_dropWhile]
    · exact nomatch h
  · rintro ⟨blanks, rfl, hblank⟩
    rw [afterBrace?, skipBlanks, List.dropWhile_append_of_pos hblank,
      List.dropWhile_cons_of_neg (by decide)]
    rfl

/-- The texts that a quoted name is read from. -/
theorem readQuotedName?_eq_some_iff {text written rest : List Char} :
    readQuotedName? text = some (written, rest) ↔
      ∃ content blanks, written = '"' :: content ++ ['"'] ∧
        text = written ++ (blanks ++ '\x7b' :: rest) ∧ Content content ∧
        continuesLine content = false ∧ ∀ c ∈ blanks, isBlank c = true := by
  constructor
  · intro h
    cases text with
    | nil => exact nomatch h
    | cons c text =>
        by_cases hc : c = '"'
        · subst hc
          simp only [readQuotedName?, Option.bind_eq_bind, Option.bind_eq_some_iff] at h
          obtain ⟨⟨content, after⟩, hread, body, hbrace, heq⟩ := h
          obtain ⟨rfl, rfl⟩ := Prod.mk.inj (Option.some.inj heq)
          obtain ⟨hquoted, hline⟩ := Option.filter_eq_some_iff.1 hread
          obtain ⟨blanks, rfl, hblank⟩ := afterBrace?_eq_some_iff.1 hbrace
          refine ⟨content, blanks, rfl, ?_, content_of_readQuoted hquoted, ?_, hblank⟩
          · rw [eq_of_readQuoted hquoted]
            simp
          · simpa using hline
        · simp [readQuotedName?, hc] at h
  · rintro ⟨content, blanks, rfl, rfl, hcontent, hline, hblank⟩
    have read : readQuotedLine (content ++ '"' :: (blanks ++ '\x7b' :: rest))
        = some (content, blanks ++ '\x7b' :: rest) := by
      rw [readQuotedLine, hcontent.readQuoted]
      simp [hline]
    have brace : afterBrace? (blanks ++ '\x7b' :: rest) = some rest :=
      afterBrace?_eq_some_iff.2 ⟨blanks, rfl, hblank⟩
    simp [readQuotedName?, read, brace]

/-- Whether a character may stand in a name without quotes. -/
def inName (c : Char) : Bool := !isBlank c && c != '\x7b'

/-- A name without quotes is the longest run of its characters, if a brace follows. -/
theorem readBareName?_eq (text : List Char) :
    readBareName? text = if (text.takeWhile inName).isEmpty then none
      else (afterBrace? (text.dropWhile inName)).map fun body => (text.takeWhile inName, body) := by
  show (if (text.takeWhile inName).isEmpty then none else _) = _
  split
  · rfl
  · exact Option.map_eq_bind.symm

/-- A name without quotes reaches to the first blank or brace. -/
theorem readBareName?_eq_some_iff {text written rest : List Char} :
    readBareName? text = some (written, rest) ↔
      written ≠ [] ∧ (∀ c ∈ written, inName c = true) ∧
        ∃ blanks, text = written ++ (blanks ++ '\x7b' :: rest) ∧
          ∀ c ∈ blanks, isBlank c = true := by
  rw [readBareName?_eq]
  constructor
  · intro h
    split at h
    · exact nomatch h
    · rename_i hne
      obtain ⟨body, hbrace, heq⟩ := Option.map_eq_some_iff.1 h
      obtain ⟨rfl, rfl⟩ := Prod.mk.inj heq
      obtain ⟨blanks, hblanks, hblank⟩ := afterBrace?_eq_some_iff.1 hbrace
      refine ⟨fun hnil => hne (List.isEmpty_iff.2 hnil), fun c hc => List.mem_takeWhile_imp hc,
        blanks, ?_, hblank⟩
      rw [← hblanks, List.takeWhile_append_dropWhile]
  · rintro ⟨hne, hname, blanks, rfl, hblank⟩
    -- what stands behind the name begins with a character that is in no name
    obtain ⟨c, tail, hcons, hstop⟩ :
        ∃ c tail, blanks ++ '\x7b' :: rest = c :: tail ∧ ¬ inName c = true := by
      cases blanks with
      | nil => exact ⟨_, _, rfl, by decide⟩
      | cons c blanks => exact ⟨_, _, rfl, by simp [inName, hblank c List.mem_cons_self]⟩
    have taken : (written ++ (blanks ++ '\x7b' :: rest)).takeWhile inName = written := by
      rw [List.takeWhile_append_of_pos hname, hcons, List.takeWhile_cons_of_neg hstop,
        List.append_nil]
    have left : (written ++ (blanks ++ '\x7b' :: rest)).dropWhile inName
        = blanks ++ '\x7b' :: rest := by
      rw [List.dropWhile_append_of_pos hname, hcons, List.dropWhile_cons_of_neg hstop]
    have brace : afterBrace? (blanks ++ '\x7b' :: rest) = some rest :=
      afterBrace?_eq_some_iff.2 ⟨blanks, rfl, hblank⟩
    rw [taken, left, brace, if_neg fun hnil => hne (List.isEmpty_iff.1 hnil)]
    rfl

/-- Where a brace comes first there is no name. -/
theorem readBareName?_eq_none {blanks : List Char} (h : ∀ c ∈ blanks, isBlank c = true)
    (rest : List Char) : readBareName? (blanks ++ '\x7b' :: rest) = none := by
  rw [readBareName?_eq, if_pos]
  cases blanks with
  | nil => exact congrArg List.isEmpty (List.takeWhile_cons_of_neg (by decide))
  | cons c blanks =>
      have hc : ¬ inName c = true := by simp [inName, h c List.mem_cons_self]
      exact congrArg List.isEmpty (List.takeWhile_cons_of_neg hc)

/-- A header has a name in quotes, a name without quotes, or none; the first that fits counts. -/
theorem readName?_eq_some_iff {text rest : List Char} {name : Option String} :
    readName? text = some (name, rest) ↔
      (∃ written, name = some (nameOf written) ∧ readQuotedName? text = some (written, rest)) ∨
      (readQuotedName? text = none ∧
        ((∃ written, name = some (nameOf written) ∧ readBareName? text = some (written, rest)) ∨
          (readBareName? text = none ∧ name = none ∧ afterBrace? text = some rest))) := by
  rw [readName?]
  cases readQuotedName? text with
  | some reading => simp [Prod.ext_iff, and_comm, eq_comm]
  | none =>
      cases readBareName? text with
      | some reading => simp [Prod.ext_iff, and_comm, eq_comm]
      | none =>
          cases afterBrace? text with
          | some body => simp [Prod.ext_iff, eq_comm]
          | none => simp

/-- A header ends with a brace, and what it leaves is an end of the text. -/
theorem readName?_suffix {text rest : List Char} {name : Option String}
    (h : readName? text = some (name, rest)) : '\x7b' :: rest <:+ text := by
  have behind : ∀ front blanks : List Char,
      '\x7b' :: rest <:+ front ++ (blanks ++ '\x7b' :: rest) :=
    fun front blanks => ⟨front ++ blanks, List.append_assoc ..⟩
  rcases readName?_eq_some_iff.1 h with
    ⟨_, -, hquoted⟩ | ⟨-, ⟨_, -, hbare⟩ | ⟨-, -, hbrace⟩⟩
  · obtain ⟨content, blanks, -, rfl, -⟩ := readQuotedName?_eq_some_iff.1 hquoted
    exact behind _ blanks
  · obtain ⟨-, -, blanks, rfl, -⟩ := readBareName?_eq_some_iff.1 hbare
    exact behind _ blanks
  · obtain ⟨blanks, rfl, -⟩ := afterBrace?_eq_some_iff.1 hbrace
    exact behind [] blanks

/-! ## Closing braces -/

/-- A text without a closing brace has no last one. -/
theorem beforeLastBrace?_eq_none_iff {text : List Char} :
    beforeLastBrace? text = none ↔ '\x7d' ∉ text := by
  induction text with
  | nil => simp [beforeLastBrace?]
  | cons c text ih =>
      rw [beforeLastBrace?, List.mem_cons, not_or, ← ih]
      cases beforeLastBrace? text with
      | none => simp [eq_comm]
      | some before => simp

/-- The last closing brace is the one without any behind it. -/
theorem beforeLastBrace?_append (text : List Char) {behind : List Char} (h : '\x7d' ∉ behind) :
    beforeLastBrace? (text ++ '\x7d' :: behind) = some text := by
  induction text with
  | nil => rw [List.nil_append, beforeLastBrace?, beforeLastBrace?_eq_none_iff.2 h, if_pos rfl]
  | cons c text ih => rw [List.cons_append, beforeLastBrace?, ih]

/-- Behind the last closing brace there is no other one. -/
theorem split_of_beforeLastBrace? {text inside : List Char}
    (h : beforeLastBrace? text = some inside) :
    ∃ behind, text = inside ++ '\x7d' :: behind ∧ '\x7d' ∉ behind := by
  induction text generalizing inside with
  | nil => exact nomatch h
  | cons c rest ih =>
      rw [beforeLastBrace?] at h
      split at h
      · rename_i before hrest
        obtain rfl := Option.some.inj h
        obtain ⟨behind, hsplit, hbehind⟩ := ih hrest
        exact ⟨behind, by rw [hsplit, List.cons_append], hbehind⟩
      · rename_i hrest
        split at h
        · rename_i hc
          obtain rfl := Option.some.inj h
          exact ⟨rest, by rw [hc, List.nil_append], beforeLastBrace?_eq_none_iff.1 hrest⟩
        · exact nomatch h

/-! ## Headers -/

/-- What stands in front of the rest of a text has the remaining length. -/
theorem take_opening (opening rest : List Char) :
    (opening ++ rest).take ((opening ++ rest).length - rest.length) = opening := by
  rw [List.length_append, Nat.add_sub_cancel, List.take_left]

/-- The opening brace of a header and what follows it are the end of the text. -/
theorem brace_suffix {text afterKind rest : List Char} {directed : Bool} {name : Option String}
    (hkind : readKind? (skipStrict (skipBlanks text)).2 = some (directed, afterKind))
    (hname : readName? (skipBlanks afterKind) = some (name, rest)) : '\x7b' :: rest <:+ text :=
  (readName?_suffix hname).trans ((skipBlanks_suffix afterKind).trans
    ((readKind?_suffix hkind).trans ((skipStrict_suffix _).trans (skipBlanks_suffix text))))

/-- What a header is read from: its keywords, its name, and the text behind its opening brace. -/
theorem readHeader?_eq_some_iff {text : List Char} {header : Header} :
    readHeader? text = some header ↔
      ∃ front rest directed afterKind name, text = front ++ '\x7b' :: rest ∧
        readKind? (skipStrict (skipBlanks text)).2 = some (directed, afterKind) ∧
        readName? (skipBlanks afterKind) = some (name, rest) ∧
        header = ⟨(skipStrict (skipBlanks text)).1, directed, name, ⟨0, front ++ ['\x7b']⟩,
          ⟨Excerpt.stop ⟨0, front ++ ['\x7b']⟩, (beforeLastBrace? rest).getD rest⟩,
          (beforeLastBrace? rest).isSome⟩ := by
  have opening : ∀ front rest : List Char,
      (front ++ '\x7b' :: rest).take ((front ++ '\x7b' :: rest).length - rest.length)
        = front ++ ['\x7b'] := by
    intro front rest
    have whole : front ++ '\x7b' :: rest = (front ++ ['\x7b']) ++ rest := by simp
    rw [whole, take_opening]
  constructor
  · intro h
    simp only [readHeader?, Option.bind_eq_bind, Option.bind_eq_some_iff] at h
    obtain ⟨⟨directed, afterKind⟩, hkind, ⟨name, rest⟩, hname, heq⟩ := h
    obtain ⟨front, rfl⟩ := brace_suffix hkind hname
    refine ⟨front, rest, directed, afterKind, name, rfl, hkind, hname, ?_⟩
    rw [← Option.some.inj heq, opening]
  · rintro ⟨front, rest, directed, afterKind, name, rfl, hkind, hname, rfl⟩
    simp only [readHeader?, hkind, hname, Option.bind_eq_bind, Option.bind_some, opening]
    rfl

/-- A header splits its text after the opening brace; its body is before the last closing brace
    of what follows. -/
theorem split_of_readHeader? {text : List Char} {header : Header}
    (h : readHeader? text = some header) :
    ∃ front rest, text = front ++ '\x7b' :: rest ∧ header.opening = ⟨0, front ++ ['\x7b']⟩ ∧
      header.body = ⟨header.opening.stop, (beforeLastBrace? rest).getD rest⟩ ∧
      header.closed = (beforeLastBrace? rest).isSome := by
  obtain ⟨front, rest, _, _, _, htext, -, -, rfl⟩ := readHeader?_eq_some_iff.1 h
  exact ⟨front, rest, htext, rfl, rfl, rfl⟩

/-- The header is a solid part of its text. -/
theorem solid_opening {text : List Char} {header : Header} (h : readHeader? text = some header) :
    header.opening.Solid ⟨0, text⟩ := by
  obtain ⟨front, rest, rfl, hopening, -, -⟩ := split_of_readHeader? h
  rw [hopening]
  exact Excerpt.solid_of_split [] rest (by simp) rfl (.inl nofun)
    (.inl (by simp))

/-- The body is a solid part of its text. -/
theorem solid_body {text : List Char} {header : Header} (h : readHeader? text = some header) :
    header.body.Solid ⟨0, text⟩ := by
  obtain ⟨front, rest, rfl, hopening, hbody, -⟩ := split_of_readHeader? h
  obtain ⟨after, hrest, hafter⟩ : ∃ after, rest = header.body.chars ++ after
      ∧ after.head? ≠ some ' ' := by
    rw [hbody]
    cases hbrace : beforeLastBrace? rest with
    | none => exact ⟨[], (List.append_nil rest).symm, nofun⟩
    | some inside =>
        obtain ⟨after, hafter, -⟩ := split_of_beforeLastBrace? hbrace
        exact ⟨'\x7d' :: after, hafter, by simp⟩
  refine Excerpt.solid_of_split (front ++ ['\x7b']) after ?_ ?_ (.inl ?_)
    (.inr hafter)
  · simp [hrest]
  · rw [hbody, hopening]
    rfl
  · simp

/-! ## Sources with a header -/

/-- Behind a header, only the body is read. -/
theorem ofText_of_header {text : List Char} {header : Header} (h : readHeader? text = some header) :
    Document.ofText text = ⟨some header, (chunks header.body).map tokens, header.directed,
      ((chunks header.body).map tokens).flatMap statements⟩ := by
  rw [Document.ofText, h]
  rfl

/-- A source with a header is read, whatever stands behind the header. -/
theorem parse_of_header {source : String} {header : Header}
    (h : readHeader? (stripComments source.toList) = some header) :
    parse source = .ok ⟨(Document.ofText (stripComments source.toList)).graph,
      (Document.ofText (stripComments source.toList)).findings (byteLength source.toList)⟩ := by
  obtain ⟨front, rest, htext, -⟩ := split_of_readHeader? h
  have visible : (trim (stripComments source.toList)).isEmpty = false := by
    rw [List.isEmpty_eq_false_iff]
    intro hnil
    have blank := forall_of_trimWhere_eq_nil hnil '\x7b' (by simp [htext])
    exact nomatch blank
  have found : (Document.ofText (stripComments source.toList)).header.isNone = false := by
    show (readHeader? (stripComments source.toList)).isNone = false
    rw [h]
    rfl
  simp only [parse, visible, Document.verdict, found]
  rfl

end DotLayout.Dot
