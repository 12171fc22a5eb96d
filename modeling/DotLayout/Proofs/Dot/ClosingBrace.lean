import DotLayout.Proofs.Dot.Header

/-! # The closing brace

    The body of a graph ends at the last closing brace behind its header.  Strings play no part in
    this, although every other scanner reads them as a whole.

    * `HasBrace` : a closing brace stands outside of strings.
    * `exists_unclosedBody_iff` : a body without a closing brace is reported, and no other body.
    * `closed_iff_mem` : when a body is closed, where it ends, and for which texts that brace is
      one outside of strings. -/

namespace DotLayout.Dot

open Text Text.Quoting

/-! ## Braces outside of strings -/

/-- A closing brace stands outside of strings. -/
def HasBrace (q : Quoting) (text : List Char) : Prop :=
  ∃ inner behind, text = inner ++ '\x7d' :: behind ∧ q.after inner = outside

theorem not_hasBrace_nil (q : Quoting) : ¬ HasBrace q [] := by
  rintro ⟨inner, behind, h, -⟩
  simp at h

/-- A closing brace is the next character, or stands behind it. -/
theorem hasBrace_cons {q : Quoting} {c : Char} {rest : List Char} :
    HasBrace q (c :: rest) ↔ (q = outside ∧ c = '\x7d') ∨ HasBrace (q.step c) rest := by
  constructor
  · rintro ⟨inner, behind, htext, hout⟩
    cases inner with
    | nil => exact .inl ⟨hout, (List.cons.inj htext).1⟩
    | cons d inner =>
        obtain ⟨rfl, hrest⟩ := List.cons.inj htext
        exact .inr ⟨inner, behind, hrest, hout⟩
  · rintro (⟨rfl, rfl⟩ | ⟨inner, behind, rfl, hout⟩)
    · exact ⟨[], rest, rfl, rfl⟩
    · exact ⟨c :: inner, behind, rfl, hout⟩

instance decidableHasBrace : (q : Quoting) → (text : List Char) → Decidable (HasBrace q text)
  | q, [] => .isFalse (not_hasBrace_nil q)
  | q, c :: rest =>
    have := decidableHasBrace (q.step c) rest
    decidable_of_iff _ hasBrace_cons.symm

/-! ## Bodies that are never closed -/

/-- No statement is a body that is never closed. -/
theorem unclosedBody_not_mem_findings (s : Statement) (directed : Bool) (length : Nat)
    (opening : Span) : .unclosedBody length opening ∉ s.findings directed := by
  have lists : ∀ lists : List Bracket,
      .unclosedBody length opening ∉ lists.flatMap Bracket.findings := by
    intro lists h
    obtain ⟨b, -, hb⟩ := List.mem_flatMap.1 h
    rw [Bracket.findings] at hb
    split at hb <;> simp at hb
  cases s <;> simp [Statement.findings, lists]

/-- The code for a body that is never closed belongs to no other finding. -/
theorem code_eq_unclosedBody_iff (f : Finding) :
    f.diagnostic.code = some .unclosedBody ↔
      ∃ length opening, f = .unclosedBody length opening := by
  cases f <;> simp [Finding.diagnostic, Diagnostic.about, Diagnostic.advise]

/-- The statements of a closed body are all that is reported. -/
theorem findings_of_closed {text : List Char} {header : Header}
    (h : readHeader? text = some header) (hclosed : header.closed = true) (length : Nat) :
    (Document.ofText text).findings length
      = (((chunks header.body).map tokens).flatMap statements).flatMap
          (Statement.findings header.directed) := by
  rw [ofText_of_header h, Document.findings, Document.unclosed]
  simp only [hclosed, if_true, List.nil_append]

/-- A body that is never closed is reported, and only then. -/
theorem exists_unclosedBody_iff {text : List Char} {header : Header}
    (h : readHeader? text = some header) (length : Nat) :
    (∃ f ∈ (Document.ofText text).findings length, f.diagnostic.code = some .unclosedBody)
      ↔ header.closed = false := by
  constructor
  · rintro ⟨f, hf, hcode⟩
    obtain ⟨length', opening, rfl⟩ := (code_eq_unclosedBody_iff f).1 hcode
    rw [← Bool.not_eq_true]
    intro hclosed
    rw [findings_of_closed h hclosed] at hf
    obtain ⟨s, -, hs⟩ := List.mem_flatMap.1 hf
    exact unclosedBody_not_mem_findings s _ _ _ hs
  · intro hopen
    refine ⟨.unclosedBody length header.opening.span, List.mem_append_left _ ?_, rfl⟩
    rw [ofText_of_header h, Document.unclosed]
    simp [hopen]

/-- The body in front of the last closing brace, or up to the end. -/
theorem body_of_readHeader? {text : List Char} {header : Header}
    (h : readHeader? text = some header) :
    ∃ rest, text = header.opening.chars ++ rest ∧ (header.closed = true ↔ '\x7d' ∈ rest) ∧
      (header.closed = true → ∃ behind, rest = header.body.chars ++ '\x7d' :: behind ∧
        '\x7d' ∉ behind) ∧
      (header.closed = false → rest = header.body.chars) := by
  obtain ⟨front, rest, htext, hopening, hbody, hclosed⟩ := split_of_readHeader? h
  refine ⟨rest, ?_, ?_, fun hyes => ?_, fun hno => ?_⟩
  · rw [htext, hopening]
    simp
  · rw [hclosed, Option.isSome_iff_ne_none, Ne, beforeLastBrace?_eq_none_iff, not_not]
  · rw [hclosed] at hyes
    obtain ⟨inside, hinside⟩ := Option.isSome_iff_exists.1 hyes
    rw [hbody, hinside]
    exact split_of_beforeLastBrace? hinside
  · rw [hclosed, Option.isSome_eq_false_iff, Option.isNone_iff_eq_none] at hno
    rw [hbody, hno]
    rfl

/-- **Which brace closes a body.**  A body is closed if and only if any closing brace stands behind
    the header, and it is reported as never closed otherwise; it ends at the last of them, and else
    at the end of the text.  So a body is closed by braces outside of strings alone, and never ends
    inside a string, exactly in the texts whose last closing brace stands outside of strings. -/
theorem closed_iff_mem {source : String} {header : Header}
    (h : readHeader? (stripComments source.toList) = some header) :
    ∃ p rest, parse source = .ok p ∧ stripComments source.toList = header.opening.chars ++ rest ∧
      (header.closed = true ↔ '\x7d' ∈ rest) ∧
      ((∃ d ∈ p.warnings, d.code = some .unclosedBody) ↔ header.closed = false) ∧
      (header.closed = true → ∃ behind, rest = header.body.chars ++ '\x7d' :: behind ∧
        '\x7d' ∉ behind) ∧
      (header.closed = false → rest = header.body.chars) ∧
      (((header.closed = true ↔ HasBrace outside rest) ∧
          (header.closed = true → outside.after header.body.chars = outside)) ↔
        ∀ inner behind, rest = inner ++ '\x7d' :: behind → '\x7d' ∉ behind →
          outside.after inner = outside) := by
  obtain ⟨rest, htext, hmem, hyes, hno⟩ := body_of_readHeader? h
  refine ⟨_, rest, parse_of_header h, htext, hmem, ?_, hyes, hno, ?_, ?_⟩
  · rw [← exists_unclosedBody_iff h (byteLength source.toList)]
    simp [Parsed.warnings]
  · rintro ⟨-, hout⟩ inner behind rfl hbehind
    have hclosed := hmem.2 (List.mem_append_right inner List.mem_cons_self)
    obtain ⟨behind', hsplit, hbehind'⟩ := hyes hclosed
    -- there is one last closing brace
    have same := beforeLastBrace?_append inner hbehind
    rw [hsplit, beforeLastBrace?_append _ hbehind'] at same
    rw [← Option.some.inj same]
    exact hout hclosed
  · intro hlast
    have hout : header.closed = true → outside.after header.body.chars = outside := by
      intro hclosed
      obtain ⟨behind, hsplit, hbehind⟩ := hyes hclosed
      exact hlast _ behind hsplit hbehind
    refine ⟨⟨fun hclosed => ?_, ?_⟩, hout⟩
    · obtain ⟨behind, hsplit, -⟩ := hyes hclosed
      exact ⟨_, behind, hsplit, hout hclosed⟩
    · rintro ⟨inner, behind, rfl, -⟩
      exact hmem.2 (List.mem_append_right inner List.mem_cons_self)

/-- A brace in a string, a brace outside of strings behind it, and one in a string that is never
    closed: the last one closes the body, which ends inside that string, and nothing is missed. -/
theorem closed_iff_mem_strings :
    let source := "digraph \x7b \"a\x7db\" -> c; \x7d \"d\x7d"
    let body := " \"a\x7db\" -> c; \x7d \"d".toList
    ∃ header p, readHeader? (stripComments source.toList) = some header ∧ parse source = .ok p ∧
      stripComments source.toList = header.opening.chars ++ (body ++ ['\x7d']) ∧
      header.closed = true ∧ header.body.chars = body ∧
      (∀ d ∈ p.warnings, d.code ≠ some .unclosedBody) ∧
      HasBrace outside (body ++ ['\x7d']) ∧ outside.after body = inside ∧
      ¬ ∀ inner behind, body ++ ['\x7d'] = inner ++ '\x7d' :: behind → '\x7d' ∉ behind →
        outside.after inner = outside := by
  intro source body
  have shown : (readHeader? (stripComments source.toList)).map (fun header =>
      (header.opening.chars, header.closed, header.body.chars))
        = some ("digraph \x7b".toList, true, body) := by
    decide +kernel
  obtain ⟨header, h, hshown⟩ := Option.map_eq_some_iff.1 shown
  obtain ⟨hopening, hshown⟩ := Prod.mk.inj hshown
  obtain ⟨hclosed, hbody⟩ := Prod.mk.inj hshown
  obtain ⟨p, rest, hp, htext, -, hwarned, -, -, hlast⟩ := closed_iff_mem h
  obtain rfl : body ++ ['\x7d'] = rest := by
    refine (List.append_right_inj header.opening.chars).1 ?_
    rw [← htext, hopening]
    decide
  have hends : outside.after body = inside := by decide
  refine ⟨header, p, h, hp, htext, hclosed, hbody, fun d hd hcode => ?_, by decide +kernel, hends,
    fun hout => ?_⟩
  · have hnot := hwarned.1 ⟨d, hd, hcode⟩
    rw [hclosed] at hnot
    cases hnot
  · have hquoting := (hlast.2 hout).2 hclosed
    rw [hbody, hends] at hquoting
    cases hquoting

/-- A brace inside a string closes the body, which then ends inside that string. -/
theorem closed_inside_string :
    let text := "digraph \x7b \"a\x7db\" -> c".toList
    let body := " \"a".toList
    (readHeader? (stripComments text)).map (fun header => (header.closed, header.body.chars))
        = some (true, body) ∧
      outside.after body = inside ∧
      text = "digraph \x7b".toList ++ (body ++ "\x7db\" -> c".toList) ∧
      ¬ HasBrace outside (body ++ "\x7db\" -> c".toList) ∧
      (parse (String.ofList text)).toOption.map (fun p => p.warnings.map Diagnostic.code)
        = some [some .unterminated] :=
  ⟨by decide +kernel, by decide, by decide, by decide +kernel, by decide +kernel⟩

end DotLayout.Dot
