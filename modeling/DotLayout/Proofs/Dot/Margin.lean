import DotLayout.Proofs.Dot.Edits
import DotLayout.Proofs.Dot.Header
import DotLayout.Proofs.Dot.Lexemes
import DotLayout.Proofs.Dot.Refusal
import DotLayout.Proofs.Dot.Written

/-! # In front of a description

    Blanks, line breaks and whole comments in front of a description change nothing but positions.

    * `tokens_move` and `chunksFrom_move` : what is read of an excerpt does not depend on where it
      starts.
    * `Trivia.turnsInto` : without comments, what stands in front is nothing but spacing.
    * `readHeader?_spacing`, `tokens_spacing` and `mentionsDigraph_spacing` : no reader looks at it.
    * `parse_behind_margin` puts these together. -/

namespace DotLayout.Dot

open Text

/-! ## Moved texts -/

/-- Everything moves by as many bytes. -/
def Edit.move (n : Nat) : Edit where
  shift := n
  link l := ⟨l.op, ⟨l.place.start + n, l.place.chars⟩⟩

section Move

variable (n : Nat)

/-- Reading one token further behind gives the same token, moved, and leaves the same rest. -/
theorem readToken_move (start : Nat) (c : Char) (rest : List Char) :
    readToken (start + n) c rest
      = ((Edit.move n).token (readToken start c rest).1, (readToken start c rest).2) := by
  have content : start + n + 1 = start + 1 + n := Nat.add_right_comm ..
  simp only [readToken]
  iterate 3
    split
    · rfl
  split
  · simp only [readList, content]
    rfl
  split
  · simp only [readQuotedWord]
    split <;> rfl
  split <;> rfl

theorem place_move (t : Token) :
    ((Edit.move n).token t).place = ⟨t.place.start + n, t.place.chars⟩ := by
  cases t <;> rfl

/-- The tokens of a text that stands further behind are its tokens, moved. -/
theorem tokensFrom_move (start : Nat) (text : List Char) :
    tokensFrom (start + n) text = (tokensFrom start text).map (Edit.move n).token := by
  fun_induction tokensFrom start text with
  | case1 => rw [tokensFrom]; rfl
  | case2 start c rest hc ih => rw [tokensFrom, if_pos hc, Nat.add_right_comm, ih]
  | case3 start c rest hc ih =>
      have stop : ((Edit.move n).token (readToken start c rest).1).place.stop
          = (readToken start c rest).1.place.stop + n := by
        rw [place_move]
        exact Nat.add_right_comm ..
      rw [tokensFrom, if_neg hc, readToken_move, stop, ih, List.map_cons]

/-- The tokens of a chunk that stands further behind are its tokens, moved. -/
theorem tokens_move (chunk : Excerpt) :
    tokens ((Edit.move n).excerpt chunk) = (tokens chunk).map (Edit.move n).token :=
  tokensFrom_move n chunk.start chunk.chars

/-- Whether a chunk is kept does not depend on where it stands. -/
theorem keepChunk_move (chunk : Excerpt) :
    keepChunk ((Edit.move n).excerpt chunk) = (keepChunk chunk).map (Edit.move n).excerpt := by
  show (if (trim chunk.chars).isEmpty then _ else _) = _
  rw [keepChunk]
  split <;> rfl

/-- A text that stands further behind is cut at the same characters. -/
theorem chunksFrom_move (start : Nat) (text : List Char) :
    chunksFrom (start + n) text = (chunksFrom start text).map (Edit.move n).excerpt := by
  fun_induction chunksFrom start text with
  | case1 start text chunk h =>
      have whole := readChunk_append text
      rw [h, List.append_nil] at whole
      rw [chunksFrom_of_whole (Prod.ext whole h), ← keepChunk_move]
      exact congrArg (fun chars => keepChunk ⟨start + n, chars⟩) whole.symm
  | case2 start text chunk c after h ih =>
      have stop : start + n + byteLength chunk.chars + c.utf8Size
          = chunk.stop + c.utf8Size + n := by
        show _ = start + byteLength chunk.chars + _ + n
        omega
      rw [chunksFrom_cons (Prod.ext rfl h), stop, ih, List.map_append, ← keepChunk_move]
      rfl

/-- A body that stands further behind has the same tokens in each chunk, moved. -/
theorem chunks_move (body : Excerpt) :
    (chunks ((Edit.move n).excerpt body)).map tokens
      = ((chunks body).map tokens).map (List.map (Edit.move n).token) := by
  have moved := chunksFrom_move n body.start body.chars
  show (chunksFrom (body.start + n) body.chars).map tokens = _
  rw [moved, List.map_map, List.map_map]
  exact congrArg (List.map · (chunks body)) (funext (tokens_move n))

end Move

/-! ## Spacing -/

/-- What separates the parts of a description. -/
def Spacing (text : List Char) : Prop := ∀ c ∈ text, c ∈ [' ', '\t', '\r', '\n']

theorem Spacing.append {a b : List Char} (ha : Spacing a) (hb : Spacing b) : Spacing (a ++ b) :=
  fun c hc => (List.mem_append.1 hc).elim (ha c) (hb c)

/-- What is left of a character in a comment is spacing. -/
theorem spacing_blankOut (c : Char) : Spacing (blankOut c) := by
  intro d hd
  rw [blankOut] at hd
  split at hd
  · rw [List.mem_singleton.1 hd]
    decide
  · rw [(List.mem_replicate.1 hd).2]
    decide

/-- What is left of a comment is spacing. -/
theorem spacing_flatMap_blankOut (text : List Char) : Spacing (text.flatMap blankOut) := by
  intro d hd
  obtain ⟨c, -, hc⟩ := List.mem_flatMap.1 hd
  exact spacing_blankOut c d hc

theorem forall_space {p : Char → Prop} (h : p ' ' ∧ p '\t' ∧ p '\r' ∧ p '\n') :
    ∀ c ∈ [' ', '\t', '\r', '\n'], p c := by
  simpa using h

section Spaced

variable {spacing : List Char} (h : Spacing spacing) (text : List Char)
include h

theorem Spacing.isBlank : ∀ c ∈ spacing, isBlank c = true := by
  have blank : ∀ c ∈ [' ', '\t', '\r', '\n'], Text.isBlank c = true := forall_space (by decide)
  exact fun c hc => blank c (h c hc)

theorem skipBlanks_spacing : skipBlanks (spacing ++ text) = skipBlanks text :=
  List.dropWhile_append_of_pos h.isBlank

/-- A text is blank behind spacing if and only if it is blank without it. -/
theorem trim_spacing : (trim (spacing ++ text)).isEmpty = (trim text).isEmpty := by
  rw [Bool.eq_iff_iff, trim_isEmpty_iff, trim_isEmpty_iff]
  constructor
  · exact fun blank c hc => blank c (List.mem_append_right _ hc)
  · intro blank c hc
    rcases List.mem_append.1 hc with hc | hc
    · exact h.isBlank c hc
    · exact blank c hc

/-- The header behind spacing is that of the text, with its body moved. -/
theorem readHeader?_spacing :
    readHeader? (spacing ++ text) = (readHeader? text).map fun header =>
      { header with
        opening := ⟨0, spacing ++ header.opening.chars⟩
        body := (Edit.move (byteLength spacing)).excerpt header.body } := by
  cases hread : readHeader? text with
  -- the two headers are found at the same place, moved by the spacing
  | some header =>
      obtain ⟨front, rest, directed, afterKind, name, rfl, hkind, hname, rfl⟩ :=
        readHeader?_eq_some_iff.1 hread
      rw [← skipBlanks_spacing h] at hkind
      refine readHeader?_eq_some_iff.2 ⟨spacing ++ front, rest, directed, afterKind, name,
        (List.append_assoc ..).symm, hkind, hname, ?_⟩
      have stop : Excerpt.stop ⟨0, spacing ++ front ++ ['\x7b']⟩
          = Excerpt.stop ⟨0, front ++ ['\x7b']⟩ + byteLength spacing := by
        simp only [Excerpt.stop, byteLength_append]
        omega
      rw [skipBlanks_spacing h, stop, List.append_assoc]
      rfl
  | none =>
      -- a header behind the spacing is a header of the text without it
      refine Option.eq_none_iff_forall_ne_some.2 fun header hmoved => ?_
      obtain ⟨-, rest, directed, afterKind, name, -, hkind, hname, -⟩ :=
        readHeader?_eq_some_iff.1 hmoved
      rw [skipBlanks_spacing h] at hkind
      obtain ⟨front, hfront⟩ := brace_suffix hkind hname
      have found := readHeader?_eq_some_iff.2
        ⟨front, rest, directed, afterKind, name, hfront.symm, hkind, hname, rfl⟩
      cases hread.symm.trans found

/-- Spacing in front of a text does not mention a directed graph. -/
theorem mentionsDigraph_spacing :
    mentionsDigraph false (spacing ++ text) = mentionsDigraph false text := by
  have other : ∀ c ∈ [' ', '\t', '\r', '\n'], foldCase c ≠ 'd' ∧ isWordChar c = false :=
    forall_space (by decide)
  induction spacing with
  | nil => rfl
  | cons c spacing ih =>
      obtain ⟨hc, hrest⟩ := List.forall_mem_cons.1 h
      obtain ⟨hfold, hword⟩ := other c hc
      have none : afterKeyword? "digraph".toList (c :: (spacing ++ text)) = none := if_neg hfold
      rw [List.cons_append, mentionsDigraph, none, hword]
      exact ih hrest

end Spaced

section Space

variable {c : Char} (h : c ∈ [' ', '\t', '\r', '\n']) (start : Nat) (text : List Char)
include h

/-- A space at the start of a chunk moves the chunk and does not change its tokens. -/
theorem keepChunk_space :
    (keepChunk ⟨start, c :: text⟩).map tokens
      = (keepChunk ⟨start + c.utf8Size, text⟩).map tokens := by
  have separates : ∀ d ∈ [' ', '\t', '\r', '\n'], (isAsciiBlank d || d == ',') = true :=
    forall_space (by decide)
  have spacing : Spacing [c] := fun d hd => List.mem_singleton.1 hd ▸ h
  have blank : (trim (c :: text)).isEmpty = (trim text).isEmpty := trim_spacing spacing text
  have read : tokens ⟨start, c :: text⟩ = tokens ⟨start + c.utf8Size, text⟩ := by
    show tokensFrom start (c :: text) = _
    rw [tokensFrom, if_pos (separates c h)]
    rfl
  rw [keepChunk, keepChunk, blank]
  split
  · rfl
  · rw [List.map_singleton, List.map_singleton, read]

/-- A space in front of a text is part of no token. -/
theorem tokens_space :
    (chunksFrom start (c :: text)).map tokens
      = (chunksFrom (start + c.utf8Size) text).map tokens := by
  by_cases hc : c = '\n'
  · -- a line break ends an empty chunk, which is dropped
    subst hc
    rw [chunksFrom_cons (readChunk_delimiter (by decide) text)]
    rfl
  · have other : ∀ d ∈ [' ', '\t', '\r', '\n'], d ≠ '\n' →
        ¬ endsChunk d = true ∧ d ≠ '"' ∧ d ≠ '[' := forall_space (by decide)
    obtain ⟨hend, hquote, hlist⟩ := other c h hc
    -- any other blank goes to the front of the first chunk
    have front := readChunk_other hend hquote hlist text
    rcases hread : readChunk text with ⟨chunk, rest⟩
    rw [hread] at front
    cases rest with
    | nil =>
        have whole := readChunk_append text
        rw [hread, List.append_nil] at whole
        obtain rfl : chunk = text := whole
        rw [chunksFrom_of_whole front, chunksFrom_of_whole hread]
        exact keepChunk_space h start chunk
    | cons d after =>
        have stop : start + byteLength (c :: chunk) = start + c.utf8Size + byteLength chunk :=
          (Nat.add_assoc ..).symm
        rw [chunksFrom_cons front, chunksFrom_cons hread, List.map_append, List.map_append,
          ← keepChunk_space h, ← stop]
        rfl

end Space

/-- Spacing in front of a text is part of no token. -/
theorem tokens_spacing {spacing : List Char} (h : Spacing spacing) (start : Nat)
    (text : List Char) :
    (chunksFrom start (spacing ++ text)).map tokens
      = (chunksFrom (start + byteLength spacing) text).map tokens := by
  induction spacing generalizing start with
  | nil => rfl
  | cons c spacing ih =>
      obtain ⟨hc, hrest⟩ := List.forall_mem_cons.1 h
      rw [List.cons_append, tokens_space hc, ih hrest, byteLength_cons, Nat.add_assoc]

/-! ## What stands in front -/

/-- Blanks, line breaks and whole comments. -/
inductive Trivia : List Char → Prop where
  | nil : Trivia []
  | space {c : Char} {rest : List Char} (hc : c ∈ [' ', '\t', '\r', '\n']) (tail : Trivia rest) :
      Trivia (c :: rest)
  | block {inner rest : List Char} (hinner : ¬ ['*', '/'] <:+: inner) (tail : Trivia rest) :
      Trivia (('/' :: '*' :: (inner ++ ['*', '/'])) ++ rest)
  | slashes {inner rest : List Char} (hinner : '\n' ∉ inner) (tail : Trivia rest) :
      Trivia (('/' :: '/' :: inner) ++ '\n' :: rest)
  | hash {inner rest : List Char} (hinner : '\n' ∉ inner) (tail : Trivia rest) :
      Trivia (('#' :: inner) ++ '\n' :: rest)

/-- What may stand in front of a description: trivia behind a byte order mark, which is optional. -/
inductive Margin : List Char → Prop where
  | mark {trivia : List Char} (h : Trivia trivia) : Margin (byteOrderMark :: trivia)
  | trivia {trivia : List Char} (h : Trivia trivia) : Margin trivia

/-- On a fresh line, a text turns into spacing of the same length, and the line behind it is fresh
    again. -/
def TurnsInto (text spacing : List Char) : Prop :=
  Spacing spacing ∧ byteLength spacing = byteLength text ∧
    ∀ rest, blankComments (.plain true) (text ++ rest)
      = spacing ++ blankComments (.plain true) rest

/-- What turns into something can stand behind something else that turns into something. -/
theorem TurnsInto.append {a b x y : List Char} (ha : TurnsInto a x) (hb : TurnsInto b y) :
    TurnsInto (a ++ b) (x ++ y) := by
  obtain ⟨hx, hax, hafter⟩ := ha
  obtain ⟨hy, hby, hbehind⟩ := hb
  refine ⟨hx.append hy, by rw [byteLength_append, byteLength_append, hax, hby], fun rest => ?_⟩
  rw [List.append_assoc, hafter, hbehind, List.append_assoc]

/-- A single space or line break outside of comments stays. -/
theorem turnsInto_space {c : Char} (h : c ∈ [' ', '\t', '\r', '\n']) : TurnsInto [c] [c] := by
  have stays : ∀ d ∈ [' ', '\t', '\r', '\n'], ∀ rest, blankComments (.plain true) (d :: rest)
      = d :: blankComments (.plain true) rest := by
    simp [blankComments, keepsFresh]
  exact ⟨fun d hd => List.mem_singleton.1 hd ▸ h, rfl, stays c h⟩

/-- A comment has as many bytes as what is left of it. -/
theorem byteLength_flatMap_blankOut (text : List Char) :
    byteLength (text.flatMap blankOut) = byteLength text := by
  have shown := byteLength_shown [.comment text]
  simpa [shown, written, Lexeme.shown, Lexeme.written, Dot.shown] using shown

/-- A comment turns into what is left of it, wherever it stands at the start of a line. -/
theorem turnsInto_comment {text : List Char} (h : ∀ rest, Comment true text rest) :
    TurnsInto text (text.flatMap blankOut) :=
  ⟨spacing_flatMap_blankOut text, byteLength_flatMap_blankOut text,
    fun rest => (h rest).blankComments⟩

/-- A comment in a line turns into spacing together with the line break behind it. -/
theorem turnsInto_line {text : List Char} (h : ∀ rest, Comment true text ('\n' :: rest)) :
    TurnsInto (text ++ ['\n']) (text.flatMap blankOut ++ ['\n']) := by
  obtain ⟨hspacing, hlength, hbehind⟩ := turnsInto_space (c := '\n') (by decide)
  refine ⟨(spacing_flatMap_blankOut text).append hspacing, ?_, fun rest => ?_⟩
  · rw [byteLength_append, byteLength_append, byteLength_flatMap_blankOut]
  · rw [List.append_assoc, List.singleton_append, (h rest).blankComments, List.append_assoc,
      ← hbehind]
    rfl

/-- Blanks, line breaks and comments turn into something. -/
theorem Trivia.exists_turnsInto {trivia : List Char} (h : Trivia trivia) :
    ∃ spacing, TurnsInto trivia spacing := by
  have ends : ∀ rest : List Char, EndsLine ('\n' :: rest) :=
    fun rest c hc => (Option.some.inj hc).symm
  induction h with
  | nil => exact ⟨[], nofun, rfl, fun _ => rfl⟩
  | space hc _ ih =>
      obtain ⟨spacing, hrest⟩ := ih
      exact ⟨_, (turnsInto_space hc).append hrest⟩
  | block hinner _ ih =>
      obtain ⟨spacing, hrest⟩ := ih
      exact ⟨_, (turnsInto_comment (.block hinner)).append hrest⟩
  | slashes hinner _ ih =>
      obtain ⟨spacing, hrest⟩ := ih
      have line := turnsInto_line fun rest => .slashes hinner (ends rest)
      rw [List.append_cons]
      exact ⟨_, line.append hrest⟩
  | hash hinner _ ih =>
      obtain ⟨spacing, hrest⟩ := ih
      have line := turnsInto_line fun rest => .hash rfl hinner (ends rest)
      rw [List.append_cons]
      exact ⟨_, line.append hrest⟩

/-- No trivia start with a byte order mark. -/
theorem Trivia.head?_ne {trivia : List Char} (h : Trivia trivia) :
    trivia.head? ≠ some byteOrderMark := by
  have other : ∀ c ∈ [' ', '\t', '\r', '\n'], some c ≠ some byteOrderMark :=
    forall_space (by decide)
  cases h with
  | space hc _ => exact other _ hc
  | _ => simp [byteOrderMark]

/-- Without comments, spacing stands in front of a description, of the length of its margin. -/
theorem Margin.exists_spacing {margin source : List Char} (h : Margin margin)
    (hmark : source.head? ≠ some byteOrderMark) :
    ∃ spacing, Spacing spacing ∧ byteLength spacing = byteLength margin ∧
      stripComments (margin ++ source) = spacing ++ stripComments source := by
  cases h with
  | @mark trivia h =>
      obtain ⟨spacing, hspacing, hlength, hrest⟩ := h.exists_turnsInto
      refine ⟨blankOut byteOrderMark ++ spacing, (spacing_blankOut _).append hspacing, ?_, ?_⟩
      · rw [byteLength_append, hlength]
        rfl
      · rw [List.cons_append, stripComments, if_pos rfl, hrest, stripComments_of_head hmark,
          List.append_assoc]
  | trivia h =>
      obtain ⟨spacing, hspacing, hlength, hrest⟩ := h.exists_turnsInto
      refine ⟨spacing, hspacing, hlength, ?_⟩
      have head : (margin ++ source).head? ≠ some byteOrderMark := by
        rw [List.head?_append]
        cases hmargin : margin.head? with
        | none => exact hmark
        | some c =>
            have first := h.head?_ne
            rwa [hmargin] at first
      rw [stripComments_of_head head, stripComments_of_head hmark, hrest]

/-! ## Documents -/

section Documents

variable {spacing : List Char} (h : Spacing spacing) (text : List Char)
include h

/-- Behind spacing there is the same header, which then begins with the spacing. -/
theorem header_spacing : (Document.ofText (spacing ++ text)).header
    = (Document.ofText text).header.map fun header =>
      { header with
        opening := ⟨0, spacing ++ header.opening.chars⟩
        body := (Edit.move (byteLength spacing)).excerpt header.body } :=
  readHeader?_spacing h text

/-- Behind spacing there are the same tokens, moved by its bytes. -/
theorem tokens_behind_spacing : (Document.ofText (spacing ++ text)).tokens
    = (Document.ofText text).tokens.map (List.map (Edit.move (byteLength spacing)).token) := by
  show (chunks (bodyOf _ (readHeader? (spacing ++ text)))).map Dot.tokens
    = ((chunks (bodyOf _ (readHeader? text))).map Dot.tokens).map _
  rw [readHeader?_spacing h, ← chunks_move]
  cases readHeader? text with
  | some header => rfl
  | none => exact tokens_spacing h 0 text

/-- Behind spacing there are the same statements, moved by its bytes. -/
theorem statements_behind_spacing : (Document.ofText (spacing ++ text)).statements
    = (Document.ofText text).statements.map (Edit.move (byteLength spacing)).statement := by
  rw [statements_ofText, statements_ofText, tokens_behind_spacing h, List.flatMap_map,
    List.map_flatMap]
  exact congrArg (List.flatMap · (Document.ofText text).tokens) (funext (Edit.statements_map _))

/-- Behind spacing a text describes a graph of the same kind. -/
theorem directed_behind_spacing :
    (Document.ofText (spacing ++ text)).directed = (Document.ofText text).directed := by
  have ops : (Document.ofText (spacing ++ text)).tokens.flatten.findSome? Token.op?
      = (Document.ofText text).tokens.flatten.findSome? Token.op? := by
    have op : Token.op? ∘ (Edit.move (byteLength spacing)).token = Token.op? := by
      funext t
      cases t <;> rfl
    rw [tokens_behind_spacing h, ← List.map_flatten, List.findSome?_map, op]
  show isDirected _ (readHeader? (spacing ++ text))
      (Document.ofText (spacing ++ text)).tokens.flatten
    = isDirected _ (readHeader? text) (Document.ofText text).tokens.flatten
  rw [readHeader?_spacing h]
  cases readHeader? text with
  | some header => rfl
  | none =>
      show (mentionsDigraph false (spacing ++ text) || _) = _
      rw [mentionsDigraph_spacing h, ops]
      rfl

/-- Behind spacing a text describes the same graph. -/
theorem graph_behind_spacing :
    (Document.ofText (spacing ++ text)).graph = (Document.ofText text).graph := by
  refine Edit.graph_edit _ (directed_behind_spacing h text) ?_ (statements_behind_spacing h text)
  rw [header_spacing h]
  cases (Document.ofText text).header <;> rfl

/-- Behind spacing a text is readable if and only if it is so without it. -/
theorem silent_behind_spacing :
    ((Document.ofText (spacing ++ text)).header.isNone
      && !(Document.ofText (spacing ++ text)).statements.any Statement.recognized)
      = ((Document.ofText text).header.isNone
        && !(Document.ofText text).statements.any Statement.recognized) := by
  have recognized : Statement.recognized ∘ (Edit.move (byteLength spacing)).statement
      = Statement.recognized := funext (Edit.recognized_statement _)
  rw [header_spacing h, statements_behind_spacing h, List.any_map, recognized, Option.isNone_map]

end Documents

/-! ## Answers -/

/-- What a diagnostic says, whatever it points at. -/
def Diagnostic.said (d : Diagnostic) : Option Code × String := (d.code, d.message)

/-- What is said about findings. -/
def reported (fs : List Finding) : List (Option Code × String) :=
  fs.map fun f => f.diagnostic.said

theorem reported_append (fs gs : List Finding) :
    reported (fs ++ gs) = reported fs ++ reported gs :=
  List.map_append

theorem said_diagnostics (fs : List Finding) :
    (fs.map Finding.diagnostic).map Diagnostic.said = reported fs :=
  List.map_map

/-- What is reported of a finding does not depend on where it was found. -/
theorem reported_move (n : Nat) (fs : List Finding) :
    reported (fs.map (Edit.move n).finding) = reported fs := by
  rw [reported, reported, List.map_map]
  refine congrArg (List.map · fs) (funext fun f => ?_)
  cases f <;> rfl

/-- Behind spacing the same is reported. -/
theorem reported_behind_spacing {spacing : List Char} (h : Spacing spacing) (text : List Char)
    (length length' : Nat) : reported ((Document.ofText (spacing ++ text)).findings length')
      = reported ((Document.ofText text).findings length) := by
  have unclosed : reported ((Document.ofText (spacing ++ text)).unclosed length')
      = reported ((Document.ofText text).unclosed length) := by
    rw [Document.unclosed, Document.unclosed, header_spacing h]
    cases (Document.ofText text).header with
    | none => rfl
    | some header =>
        show reported (if header.closed then _ else _) = reported (if header.closed then _ else _)
        split <;> rfl
  have statements : (Document.ofText (spacing ++ text)).statements.flatMap
        (Statement.findings (Document.ofText (spacing ++ text)).directed)
      = ((Document.ofText text).statements.flatMap
          (Statement.findings (Document.ofText text).directed)).map
          (Edit.move (byteLength spacing)).finding := by
    rw [statements_behind_spacing h, directed_behind_spacing h, List.flatMap_map, List.map_flatMap]
    refine List.flatMap_congr fun s hs => ?_
    exact Edit.findings_edit _ (fun _ => rfl) _ (link?_of_mem_document hs)
  rw [Document.findings, Document.findings, reported_append, reported_append, unclosed, statements,
    reported_move]

/-- Two answers with the same graph or refusal, in which the same is said. -/
inductive SameAnswer : Except ParseError Parsed → Except ParseError Parsed → Prop where
  | read {p p' : Parsed} (hgraph : p.graph = p'.graph)
      (hwarnings : p.warnings.map Diagnostic.said = p'.warnings.map Diagnostic.said) :
      SameAnswer (.ok p) (.ok p')
  | refused {e e' : ParseError}
      (hdiagnostics : e.diagnostics.map Diagnostic.said = e'.diagnostics.map Diagnostic.said) :
      SameAnswer (.error e) (.error e')

/-- **What stands in front of a description.**  Blanks, line breaks and whole comments in front of
    a source, behind a byte order mark or without one, change neither what is read nor what is
    said about it. -/
theorem parse_behind_margin {margin source : String} (h : Margin margin.toList)
    (hmark : source.toList.head? ≠ some byteOrderMark) :
    SameAnswer (parse (margin ++ source)) (parse source) := by
  obtain ⟨spacing, hspacing, -, hstrip⟩ := h.exists_spacing hmark
  rw [← String.toList_append] at hstrip
  simp only [parse, Document.verdict, hstrip, trim_spacing hspacing, silent_behind_spacing hspacing]
  split
  · exact .refused rfl
  have said := reported_behind_spacing hspacing (stripComments source.toList)
    (byteLength source.toList) (byteLength (margin ++ source).toList)
  split
  · refine .refused ?_
    simp only [ParseError.diagnostics, ParseError.findings, said_diagnostics, reported_append, said]
    rfl
  · refine .read (graph_behind_spacing hspacing _) ?_
    simp only [Parsed.warnings, said_diagnostics, said]

/-- A margin with comments of each kind, in front of a text that has a mistake in it. -/
theorem parse_behind_margin_mixed :
    let margin := "\ufeff\t/*\n*/ // \x7b\r\n# \"\n"
    let source := "a -> b; = c"
    Margin margin.toList ∧ source.toList.head? ≠ some byteOrderMark ∧
      SameAnswer (parse (margin ++ source)) (parse source) := by
  intro margin source
  have text : margin.toList = byteOrderMark :: '\t' :: (('/' :: '*' :: (['\n'] ++ ['*', '/'])) ++
      (' ' :: (('/' :: '/' :: [' ', '\x7b', '\r']) ++
        '\n' :: (('#' :: [' ', '"']) ++ ['\n'])))) := by
    decide +kernel
  have hmargin : Margin margin.toList := by
    rw [text]
    refine .mark (.space (by decide) (.block (by decide) (.space (by decide) ?_)))
    exact .slashes (by decide) (.hash (by decide) .nil)
  have hmark : source.toList.head? ≠ some byteOrderMark := by decide
  exact ⟨hmargin, hmark, parse_behind_margin hmargin hmark⟩

end DotLayout.Dot
