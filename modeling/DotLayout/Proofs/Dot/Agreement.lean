import DotLayout.Proofs.Dot.Bytes.Chunks
import DotLayout.Proofs.Dot.Clearance

/-! # Chunks and tokens agree

    The body of a graph is scanned twice.  The first scan cuts it into chunks and has to know which
    brackets close, so that it does not cut inside of a list; the second one reads each chunk by
    itself and decides again which brackets and strings close.

    * `logChunk` and `splitBody` are the first scan with a note of every list that it passes over.
    * `Passes` says that the first scan passes over a piece of a chunk and comes out of it outside
      of quotes; `passes_readToken` says so of every token of the second scan.
    * `chunks_agree_with_tokens` : so both scans see the same closed lists, and what stays open
      in a chunk is never closed in the body. -/

namespace DotLayout.Dot

open Text Text.Quoting

/-! ## Cutting with notes -/

/-- Where a closed list stands: the positions of its two brackets. -/
structure ListNote where
  opening : Nat
  closing : Nat
  deriving Repr, DecidableEq

/-- The same cut and notes, with a piece in front of which some notes were taken. -/
def noted (piece : List Char) (notes : List ListNote)
    (cut : (List Char × List Char) × List ListNote) : (List Char × List Char) × List ListNote :=
  (inFront piece cut.1, notes ++ cut.2)

/-- Splits the first chunk off a text that starts at a position, and notes each list that it
    passes over. -/
def logChunk (start : Nat) : List Char → (List Char × List Char) × List ListNote
  | [] => (([], []), [])
  | c :: rest =>
    if endsChunk c then (([], c :: rest), [])
    else if c = '"' then
      match _h : readQuoted rest with
      | some (content, after) =>
        let piece := '"' :: content ++ ['"']
        noted piece [] (logChunk (start + byteLength piece) after)
      | none => (('"' :: rest, []), [])
    else if c = '[' ∧ (readBracket rest).closed then
      let opened := '[' :: (readBracket rest).content
      let piece := opened ++ [']']
      noted piece [⟨start, start + byteLength opened⟩]
        (logChunk (start + byteLength piece) (readBracket rest).rest)
    else
      noted [c] [] (logChunk (start + c.utf8Size) rest)
  termination_by text => text.length
  decreasing_by
    · have := length_lt_of_readQuoted _h
      simp
      omega
    · have := length_rest_readBracket rest
      simp
      omega
    · simp

/-- The notes do not change where the chunk ends. -/
theorem fst_logChunk (start : Nat) (text : List Char) :
    (logChunk start text).1 = readChunk text := by
  fun_induction logChunk start text with
  | case1 => rw [readChunk]
  | case2 start c rest hend => rw [readChunk_delimiter hend]
  | case3 start rest content after hread _ piece ih => rw [readChunk_string hread, ← ih]; rfl
  | case4 start rest hread => rw [readChunk_openString hread]
  | case5 start c rest _ _ hlist opened piece ih =>
      obtain ⟨rfl, hclosed⟩ := hlist
      rw [readChunk_list hclosed, ← ih]
      rfl
  | case6 start c rest hend hquote hlist ih =>
      rw [readChunk, if_neg hend, if_neg hquote, if_neg hlist, ← ih]
      rfl

/-! What each kind of character does to a chunk and its notes. -/

variable {start : Nat} {rest content after : List Char}

theorem logChunk_delimiter {c : Char} (h : endsChunk c = true) (start : Nat) (rest : List Char) :
    logChunk start (c :: rest) = (([], c :: rest), []) := by
  rw [logChunk, if_pos h]

/-- A string is passed without a note. -/
theorem logChunk_string (h : readQuoted rest = some (content, after)) (start : Nat) :
    logChunk start ('"' :: rest) = noted ('"' :: content ++ ['"']) []
      (logChunk (start + byteLength ('"' :: content ++ ['"'])) after) := by
  rw [logChunk, if_neg (by decide), if_pos rfl]
  split
  · rename_i hread
    obtain ⟨rfl, rfl⟩ := Prod.mk.inj (Option.some.inj (hread.symm.trans h))
    rfl
  · rename_i hread
    exact nomatch hread.symm.trans h

/-- A string that is never closed ends the chunk. -/
theorem logChunk_openString (h : readQuoted rest = none) (start : Nat) :
    logChunk start ('"' :: rest) = (('"' :: rest, []), []) := by
  rw [logChunk, if_neg (by decide), if_pos rfl]
  split
  · rename_i hread
    exact nomatch hread.symm.trans h
  · rfl

/-- A closed list is passed with a note of where it stands. -/
theorem logChunk_list (h : (readBracket rest).closed = true) (start : Nat) :
    logChunk start ('[' :: rest) = noted ('[' :: (readBracket rest).content ++ [']'])
      [⟨start, start + byteLength ('[' :: (readBracket rest).content)⟩]
      (logChunk (start + byteLength ('[' :: (readBracket rest).content ++ [']']))
        (readBracket rest).rest) := by
  rw [logChunk, if_neg (by decide), if_neg (by decide), if_pos ⟨rfl, h⟩]

/-- Of an open list, the bracket is passed without a note. -/
theorem logChunk_openList (h : (readBracket rest).closed = false) (start : Nat) :
    logChunk start ('[' :: rest) = noted ['['] [] (logChunk (start + 1) rest) := by
  rw [logChunk, if_neg (by decide), if_neg (by decide), if_neg (by simp [h])]
  rfl

/-- Any other character is passed without a note. -/
theorem logChunk_other {c : Char} (hend : ¬ endsChunk c = true) (hquote : c ≠ '"')
    (hlist : c ≠ '[') (start : Nat) (rest : List Char) :
    logChunk start (c :: rest) = noted [c] [] (logChunk (start + c.utf8Size) rest) := by
  rw [logChunk, if_neg hend, if_neg hquote, if_neg fun list => hlist list.1]

/-! ## Pieces of a chunk -/

/-- The first chunk of a text is `inner`, it leaves `rest` over, and `notes` are taken in it. -/
def Ahead (start : Nat) (inner rest : List Char) (notes : List ListNote) : Prop :=
  logChunk start (inner ++ rest) = ((inner, rest), notes)

/-- The cut goes on behind a piece that the chunk holds as a whole. -/
theorem Ahead.behind {piece inner rest : List Char} {notes later : List ListNote}
    (h : Ahead start (piece ++ inner) rest later)
    (hstep : logChunk start (piece ++ (inner ++ rest))
      = noted piece notes (logChunk (start + byteLength piece) (inner ++ rest))) :
    ∃ others, later = notes ++ others ∧ Ahead (start + byteLength piece) inner rest others := by
  rw [Ahead, List.append_assoc, hstep] at h
  obtain ⟨hcut, rfl⟩ := Prod.mk.inj h
  obtain ⟨hinner, hrest⟩ := Prod.mk.inj hcut
  exact ⟨_, rfl, Prod.ext (Prod.ext (List.append_cancel_left hinner) hrest) rfl⟩

/-- A chunk holds every piece that the scan passes over as a whole. -/
theorem Ahead.holds {piece inner rest : List Char} {notes later : List ListNote}
    {cut : (List Char × List Char) × List ListNote} (h : Ahead start inner rest later)
    (hstep : logChunk start (inner ++ rest) = noted piece notes cut) :
    ∃ tail, inner = piece ++ tail := by
  rw [Ahead, hstep] at h
  exact ⟨_, (Prod.mk.inj (Prod.mk.inj h).1).1.symm⟩

/-- The first scan passes over a piece of a chunk, which `rest` and `behind` follow inside and
    outside of the chunk, and takes notes in it; it comes out outside of quotes unless the chunk
    ends with the piece. -/
def Passes (start : Nat) (piece rest behind : List Char) (notes : List ListNote) : Prop :=
  ∀ later, Ahead start (piece ++ rest) behind later →
    ∃ others, later = notes ++ others ∧ Ahead (start + byteLength piece) rest behind others ∧
      (rest = [] ∨ outside.after piece = outside)

variable {piece more behind : List Char} {notes notes' : List ListNote} {c : Char}

theorem passes_nil : Passes start [] rest behind [] :=
  fun later h => ⟨later, rfl, h, Or.inr rfl⟩

/-- What passes one behind the other passes together, with the notes of both. -/
theorem Passes.append (h : Passes start piece (more ++ rest) behind notes)
    (h' : Passes (start + byteLength piece) more rest behind notes') :
    Passes start (piece ++ more) rest behind (notes ++ notes') := by
  intro later hahead
  rw [List.append_assoc] at hahead
  obtain ⟨others, rfl, hmore, hout⟩ := h later hahead
  obtain ⟨others, rfl, hrest, hout'⟩ := h' others hmore
  refine ⟨others, by rw [List.append_assoc], ?_, ?_⟩
  · rwa [byteLength_append, ← Nat.add_assoc]
  · rcases hout with hnil | hout
    · exact Or.inl (List.append_eq_nil_iff.1 hnil).2
    · rw [after_append, hout]
      exact hout'

/-- One step of the scanner passes its piece, if that leaves no string open. -/
theorem Passes.of_step (hstep : logChunk start (piece ++ (rest ++ behind))
      = noted piece notes (logChunk (start + byteLength piece) (rest ++ behind)))
    (hout : outside.after piece = outside) : Passes start piece rest behind notes := by
  intro later h
  obtain ⟨others, hlater, hahead⟩ := h.behind hstep
  exact ⟨others, hlater, hahead, Or.inr hout⟩

/-- A character that opens nothing passes. -/
theorem passes_char (hquote : c ≠ '"') (hlist : c ≠ '[') : Passes start [c] rest behind [] := by
  intro later h
  have hend : ¬ endsChunk c = true := by
    intro hend
    rw [Ahead, List.append_assoc, List.singleton_append, logChunk_delimiter hend] at h
    exact nomatch h
  have hout : outside.after [c] = outside := step_outside hquote
  exact Passes.of_step (logChunk_other hend hquote hlist start (rest ++ behind)) hout later h

/-- A complete string passes. -/
theorem passes_string (h : Content content) :
    Passes start ('"' :: content ++ ['"']) rest behind [] := by
  refine Passes.of_step ?_ h.after_quote
  have hread := h.readQuoted (rest ++ behind)
  rw [← logChunk_string hread]
  simp

/-- A closed list passes with its note. -/
theorem passes_list {text : List Char} (h : (readBracket text).closed = true) :
    Passes start ('[' :: (readBracket text).content ++ [']']) rest behind
      [⟨start, start + byteLength ('[' :: (readBracket text).content)⟩] := by
  refine Passes.of_step ?_ ?_
  · have hread := readBracket_content h (rest ++ behind)
    have hstep := logChunk_list (congrArg BracketText.closed hread) start
    rw [hread] at hstep
    rw [← hstep]
    simp
  · rw [List.cons_append, after_cons, step_outside (by decide), after_append,
      after_content_readBracket h]
    rfl

/-- A bracket that is not the start of a closed list is passed over by itself. -/
theorem passes_bracket (h : (readBracket (rest ++ behind)).closed = false) :
    Passes start ['['] rest behind [] :=
  Passes.of_step (logChunk_openList h start) rfl

/-- A string that is still open where the chunk ends is never closed. -/
theorem Ahead.openString {inner : List Char} (h : Ahead start ('"' :: inner) behind notes)
    (hopen : readQuoted inner = none) : readQuoted (inner ++ behind) = none := by
  cases hread : readQuoted (inner ++ behind) with
  | none => rfl
  | some halves =>
      -- the chunk would hold the closing quote as well
      obtain ⟨content, after⟩ := halves
      obtain ⟨tail, hinner⟩ := h.holds (logChunk_string hread start)
      rw [List.cons_append, List.cons_append, List.append_assoc] at hinner
      rw [(List.cons.inj hinner).2] at hopen
      exact nomatch hopen.symm.trans ((content_of_readQuoted hread).readQuoted tail)

/-- A list that closes in the body closes in its chunk. -/
theorem Ahead.closed_readBracket {inner : List Char} (h : Ahead start ('[' :: inner) behind notes) :
    (readBracket (inner ++ behind)).closed = (readBracket inner).closed := by
  rw [Bool.eq_iff_iff]
  constructor
  · intro hclosed
    obtain ⟨tail, hinner⟩ := h.holds (logChunk_list hclosed start)
    rw [List.cons_append, List.cons_append, List.append_assoc] at hinner
    rw [(List.cons.inj hinner).2]
    exact congrArg BracketText.closed (readBracket_content hclosed tail)
  · intro hclosed
    have whole := readBracket_append inner
    rw [BracketText.closing, if_pos hclosed] at whole
    rw [← whole, List.append_assoc]
    exact congrArg BracketText.closed (readBracket_content hclosed _)

/-- A string that is never closed passes as the last piece. -/
theorem passes_openString {inner : List Char} (h : readQuoted inner = none) :
    Passes start ('"' :: inner) [] behind [] := by
  intro later hahead
  rw [List.append_nil] at hahead
  have hstep := logChunk_openString (hahead.openString h) start
  obtain ⟨hcut, rfl⟩ := Prod.mk.inj (hahead.symm.trans hstep)
  obtain rfl := (Prod.mk.inj hcut).2
  refine ⟨[], rfl, ?_, Or.inl rfl⟩
  rw [Ahead, List.append_nil, logChunk]

/-- The content of a list that stays open is passed over without notes. -/
theorem passes_openContent {text : List Char} (h : (readBracket text).closed = false) :
    Passes start (readBracket text).content (readBracket text).rest behind [] := by
  fun_induction readBracket text generalizing start with
  | case1 => exact passes_nil
  | case2 => exact absurd h.symm Bool.false_ne_true
  | case3 => exact passes_nil
  | case4 rest content after hread _ _ ih =>
      exact (passes_string (content_of_readQuoted hread)).append (ih h)
  | case5 rest hread => exact passes_openString hread
  | case6 c rest _ hends hquote ih =>
      have hlist : c ≠ '[' := by
        rintro rfl
        exact hends rfl
      exact (passes_char hquote hlist).append (ih h)

/-- The content of an open list passes without a note. -/
theorem passes_openList {text : List Char} (h : (readBracket text).closed = false) :
    Passes start ('[' :: (readBracket text).content) (readBracket text).rest behind [] := by
  intro later hahead
  have whole := readBracket_append text
  rw [BracketText.closing, if_neg (by rw [h]; decide), List.nil_append] at whole
  have hopen : (readBracket
      ((readBracket text).content ++ (readBracket text).rest ++ behind)).closed = false := by
    rw [whole]
    rw [List.cons_append, whole] at hahead
    exact hahead.closed_readBracket.trans h
  exact (passes_bracket hopen).append (passes_openContent h) later hahead

/-- A character of a word passes. -/
theorem passes_identChar (h : isIdentChar c = true) : Passes start [c] rest behind [] := by
  refine passes_char ?_ ?_ <;>
  · rintro rfl
    exact nomatch h

/-- The longest beginning of word characters passes. -/
theorem passes_takeWhile (text : List Char) :
    Passes start (text.takeWhile isIdentChar) rest behind [] := by
  suffices ∀ name : List Char, (∀ c ∈ name, isIdentChar c = true) →
      ∀ start, Passes start name rest behind [] from
    this _ (fun _ hc => List.mem_takeWhile_imp hc) start
  intro name h
  induction name with
  | nil => exact fun _ => passes_nil
  | cons c name ih =>
      intro start
      have tail := ih fun d hd => h d (List.mem_cons_of_mem c hd)
      exact (passes_identChar (h c List.mem_cons_self)).append (tail _)

/-- Ports pass without a note. -/
theorem passes_readPorts (text : List Char) :
    Passes start (readPorts text).1 (readPorts text).2 behind [] := by
  fun_induction readPorts text generalizing start with
  | case1 rest content after hread ih =>
      exact ((passes_char (by decide) (by decide)).append
        (passes_string (content_of_readQuoted hread))).append ih
  | case2 => exact passes_nil
  | case3 c rest _ hc ih =>
      exact ((passes_char (by decide) (by decide)).append
        ((passes_identChar hc).append (passes_takeWhile rest))).append ih
  | case4 => exact passes_nil
  | case5 => exact passes_nil

/-! ## Tokens -/

/-- What the second scan notes of a closed list. -/
def Token.note? : Token → Option ListNote
  | .bracket b => if b.closed then some ⟨b.place.start, b.content.stop⟩ else none
  | _ => none

/-- The token of a list passes with the note that it stands for. -/
theorem passes_readList (text : List Char) :
    Passes start (readList start text).1.place.chars (readList start text).2 behind
      (readList start text).1.note?.toList := by
  show Passes start ('[' :: (readBracket text).content ++ (readBracket text).closing) _ _
    (if (readBracket text).closed then
      some (ListNote.mk start (start + 1 + byteLength (readBracket text).content)) else none).toList
  cases hclosed : (readBracket text).closed with
  | true =>
      have list : Passes start ('[' :: (readBracket text).content ++ [']']) (readBracket text).rest
          behind [⟨start, start + byteLength ('[' :: (readBracket text).content)⟩] :=
        passes_list hclosed
      rw [byteLength_cons, ← Nat.add_assoc] at list
      rw [BracketText.closing, if_pos hclosed]
      exact list
  | false =>
      rw [BracketText.closing, hclosed, if_neg Bool.false_ne_true, List.append_nil]
      exact passes_openList hclosed

/-- The first scan passes over every token and takes the same note of it. -/
theorem passes_readToken (start : Nat) (c : Char) (text : List Char) :
    Passes start (readToken start c text).1.place.chars (readToken start c text).2 behind
      (readToken start c text).1.note?.toList := by
  rw [readToken]
  split
  · -- the two operators and the sign are passed character by character
    rename_i h
    obtain ⟨rfl, -⟩ := h
    exact (passes_char (by decide) (by decide)).append (passes_char (by decide) (by decide))
  split
  · rename_i h
    obtain ⟨rfl, -⟩ := h
    exact (passes_char (by decide) (by decide)).append (passes_char (by decide) (by decide))
  split
  · rename_i h
    subst h
    exact passes_char (by decide) (by decide)
  split
  · exact passes_readList text
  rename_i hlist
  split
  · rw [readQuotedWord]
    split
    · rename_i content after hread
      have string : ∀ {rest}, Passes start ('"' :: content ++ ['"']) rest behind [] :=
        passes_string (content_of_readQuoted hread)
      have word := string.append (passes_readPorts after)
      rw [List.append_assoc] at word
      exact word
    · rename_i hread
      exact passes_openString hread
  -- a word, or any other character
  rename_i hquote
  split
  · exact (passes_char hquote hlist).append ((passes_takeWhile text).append (passes_readPorts _))
  · exact passes_char hquote hlist

/-- An attribute list among the tokens begins with its bracket, and is closed as it was read. -/
theorem bracket_of_readToken {b : Bracket} {rest : List Char}
    (h : .bracket b = (readToken start c rest).1) :
    c = '[' ∧ b.closed = (readBracket rest).closed := by
  obtain ⟨hc, hlist⟩ := eq_of_readToken_bracket h.symm
  obtain rfl := Token.bracket.inj hlist
  exact ⟨hc, rfl⟩

/-- A token of an open string begins with a quote that is never closed. -/
theorem openString_of_readToken {place : Excerpt} {rest : List Char}
    (h : .openString place = (readToken start c rest).1) :
    c = '"' ∧ readQuoted rest = none := by
  rw [readToken] at h
  iterate 4
    split at h
    · cases h
  split at h
  · rename_i hc
    rw [readQuotedWord] at h
    split at h
    · cases h
    · rename_i hread
      exact ⟨hc, hread⟩
  split at h <;> cases h

/-- Nothing follows a string that stays open. -/
theorem snd_readToken_openString (h : readQuoted rest = none) (start : Nat) :
    (readToken start '"' rest).2 = [] := by
  rw [readToken, if_neg (by simp), if_neg (by simp), if_neg (by decide), if_neg (by decide),
    if_pos rfl, readQuotedWord, h]

/-- What separates tokens separates pieces of a chunk. -/
theorem passes_separator (h : (isAsciiBlank c || c == ',') = true) :
    Passes start [c] rest behind [] := by
  refine passes_char ?_ ?_ <;>
  · rintro rfl
    exact nomatch h

/-- Where a chunk is empty, nothing is noted. -/
theorem notes_eq_nil (start : Nat) (text : List Char) :
    (logChunk start text).1.1 = [] → (logChunk start text).2 = [] := by
  fun_cases logChunk start text with
  | case1 => exact fun _ => rfl
  | case2 => exact fun _ => rfl
  | case3 => exact nofun
  | case4 => exact nofun
  | case5 => exact nofun
  | case6 => exact nofun

/-- Behind a token, the notes that are ahead are those behind its own. -/
theorem Ahead.behind_token {text : List Char} (h : Ahead start (c :: text) behind notes) :
    ∃ others, notes = (readToken start c text).1.note?.toList ++ others ∧
      Ahead (readToken start c text).1.place.stop (readToken start c text).2 behind others ∧
      ((readToken start c text).2 = [] ∨
        outside.after (readToken start c text).1.place.chars = outside) := by
  rw [Excerpt.stop, start_place_readToken]
  rw [← place_readToken_append start c text] at h
  exact passes_readToken start c text notes h

/-- Both scans take the same notes in a chunk. -/
theorem notes_tokensFrom {text : List Char} (h : Ahead start text behind notes) :
    (tokensFrom start text).filterMap Token.note? = notes := by
  fun_induction tokensFrom start text generalizing notes with
  | case1 start =>
      have hnil := notes_eq_nil start behind (congrArg (·.1.1) h)
      exact hnil.symm.trans (congrArg (·.2) h)
  | case2 start c rest hc ih =>
      obtain ⟨others, rfl, hahead, -⟩ := passes_separator hc notes h
      exact ih hahead
  | case3 start c rest _ ih =>
      obtain ⟨others, rfl, hahead, -⟩ := h.behind_token
      rw [List.filterMap_cons, ih hahead]
      cases (readToken start c rest).1.note? <;> rfl

/-- The second scan starts each token outside of quotes, where the first scan is as well. -/
theorem exists_reading {text : List Char} {front later : List Token} {t : Token}
    (h : Ahead start text behind notes) (ht : tokensFrom start text = front ++ t :: later) :
    ∃ before c rest others, text = before ++ c :: rest ∧ outside.after before = outside ∧
      Ahead (start + byteLength before) (c :: rest) behind others ∧
      t = (readToken (start + byteLength before) c rest).1 ∧
      later = tokensFrom t.place.stop (readToken (start + byteLength before) c rest).2 := by
  fun_induction tokensFrom start text generalizing notes front with
  | case1 start => simp at ht
  | case2 start c rest hc ih =>
      obtain ⟨others, rfl, hahead, hout⟩ := passes_separator hc notes h
      obtain ⟨before, d, tail, others, rfl, hbefore, reading⟩ := ih hahead ht
      refine ⟨c :: before, d, tail, others, rfl, ?_, ?_⟩
      · show outside.after ([c] ++ before) = outside
        rw [after_append, hout.resolve_left (by simp), hbefore]
      · rwa [byteLength_cons, ← Nat.add_assoc]
  | case3 start c rest _ ih =>
      cases front with
      | nil =>
          obtain ⟨rfl, rfl⟩ := List.cons.inj ht
          exact ⟨[], c, rest, notes, rfl, rfl, h, rfl, rfl⟩
      | cons head front =>
          obtain ⟨-, ht⟩ := List.cons.inj ht
          obtain ⟨others, rfl, hahead, hout⟩ := h.behind_token
          obtain ⟨before, d, tail, others, htext, hbefore, reading⟩ := ih hahead ht
          refine ⟨(readToken start c rest).1.place.chars ++ before, d, tail, others, ?_, ?_, ?_⟩
          · rw [List.append_assoc, ← htext, place_readToken_append]
          · rw [after_append, hout.resolve_left, hbefore]
            rw [htext]
            simp
          · rw [byteLength_append, ← Nat.add_assoc]
            rw [Excerpt.stop, start_place_readToken] at reading
            exact reading

/-! ## The body -/

/-- A chunk with the notes taken in it, unless it is blank. -/
def keepNoted (chunk : Excerpt) (notes : List ListNote) : List (Excerpt × List ListNote) :=
  (keepChunk chunk).map fun chunk => (chunk, notes)

/-- The chunks with notes are the chunks that are kept. -/
theorem map_fst_keepNoted (chunk : Excerpt) (notes : List ListNote) :
    (keepNoted chunk notes).map Prod.fst = keepChunk chunk := by
  rw [keepNoted, List.map_map]
  exact List.map_id _

/-- A chunk is kept with its notes, or dropped with them. -/
theorem keepNoted_cases (chunk : Excerpt) (notes : List ListNote) :
    keepNoted chunk notes = [] ∨ keepNoted chunk notes = [(chunk, notes)] := by
  rw [keepNoted, keepChunk]
  split
  · exact Or.inl rfl
  · exact Or.inr rfl

/-- The chunks of a text that starts at a position, each with the notes taken in it. -/
def splitFrom (start : Nat) (text : List Char) : List (Excerpt × List ListNote) :=
  match _h : logChunk start text with
  | ((chunk, []), notes) => keepNoted ⟨start, chunk⟩ notes
  | ((chunk, c :: after), notes) =>
    keepNoted ⟨start, chunk⟩ notes ++ splitFrom (start + byteLength chunk + c.utf8Size) after
  termination_by text.length
  decreasing_by
    have shorter := length_snd_readChunk text
    rw [← fst_logChunk start, _h] at shorter
    simp only [List.length_cons] at shorter
    omega

/-- The chunks of a body, each with the notes of its closed lists. -/
def splitBody (body : Excerpt) : List (Excerpt × List ListNote) :=
  splitFrom body.start body.chars

/-- Taking notes does not change the chunks. -/
theorem map_fst_splitFrom (start : Nat) (text : List Char) :
    (splitFrom start text).map Prod.fst = chunksFrom start text := by
  fun_induction splitFrom start text with
  | case1 start text chunk notes h =>
      have hread : readChunk text = (chunk, []) := by rw [← fst_logChunk start, h]
      rw [map_fst_keepNoted, chunksFrom_eq_chunksAfter, chunksAfter_of_last hread, List.nil_append]
  | case2 start text chunk c after notes h ih =>
      have hread : readChunk text = (chunk, c :: after) := by rw [← fst_logChunk start, h]
      rw [List.map_append, map_fst_keepNoted, ih, chunksFrom_eq_chunksAfter start text, chunksAfter,
        hread]
      rfl

/-- Where a chunk stands in the text, and what the first scan notes in it. -/
theorem mem_splitFrom {text : List Char} {part : Excerpt × List ListNote}
    (h : part ∈ splitFrom start text) :
    ∃ before behind, text = before ++ (part.1.chars ++ behind) ∧
      part.1.start = start + byteLength before ∧ outside.after before = outside ∧
      Ahead part.1.start part.1.chars behind part.2 ∧
      (behind = [] → (splitFrom start text).getLast? = some part) := by
  have whole := readChunk_append text
  fun_induction splitFrom start text with
  | case1 start text chunk notes hlog =>
      rw [← fst_logChunk start, hlog] at whole
      subst whole
      -- the last chunk is the only one left
      rcases keepNoted_cases ⟨start, chunk⟩ notes with hnone | hone
      · rw [hnone] at h
        exact nomatch h
      · rw [hone] at h ⊢
        obtain rfl := List.mem_singleton.1 h
        exact ⟨[], [], rfl, rfl, rfl, hlog, fun _ => rfl⟩
  | case2 start text chunk c after notes hlog ih =>
      have hread : readChunk text = (chunk, c :: after) := by rw [← fst_logChunk start, hlog]
      rw [hread] at whole
      subst whole
      -- the part is the first chunk, or it lies behind the mark that ends it
      rcases List.mem_append.1 h with h | h
      · rcases keepNoted_cases ⟨start, chunk⟩ notes with hnone | hone
        · rw [hnone] at h
          exact nomatch h
        · rw [hone] at h
          obtain rfl := List.mem_singleton.1 h
          exact ⟨[], c :: after, rfl, rfl, rfl, hlog, nofun⟩
      · obtain ⟨before, behind, rfl, hstart, hout, hahead, hlast⟩ := ih h (readChunk_append _)
        have hchunk := (clear_readChunk (by rw [hread]; exact nofun)).1
        rw [hread] at hchunk
        -- the mark is no quote, so a string cannot begin there
        have hc : c ≠ '"' := by
          rintro rfl
          exact nomatch endsChunk_of_readChunk (congrArg Prod.snd hread)
        refine ⟨chunk ++ c :: before, behind, ?_, ?_, ?_, hahead, ?_⟩
        · rw [List.append_assoc, List.cons_append]
        · rw [hstart, byteLength_append, byteLength_cons]
          omega
        · rw [after_append, hchunk, after_cons, step_outside hc, hout]
        · intro hnil
          rw [List.getLast?_append, hlast hnil]
          rfl

/-- Every token of a chunk starts outside of quotes in the body, and the rest of its chunk and of
    the body follow it. -/
theorem exists_place {body : Excerpt} {part : Excerpt × List ListNote} {t : Token}
    (hpart : part ∈ splitBody body) (ht : t ∈ tokens part.1) :
    ∃ before c rest behind others, body.chars = before ++ c :: (rest ++ behind) ∧
      outside.after before = outside ∧
      Ahead (body.start + byteLength before) (c :: rest) behind others ∧
      t = (readToken (body.start + byteLength before) c rest).1 ∧
      ((readToken (body.start + byteLength before) c rest).2 = [] →
        (tokens part.1).getLast? = some t) ∧
      (behind = [] → (splitBody body).getLast? = some part) := by
  obtain ⟨before, behind, hbody, hstart, hout, hahead, hlast⟩ := mem_splitFrom hpart
  obtain ⟨front, later, hts⟩ := List.append_of_mem ht
  obtain ⟨inner, c, rest, others, htext, hinner, hrest, rfl, rfl⟩ := exists_reading hahead hts
  have hplace : part.1.start + byteLength inner = body.start + byteLength (before ++ inner) := by
    rw [hstart, byteLength_append, Nat.add_assoc]
  rw [hplace] at hrest hts ⊢
  refine ⟨before ++ inner, c, rest, behind, others, ?_, ?_, hrest, rfl, fun hnil => ?_, hlast⟩
  · rw [hbody, htext]
    simp
  · rw [after_append, hout, hinner]
  · rw [hts, hnil, tokensFrom]
    exact List.getLast?_concat ..

/-- **The two scans of a body agree.**  The lists that the first scan passes over in a chunk are
    the closed lists that the second scan reads in it, with the same two brackets.  A list is read
    at a `[` outside of quotes, and as a closed one exactly if it closes in the body.  A string is
    left open only at the end of the last chunk, when no quote in the body closes it. -/
theorem chunks_agree_with_tokens (body : Excerpt) :
    (splitBody body).map Prod.fst = chunks body ∧
    ∀ part ∈ splitBody body,
      (tokens part.1).filterMap Token.note? = part.2 ∧
      (∀ b, .bracket b ∈ tokens part.1 → ∃ before rest, body.chars = before ++ '[' :: rest ∧
        b.place.start = body.start + byteLength before ∧ outside.after before = outside ∧
        (b.closed = true ↔ Closes outside rest)) ∧
      ∀ place, .openString place ∈ tokens part.1 →
        (splitBody body).getLast? = some part ∧
        (tokens part.1).getLast? = some (.openString place) ∧
        ∃ before rest, body.chars = before ++ '"' :: rest ∧
          place.start = body.start + byteLength before ∧ outside.after before = outside ∧
          ∀ inner, inner <+: rest → inside.after inner ≠ outside := by
  refine ⟨map_fst_splitFrom body.start body.chars, fun part hpart => ⟨?_, ?_, ?_⟩⟩
  · -- what is skipped within a chunk is what its tokens leave out
    obtain ⟨before, behind, -, -, -, hahead, -⟩ := mem_splitFrom hpart
    exact notes_tokensFrom hahead
  · -- the text of the chunk and what stands behind it close the list together
    intro b hb
    obtain ⟨before, c, rest, behind, others, hbody, hout, hahead, ht, -⟩ := exists_place hpart hb
    obtain ⟨rfl, hclosed⟩ := bracket_of_readToken ht
    refine ⟨before, rest ++ behind, hbody, ?_, hout, ?_⟩
    · have hstart := start_place_readToken (body.start + byteLength before) '[' rest
      rwa [← ht] at hstart
    · rw [hclosed, ← hahead.closed_readBracket, closed_readBracket_iff]
  · -- a string without end takes all that is left, so nothing stands behind the chunk
    intro place hplace
    obtain ⟨before, c, rest, behind, others, hbody, hout, hahead, ht, htokens, hlast⟩ :=
      exists_place hpart hplace
    obtain ⟨rfl, hread⟩ := openString_of_readToken ht
    have hnil := snd_readToken_openString hread (body.start + byteLength before)
    have hopen := hahead.openString hread
    have hbehind : behind = [] := by
      have hstep := logChunk_openString hopen (body.start + byteLength before)
      exact (Prod.mk.inj (Prod.mk.inj (hahead.symm.trans hstep)).1).2
    refine ⟨hlast hbehind, htokens hnil, before, rest ++ behind, hbody, ?_, hout, ?_⟩
    · have hstart := start_place_readToken (body.start + byteLength before) '"' rest
      rwa [← ht] at hstart
    · exact readQuoted_eq_none_iff.1 hopen

end DotLayout.Dot
