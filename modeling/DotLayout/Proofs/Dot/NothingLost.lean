import DotLayout.Proofs.Dot.Bytes.Document
import DotLayout.Proofs.Dot.Clearance

/-! # Nothing is lost between chunks and tokens

    The body of a description is cut into chunks, and each chunk is read as tokens.  What is left
    over on the way is known byte by byte.

    * `exists_charAt` : each byte of a text belongs to one of its characters.
    * `gap_chunksFrom` : outside of all chunks there are blanks and delimiters at clear cuts.
    * `gap_of_pieces` and `byteAt_gap` : outside of all tokens there are separators.
    * `nothing_lost` : both scans come to their end, and what they find lies in order, without
      overlaps, and leaves over nothing else. -/

namespace DotLayout.Dot

open Text Text.Quoting

/-! ## Bytes and characters -/

/-- A character of a text, behind some others, takes up the byte at a position. -/
def CharAt (text : Excerpt) (p : Nat) (before : List Char) (c : Char) : Prop :=
  (∃ after, text.chars = before ++ c :: after) ∧ text.start + byteLength before ≤ p ∧
    p < text.start + byteLength before + c.utf8Size

/-- A position is in none of some excerpts. -/
def OutsideOf (es : List Excerpt) (p : Nat) : Prop := ∀ e ∈ es, ¬ (e.start ≤ p ∧ p < e.stop)

section

variable {text : List Char} {start p : Nat} {es : List Excerpt} {chunk : Excerpt}

/-- A character stays where it is when more text is put in front. -/
theorem CharAt.prepend {front rest before : List Char} {c : Char} (htext : text = front ++ rest)
    (h : CharAt ⟨start + byteLength front, rest⟩ p before c) :
    CharAt ⟨start, text⟩ p (front ++ before) c := by
  obtain ⟨⟨after, hafter⟩, hle, hlt⟩ := h
  have hafter : rest = before ++ c :: after := hafter
  refine ⟨⟨after, ?_⟩, ?_⟩
  · rw [htext, hafter, List.append_assoc]
  · rw [byteLength_append, ← Nat.add_assoc]
    exact ⟨hle, hlt⟩

/-- Each byte of a text belongs to a character. -/
theorem exists_charAt (hstart : start ≤ p) (hstop : p < start + byteLength text) :
    ∃ before c, CharAt ⟨start, text⟩ p before c := by
  induction text generalizing start with
  | nil => exact absurd hstop (Nat.not_lt.2 hstart)
  | cons c text ih =>
      rw [byteLength_cons, ← Nat.add_assoc] at hstop
      by_cases hc : p < start + c.utf8Size
      · exact ⟨[], c, ⟨text, rfl⟩, hstart, hc⟩
      · obtain ⟨before, d, hchar⟩ := ih (Nat.not_lt.1 hc) hstop
        exact ⟨[c] ++ before, d, hchar.prepend rfl⟩

/-- Outside of the pieces of a text there are only characters that are skipped. -/
theorem gap_of_pieces {skip : Char → Bool} (h : Pieces skip start text es) (hstart : start ≤ p)
    (hstop : p < start + byteLength text) (hout : OutsideOf es p) :
    ∃ before c, CharAt ⟨start, text⟩ p before c ∧ skip c = true := by
  obtain ⟨before, c, hchar⟩ := exists_charAt hstart hstop
  obtain ⟨⟨after, hafter⟩, hbefore, hc⟩ := id hchar
  refine ⟨before, c, hchar, (h.covers hafter).resolve_right ?_⟩
  rintro ⟨e, he, hle, hge⟩
  exact hout e he ⟨Nat.le_trans hle hbefore, Nat.lt_of_lt_of_le hc hge⟩

/-! ## Outside of chunks -/

/-- A chunk that is not kept is blank. -/
theorem blank_of_outsideOf (hout : OutsideOf (keepChunk chunk) p) (hstart : chunk.start ≤ p)
    (hstop : p < chunk.stop) : ∀ c ∈ chunk.chars, isBlank c = true := by
  rw [keepChunk] at hout
  split at hout
  · rename_i hempty
    exact forall_of_trimWhere_eq_nil (List.isEmpty_iff.1 hempty)
  · exact absurd ⟨hstart, hstop⟩ (hout chunk (List.mem_singleton_self _))

/-- In a chunk that is not kept there are blanks at clear cuts. -/
theorem gap_keepChunk {rest : List Char} (htext : text = chunk.chars ++ rest)
    (hout : OutsideOf (keepChunk chunk) p) (hstart : chunk.start ≤ p) (hstop : p < chunk.stop) :
    ∃ before c, CharAt ⟨chunk.start, text⟩ p before c ∧ betweenChunks c = true ∧
      Clear text before := by
  have hblank := blank_of_outsideOf hout hstart hstop
  obtain ⟨before, c, ⟨after, hafter⟩, hplace⟩ := exists_charAt hstart hstop
  have hafter : chunk.chars = before ++ c :: after := hafter
  have hskip : ∀ d ∈ before ++ c :: after, betweenChunks d = true := by
    intro d hd
    rw [betweenChunks, hblank d (hafter ▸ hd), Bool.true_or]
  rw [hafter, List.append_assoc] at htext
  refine ⟨before, c, ⟨⟨after ++ rest, htext⟩, hplace⟩, hskip c (by simp), ?_⟩
  rw [htext]
  exact clear_between fun d hd => hskip d (List.mem_append_left _ hd)

/-- Outside of the chunks of a text there are blanks and delimiters at clear cuts. -/
theorem gap_chunksFrom (hstart : start ≤ p) (hstop : p < start + byteLength text)
    (hout : OutsideOf (chunksFrom start text) p) :
    ∃ before c, CharAt ⟨start, text⟩ p before c ∧ betweenChunks c = true ∧ Clear text before := by
  have whole := readChunk_append text
  fun_induction chunksFrom start text with
  | case1 start text chunk hrest =>
      refine gap_keepChunk whole.symm hout hstart ?_
      rwa [← whole, hrest, List.append_nil] at hstop
  | case2 start text chunk c after hrest ih =>
      obtain ⟨hfirst, hothers⟩ : OutsideOf (keepChunk chunk) p ∧ OutsideOf (chunksFrom _ after) p :=
        List.forall_mem_append.1 hout
      have hsplit : text = chunk.chars ++ c :: after := by rw [← hrest, whole]
      have hclear : Clear text chunk.chars := by
        refine clear_readChunk ?_
        rw [hrest]
        exact List.cons_ne_nil _ _
      have hc : betweenChunks c = true := by
        rw [betweenChunks, endsChunk_of_readChunk hrest, Bool.or_true]
      -- the byte is in the first chunk, in the mark that ends it, or behind that mark
      by_cases hchunk : p < chunk.stop
      · exact gap_keepChunk hsplit hfirst hstart hchunk
      by_cases hdelimiter : p < chunk.stop + c.utf8Size
      · exact ⟨chunk.chars, c, ⟨⟨after, hsplit⟩, Nat.not_lt.1 hchunk, hdelimiter⟩, hc, hclear⟩
      · -- behind the delimiter the chunks are those of the rest
        have hlength : start + byteLength text = chunk.stop + c.utf8Size + byteLength after := by
          rw [hsplit, byteLength_append, byteLength_cons, ← Nat.add_assoc, ← Nat.add_assoc]
          rfl
        obtain ⟨before, d, hchar, hd, hbehind⟩ :=
          ih (Nat.not_lt.1 hdelimiter) (hlength ▸ hstop) hothers (readChunk_append after)
        have hcut : Clear (c :: after) ([c] ++ before) :=
          Clear.append (clear_between (by simpa using hc)) rfl hbehind
        have hchar : CharAt ⟨chunk.stop, c :: after⟩ p ([c] ++ before) d := hchar.prepend rfl
        exact ⟨_, d, hchar.prepend hsplit, hd, hclear.append hsplit hcut⟩

/-- What separates chunks is no opening bracket. -/
theorem ne_bracket_of_betweenChunks {c : Char} (h : betweenChunks c = true) : c ≠ '[' := by
  rintro rfl
  exact nomatch h

/-! ## Outside of tokens -/

/-- Outside of the tokens of a chunk, the bytes of the text are ASCII separators. -/
theorem byteAt_gap {chunk : Excerpt} (h : chunk.PartOf ⟨0, text⟩) (hstart : chunk.start ≤ p)
    (hstop : p < chunk.stop) (hout : OutsideOf ((tokens chunk).map Token.place) p) :
    ∃ c, (isAsciiBlank c = true ∨ c = ',') ∧ byteAt (encode text) p = .ok (ascii c) := by
  obtain ⟨before, c, ⟨⟨after, hafter⟩, hle, hlt⟩, hc⟩ :=
    gap_of_pieces (pieces_tokens chunk) hstart hstop hout
  have hascii : c.toNat < 0x80 := lt_of_separates hc
  -- the character is a byte of its own
  obtain rfl : p = chunk.start + byteLength before := by
    rw [utf8Size_of_lt hascii] at hlt
    exact Nat.le_antisymm (Nat.lt_succ_iff.1 hlt) hle
  have cursor := cursor_of_partOf h
  rw [show chunk.chars = before ++ c :: after from hafter] at cursor
  rw [betweenTokens, Bool.or_eq_true, beq_iff_eq] at hc
  exact ⟨c, hc, cursor.advance.byteAt_ascii hascii⟩

end

/-- **Nothing is lost and nothing is read twice.**  The two scans of the body of a text come to
    their end without a fault.  The chunks lie in the body one after the other.  Each byte of the
    body outside of them belongs to a blank or a delimiter outside of quotes and of closed lists.
    The tokens of a chunk lie in it one after the other, and none is empty.  Each byte of the chunk
    outside of them is an ASCII blank or a comma. -/
theorem nothing_lost (text : List Char) :
    let body := bodyOf text (readHeader? text)
    (Document.ofText text).tokens = (chunks body).map tokens ∧
    splitBytes text body.start body.start body.stop false = .ok (chunks body) ∧
    (∀ chunk ∈ chunks body, chunk.PartOf body) ∧
    (chunks body).Pairwise (fun a b => a.stop ≤ b.start) ∧
    (∀ p, body.start ≤ p → p < body.stop → OutsideOf (chunks body) p →
      ∃ before c, CharAt body p before c ∧ (isBlank c = true ∨ endsChunk c = true) ∧
        Exposed body.chars before) ∧
    ∀ chunk ∈ chunks body,
      tokensBytes text chunk.start chunk.stop = .ok (tokens chunk) ∧
      (∀ t ∈ tokens chunk, t.place.PartOf chunk ∧ t.place.start < t.place.stop) ∧
      (tokens chunk).Pairwise (fun a b => a.place.stop ≤ b.place.start) ∧
      ∀ p, chunk.start ≤ p → p < chunk.stop → OutsideOf ((tokens chunk).map Token.place) p →
        ∃ c, (isAsciiBlank c = true ∨ c = ',') ∧ byteAt (encode text) p = .ok (ascii c) := by
  intro body
  have inText := (solid_bodyOf text).partOf
  have inBody := (pieces_chunks body).partOf
  refine ⟨rfl, ?_, inBody, (pieces_chunks body).pairwise, ?_, ?_⟩
  · -- the loop over the bytes ends and finds the same chunks
    rw [splitBytes_eq (cursor_of_partOf inText), ← chunksFrom_eq_chunksAfter]
    rfl
  · -- between two chunks stand blanks and the marks that end one, all outside strings and lists
    intro p hstart hstop hout
    obtain ⟨before, c, hchar, hc, hclear⟩ := gap_chunksFrom hstart hstop hout
    obtain ⟨after, hafter⟩ := hchar.1
    refine ⟨before, c, hchar, Bool.or_eq_true_iff.1 hc, ?_⟩
    exact hclear.exposed hafter (ne_bracket_of_betweenChunks hc)
  · intro chunk hchunk
    have places := pieces_tokens chunk
    have chunkInText := (inBody chunk hchunk).trans inText
    -- a chunk ends where its text ends or before a mark, so reading it alone is reading it in place
    refine ⟨?_, ?_, List.pairwise_map.1 places.pairwise, ?_⟩
    · obtain ⟨front, behind, htext, hstart, hbehind⟩ := split_of_bodyOf text
      exact tokensBytes_eq (cursor_of_partOf chunkInText)
        (delimited_chunk hchunk htext hstart hbehind)
    · intro t ht
      exact ⟨places.partOf _ (List.mem_map_of_mem ht), start_lt_stop_of_mem_tokensFrom ht⟩
    · intro p hstart hstop hout
      exact byteAt_gap chunkInText hstart hstop hout

end DotLayout.Dot
