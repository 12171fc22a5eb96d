import DotLayout.Dot.Document
import DotLayout.Proofs.Text.Pieces
import Mathlib.Data.List.TakeWhile

/-! # What scanning leaves out

    The chunks of a body, the tokens of a chunk and the entries of an attribute list are pieces of
    the text that they are read from: each stands at the position that it carries, they never
    overlap, and nothing but separators is left out between them.

    * `pieces_chunks`, `pieces_tokens` and `pieces_entries` say this of the three scanners.
    * `pairwise_tokens` puts the first two together: all tokens of a body stand one after the
      other. -/

namespace DotLayout.Dot

open Text

/-! ## Chunks -/

/-- What a chunk leaves over is empty or starts with the character that ends the chunk. -/
theorem endsChunk_of_readChunk {text rest : List Char} {c : Char}
    (h : (readChunk text).2 = c :: rest) : endsChunk c = true := by
  fun_induction readChunk text with
  | case1 => cases h
  | case2 d _ hd =>
      obtain ⟨rfl, -⟩ := List.cons.inj h
      exact hd
  | case3 _ _ _ _ _ ih => exact ih h
  | case4 => cases h
  | case5 _ _ _ _ _ ih => exact ih h
  | case6 _ _ _ _ _ ih => exact ih h

/-- What trims to nothing can be skipped as a whole. -/
theorem forall_of_trimWhere_eq_nil {drop : Char → Bool} {text : List Char}
    (h : trimWhere drop text = []) : ∀ c ∈ text, drop c = true := by
  have h : (text.dropWhile drop).reverse.dropWhile drop = [] := List.reverse_eq_nil_iff.1 h
  rw [List.dropWhile_eq_nil_iff] at h
  intro c hc
  rw [← List.takeWhile_append_dropWhile (p := drop) (l := text)] at hc
  rcases List.mem_append.1 hc with hc | hc
  · exact List.mem_takeWhile_imp hc
  · exact h c (List.mem_reverse.2 hc)

/-- A character that may be left out between two chunks. -/
def betweenChunks (c : Char) : Bool := isBlank c || endsChunk c

/-- Keeping a chunk keeps nothing else. -/
theorem eq_of_mem_keepChunk {chunk e : Excerpt} (h : e ∈ keepChunk chunk) : e = chunk := by
  rw [keepChunk] at h
  split at h
  · exact nomatch h
  · exact List.mem_singleton.1 h

/-- A chunk that is kept is its own piece, and one that is dropped is made of blanks. -/
theorem pieces_keepChunk (chunk : Excerpt) :
    Pieces betweenChunks chunk.start chunk.chars (keepChunk chunk) := by
  rw [keepChunk]
  split
  · rename_i h
    have blank := forall_of_trimWhere_eq_nil (List.isEmpty_iff.1 h)
    intro c hc
    simp [betweenChunks, blank c hc]
  · exact ⟨[], [], by simp, by simp, by simp, by simp [Pieces]⟩

/-- Cutting a text into chunks leaves out nothing but delimiters and blanks. -/
theorem pieces_chunksFrom (start : Nat) (text : List Char) :
    Pieces betweenChunks start text (chunksFrom start text) := by
  have whole := readChunk_append text
  fun_induction chunksFrom start text with
  | case1 start text chunk h =>
      rw [h, List.append_nil] at whole
      exact whole ▸ pieces_keepChunk chunk
  | case2 start text chunk c after h ih =>
      rw [h] at whole
      -- the delimiter is skipped, and the next chunk starts behind it
      have hc : betweenChunks c = true := by simp [betweenChunks, endsChunk_of_readChunk h]
      rw [← whole]
      exact (pieces_keepChunk chunk).append ((ih (readChunk_append after)).skip_cons hc)

/-- The chunks of a body are pieces of it. -/
theorem pieces_chunks (body : Excerpt) :
    Pieces betweenChunks body.start body.chars (chunks body) :=
  pieces_chunksFrom body.start body.chars

/-! ## Tokens -/

/-- A character that may be left out between two tokens. -/
def betweenTokens (c : Char) : Bool := isAsciiBlank c || c == ','

/-- A token stands where it was found. -/
theorem start_place_readToken (start : Nat) (c : Char) (rest : List Char) :
    (readToken start c rest).1.place.start = start := by
  rw [readToken]
  iterate 3
    split
    · rfl
  split
  · rfl
  split
  · rw [readQuotedWord]
    split <;> rfl
  split <;> rfl

/-- Reading the tokens of a text leaves out nothing but blanks and commas. -/
theorem pieces_tokensFrom (start : Nat) (text : List Char) :
    Pieces betweenTokens start text ((tokensFrom start text).map Token.place) := by
  fun_induction tokensFrom start text with
  | case1 => simp [Pieces]
  | case2 start c rest hc ih => exact ih.skip_cons hc
  | case3 start c rest hc ih =>
      have token := ih.cons
      rwa [start_place_readToken, place_readToken_append] at token

/-- No token is empty. -/
theorem lt_stop_readToken (start : Nat) (c : Char) (rest : List Char) :
    start < (readToken start c rest).1.place.stop := by
  have positive := byteLength_pos (place_readToken_ne_nil start c rest)
  rw [Excerpt.stop, start_place_readToken]
  omega

/-- Every token is read from at least one character. -/
theorem start_lt_stop_of_mem_tokensFrom {start : Nat} {text : List Char} {t : Token}
    (h : t ∈ tokensFrom start text) : t.place.start < t.place.stop := by
  fun_induction tokensFrom start text with
  | case1 => exact nomatch h
  | case2 _ _ _ _ ih => exact ih h
  | case3 start c rest _ ih =>
      rcases List.mem_cons.1 h with rfl | h
      · rw [start_place_readToken]
        exact lt_stop_readToken start c rest
      · exact ih h

/-- An attribute list is what is read behind its opening bracket. -/
theorem eq_of_readToken_bracket {start : Nat} {c : Char} {rest : List Char} {b : Bracket}
    (h : (readToken start c rest).1 = .bracket b) :
    c = '[' ∧ .bracket b = (readList start rest).1 := by
  rw [readToken] at h
  iterate 3
    split at h
    · cases h
  split at h
  · rename_i hc
    exact ⟨hc, h.symm⟩
  split at h
  · rw [readQuotedWord] at h
    split at h <;> cases h
  split at h <;> cases h

/-- An attribute list is read from an opening bracket on. -/
theorem exists_readBracket {start : Nat} {text : List Char} {b : Bracket}
    (h : .bracket b ∈ tokensFrom start text) :
    ∃ front rest, text = front ++ '[' :: rest ∧ b.content.chars = (readBracket rest).content := by
  fun_induction tokensFrom start text with
  | case1 => cases h
  | case2 start c rest _ ih =>
      obtain ⟨front, behind, rfl, hchars⟩ := ih h
      exact ⟨c :: front, behind, rfl, hchars⟩
  | case3 start c rest _ ih =>
      rcases List.mem_cons.1 h with hb | htail
      · obtain ⟨rfl, hlist⟩ := eq_of_readToken_bracket hb.symm
        obtain rfl := Token.bracket.inj hlist
        exact ⟨[], rest, rfl, rfl⟩
      · obtain ⟨front, behind, hrest, hchars⟩ := ih htail
        refine ⟨(readToken start c rest).1.place.chars ++ front, behind, ?_, hchars⟩
        rw [List.append_assoc, ← hrest, place_readToken_append]

/-- The tokens of a chunk are pieces of it. -/
theorem pieces_tokens (chunk : Excerpt) :
    Pieces betweenTokens chunk.start chunk.chars ((tokens chunk).map Token.place) :=
  pieces_tokensFrom chunk.start chunk.chars

/-! ## Entries -/

/-- The part of a list that an entry was read from. -/
def Entry.place : Entry → Excerpt
  | .pair _ place => place
  | .junk place => place

/-- An excerpt is what trimming takes off its ends and what trimming leaves. -/
theorem chars_trimWhere (drop : Char → Bool) (e : Excerpt) :
    ∃ after, e.chars = e.chars.takeWhile drop ++ ((e.trimWhere drop).chars ++ after) ∧
      ∀ c ∈ after, drop c = true := by
  let middle := e.chars.dropWhile drop
  refine ⟨(middle.reverse.takeWhile drop).reverse, ?_, ?_⟩
  · have front : e.chars.takeWhile drop ++ middle = e.chars := List.takeWhile_append_dropWhile
    have back : middle = (middle.reverse.dropWhile drop).reverse
        ++ (middle.reverse.takeWhile drop).reverse := by
      rw [← List.reverse_append, List.takeWhile_append_dropWhile, List.reverse_reverse]
    calc e.chars = e.chars.takeWhile drop ++ middle := front.symm
      _ = _ := congrArg (e.chars.takeWhile drop ++ ·) back
  · intro c hc
    exact List.mem_takeWhile_imp (List.mem_reverse.1 hc)

/-- What is no pair in a gap between pairs is a piece of the gap. -/
theorem pieces_junkIn (gap : Excerpt) :
    Pieces isSeparator gap.start gap.chars ((junkIn gap).map Entry.place) := by
  simp only [junkIn]
  split
  · rename_i h
    exact forall_of_trimWhere_eq_nil (List.isEmpty_iff.1 h)
  · obtain ⟨after, hchars, hafter⟩ := chars_trimWhere isSeparator gap
    exact ⟨_, after, hchars, fun c hc => List.mem_takeWhile_imp hc, rfl, hafter⟩

/-- The entries behind a place of a list leave out nothing but separators. -/
theorem pieces_entriesAfter (start : Nat) (gap text : List Char) :
    Pieces isSeparator start (gap.reverse ++ text)
      ((entriesAfter start gap text).map Entry.place) := by
  fun_induction entriesAfter start gap text with
  | case1 start gap => simpa using pieces_junkIn ⟨start, gap.reverse⟩
  | case2 start gap c rest _ key afterKey reading h before place ih =>
      have hplace : place = ⟨Excerpt.stop ⟨start, gap.reverse⟩, key ++ reading.written⟩ := by
        simp [place, before]
      have whole : c :: rest = (key ++ reading.written) ++ reading.after := by
        rw [List.append_assoc, written_readAssigned h, List.cons_append,
          List.takeWhile_append_dropWhile]
      have pair : Pieces isSeparator place.start (place.chars ++ reading.after)
          (place :: (entriesAfter place.stop [] reading.after).map Entry.place) := Pieces.cons ih
      rw [whole, List.map_append]
      rw [hplace] at pair
      exact (pieces_junkIn ⟨start, gap.reverse⟩).append pair
  | case3 start gap c rest _ key afterKey h ih =>
      -- a key without a value joins the gap
      have whole : (key.reverse ++ gap).reverse ++ afterKey = gap.reverse ++ c :: rest := by
        have text : key ++ afterKey = c :: rest := by simp [key, afterKey]
        rw [List.reverse_append, List.reverse_reverse, List.append_assoc, text]
      rwa [whole] at ih
  | case4 start gap c rest _ ih => simpa using ih

/-- The places of the entries of an attribute list are pieces of it. -/
theorem pieces_entries (content : Excerpt) :
    Pieces isSeparator content.start content.chars ((readEntries content).map Entry.place) :=
  pieces_entriesAfter content.start [] content.chars

/-- Behind a trimmed text, nothing is left to be dropped. -/
theorem getLast?_trimWhere {drop : Char → Bool} {text : List Char} {c : Char}
    (h : (trimWhere drop text).getLast? = some c) : drop c = false := by
  rw [trimWhere, List.getLast?_reverse] at h
  have first := List.head?_dropWhile_not drop (text.dropWhile drop).reverse
  rwa [h] at first

/-- In front of a trimmed text, nothing is left to be dropped. -/
theorem head?_trimWhere {drop : Char → Bool} {text : List Char} {c : Char}
    (h : (trimWhere drop text).head? = some c) : drop c = false := by
  rw [trimWhere, List.head?_reverse] at h
  -- what is left of the reversed text is at its end, which is the start of the text
  obtain ⟨taken, htaken⟩ := List.dropWhile_suffix drop (l := (text.dropWhile drop).reverse)
  have first := List.head?_dropWhile_not drop text
  have last : (text.dropWhile drop).reverse.getLast? = some c := by
    rw [← htaken, List.getLast?_append, h]
    rfl
  rw [List.getLast?_reverse] at last
  rwa [last] at first

/-- Junk in a gap neither starts nor ends with a separator. -/
theorem ends_of_junkIn {gap place : Excerpt} (h : .junk place ∈ junkIn gap) :
    place.chars ≠ [] ∧ (∀ c ∈ place.chars.head?, isSeparator c = false) ∧
      ∀ c ∈ place.chars.getLast?, isSeparator c = false := by
  rw [junkIn] at h
  split at h
  · cases h
  · rename_i hne
    obtain rfl := Entry.junk.inj (List.mem_singleton.1 h)
    refine ⟨fun hnil => hne (List.isEmpty_iff.2 hnil), fun c hhead => ?_, fun c hlast => ?_⟩
    · exact head?_trimWhere hhead
    · exact getLast?_trimWhere hlast

/-- What is no pair in a list is not empty, and neither begins nor ends with a separator. -/
theorem ends_of_junk {start : Nat} {gap text : List Char} {place : Excerpt}
    (h : .junk place ∈ entriesAfter start gap text) :
    place.chars ≠ [] ∧ (∀ c ∈ place.chars.head?, isSeparator c = false) ∧
      ∀ c ∈ place.chars.getLast?, isSeparator c = false := by
  fun_induction entriesAfter start gap text with
  | case1 => exact ends_of_junkIn h
  | case2 start gap c rest _ key afterKey reading hread before place' ih =>
      rcases List.mem_append.1 h with hgap | hrest
      · exact ends_of_junkIn hgap
      · have hplace : place' = ⟨Excerpt.stop ⟨start, gap.reverse⟩, key ++ reading.written⟩ := by
          simp [place', before]
        rw [hplace] at ih
        exact ih ((List.mem_cons.1 hrest).resolve_left (by simp))
  | case3 _ _ _ _ _ _ _ _ ih => exact ih h
  | case4 _ _ _ _ _ ih => exact ih h

/-! ## Tokens of a document -/

/-- No token of a body is empty. -/
theorem start_lt_stop_of_mem {body : Excerpt} {t : Token}
    (h : t ∈ ((chunks body).map tokens).flatten) : t.place.start < t.place.stop := by
  obtain ⟨ts, hts, ht⟩ := List.mem_flatten.1 h
  obtain ⟨chunk, -, rfl⟩ := List.mem_map.1 hts
  exact start_lt_stop_of_mem_tokensFrom ht

/-- The tokens of all chunks stand one after the other. -/
theorem pairwise_tokens (body : Excerpt) :
    (((chunks body).map tokens).flatten.map Token.place).Pairwise fun a b => a.stop ≤ b.start := by
  have places : ((chunks body).map tokens).flatten.map Token.place
      = (chunks body).flatMap fun chunk => (tokens chunk).map Token.place := by
    rw [List.map_flatten, List.map_map, List.flatMap]
    rfl
  rw [places]
  refine pairwise_flatMap (pieces_chunks body).pairwise ?_ ?_
  · intro chunk _ place hplace
    exact (pieces_tokens chunk).partOf place hplace
  · intro chunk _
    exact (pieces_tokens chunk).pairwise

end DotLayout.Dot
