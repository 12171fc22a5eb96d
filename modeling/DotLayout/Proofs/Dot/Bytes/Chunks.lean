import DotLayout.Proofs.Dot.Bytes.Ends
import DotLayout.Dot.Chunk

/-! # Chunks, byte by byte

    `splitBytes` cuts the bytes between two positions into chunks.  It remembers where the current
    chunk starts, goes on byte by byte, and cuts a chunk out of the text at each delimiter outside
    of strings and lists.  `splitBytes_eq` says that it finds the chunks that `chunksFrom` finds,
    and so never cuts at a wrong place. -/

namespace DotLayout.Dot

open Text

/-- Where a chunk goes on behind a bracket at a position, given the end of its list. -/
def behindBracket (i : Nat) (list : Bool × Nat) : Nat := if list.1 then list.2 + 1 else i + 1

/-- The chunks of the bytes from a position on, where the current chunk started earlier. -/
def splitBytes (text : List Char) (start i stop : Nat) (inString : Bool) :
    Except Fault (List Excerpt) :=
  if i < stop then do
    let b ← byteAt (encode text) i
    if inString then
      if b = ascii '\\' then splitBytes text start (i + 2) stop true
      else splitBytes text start (i + 1) stop (b != ascii '"')
    else if b = ascii '"' then splitBytes text start (i + 1) stop true
    else if b = ascii '[' then
      let list ← findListEnd (encode text) (i + 1) stop false
      if i < behindBracket i list then splitBytes text start (behindBracket i list) stop false
      else throw (.stuck i)
    else if endsChunk (Char.ofUInt8 b) then
      let chunk ← cut text start i
      let others ← splitBytes text (i + 1) (i + 1) stop false
      return keepChunk chunk ++ others
    else splitBytes text start (i + 1) stop false
  else do
    let chunk ← cut text start (min stop (encode text).length)
    return keepChunk chunk
  termination_by stop - i

/-! ## Chunks that have been read in part -/

/-- The chunks of a text of which a part of the first chunk has been read. -/
def chunksAfter (start : Nat) (done rest : List Char) : List Excerpt :=
  let chunk : Excerpt := ⟨start, done ++ (readChunk rest).1⟩
  match (readChunk rest).2 with
  | [] => keepChunk chunk
  | c :: after => keepChunk chunk ++ chunksFrom (chunk.stop + c.utf8Size) after

/-- The chunks from a place on are those of which nothing has been read. -/
theorem chunksFrom_eq_chunksAfter (start : Nat) (rest : List Char) :
    chunksFrom start rest = chunksAfter start [] rest := by
  rw [chunksFrom, chunksAfter]
  cases (readChunk rest).2 <;> rfl

/-- Reading goes on behind a piece that the chunk holds as a whole. -/
theorem chunksAfter_inFront {start : Nat} {done rest piece rest' : List Char}
    (h : readChunk rest = inFront piece (readChunk rest')) :
    chunksAfter start done rest = chunksAfter start (done ++ piece) rest' := by
  rw [chunksAfter, chunksAfter, h, inFront_fst, inFront_snd, List.append_assoc]

/-- What has been read and the rest of a text without delimiters make one chunk. -/
theorem chunksAfter_of_last {start : Nat} {done rest chunk : List Char}
    (h : readChunk rest = (chunk, [])) :
    chunksAfter start done rest = keepChunk ⟨start, done ++ chunk⟩ := by
  rw [chunksAfter, h]

/-- A delimiter ends the chunk that has been read, and the next chunk starts behind it. -/
theorem chunksAfter_delimiter {c : Char} (h : endsChunk c = true) (start : Nat)
    (done rest : List Char) :
    chunksAfter start done (c :: rest)
      = keepChunk ⟨start, done⟩ ++ chunksFrom (start + byteLength done + c.utf8Size) rest := by
  rw [chunksAfter, readChunk_delimiter h, List.append_nil]
  rfl

/-! ## Steps -/

variable {text : List Char} {start i stop : Nat}

/-- What the loop does with a byte outside of strings. -/
theorem splitBytes_step {b : UInt8} (hi : i < stop) (hb : byteAt (encode text) i = .ok b) :
    splitBytes text start i stop false
      = if b = ascii '"' then splitBytes text start (i + 1) stop true
        else if b = ascii '[' then do
          let list ← findListEnd (encode text) (i + 1) stop false
          if i < behindBracket i list then splitBytes text start (behindBracket i list) stop false
          else throw (.stuck i)
        else if endsChunk (Char.ofUInt8 b) then do
          let chunk ← cut text start i
          let others ← splitBytes text (i + 1) (i + 1) stop false
          return keepChunk chunk ++ others
        else splitBytes text start (i + 1) stop false := by
  rw [splitBytes, if_pos hi, hb]
  rfl

/-- At the end the loop keeps the chunk that it has read. -/
theorem splitBytes_done {done : List Char} (inString : Bool) (hi : stop ≤ i)
    (h : Cursor text start stop stop done []) :
    splitBytes text start i stop inString = .ok (keepChunk ⟨start, done⟩) := by
  rw [splitBytes, if_neg (Nat.not_lt.2 hi), Nat.min_eq_left h.stop_le, h.cut]
  rfl

/-- Inside a string the loop looks for nothing but its end. -/
theorem stringLoop_splitBytes {done : List Char} (h : Cursor text start stop stop done []) :
    StringLoop (encode text) stop (splitBytes text start · stop true)
      (splitBytes text start · stop false) (.ok (keepChunk ⟨start, done⟩)) := by
  refine @StringLoop.of_step _ _ _ (fun j inString => splitBytes text start j stop inString) _
    (fun j hj b hb => ?_) fun j hj => splitBytes_done true hj h
  rw [splitBytes, if_pos hj, hb]
  rfl

/-- A delimiter is a character of ASCII, and neither a quote nor an opening bracket. -/
theorem byte_of_endsChunk {c : Char} (h : endsChunk c = true) :
    c.toNat < 0x80 ∧ ascii c ≠ ascii '"' ∧ ascii c ≠ ascii '[' := by
  simp only [endsChunk, Bool.or_eq_true, beq_iff_eq] at h
  rcases h with ((rfl | rfl) | rfl) | rfl <;> decide

theorem endsChunk_of_high {c : Char} (h : 0x80 ≤ c.toNat) : endsChunk c = false :=
  eq_false_of_high (fun _ hd => (byte_of_endsChunk hd).1) h

/-! ## One lemma for each kind of character -/

variable {done rest : List Char}

/-- At a delimiter the loop keeps a chunk and starts the next one. -/
theorem splitBytes_delimiter {c : Char} (h : Cursor text start i stop done (c :: rest))
    (hend : endsChunk c = true) :
    splitBytes text start i stop false = do
      let others ← splitBytes text (i + 1) (i + 1) stop false
      return keepChunk ⟨start, done⟩ ++ others := by
  obtain ⟨hc, hquote, hlist⟩ := byte_of_endsChunk hend
  rw [splitBytes_step h.lt_stop (h.byteAt_ascii hc), if_neg hquote, if_neg hlist, ofUInt8_ascii hc,
    if_pos hend, h.cut]
  rfl

/-- A string that is closed is passed as a whole. -/
theorem splitBytes_string {content after : List Char}
    (h : Cursor text start i stop done ('"' :: rest))
    (hread : readQuoted rest = some (content, after)) :
    splitBytes text start i stop false
      = splitBytes text start (i + byteLength ('"' :: content ++ ['"'])) stop false := by
  have inner := h.advance_ascii (by decide)
  obtain ⟨tail, hdrop⟩ := inner.drop
  rw [splitBytes_step h.lt_stop (h.byteAt_ascii (by decide)), if_pos rfl,
    (stringLoop_splitBytes h.finish).run hdrop inner.ends, hread]
  show splitBytes text start (i + 1 + byteLength content + 1) stop false = _
  congr 1
  simp only [byteLength_append, byteLength_cons, byteLength_nil,
    utf8Size_of_lt (c := '"') (by decide)]
  omega

/-- A string that is never closed reaches to the end of the last chunk. -/
theorem splitBytes_openString (h : Cursor text start i stop done ('"' :: rest))
    (hread : readQuoted rest = none) :
    splitBytes text start i stop false = .ok (keepChunk ⟨start, done ++ '"' :: rest⟩) := by
  have inner := h.advance_ascii (by decide)
  obtain ⟨tail, hdrop⟩ := inner.drop
  rw [splitBytes_step h.lt_stop (h.byteAt_ascii (by decide)), if_pos rfl,
    (stringLoop_splitBytes h.finish).run hdrop inner.ends, hread]
  rfl

/-- At a bracket the loop goes on behind the list, unless that would bring it no further. -/
theorem splitBytes_bracket (h : Cursor text start i stop done ('[' :: rest)) :
    splitBytes text start i stop false
      = if i < behindBracket i ((readBracket rest).closed,
          i + 1 + byteLength (readBracket rest).content)
        then splitBytes text start (behindBracket i ((readBracket rest).closed,
          i + 1 + byteLength (readBracket rest).content)) stop false
        else .error (.stuck i) := by
  have inner := h.advance_ascii (by decide)
  obtain ⟨tail, hdrop⟩ := inner.drop
  rw [splitBytes_step h.lt_stop (h.byteAt_ascii (by decide)), if_neg (by decide), if_pos rfl,
    findListEnd_eq hdrop inner.ends inner.stop_le]
  rfl

/-- A list that is closed is passed as a whole. -/
theorem splitBytes_list (h : Cursor text start i stop done ('[' :: rest))
    (hclosed : (readBracket rest).closed = true) :
    splitBytes text start i stop false
      = splitBytes text start (i + byteLength ('[' :: (readBracket rest).content ++ [']'])) stop
          false := by
  have hpos : behindBracket i (true, i + 1 + byteLength (readBracket rest).content)
      = i + byteLength ('[' :: (readBracket rest).content ++ [']']) := by
    simp only [behindBracket, if_true, byteLength_append, byteLength_cons, byteLength_nil,
      utf8Size_of_lt (c := '[') (by decide), utf8Size_of_lt (c := ']') (by decide)]
    omega
  have positive : i < i + byteLength ('[' :: (readBracket rest).content ++ [']']) := by
    rw [← hpos, behindBracket, if_pos rfl]
    omega
  rw [splitBytes_bracket h, hclosed, hpos, if_pos positive]

/-- Of a list that is not closed, only the bracket is passed. -/
theorem splitBytes_openList (h : Cursor text start i stop done ('[' :: rest))
    (hclosed : (readBracket rest).closed = false) :
    splitBytes text start i stop false = splitBytes text start (i + 1) stop false := by
  rw [splitBytes_bracket h, hclosed]
  exact if_pos (Nat.lt_succ_self i)

/-- Any other character belongs to the chunk. -/
theorem splitBytes_other {c : Char} (h : Cursor text start i stop done (c :: rest))
    (hend : ¬ endsChunk c = true) (hquote : c ≠ '"') (hlist : c ≠ '[') :
    splitBytes text start i stop false = splitBytes text start (i + c.utf8Size) stop false := by
  have plain : ∀ j < stop, ∀ b ∈ String.utf8EncodeChar c, byteAt (encode text) j = .ok b →
      splitBytes text start j stop false = splitBytes text start (j + 1) stop false := by
    intro j hj b hb hbyte
    rw [splitBytes_step hj hbyte, if_neg (ne_of_mem_encodeChar (by decide) hquote b hb),
      if_neg (ne_of_mem_encodeChar (by decide) hlist b hb),
      class_of_mem_encodeChar (fun _ => endsChunk_of_high) c b hb, if_neg hend]
  obtain ⟨tail, hdrop⟩ := h.drop
  have hends := h.advance_char.ends
  exact skip_char (splitBytes text start · stop false) plain hdrop (by omega)

/-- The bytes of a text are split into its chunks. -/
theorem splitBytes_eq (h : Cursor text start i stop done rest) :
    splitBytes text start i stop false = .ok (chunksAfter start done rest) := by
  induction hn : rest.length using Nat.strongRecOn generalizing start i done rest with
  | _ n ih =>
    subst hn
    -- behind a piece that belongs to the current chunk as a whole, the rest is shorter
    have behind : ∀ piece rest', rest = piece ++ rest' → piece ≠ [] →
        splitBytes text start i stop false
          = splitBytes text start (i + byteLength piece) stop false →
        readChunk rest = inFront piece (readChunk rest') →
        splitBytes text start i stop false = .ok (chunksAfter start done rest) := by
      rintro piece rest' rfl hne hstep hread
      have shorter : rest'.length < (piece ++ rest').length := by
        have := List.length_pos_iff.2 hne
        simp only [List.length_append]
        omega
      rw [hstep, ih rest'.length shorter h.advance rfl, chunksAfter_inFront hread]
    cases rest with
    | nil =>
        obtain rfl : stop = i := h.ends
        have last : readChunk [] = ([], []) := by rw [readChunk]
        rw [splitBytes_done false (Nat.le_refl _) h, chunksAfter_of_last last, List.append_nil]
    | cons c rest =>
        -- the cases of `readChunk`, in its order
        by_cases hend : endsChunk c = true
        · have hc := (byte_of_endsChunk hend).1
          have hpos : i + 1 = start + byteLength done + c.utf8Size := by
            rw [utf8Size_of_lt hc, h.here]
          rw [splitBytes_delimiter h hend,
            ih rest.length (by simp) (h.advance_ascii hc).restart rfl, chunksAfter_delimiter hend,
            ← hpos, chunksFrom_eq_chunksAfter]
          rfl
        by_cases hquote : c = '"'
        · subst hquote
          cases hread : readQuoted rest with
          | none =>
              rw [splitBytes_openString h hread, chunksAfter_of_last (readChunk_openString hread)]
          | some halves =>
              obtain ⟨content, after⟩ := halves
              refine behind ('"' :: content ++ ['"']) after ?_ (by simp) (splitBytes_string h hread)
                (readChunk_string hread)
              simp [eq_of_readQuoted hread]
        by_cases hlist : c = '['
        · subst hlist
          cases hclosed : (readBracket rest).closed with
          | true =>
              have list := readBracket_append rest
              rw [BracketText.closing, if_pos hclosed] at list
              refine behind ('[' :: (readBracket rest).content ++ [']']) (readBracket rest).rest ?_
                (by simp) (splitBytes_list h hclosed) (readChunk_list hclosed)
              rw [List.cons_append, List.cons_append, List.append_assoc, list]
          | false =>
              exact behind ['['] rest rfl (by simp) (splitBytes_openList h hclosed)
                (readChunk_openList hclosed)
        · exact behind [c] rest rfl (by simp) (splitBytes_other h hend hquote hlist)
            (readChunk_other hend hquote hlist rest)

end DotLayout.Dot
