import DotLayout.Proofs.Dot.Bytes.Comments
import DotLayout.Proofs.Dot.Bytes.Entries
import DotLayout.Proofs.Dot.Bytes.Tokens
import DotLayout.Proofs.Dot.Labels

/-! # Descriptions, byte by byte

    `parseBytes` reads a description the way a program does that only has its bytes: it strips the
    comments from a copy of the bytes, cuts the body behind the header, splits it into chunks,
    reads the tokens of each chunk and cuts the lists among them into their entries.  Every byte
    that it takes and every piece that it cuts may be a `Fault`.

    * `parseBytes_eq`: it never meets one, and reads what `parse` reads.
    * `parse_safe` adds that whatever is said about a source points at whole characters of it. -/

namespace DotLayout.Dot

open Text

/-- The header of a text; what stands behind its opening brace is cut out of the text. -/
def headerBytes (text : List Char) : Except Fault (Option Header) :=
  match readHeader? text with
  | none => return none
  | some header => do
    let rest ← cut text header.opening.stop (byteLength text)
    let inside := beforeLastBrace? rest.chars
    return some { header with
      body := ⟨rest.start, inside.getD rest.chars⟩
      closed := inside.isSome }

def Token.entries : Token → List Entry
  | .bracket b => readEntries b.content
  | _ => []

/-- Reads the entries of a token, if it is a list. -/
def tokenEntries (text : List Char) : Token → Except Fault (List Entry)
  | .bracket b => listEntries text b.content.start b.content.stop
  | _ => return []

/-- The tokens of a chunk.  The entries of its lists are read as well. -/
def chunkBytes (text : List Char) (chunk : Excerpt) : Except Fault (List Token) := do
  let tokens ← tokensBytes text chunk.start chunk.stop
  let _entries ← tokens.mapM (tokenEntries text)
  return tokens

/-- Takes a text without comments apart. -/
def documentBytes (text : List Char) : Except Fault Document := do
  let header ← headerBytes text
  let body := bodyOf text header
  let chunks ← splitBytes text body.start body.start body.stop false
  let tokens ← chunks.mapM (chunkBytes text)
  return .ofTokens text header tokens

/-- Reads a graph description. -/
def parseBytes (source : String) : Except Fault (Except ParseError Parsed) := do
  let text ← stripBytes source.toList
  let length := byteLength source.toList
  if (trim text).isEmpty then return .error (.empty length)
  else
    let document ← documentBytes text
    return document.verdict length

/-! ## Headers -/

variable {text : List Char}

theorem headerBytes_eq (text : List Char) : headerBytes text = .ok (readHeader? text) := by
  rw [headerBytes]
  split
  · rename_i h
    rw [h]
    rfl
  · rename_i header h
    obtain ⟨front, rest, htext, hopening, hbody, hclosed⟩ := split_of_readHeader? h
    have hstop : header.opening.stop = byteLength (front ++ ['\x7b']) := by
      rw [hopening, Excerpt.stop, Nat.zero_add]
    have whole : text = (front ++ ['\x7b']) ++ rest := by
      rw [htext]
      simp
    have piece : cut text header.opening.stop (byteLength text)
        = .ok ⟨header.opening.stop, rest⟩ := by
      refine @cut_gap text (front ++ ['\x7b']) rest [] ?_ _ _ hstop ?_
      · rw [whole, List.append_nil]
      · rw [hstop, whole, byteLength_append]
    rw [h, piece, ok_bind]
    show Except.ok (some { header with
      body := ⟨header.opening.stop, (beforeLastBrace? rest).getD rest⟩
      closed := (beforeLastBrace? rest).isSome }) = _
    rw [← hbody, ← hclosed]

/-! ## Chunks -/

theorem delimited_of_split {before after : List Char} (htext : text = before ++ after)
    (hafter : ∀ c ∈ after.head?, endsChunk c = true) : Delimited text (byteLength before) := by
  intro b hb
  -- a delimiter is a byte of its own
  rw [htext, encode_append, ← length_encode before, List.getElem?_append_right (Nat.le_refl _),
    Nat.sub_self, ← List.head?_eq_getElem?] at hb
  cases after with
  | nil => exact nomatch hb
  | cons c rest =>
      have hend := hafter c rfl
      have hc := (byte_of_endsChunk hend).1
      rw [encode_cons, encodeChar_of_lt hc, List.singleton_append, List.head?_cons] at hb
      rwa [← Option.some.inj hb, ofUInt8_ascii hc]

/-- Behind a chunk there is a delimiter, or what there is behind the body. -/
theorem delimited_chunk {start : Nat} {body front behind : List Char} {chunk : Excerpt}
    (h : chunk ∈ chunksFrom start body) (htext : text = front ++ (body ++ behind))
    (hstart : start = byteLength front) (hbehind : ∀ c ∈ behind.head?, endsChunk c = true) :
    Delimited text chunk.stop := by
  have whole := readChunk_append body
  fun_induction chunksFrom start body generalizing front with
  | case1 start body first =>
      rename_i hrest
      -- the last chunk goes on to the end of the body, so what follows it is `behind`
      obtain rfl := eq_of_mem_keepChunk h
      rw [hrest, List.append_nil] at whole
      have stop : first.stop = byteLength (front ++ body) := by
        rw [byteLength_append, ← hstart, ← whole]
        rfl
      rw [stop]
      exact delimited_of_split (by rw [htext, List.append_assoc]) hbehind
  | case2 start body first c after hrest =>
      rename_i ih
      have hend := endsChunk_of_readChunk hrest
      rw [hrest] at whole
      have stop : first.stop = byteLength (front ++ first.chars) := by
        rw [byteLength_append, ← hstart]
        rfl
      have split : text = (front ++ first.chars) ++ (c :: (after ++ behind)) := by
        rw [htext, ← whole]
        simp [first]
      -- the chunk ends at the mark `c`, or it is one of the chunks behind it
      rcases List.mem_append.1 h with hfirst | hafter
      · obtain rfl := eq_of_mem_keepChunk hfirst
        rw [stop]
        refine delimited_of_split split fun d hd => ?_
        rwa [← Option.some.inj hd]
      · have next : text = (front ++ first.chars ++ [c]) ++ (after ++ behind) := by
          rw [split]
          simp
        refine ih hafter next ?_ (readChunk_append after)
        rw [stop, byteLength_append (front ++ first.chars)]
        rfl

/-- Behind the body of a text stands its closing brace, or nothing. -/
theorem split_of_bodyOf (text : List Char) :
    ∃ front behind, text = front ++ ((bodyOf text (readHeader? text)).chars ++ behind) ∧
      (bodyOf text (readHeader? text)).start = byteLength front ∧
      ∀ c ∈ behind.head?, endsChunk c = true := by
  cases h : readHeader? text with
  | none => exact ⟨[], [], (List.append_nil text).symm, rfl, nofun⟩
  | some header =>
      obtain ⟨front, rest, htext, hopening, hbody, -⟩ := split_of_readHeader? h
      have start : header.body.start = byteLength (front ++ ['\x7b']) := by
        rw [hbody, hopening]
        exact Nat.zero_add _
      have whole : text = (front ++ ['\x7b']) ++ rest := by
        rw [htext]
        simp
      cases hbrace : beforeLastBrace? rest with
      -- without a closing brace the body is all that is left
      | none =>
          refine ⟨front ++ ['\x7b'], [], ?_, start, nofun⟩
          show text = (front ++ ['\x7b']) ++ (header.body.chars ++ [])
          rw [hbody, hbrace, List.append_nil]
          exact whole
      | some inside =>
          obtain ⟨after, hafter, -⟩ := split_of_beforeLastBrace? hbrace
          refine ⟨front ++ ['\x7b'], '\x7d' :: after, ?_, start, ?_⟩
          · show text = (front ++ ['\x7b']) ++ (header.body.chars ++ '\x7d' :: after)
            rw [hbody, hbrace, Option.getD_some, ← hafter]
            exact whole
          · intro c hc
            rw [← Option.some.inj hc]
            decide

theorem cursor_of_partOf {e : Excerpt} (h : e.PartOf ⟨0, text⟩) :
    Cursor text e.start e.start e.stop [] e.chars := by
  obtain ⟨front, behind, htext, hstart⟩ := h
  exact ⟨⟨front, behind, htext, (hstart.trans (Nat.zero_add _)).symm⟩, rfl, rfl⟩

/-- A loop without faults gives all the results. -/
theorem mapM_eq {α β : Type} {f : α → Except Fault β} {g : α → β} {xs : List α}
    (h : ∀ x ∈ xs, f x = .ok (g x)) : xs.mapM f = .ok (xs.map g) := by
  induction xs with
  | nil => rfl
  | cons x xs ih =>
      have first := h x List.mem_cons_self
      have others := ih fun y hy => h y (List.mem_cons_of_mem x hy)
      rw [List.mapM_cons, first, ok_bind, others]
      rfl

/-! ## Documents -/

theorem tokenEntries_eq {t : Token} (h : SolidToken text t) :
    tokenEntries text t = .ok t.entries := by
  cases t with
  | bracket b => exact listEntries_eq ((h.2 b rfl).trans h.1).partOf
  | _ => rfl

theorem chunkBytes_eq {chunk : Excerpt} (h : chunk ∈ chunks (bodyOf text (readHeader? text))) :
    chunkBytes text chunk = .ok (tokens chunk) := by
  -- the last chunk ends with the body, so what is behind the body matters
  obtain ⟨front, behind, htext, hstart, hbehind⟩ := split_of_bodyOf text
  have solid := (solid_chunks h).trans (solid_bodyOf text)
  have read := tokensBytes_eq (cursor_of_partOf solid.partOf)
    (delimited_chunk h htext hstart hbehind)
  have entries : (tokens chunk).mapM (tokenEntries text)
      = .ok ((tokens chunk).map Token.entries) := by
    refine mapM_eq fun t ht => tokenEntries_eq (solidToken_document ?_)
    exact List.mem_flatten.2 ⟨tokens chunk, List.mem_map_of_mem h, ht⟩
  rw [chunkBytes, read, ok_bind]
  show (do let _entries ← (tokens chunk).mapM (tokenEntries text); return tokens chunk) = _
  rw [entries]
  rfl

/-- A text without comments is taken apart as `Document.ofText` does. -/
theorem documentBytes_eq (text : List Char) : documentBytes text = .ok (.ofText text) := by
  have body : splitBytes text (bodyOf text (readHeader? text)).start
      (bodyOf text (readHeader? text)).start (bodyOf text (readHeader? text)).stop false
      = .ok (chunks (bodyOf text (readHeader? text))) := by
    rw [splitBytes_eq (cursor_of_partOf (solid_bodyOf text).partOf), ← chunksFrom_eq_chunksAfter]
    rfl
  have tokens : (chunks (bodyOf text (readHeader? text))).mapM (chunkBytes text)
      = .ok ((chunks (bodyOf text (readHeader? text))).map Dot.tokens) :=
    mapM_eq fun _ h => chunkBytes_eq h
  rw [documentBytes, headerBytes_eq, ok_bind]
  show (do
    let chunks ← splitBytes text (bodyOf text (readHeader? text)).start
      (bodyOf text (readHeader? text)).start (bodyOf text (readHeader? text)).stop false
    let tokens ← chunks.mapM (chunkBytes text)
    return Document.ofTokens text (readHeader? text) tokens) = _
  rw [body, ok_bind, tokens]
  rfl

/-- Reading byte by byte meets no fault, and reads what `parse` reads. -/
theorem parseBytes_eq (source : String) : parseBytes source = .ok (parse source) := by
  rw [parseBytes, stripBytes_eq, ok_bind, parse]
  show (if (trim (stripComments source.toList)).isEmpty then _ else _) = _
  split
  · rfl
  · rw [documentBytes_eq]
    rfl

/-- For every source, reading takes no byte and cuts no piece that is not there, and each label of
    what is said about the source is a range of whole characters of it. -/
theorem parse_safe (source : String) :
    parseBytes source = .ok (parse source) ∧
    ∀ d ∈ diagnostics source, ∀ label ∈ d.labels,
      label.span.start ≤ label.span.stop ∧ label.span.stop ≤ source.utf8ByteSize ∧
      String.Pos.Raw.IsValid source ⟨label.span.start⟩ ∧
      String.Pos.Raw.IsValid source ⟨label.span.stop⟩ := by
  refine ⟨parseBytes_eq source, fun d hd label hlabel => ?_⟩
  have blanked := blanked_stripComments source.toList
  obtain ⟨hstart, hstop⟩ := firm_diagnostics hd label hlabel
  have start := blanked.boundary hstart
  have stop := blanked.boundary hstop
  refine ⟨label.span.start_le_stop, ?_, ?_, ?_⟩
  · rw [← byteLength_toList]
    exact stop.le_byteLength
  · exact isValid_iff_boundary.2 start
  · exact isValid_iff_boundary.2 stop

end DotLayout.Dot
