import DotLayout.Proofs.Dot.BehindBrace
import DotLayout.Proofs.Dot.Dashes
import DotLayout.Proofs.Dot.Edits
import DotLayout.Proofs.Dot.Written

/-! # The other operator

    Which operator stands between two words does not matter to the graph.  `Edit.exchange` is what
    happens to the tokens when another operator is written in the place of one.

    * `readToken_front` : no token depends on the dashes behind it, its next character apart.
    * `tokensFrom_linked`, `chunksFrom_linked` and `readHeader?_linked` : by induction on the
      scanners, a text with another operator in it has the same tokens, that operator apart.
    * `stripComments_linked` : so has a source with comments.
    * `remarks_exchange` : what is reported, mismatches apart, changes in its words only.
    * `parse_with_other_operator` puts these together. -/

namespace DotLayout.Dot

open Text

/-! ## Operators -/

/-- The second character of an operator. -/
def EdgeOp.tip : EdgeOp → Char
  | .directed => '>'
  | .undirected => '-'

theorem EdgeOp.toList_text (op : EdgeOp) : op.text.toList = ['-', op.tip] := by
  cases op <;> rfl

theorem EdgeOp.dash_tip (op : EdgeOp) : Dash op.tip := by
  cases op <;> decide

/-- Another operator stands where one stood. -/
def Edit.exchange (l : Link) (op : EdgeOp) : Edit where
  shift := 0
  link k := if k = l then ⟨op, ⟨l.place.start, op.text.toList⟩⟩ else k

/-- In the place of an operator, the other one is put. -/
theorem exchange_self (l : Link) (op : EdgeOp) :
    (Edit.exchange l op).token (.link l) = .link ⟨op, ⟨l.place.start, op.text.toList⟩⟩ :=
  congrArg Token.link (if_pos rfl)

/-- Any other token stays as it is. -/
theorem exchange_of_ne {l : Link} {t : Token} (h : t ≠ .link l) (op : EdgeOp) :
    (Edit.exchange l op).token t = t := by
  cases t with
  | link k => exact congrArg Token.link (if_neg fun hk => h (congrArg Token.link hk))
  | _ => rfl

/-- Tokens without the operator stay as they are. -/
theorem map_exchange_of_notMem {l : Link} {ts : List Token} (h : .link l ∉ ts) (op : EdgeOp) :
    ts.map (Edit.exchange l op).token = ts := by
  refine (List.map_congr_left fun t ht => ?_).trans (List.map_id ts)
  exact exchange_of_ne (fun hlink => h (hlink ▸ ht)) op

/-! ## Tokens -/

/-- Texts that are alike are cut at the same place. -/
theorem cut_alike {f : List Char → List Char × List Char}
    (happend : ∀ text, (f text).1 ++ (f text).2 = text)
    (hf : ∀ {text text'}, Alike text text' →
      Alike (f text).1 (f text').1 ∧ Alike (f text).2 (f text').2)
    {a a' x x' : List Char} (h : f (a ++ x) = (a, x)) (ha : Alike a a') (hx : Alike x x') :
    f (a' ++ x') = (a', x') := by
  have pieces := hf (ha.append hx)
  rw [h] at pieces
  have lengths : (f (a' ++ x')).1.length = a'.length :=
    pieces.1.length_eq.symm.trans ha.length_eq
  obtain ⟨hfront, hbehind⟩ := List.append_inj (happend (a' ++ x')) lengths
  exact Prod.ext hfront hbehind

/-- Whether a number starts depends on the next character alone. -/
theorem startsNumber_congr {a b : List Char} (h : a.head? = b.head?) :
    startsNumber a = startsNumber b := by
  cases a <;> cases b <;> simp_all [startsNumber]

section ReadToken

variable {x x' : List Char} (halike : Alike x x') (hhead : x.head? = x'.head?)
include halike

/-- The ports in front of a text do not depend on that text. -/
theorem readPorts_front {ports : List Char} (h : readPorts (ports ++ x) = (ports, x)) :
    readPorts (ports ++ x') = (ports, x') :=
  cut_alike readPorts_append Alike.readPorts h (.refl ports) halike

/-- A word without quotes does not depend on the text behind it. -/
theorem readBareWord_front {start : Nat} {c : Char} {before : List Char}
    (h : (readBareWord start c (before ++ x)).2 = x) :
    readBareWord start c (before ++ x') = ((readBareWord start c (before ++ x)).1, x') := by
  obtain ⟨name, hname⟩ : ∃ name, (before ++ x).takeWhile isIdentChar = name := ⟨_, rfl⟩
  obtain ⟨ports, hports⟩ : ∃ ports,
      readPorts ((before ++ x).dropWhile isIdentChar) = (ports, x) := ⟨_, Prod.ext rfl h⟩
  have behind : (before ++ x).dropWhile isIdentChar = ports ++ x := by
    rw [← readPorts_append ((before ++ x).dropWhile isIdentChar), hports]
  have hbefore : before = name ++ ports := by
    have whole : (before ++ x).takeWhile isIdentChar ++ (before ++ x).dropWhile isIdentChar
        = before ++ x := List.takeWhile_append_dropWhile
    rw [hname, behind, ← List.append_assoc] at whole
    exact (List.append_cancel_right whole).symm
  -- dashes are no characters of a name, so both names end at the same place
  have span : ((before ++ x').takeWhile isIdentChar, (before ++ x').dropWhile isIdentChar)
      = (name, ports ++ x') := by
    rw [hbefore, List.append_assoc]
    refine cut_alike (f := fun text => (text.takeWhile isIdentChar, text.dropWhile isIdentChar))
      (fun _ => List.takeWhile_append_dropWhile) (fun h => h.span _ rfl) ?_ (.refl name)
      ((Alike.refl ports).append halike)
    rw [← List.append_assoc, ← hbefore, hname, behind]
  obtain ⟨htake, hdrop⟩ := Prod.mk.inj span
  rw [behind] at hports
  simp only [readBareWord, hname, behind, hports, htake, hdrop, readPorts_front halike hports]

/-- A quoted word does not depend on the text behind it. -/
theorem readQuotedWord_front {start : Nat} {before : List Char}
    (h : (readQuotedWord start (before ++ x)).2 = x) :
    readQuotedWord start (before ++ x') = ((readQuotedWord start (before ++ x)).1, x') := by
  cases hread : readQuoted (before ++ x) with
  | none =>
      -- a string without its closing quote leaves nothing over
      have hnil : (readQuotedWord start (before ++ x)).2 = [] := by rw [readQuotedWord, hread]
      obtain rfl : [] = x := hnil.symm.trans h
      cases halike
      exact Prod.ext rfl hnil
  | some cut =>
      obtain ⟨content, behind⟩ := cut
      rw [readQuotedWord, hread] at h
      obtain ⟨ports, hports⟩ : ∃ ports, readPorts behind = (ports, x) := ⟨_, Prod.ext rfl h⟩
      obtain rfl : behind = ports ++ x := by rw [← readPorts_append behind, hports]
      have hbefore : before = content ++ '"' :: ports := by
        have whole := eq_of_readQuoted hread
        rw [← List.cons_append, ← List.append_assoc] at whole
        exact List.append_cancel_right whole
      have hread' : readQuoted (before ++ x') = some (content, ports ++ x') := by
        rw [hbefore, List.append_assoc]
        exact (content_of_readQuoted hread).readQuoted _
      simp only [readQuotedWord, hread, hread', hports, readPorts_front halike hports]

/-- A list does not depend on the text behind it. -/
theorem readBracket_front {before : List Char} (h : (readBracket (before ++ x)).rest = x) :
    readBracket (before ++ x') = { readBracket (before ++ x) with rest := x' } := by
  have lists := ((Alike.refl before).append halike).readBracket
  have whole := readBracket_append (before ++ x)
  have whole' := readBracket_append (before ++ x')
  generalize readBracket (before ++ x) = list at h lists whole ⊢
  generalize readBracket (before ++ x') = list' at lists whole' ⊢
  obtain ⟨content, closed, rest⟩ := list
  obtain ⟨content', closed', rest'⟩ := list'
  obtain rfl : rest = x := h
  obtain rfl : closed = closed' := lists.closed
  -- the list and its bracket are all that stands in front
  have front : before = content ++ BracketText.closing ⟨content, closed, rest⟩ := by
    rw [← List.append_assoc] at whole
    exact (List.append_cancel_right whole).symm
  rw [front, List.append_assoc] at whole'
  obtain ⟨rfl, htail⟩ := lists.content.cut whole'
  obtain rfl : rest' = x' := List.append_cancel_left htail
  rfl

/-- The token of a list does not depend on the text behind it. -/
theorem readList_front {start : Nat} {before : List Char}
    (h : (readList start (before ++ x)).2 = x) :
    readList start (before ++ x') = ((readList start (before ++ x)).1, x') := by
  rw [readList, readBracket_front halike h]
  rfl

include hhead

/-- A token does not depend on what stands behind it, the next character and dashes apart. -/
theorem readToken_front {start : Nat} {c : Char} {before : List Char}
    (h : (readToken start c (before ++ x)).2 = x) :
    readToken start c (before ++ x') = ((readToken start c (before ++ x)).1, x') := by
  have head : (before ++ x').head? = (before ++ x).head? := by
    rw [List.head?_append, List.head?_append, hhead]
  have number : startsNumber (before ++ x') = startsNumber (before ++ x) := startsNumber_congr head
  have none : before ++ x = x → before ++ x' = x' := by
    intro hx
    rw [List.append_left_eq_self.1 hx, List.nil_append]
  have second : ∀ d, (before ++ x).head? = some d → (before ++ x).tail = x →
      (before ++ x').tail = x' := by
    intro d hd htail
    cases before with
    | nil =>
        obtain ⟨rest, rfl⟩ := List.head?_eq_some_iff.1 hd
        exact absurd htail (List.cons_ne_self d rest).symm
    | cons e before =>
        rw [List.cons_append, List.tail_cons] at htail ⊢
        rw [List.append_left_eq_self.1 htail, List.nil_append]
  -- which kind of token it is depends on one character behind `c`, and that is the same
  simp only [readToken, head, number] at h ⊢
  split_ifs at h ⊢ with hdirected hundirected hequals hlist hquote hword
  · rw [second _ hdirected.2 h]
  · rw [second _ hundirected.2 h]
  · rw [none h]
  · exact readList_front halike h
  · exact readQuotedWord_front halike h
  · exact readBareWord_front halike h
  · rw [none h]

end ReadToken

/-- A text with an operator between two parts of it. -/
def linked (front : List Char) (op : EdgeOp) (behind : List Char) : List Char :=
  front ++ '-' :: op.tip :: behind

/-- A text is like the same text with another operator in it. -/
theorem alike_linked (front behind : List Char) (op op' : EdgeOp) :
    Alike (linked front op behind) (linked front op' behind) :=
  (Alike.refl front).append
    (.cons (.inl rfl) (.cons (.inr ⟨op.dash_tip, op'.dash_tip⟩) (Alike.refl behind)))

/-- Another operator leaves the first character of a text as it is. -/
theorem head?_linked (front behind : List Char) (op op' : EdgeOp) :
    (linked front op behind).head? = (linked front op' behind).head? := by
  cases front <;> rfl

theorem linked_append (front : List Char) (op : EdgeOp) (behind rest : List Char) :
    linked front op behind ++ rest = linked front op (behind ++ rest) := by
  simp only [linked, List.append_assoc, List.cons_append]

theorem append_linked (text front : List Char) (op : EdgeOp) (behind : List Char) :
    text ++ linked front op behind = linked (text ++ front) op behind := by
  simp only [linked, List.append_assoc]

theorem readToken_linked (start : Nat) (op : EdgeOp) (behind : List Char) :
    readToken start '-' (op.tip :: behind) = (.link ⟨op, ⟨start, op.text.toList⟩⟩, behind) := by
  cases op <;> rfl

/-- An operator is read from its own characters. -/
theorem exists_of_readToken_link {start : Nat} {c : Char} {rest : List Char} {l : Link}
    (h : (readToken start c rest).1 = .link l) :
    c = '-' ∧ (∃ behind, rest = l.op.tip :: behind) ∧ l.place = ⟨start, l.op.text.toList⟩ := by
  rw [readToken] at h
  split at h
  · rename_i hdirected
    obtain ⟨rfl, htip⟩ := hdirected
    obtain rfl := Token.link.inj h
    exact ⟨rfl, List.head?_eq_some_iff.1 htip, congrArg _ (EdgeOp.toList_text .directed).symm⟩
  split at h
  · rename_i hundirected
    obtain ⟨rfl, htip⟩ := hundirected
    obtain rfl := Token.link.inj h
    exact ⟨rfl, List.head?_eq_some_iff.1 htip, congrArg _ (EdgeOp.toList_text .undirected).symm⟩
  split at h
  · cases h
  split at h
  · cases h
  split at h
  · rw [readQuotedWord] at h
    split at h <;> cases h
  split at h <;> cases h

theorem stop_operator (start : Nat) (op : EdgeOp) :
    Excerpt.stop ⟨start, op.text.toList⟩ = start + 2 := by
  cases op <;> rfl

/-- An operator is the first token of a text that starts with it, and its place is known. -/
theorem tokensFrom_operator (start : Nat) (op : EdgeOp) (behind : List Char) :
    tokensFrom start ('-' :: op.tip :: behind)
      = .link ⟨op, ⟨start, op.text.toList⟩⟩ :: tokensFrom (start + 2) behind := by
  have stop : (Token.link ⟨op, ⟨start, op.text.toList⟩⟩).place.stop = start + 2 :=
    stop_operator start op
  rw [tokensFrom, if_neg (by decide), readToken_linked, stop]

/-- Every token is read from the characters in front of what it leaves over. -/
theorem exists_place_readToken (start : Nat) (c : Char) (rest : List Char) :
    ∃ before, (readToken start c rest).1.place = ⟨start, c :: before⟩ ∧
      rest = before ++ (readToken start c rest).2 := by
  have whole := place_readToken_append start c rest
  obtain ⟨d, before, hchars⟩ := List.exists_cons_of_ne_nil (place_readToken_ne_nil start c rest)
  rw [hchars] at whole
  obtain ⟨rfl, hrest⟩ := List.cons.inj whole
  exact ⟨before, congr_arg₂ Excerpt.mk (start_place_readToken start d rest) hchars, hrest.symm⟩

theorem start_le_of_mem_tokensFrom {start : Nat} {text : List Char} {t : Token}
    (h : t ∈ tokensFrom start text) : start ≤ t.place.start :=
  ((pieces_tokensFrom start text).partOf _ (List.mem_map_of_mem h)).start_le

/-- Tokens that stand behind an operator are not that operator. -/
theorem map_exchange_behind {start : Nat} {text : List Char} {l : Link} (h : l.place.start < start)
    (op : EdgeOp) :
    (tokensFrom start text).map (Edit.exchange l op).token = tokensFrom start text :=
  map_exchange_of_notMem (fun hl => absurd (start_le_of_mem_tokensFrom hl) (Nat.not_le.2 h)) op

/-- With another operator in the place of one of them, a text is read as the same tokens, that
    operator apart. -/
theorem tokensFrom_linked {start : Nat} {text : List Char} {l : Link}
    (h : .link l ∈ tokensFrom start text) :
    ∃ front behind, text = linked front l.op behind ∧
      l.place = ⟨start + byteLength front, l.op.text.toList⟩ ∧
      ∀ op, tokensFrom start (linked front op behind)
        = (tokensFrom start text).map (Edit.exchange l op).token := by
  fun_induction tokensFrom start text with
  | case1 => cases h
  | case2 start c rest hc ih =>
      obtain ⟨front, behind, rfl, hplace, hop⟩ := ih h
      refine ⟨c :: front, behind, rfl, ?_, fun op => ?_⟩
      · rw [hplace, byteLength_cons, Nat.add_assoc]
      · rw [linked, List.cons_append, tokensFrom, if_pos hc]
        exact hop op
  | case3 start c rest hc ih =>
      have later := lt_stop_readToken start c rest
      rcases List.mem_cons.1 h with hl | hl
      · -- the operator comes first, and all other tokens stand behind it
        obtain ⟨rfl, ⟨behind, rfl⟩, hplace⟩ := exists_of_readToken_link hl.symm
        have hstart : l.place.start = start := congrArg Excerpt.start hplace
        refine ⟨[], behind, rfl, hplace, fun op => ?_⟩
        rw [List.map_cons, map_exchange_behind (hstart ▸ later), ← hl, exchange_self, hstart]
        rw [readToken_linked] at hl ⊢
        rw [hl, linked, List.nil_append, tokensFrom_operator, Token.place, stop_operator]
      · obtain ⟨front, behind, hafter, hplace, hop⟩ := ih hl
        have other : (readToken start c rest).1 ≠ .link l := by
          intro htoken
          have first := start_place_readToken start c rest
          rw [htoken] at first later hplace
          have first : l.place.start = start := first
          have behind : l.place.start = l.place.stop + byteLength front :=
            congrArg Excerpt.start hplace
          have later : start < l.place.stop := later
          omega
        obtain ⟨before, hbefore, hrest⟩ := exists_place_readToken start c rest
        rw [hafter] at hrest
        refine ⟨c :: before ++ front, behind, ?_, ?_, fun op => ?_⟩
        · rw [hrest, ← append_linked, List.cons_append]
        · rw [hplace, hbefore, Excerpt.stop, byteLength_append, Nat.add_assoc]
        · -- the first token does not see which operator stands behind it
          have token : readToken start c (before ++ linked front op behind)
              = ((readToken start c rest).1, linked front op behind) := by
            rw [hrest] at hafter ⊢
            exact readToken_front (alike_linked ..) (head?_linked ..) hafter
          rw [List.map_cons, exchange_of_ne other, ← hop, ← append_linked, List.cons_append,
            tokensFrom, if_neg hc, token]

/-! ## Chunks -/

/-- Tokens of some chunks without the operator stay as they are. -/
theorem map_map_exchange_of_notMem {l : Link} {tss : List (List Token)} (h : .link l ∉ tss.flatten)
    (op : EdgeOp) : tss.map (List.map (Edit.exchange l op).token) = tss := by
  refine (List.map_congr_left fun ts hts => ?_).trans (List.map_id tss)
  exact map_exchange_of_notMem (fun hl => h (List.mem_flatten_of_mem hts hl)) op

/-- A token of a chunk that is kept is a token of that chunk. -/
theorem mem_tokens_keepChunk {chunk : Excerpt} {t : Token}
    (h : t ∈ ((keepChunk chunk).map tokens).flatten) : t ∈ tokens chunk := by
  obtain ⟨ts, hts, ht⟩ := List.mem_flatten.1 h
  obtain ⟨e, he, rfl⟩ := List.mem_map.1 hts
  exact eq_of_mem_keepChunk he ▸ ht

/-- A token of a chunk begins in front of the end of the chunk. -/
theorem start_lt_of_mem_keepChunk {chunk : Excerpt} {t : Token}
    (h : t ∈ ((keepChunk chunk).map tokens).flatten) : t.place.start < chunk.stop := by
  have ht := mem_tokens_keepChunk h
  have part := (pieces_tokens chunk).partOf _ (List.mem_map_of_mem ht)
  exact (start_lt_stop_of_mem_tokensFrom ht).trans_le part.stop_le

/-- No token of a chunk stands in front of the text that is cut. -/
theorem start_le_of_mem_chunksFrom {start : Nat} {text : List Char} {t : Token}
    (h : t ∈ ((chunksFrom start text).map tokens).flatten) : start ≤ t.place.start := by
  obtain ⟨ts, hts, ht⟩ := List.mem_flatten.1 h
  obtain ⟨chunk, hchunk, rfl⟩ := List.mem_map.1 hts
  have part := (pieces_chunksFrom start text).partOf chunk hchunk
  exact part.start_le.trans (start_le_of_mem_tokensFrom ht)

/-- A chunk with an operator among its tokens has the text of that operator in it, and writing
    another one there exchanges that token alone. -/
theorem keepChunk_linked {start : Nat} {text : List Char} {l : Link}
    (h : .link l ∈ ((keepChunk ⟨start, text⟩).map tokens).flatten) :
    ∃ front behind, text = linked front l.op behind ∧
      l.place = ⟨start + byteLength front, l.op.text.toList⟩ ∧
      ∀ op, (keepChunk ⟨start, linked front op behind⟩).map tokens
        = ((keepChunk ⟨start, text⟩).map tokens).map (List.map (Edit.exchange l op).token) := by
  have kept : ∀ front op behind, keepChunk ⟨start, linked front op behind⟩
      = [⟨start, linked front op behind⟩] := fun front op behind =>
    keepChunk_visible ⟨'-', List.mem_append_right front List.mem_cons_self, rfl⟩
  obtain ⟨front, behind, rfl, hplace, hop⟩ := tokensFrom_linked (mem_tokens_keepChunk h)
  refine ⟨front, behind, rfl, hplace, fun op => ?_⟩
  rw [kept, kept]
  exact congrArg ([·]) (hop op)

/-- With another operator in the place of one of them, a text is cut into the same chunks of the
    same tokens, that operator apart. -/
theorem chunksFrom_linked {start : Nat} {text : List Char} {l : Link}
    (h : .link l ∈ ((chunksFrom start text).map tokens).flatten) :
    ∃ front behind, text = linked front l.op behind ∧
      l.place = ⟨start + byteLength front, l.op.text.toList⟩ ∧
      ∀ op, (chunksFrom start (linked front op behind)).map tokens
        = ((chunksFrom start text).map tokens).map (List.map (Edit.exchange l op).token) := by
  have alike : ∀ {chunk chunk' rest rest'}, readChunk (chunk ++ rest) = (chunk, rest) →
      Alike chunk chunk' → Alike rest rest' → readChunk (chunk' ++ rest') = (chunk', rest') :=
    cut_alike readChunk_append Alike.readChunk
  fun_induction chunksFrom start text with
  | case1 start text chunk hread =>
      -- one chunk takes the whole text, so nothing behind it can change
      have whole := readChunk_append text
      rw [hread, List.append_nil] at whole
      have place : chunk = ⟨start, text⟩ := congrArg (Excerpt.mk start) whole
      have alone : readChunk (text ++ []) = (text, []) := by
        rw [List.append_nil]
        exact Prod.ext whole hread
      rw [place] at h ⊢
      obtain ⟨front, behind, rfl, hplace, hop⟩ := keepChunk_linked h
      refine ⟨front, behind, rfl, hplace, fun op => ?_⟩
      have cut := alike alone (alike_linked front behind l.op op) .nil
      rw [List.append_nil] at cut
      rw [chunksFrom_of_whole cut, hop]
  | case2 start text chunk c after hread ih =>
      have hread : readChunk text = (chunk.chars, c :: after) := Prod.ext rfl hread
      -- the chunk ends at a mark; the operator stands in this chunk or behind the mark
      have whole := readChunk_append text
      have place : chunk.start = start := rfl
      clear_value chunk
      obtain ⟨chunkStart, chars⟩ := chunk
      obtain rfl : start = chunkStart := place.symm
      rw [hread] at whole
      subst whole
      rw [List.map_append, List.flatten_append] at h
      rcases List.mem_append.1 h with hl | hl
      · -- the chunks behind that of the operator stay
        have others : .link l ∉ ((chunksFrom (start + byteLength chars + c.utf8Size) after).map
            tokens).flatten := fun hmem => by
          have before : l.place.start < start + byteLength chars := start_lt_of_mem_keepChunk hl
          have behind : _ ≤ l.place.start := start_le_of_mem_chunksFrom hmem
          omega
        obtain ⟨front, behind, rfl, hplace, hop⟩ := keepChunk_linked hl
        refine ⟨front, behind ++ c :: after, linked_append .., hplace, fun op => ?_⟩
        have same := alike_linked front behind l.op op
        have cut := alike hread same (.refl _)
        rw [← linked_append, chunksFrom_cons cut, List.map_append, List.map_append, List.map_append,
          hop, ← same.byteLength_eq]
        exact congrArg (_ ++ ·) (map_map_exchange_of_notMem others op).symm
      · -- those in front of it stay
        obtain ⟨front, behind, rfl, hplace, hop⟩ := ih hl
        have others : .link l ∉ ((keepChunk ⟨start, chars⟩).map tokens).flatten := fun hmem => by
          have before : l.place.start < start + byteLength chars := start_lt_of_mem_keepChunk hmem
          have behind : l.place.start = start + byteLength chars + c.utf8Size + byteLength front :=
            congrArg Excerpt.start hplace
          omega
        refine ⟨chars ++ c :: front, behind, ?_, ?_, fun op => ?_⟩
        · rw [← append_linked]
          rfl
        · rw [hplace, byteLength_append, byteLength_cons, Excerpt.stop]
          simp only [Nat.add_assoc]
        · have same := alike_linked front behind l.op op
          have cut := alike hread (.refl _) (.cons (.inl rfl) same)
          have text : linked (chars ++ c :: front) op behind
              = chars ++ c :: linked front op behind := (append_linked ..).symm
          rw [text, chunksFrom_cons cut, List.map_append, List.map_append, List.map_append,
            map_map_exchange_of_notMem others, ← hop]
          rfl

/-! ## Headers -/

/-- With another operator in the place of one of its body, a text has the same header, and that
    operator apart the same tokens. -/
theorem readHeader?_linked {text : List Char} {header : Header} {l : Link}
    (h : readHeader? text = some header)
    (hl : .link l ∈ ((chunks header.body).map tokens).flatten) :
    ∃ front behind, text = linked front l.op behind ∧
      l.place = ⟨byteLength front, l.op.text.toList⟩ ∧
      ∀ op, ∃ body, readHeader? (linked front op behind) = some { header with body := body } ∧
        (chunks body).map tokens
          = ((chunks header.body).map tokens).map (List.map (Edit.exchange l op).token) := by
  obtain ⟨opened, rest, rfl, hopening, hbody, hclosed⟩ := split_of_readHeader? h
  obtain ⟨after, hrest, halike⟩ := Alike.body rest
  rw [hbody] at hl ⊢
  obtain ⟨front, behind, hinside, hplace, hop⟩ := chunksFrom_linked hl
  have text : ∀ op, linked (opened ++ '\x7b' :: front) op (behind ++ after)
      = opened ++ '\x7b' :: (linked front op behind ++ after) := by
    intro op
    rw [linked_append]
    exact (append_linked ..).symm
  refine ⟨opened ++ '\x7b' :: front, behind ++ after, ?_, ?_, fun op => ?_⟩
  · rw [text, ← hinside, ← hrest]
  · rw [hplace, hopening]
    simp [Excerpt.stop, Nat.add_assoc]
  · -- the last closing brace stays where it was, and no quoted name starts in the body
    have same := alike_linked front behind l.op op
    obtain ⟨inside, closed⟩ := halike (hinside ▸ same)
    refine ⟨⟨header.opening.stop, linked front op behind⟩, ?_, hop op⟩
    have behindBrace : Alike rest (linked front op behind ++ after) := by
      have whole := same.append (.refl after)
      rwa [← hinside, ← hrest] at whole
    have unquoted : ∀ inner, readQuotedName? (inner ++ '\x7b' :: rest) = none →
        readQuotedName? (inner ++ '\x7b' :: (linked front op behind ++ after)) = none :=
      fun inner =>
        Alike.readQuotedName?_none ((Alike.refl inner).append (.cons (.inl rfl) behindBrace))
    rw [text, readHeader?_of_unquoted h hopening unquoted, inside, closed, ← hclosed]

/-- An operator of a text without comments is one of the text, and with another one in its place
    the text turns into the one with that operator. -/
theorem stripComments_linked {source front behind : List Char} {op : EdgeOp}
    (h : stripComments source = linked front op behind) :
    ∃ kept dropped, source = linked kept op dropped ∧ byteLength kept = byteLength front ∧
      ∀ op', stripComments (linked kept op' dropped) = linked front op' behind := by
  have ordinary : ∀ op : EdgeOp, Ordinary op.tip := by
    intro op
    cases op <;> decide
  have apart : ∀ front op behind, linked front op behind = (front ++ ['-']) ++ op.tip :: behind :=
    fun front op behind => List.append_cons front '-' (op.tip :: behind)
  obtain ⟨kept, rest, -, hsource, hkept, -⟩ := exists_cut_at (by decide) h
  obtain ⟨kept', dropped, after, hsource', hkept', hmore⟩ := exists_cut_at (ordinary op)
    (h.trans (apart front op behind))
  -- the tip stands right behind the dash, as no other cut is as long
  obtain rfl : kept' = kept ++ ['-'] := by
    have cut := splitAt?_append (kept ++ ['-']) rest
    have length : byteLength (kept ++ ['-']) = byteLength kept' := by
      rw [hkept', byteLength_append, byteLength_append, hkept]
    rw [length, ← List.append_cons, ← hsource, hsource', splitAt?_append] at cut
    exact congrArg Prod.fst (Option.some.inj cut)
  refine ⟨kept, dropped, ?_, hkept, fun op' => ?_⟩
  · rw [hsource', apart]
  · have shown : blankComments after dropped = behind := by
      have whole := hmore op.tip (ordinary op) dropped
      rw [← hsource', h, apart] at whole
      exact (List.cons.inj (List.append_cancel_left whole)).2.symm
    rw [apart, hmore op'.tip (ordinary op'), shown, apart]

/-! ## Reports -/

/-- What is left of diagnostics without those about operators of the other kind of graph. -/
def withoutMismatches (ds : List Diagnostic) : List Diagnostic :=
  ds.filter fun d => d.code != some .operatorMismatch

theorem withoutMismatches_append (a b : List Diagnostic) :
    withoutMismatches (a ++ b) = withoutMismatches a ++ withoutMismatches b :=
  List.filter_append ..

/-- Nothing is left out where there is no mismatch. -/
theorem withoutMismatches_eq_self {fs : List Finding}
    (h : ∀ f ∈ fs, f.diagnostic.code ≠ some .operatorMismatch) :
    withoutMismatches (fs.map Finding.diagnostic) = fs.map Finding.diagnostic := by
  refine List.filter_eq_self.2 fun d hd => ?_
  obtain ⟨f, hf, rfl⟩ := List.mem_map.1 hd
  exact bne_iff_ne.2 (h f hf)

/-- The warnings that do not depend on which operators belong to a graph. -/
def Parsed.remarks (p : Parsed) : List Diagnostic := withoutMismatches p.warnings

/-- A diagnostic stays, unless it says that this operator makes no edge; then it quotes the other
    operator. -/
def Reworded (l : Link) (op : EdgeOp) (d d' : Diagnostic) : Prop :=
  d' = d ∨ d.code = some .incompleteEdge ∧ d.labels.map Label.span = [l.place.span] ∧
    ∃ before after, d.message = before ++ l.op.text ++ after ∧
      d' = { d with message := before ++ op.text ++ after }

/-- What else is reported about a statement is no mismatch. -/
theorem code_complaints {s : Statement} :
    ∀ f ∈ s.complaints, f.diagnostic.code ≠ some .operatorMismatch := by
  have brackets : ∀ lists : List Bracket, ∀ f ∈ lists.flatMap Bracket.findings,
      f.diagnostic.code ≠ some .operatorMismatch := by
    intro lists f hf
    rcases code_bracketFindings _ (List.mem_map_of_mem hf) with hcode | hcode <;> rw [hcode] <;>
      exact nofun
  intro f hf
  cases s with
  | assignment => exact nomatch hf
  | keyOnly key equals =>
      obtain rfl := List.mem_singleton.1 hf
      exact nofun
  | defaults keyword ofGraph lists => exact brackets lists f hf
  | subgraph => exact nomatch hf
  | chain head hops dangling lists =>
      rcases List.mem_append.1 hf with hdangling | hlists
      · obtain ⟨link, -, rfl⟩ := Option.map_eq_some_iff.1 (Option.mem_toList.1 hdangling)
        exact nofun
      · exact brackets lists f hlists
  | noSource link =>
      obtain rfl := List.mem_singleton.1 hf
      exact nofun
  | openString place =>
      obtain rfl := List.mem_singleton.1 hf
      exact nofun
  | misplaced token why =>
      obtain rfl := List.mem_singleton.1 hf
      exact nofun

/-- Without mismatches, what is reported about a statement is the rest. -/
theorem withoutMismatches_findings (directed : Bool) (s : Statement) :
    withoutMismatches ((s.findings directed).map Finding.diagnostic)
      = s.complaints.map Finding.diagnostic := by
  have mismatches : withoutMismatches
      (((s.crossings directed).map (.mismatch · directed)).map Finding.diagnostic) = [] := by
    rw [withoutMismatches, List.map_map, List.filter_map, List.map_eq_nil_iff,
      List.filter_eq_nil_iff]
    exact fun link _ => Bool.false_ne_true
  rw [Statement.findings_eq, List.map_append, withoutMismatches_append, mismatches,
    withoutMismatches_eq_self code_complaints, List.nil_append]

/-- What is reported about a description, the operators of its edges apart. -/
def Document.complaints (d : Document) (length : Nat) : List Finding :=
  d.unclosed length ++ d.statements.flatMap Statement.complaints

/-- What else is reported about a document is no mismatch. -/
theorem code_documentComplaints {d : Document} {length : Nat} :
    ∀ f ∈ d.complaints length, f.diagnostic.code ≠ some .operatorMismatch := by
  intro f hf
  rcases List.mem_append.1 hf with hf | hf
  · rw [code_unclosed f hf]
    decide
  · obtain ⟨s, -, hs⟩ := List.mem_flatMap.1 hf
    exact code_complaints f hs

/-- Without mismatches, what is reported about a document is the rest. -/
theorem remarks_eq (d : Document) (g : Graph) (length : Nat) :
    Parsed.remarks ⟨g, d.findings length⟩ = (d.complaints length).map Finding.diagnostic := by
  have unclosed : ∀ f ∈ d.unclosed length, f.diagnostic.code ≠ some .operatorMismatch :=
    fun f hf => code_documentComplaints f (List.mem_append_left _ hf)
  rw [Parsed.remarks, Parsed.warnings, Document.findings, Document.complaints, List.map_append,
    withoutMismatches_append, withoutMismatches_eq_self unclosed, List.map_append,
    withoutMismatches, List.map_flatMap, List.filter_flatMap, List.map_flatMap]
  exact congrArg (_ ++ List.flatMap · d.statements)
    (funext (withoutMismatches_findings d.directed))

section Exchanged

variable {l : Link} (hplace : l.place.chars = l.op.text.toList) (op : EdgeOp)
include hplace

/-- A report that quotes an operator quotes the other one afterwards. -/
theorem reworded_link (link : Link) (before after label : String) :
    Reworded l op
      (.about .warning .incompleteEdge (before ++ link.op.text ++ after) link.place.span label)
      (.about .warning .incompleteEdge (before ++ ((Edit.exchange l op).link link).op.text ++ after)
        ((Edit.exchange l op).link link).place.span label) := by
  by_cases h : link = l
  · subst h
    have exchanged : (Edit.exchange link op).link link
        = ⟨op, ⟨link.place.start, op.text.toList⟩⟩ := if_pos rfl
    -- both operators take two bytes
    have span : (Excerpt.mk link.place.start op.text.toList).span = link.place.span := by
      obtain ⟨op', start, chars⟩ := link
      obtain rfl : chars = op'.text.toList := hplace
      rw [EdgeOp.toList_text, EdgeOp.toList_text]
      cases op <;> cases op' <;> rfl
    rw [exchanged, span]
    exact .inr ⟨rfl, rfl, before, after, rfl, rfl⟩
  · rw [show (Edit.exchange l op).link link = link from if_neg h]
    exact .inl rfl

/-- Any report but a mismatch stays, or quotes the other operator. -/
theorem reworded_exchange {f : Finding} (hf : f.diagnostic.code ≠ some .operatorMismatch) :
    Reworded l op f.diagnostic ((Edit.exchange l op).finding f).diagnostic := by
  cases f with
  | noSource link => exact reworded_link hplace op link _ _ _
  | noTarget link => exact reworded_link hplace op link _ _ _
  | mismatch => exact absurd rfl hf
  | _ => exact .inl rfl

/-- Documents that differ in an operator have the same remarks, but for the words. -/
theorem remarks_exchange {d d' : Document} {length : Nat} (g g' : Graph)
    (hunclosed : d'.unclosed length = d.unclosed length)
    (hstatements : d'.statements = d.statements.map (Edit.exchange l op).statement)
    (hmisplaced : ∀ s ∈ d.statements, ∀ t why, s = .misplaced t why → t.link? = none) :
    List.Forall₂ (Reworded l op) (Parsed.remarks ⟨g, d.findings length⟩)
      (Parsed.remarks ⟨g', d'.findings length⟩) := by
  have unclosed : d.unclosed length = (d.unclosed length).map (Edit.exchange l op).finding := by
    rw [Document.unclosed]
    split
    · split <;> rfl
    · rfl
  have complaints : d'.complaints length
      = (d.complaints length).map (Edit.exchange l op).finding := by
    rw [Document.complaints, Document.complaints, hunclosed, hstatements, List.map_append,
      ← unclosed, List.flatMap_map, List.map_flatMap]
    exact congrArg (_ ++ ·)
      (List.flatMap_congr fun s hs => Edit.complaints_edit _ (hmisplaced s hs))
  rw [remarks_eq, remarks_eq, complaints, List.map_map, List.forall₂_map_left_iff,
    List.forall₂_map_right_iff, List.forall₂_same]
  exact fun f hf => reworded_exchange hplace op (code_documentComplaints f hf)

/-- Sources of the same length, with the same header and the same tokens, an operator apart, are
    read as the same graph. -/
theorem parse_exchange {source source' : String} {header : Header} {body : Excerpt}
    (h : readHeader? (stripComments source.toList) = some header)
    (h' : readHeader? (stripComments source'.toList) = some { header with body := body })
    (htokens : (chunks body).map tokens
      = ((chunks header.body).map tokens).map (List.map (Edit.exchange l op).token))
    (hlength : byteLength source'.toList = byteLength source.toList) :
    ∃ p p', parse source = .ok p ∧ parse source' = .ok p' ∧ p'.graph = p.graph ∧
      List.Forall₂ (Reworded l op) p.remarks p'.remarks := by
  refine ⟨_, _, parse_of_header h, parse_of_header h', ?_⟩
  have document := ofText_of_header h
  have document' := ofText_of_header h'
  have statements : (Document.ofText (stripComments source'.toList)).statements
      = (Document.ofText (stripComments source.toList)).statements.map
          (Edit.exchange l op).statement := by
    rw [document, document']
    simp only [htokens, List.flatMap_map, List.map_flatMap, Edit.statements_map]
  rw [hlength]
  constructor
  · exact Edit.graph_edit _ (by rw [document, document']) (by rw [document, document']; rfl)
      statements
  · refine remarks_exchange hplace op _ _ ?_ statements fun s hs => link?_of_mem_document hs
    rw [document, document']
    rfl

end Exchanged

/-- **The operator written.**  Where a header is found, any edge operator of the statements can be
    replaced by the other one: the graph stays the same, and so do all warnings but those about
    operators of the other kind of graph, except that a warning about an incomplete edge quotes
    the operator that is there now. -/
theorem parse_with_other_operator {source : String} {header : Header}
    (h : readHeader? (stripComments source.toList) = some header) {l : Link}
    (hl : l ∈ (Document.ofText (stripComments source.toList)).operators) (op : EdgeOp) :
    ∃ front behind, source.toList = front ++ (l.op.text.toList ++ behind) ∧
      byteLength front = l.place.start ∧
      ∃ p p', parse source = .ok p ∧
        parse (String.ofList (front ++ (op.text.toList ++ behind))) = .ok p' ∧
        p'.graph = p.graph ∧ List.Forall₂ (Reworded l op) p.remarks p'.remarks := by
  obtain ⟨t, ht, hlink⟩ := List.mem_filterMap.1 hl
  obtain rfl := link?_eq_some hlink
  rw [ofText_of_header h] at ht
  obtain ⟨front, behind, htext, hplace, hop⟩ := readHeader?_linked h ht
  obtain ⟨kept, dropped, hsource, hkept, hstrip⟩ := stripComments_linked htext
  obtain ⟨body, h', htokens⟩ := hop op
  have written : ∀ op : EdgeOp, linked kept op dropped = kept ++ (op.text.toList ++ dropped) := by
    intro op
    rw [EdgeOp.toList_text]
    rfl
  rw [← hstrip, ← String.toList_ofList (l := linked kept op dropped)] at h'
  refine ⟨kept, dropped, hsource.trans (written l.op), by rw [hkept, hplace], ?_⟩
  rw [← written]
  refine parse_exchange (congrArg Excerpt.chars hplace) op h h' htokens ?_
  rw [String.toList_ofList, hsource, (alike_linked kept dropped op l.op).byteLength_eq]

/-- An operator without a source, in a graph with a comment and an operator of the other kind. -/
theorem parse_with_other_operator_lost :
    let source := "strict digraph \x7b a -- b /* -> */ ->; -> c [x=\"--\"] \x7d"
    let l : Link := ⟨.directed, ⟨33, ['-', '>']⟩⟩
    ∃ header, readHeader? (stripComments source.toList) = some header ∧
      l ∈ (Document.ofText (stripComments source.toList)).operators ∧
      ∃ front behind, source.toList = front ++ (l.op.text.toList ++ behind) ∧
        byteLength front = l.place.start ∧
        ∃ p p', parse source = .ok p ∧
          parse (String.ofList (front ++ (EdgeOp.undirected.text.toList ++ behind))) = .ok p' ∧
          p'.graph = p.graph ∧ List.Forall₂ (Reworded l .undirected) p.remarks p'.remarks := by
  intro source l
  have found : (readHeader? (stripComments source.toList)).isSome = true := by decide +kernel
  have hl : l ∈ (Document.ofText (stripComments source.toList)).operators := by decide +kernel
  obtain ⟨header, h⟩ := Option.isSome_iff_exists.1 found
  exact ⟨header, h, hl, parse_with_other_operator h hl .undirected⟩

end DotLayout.Dot
