import DotLayout.Proofs.Dot.Bytes.Chunks
import DotLayout.Proofs.Dot.Bytes.Words
import DotLayout.Proofs.Dot.Scanning

/-! # Tokens, byte by byte

    `tokensBytes` reads the tokens between two positions.  It decides by one byte what kind of
    token starts there, and after a minus sign by the next byte too, even if that one stands
    behind the chunk.  Whatever it says about a token is cut out of the text.  `tokensBytes_eq` says
    that it reads the tokens that `tokensFrom` reads. -/

namespace DotLayout.Dot

open Text

/-- Whether there is a byte of some kind at a position. -/
def peek (bytes : List UInt8) (i : Nat) (p : Char → Bool) : Bool :=
  bytes[i]?.any fun b => p (Char.ofUInt8 b)

/-- Cuts a token out of the text, but not beyond the end of the chunk. -/
def cutToken (text : List Char) (start next stop : Nat) : Except Fault Excerpt :=
  cut text start (min next stop)

/-- Reads the word without quotes that starts at a position, and where reading goes on. -/
def bareWordBytes (text : List Char) (start run stop : Nat) : Except Fault (Token × Nat) := do
  let behind ← scanIdent (encode text) run stop
  let next ← skipPorts (encode text) behind stop
  let name ← cut text start behind
  let place ← cutToken text start next stop
  return (.word ⟨String.ofList name.chars, false, place⟩, next)

/-- Reads the string whose opening quote is at a position, and where reading goes on. -/
def quotedWordBytes (text : List Char) (start stop : Nat) : Except Fault (Token × Nat) := do
  match ← findStringEnd (encode text) (start + 1) stop with
  | some close =>
    let next ← skipPorts (encode text) (close + 1) stop
    let content ← cut text (start + 1) close
    let place ← cutToken text start next stop
    return (.word ⟨String.ofList (unescape content.chars), true, place⟩, next)
  | none =>
    let place ← cutToken text start stop stop
    return (.openString place, stop)

/-- Reads the list whose opening bracket is at a position, and where reading goes on. -/
def listBytes (text : List Char) (start stop : Nat) : Except Fault (Token × Nat) := do
  let list ← findListEnd (encode text) (start + 1) stop false
  let next := if list.1 then list.2 + 1 else list.2
  let content ← cut text (start + 1) list.2
  let place ← cutToken text start next stop
  return (.bracket ⟨content, list.1, place⟩, next)

/-- Reads the token that starts with a byte at a position, and where reading goes on. -/
def readTokenBytes (text : List Char) (start stop : Nat) (b : UInt8) :
    Except Fault (Token × Nat) :=
  if b = ascii '-' ∧ peek (encode text) (start + 1) (· == '>') then do
    let place ← cutToken text start (start + 2) stop
    return (.link ⟨.directed, place⟩, start + 2)
  else if b = ascii '-' ∧ peek (encode text) (start + 1) (· == '-') then do
    let place ← cutToken text start (start + 2) stop
    return (.link ⟨.undirected, place⟩, start + 2)
  else if b = ascii '=' then do
    let place ← cutToken text start (start + 1) stop
    return (.equals place, start + 1)
  else if b = ascii '[' then listBytes text start stop
  else if b = ascii '"' then quotedWordBytes text start stop
  else if b = ascii '-' ∧ peek (encode text) (start + 1) (fun d => d.isDigit || d == '.') then
    bareWordBytes text start (start + 1) stop
  else if isIdentByte b then bareWordBytes text start start stop
  else do
    let place ← cutToken text start (start + 1) stop
    return (.stray place, start + 1)

/-- The tokens between two positions. -/
def tokensBytes (text : List Char) (i stop : Nat) : Except Fault (List Token) :=
  if i < stop then do
    let b ← byteAt (encode text) i
    if isAsciiBlank (Char.ofUInt8 b) || b == ascii ',' then tokensBytes text (i + 1) stop
    else
      let (token, next) ← readTokenBytes text i stop b
      if i < next then
        let others ← tokensBytes text next stop
        return token :: others
      else throw (.stuck i)
  else return []
  termination_by stop - i

/-! ## Looking ahead -/

variable {text rest : List Char} {c : Char} {start stop : Nat}

/-- What stands behind a chunk, if anything does, is a delimiter. -/
def Delimited (text : List Char) (stop : Nat) : Prop :=
  ∀ b, (encode text)[stop]? = some b → endsChunk (Char.ofUInt8 b) = true

/-- Looking at a byte that is there looks at its character. -/
theorem peek_of_byteAt {bytes : List UInt8} {i : Nat} {b : UInt8} (h : byteAt bytes i = .ok b)
    (p : Char → Bool) : peek bytes i p = p (Char.ofUInt8 b) := by
  rw [byteAt] at h
  split at h
  · rename_i d hd
    obtain rfl := Except.ok.inj h
    rw [peek, hd, Option.any_some]
  · cases h

/-- Looking at the next byte is looking at the next character, also at the end of a chunk. -/
theorem peek_eq {p : Char → Bool} (hp : ∀ d : Char, 0x80 ≤ d.toNat → p d = false)
    (hdelimiter : ∀ d, endsChunk d = true → p d = false) (hc : c.toNat < 0x80)
    (h : Cursor text start start stop [] (c :: rest)) (hstop : Delimited text stop) :
    peek (encode text) (start + 1) p = rest.head?.any p := by
  have next := h.advance_ascii hc
  cases rest with
  | nil =>
      -- the byte behind the chunk is looked at, but it is a delimiter
      have last : stop = start + 1 := next.ends
      rw [peek, ← last]
      cases hb : (encode text)[stop]? with
      | none => rfl
      | some b => exact hdelimiter _ (hstop b hb)
  | cons d rest =>
      obtain ⟨b, hmem, hb⟩ := next.exists_byteAt
      rw [peek_of_byteAt hb, class_of_mem_encodeChar hp d b hmem]
      rfl

/-- A token is cut out where the program has read it. -/
theorem cutToken_eq {done : List Char} {i : Nat} (h : Cursor text start i stop done rest) :
    cutToken text start i stop = .ok ⟨start, done⟩ := by
  rw [cutToken, Nat.min_eq_left h.le_stop, h.cut]

/-! ## Kinds of tokens -/

/-- A token and where reading goes on behind it. -/
def withStop (token : Token × List Char) : Token × Nat := (token.1, token.1.place.stop)

/-- The ports behind what has been read are read as `readPorts` does. -/
theorem skipPorts_cursor {done : List Char} {i : Nat} (h : Cursor text start i stop done rest) :
    ∃ next, skipPorts (encode text) i stop = .ok next ∧
      Cursor text start next stop (done ++ (readPorts rest).1) (readPorts rest).2 := by
  obtain ⟨tail, hdrop⟩ := h.drop
  refine ⟨_, skipPorts_eq hdrop h.ends, ?_⟩
  rw [← readPorts_append rest] at h
  exact h.advance

/-- A token with its end is the token that was read, and the program is behind it. -/
theorem withStop_eq {token : Token} {chars after done : List Char} {next : Nat}
    (hplace : token.place = ⟨start, chars⟩) (h : Cursor text start next stop chars done) :
    (token, next) = withStop (token, after) := by
  rw [withStop, hplace, h.here]
  rfl

/-- A word without quotes is read as from characters. -/
theorem bareWordBytes_eq {run : Nat} (h : Cursor text start start stop [] (c :: rest))
    (hscan : scanIdent (encode text) run stop
      = .ok (start + byteLength (c :: rest.takeWhile isIdentChar))) :
    bareWordBytes text start run stop = .ok (withStop (readBareWord start c rest)) := by
  have whole : c :: rest
      = (c :: rest.takeWhile isIdentChar) ++ rest.dropWhile isIdentChar := by simp
  rw [whole] at h
  have name := h.advance
  obtain ⟨next, hports, behind⟩ := skipPorts_cursor name
  rw [bareWordBytes, hscan]
  show (do
    let next ← skipPorts (encode text) _ stop
    let name ← cut text start _
    let place ← cutToken text start next stop
    return (Token.word ⟨String.ofList name.chars, false, place⟩, next)) = _
  rw [hports, ok_bind, name.cut, ok_bind, cutToken_eq behind]
  exact congrArg Except.ok (withStop_eq rfl behind)

/-- A word in quotes is read as from characters. -/
theorem quotedWordBytes_eq (h : Cursor text start start stop [] ('"' :: rest)) :
    quotedWordBytes text start stop = .ok (withStop (readQuotedWord start rest)) := by
  have inner := h.advance_ascii (by decide)
  obtain ⟨tail, hdrop⟩ := inner.drop
  rw [quotedWordBytes, findStringEnd_eq hdrop inner.ends, readQuotedWord]
  cases hread : readQuoted rest with
  | none =>
      -- the quotes do not close: the token takes the rest
      show (do
        let place ← cutToken text start stop stop
        return (Token.openString place, stop)) = _
      rw [cutToken_eq h.finish]
      exact congrArg Except.ok (withStop_eq rfl h.finish)
  | some halves =>
      obtain ⟨content, after⟩ := halves
      have htext : rest = content ++ ('"' :: after) := eq_of_readQuoted hread
      rw [htext] at inner
      -- the word goes on to the end of its ports
      have closed := inner.advance.advance_ascii (by decide)
      obtain ⟨next, hports, behind⟩ := skipPorts_cursor closed
      have place : [] ++ ['"'] ++ content ++ ['"'] ++ (readPorts after).1
          = '"' :: content ++ '"' :: (readPorts after).1 := by simp
      rw [place] at behind
      show (do
        let next ← skipPorts (encode text) (start + 1 + byteLength content + 1) stop
        let content ← cut text (start + 1) (start + 1 + byteLength content)
        let place ← cutToken text start next stop
        return (Token.word ⟨String.ofList (unescape content.chars), true, place⟩, next)) = _
      rw [hports, ok_bind, inner.restart.advance.cut, ok_bind, cutToken_eq behind]
      exact congrArg Except.ok (withStop_eq rfl behind)

/-- An attribute list is read as from characters. -/
theorem listBytes_eq (h : Cursor text start start stop [] ('[' :: rest)) :
    listBytes text start stop = .ok (withStop (readList start rest)) := by
  have inner := h.advance_ascii (by decide)
  obtain ⟨tail, hdrop⟩ := inner.drop
  rw [listBytes, findListEnd_eq hdrop inner.ends inner.stop_le]
  rw [← readBracket_append rest] at inner
  have content := inner.restart.advance.cut
  have closed := inner.advance.advance
  have hnext : (if (readBracket rest).closed
      then start + 1 + byteLength (readBracket rest).content + 1
      else start + 1 + byteLength (readBracket rest).content)
      = start + 1 + byteLength (readBracket rest).content
        + byteLength (readBracket rest).closing := by
    rw [BracketText.closing]
    split <;> rfl
  show (do
    let content ← cut text (start + 1) (start + 1 + byteLength (readBracket rest).content)
    let place ← cutToken text start (if (readBracket rest).closed
      then start + 1 + byteLength (readBracket rest).content + 1
      else start + 1 + byteLength (readBracket rest).content) stop
    return (Token.bracket ⟨content, (readBracket rest).closed, place⟩, _)) = _
  rw [hnext, content, cutToken_eq closed]
  exact congrArg Except.ok (withStop_eq rfl closed)

/-- An operator is read as from characters. -/
theorem linkBytes_eq {d : Char} {op : EdgeOp} (hc : c.toNat < 0x80) (hd : d.toNat < 0x80)
    (h : Cursor text start start stop [] (c :: d :: rest)) :
    (do
      let place ← cutToken text start (start + 2) stop
      return (Token.link ⟨op, place⟩, start + 2))
      = (.ok (withStop (.link ⟨op, ⟨start, [c, d]⟩⟩, rest)) : Except Fault (Token × Nat)) := by
  have behind : Cursor text start (start + 2) stop [c, d] rest :=
    (h.advance_ascii hc).advance_ascii hd
  rw [cutToken_eq behind]
  exact congrArg Except.ok (withStop_eq rfl behind)

/-- A token of one character is read as from characters. -/
theorem singleBytes_eq (kind : Excerpt → Token) (hplace : ∀ e, (kind e).place = e)
    (hc : c.toNat < 0x80) (h : Cursor text start start stop [] (c :: rest)) :
    (do
      let place ← cutToken text start (start + 1) stop
      return (kind place, start + 1))
      = (.ok (withStop (kind ⟨start, [c]⟩, rest)) : Except Fault (Token × Nat)) := by
  have behind : Cursor text start (start + 1) stop [c] rest := h.advance_ascii hc
  rw [cutToken_eq behind]
  exact congrArg Except.ok (withStop_eq (hplace _) behind)

/-! ## Tokens -/

/-- A number starts with a digit or a dot. -/
theorem startsNumber_eq (text : List Char) :
    startsNumber text = text.head?.any fun d => d.isDigit || d == '.' := by
  cases text <;> rfl

/-- No delimiter opens a number. -/
theorem opensNumber_delimiter {d : Char} (h : endsChunk d = true) :
    (d.isDigit || d == '.') = false := by
  simp only [endsChunk, Bool.or_eq_true, beq_iff_eq] at h
  rcases h with ((rfl | rfl) | rfl) | rfl <;> decide

/-- No character beyond ASCII starts a number. -/
theorem opensNumber_of_high {d : Char} (h : 0x80 ≤ d.toNat) : (d.isDigit || d == '.') = false := by
  refine @eq_false_of_high (fun c => c.isDigit || c == '.') (fun c hc => ?_) d h
  rcases Bool.or_eq_true_iff.1 hc with hdigit | hpoint
  · have hle : c.toNat ≤ 57 := (Char.isDigit_iff_toNat.1 hdigit).2
    omega
  · rw [beq_iff_eq.1 hpoint]
    decide

theorem beq_of_high {a d : Char} (ha : a.toNat < 0x80) (h : 0x80 ≤ d.toNat) : (d == a) = false := by
  refine @eq_false_of_high (· == a) (fun c hc => ?_) d h
  rwa [beq_iff_eq.1 hc]

/-- A delimiter is none of the other characters. -/
theorem beq_delimiter {a d : Char} (ha : endsChunk a = false) (h : endsChunk d = true) :
    (d == a) = false := by
  refine beq_false_of_ne ?_
  rintro rfl
  cases ha.symm.trans h

/-- A minus sign and what the next byte is are a minus sign and what the next character is. -/
theorem minus_iff {p : Char → Bool} {b : UInt8} (hp : ∀ d : Char, 0x80 ≤ d.toNat → p d = false)
    (hdelimiter : ∀ d, endsChunk d = true → p d = false)
    (h : Cursor text start start stop [] (c :: rest)) (hstop : Delimited text stop)
    (hb : b ∈ String.utf8EncodeChar c) :
    b = ascii '-' ∧ peek (encode text) (start + 1) p = true
      ↔ c = '-' ∧ rest.head?.any p = true := by
  rw [eq_ascii_iff (by decide) hb]
  refine and_congr_right ?_
  rintro rfl
  rw [peek_eq hp hdelimiter (by decide) h hstop]

/-- A text begins with a character if its first one is that character. -/
theorem head?_any_beq {a : Char} (text : List Char) :
    text.head?.any (· == a) = true ↔ text.head? = some a := by
  cases text with
  | nil => simp
  | cons c text => simp

/-- A token is read as `readToken` reads it. -/
theorem readTokenBytes_eq {b : UInt8} (h : Cursor text start start stop [] (c :: rest))
    (hstop : Delimited text stop) (hb : b ∈ String.utf8EncodeChar c) :
    readTokenBytes text start stop b = .ok (withStop (readToken start c rest)) := by
  -- what the bytes decide is what the characters decide; then the two agree case by case
  obtain ⟨tail, hdrop⟩ := h.drop
  have directed := minus_iff (fun _ => beq_of_high (by decide))
    (fun _ => beq_delimiter (by decide)) h hstop hb (p := (· == '>'))
  have undirected := minus_iff (fun _ => beq_of_high (by decide))
    (fun _ => beq_delimiter (by decide)) h hstop hb (p := (· == '-'))
  have number := minus_iff (fun _ => opensNumber_of_high)
    (fun _ => opensNumber_delimiter) h hstop hb
  rw [head?_any_beq] at directed undirected
  rw [← startsNumber_eq] at number
  have ident : isIdentByte b = isIdentChar c :=
    class_of_mem_encodeChar (fun _ => isIdentChar_of_high) c b hb
  have equals : b = ascii '=' ↔ c = '=' := eq_ascii_iff (by decide) hb
  have list : b = ascii '[' ↔ c = '[' := eq_ascii_iff (by decide) hb
  have quote : b = ascii '"' ↔ c = '"' := eq_ascii_iff (by decide) hb
  simp only [readTokenBytes, directed, undirected, equals, list, quote, number, ident]
  rw [readToken]
  by_cases hdirected : c = '-' ∧ rest.head? = some '>'
  · obtain ⟨rfl, hrest⟩ := hdirected
    obtain ⟨after, rfl⟩ := List.head?_eq_some_iff.1 hrest
    exact linkBytes_eq (by decide) (by decide) h
  rw [if_neg hdirected, if_neg hdirected]
  by_cases hundirected : c = '-' ∧ rest.head? = some '-'
  · obtain ⟨rfl, hrest⟩ := hundirected
    obtain ⟨after, rfl⟩ := List.head?_eq_some_iff.1 hrest
    exact linkBytes_eq (by decide) (by decide) h
  rw [if_neg hundirected, if_neg hundirected]
  by_cases hequals : c = '='
  · subst hequals
    exact singleBytes_eq .equals (fun _ => rfl) (by decide) h
  rw [if_neg hequals, if_neg hequals]
  by_cases hlist : c = '['
  · subst hlist
    exact listBytes_eq h
  rw [if_neg hlist, if_neg hlist]
  by_cases hquote : c = '"'
  · subst hquote
    exact quotedWordBytes_eq h
  rw [if_neg hquote, if_neg hquote]
  by_cases hnumber : c = '-' ∧ startsNumber rest = true
  · obtain ⟨rfl, hrest⟩ := hnumber
    have behind := h.advance_ascii (by decide)
    obtain ⟨tail, hdrop⟩ := behind.drop
    have hscan := scanIdent_eq hdrop behind.ends
    rw [Nat.add_assoc] at hscan
    rw [if_pos ⟨rfl, hrest⟩, hrest]
    exact bareWordBytes_eq h hscan
  rw [if_neg hnumber]
  by_cases hident : isIdentChar c = true
  · have hscan := scanIdent_eq hdrop h.ends
    rw [List.takeWhile_cons, if_pos hident] at hscan
    rw [if_pos hident, hident]
    exact bareWordBytes_eq h hscan
  · -- characters beyond ASCII are word characters
    have hlow : c.toNat < 0x80 := by
      refine Nat.lt_of_not_le ?_
      exact fun high => hident (isIdentChar_of_high high)
    have hbare : ¬ (isIdentChar c || (c == '-' && startsNumber rest)) = true := by
      simp only [Bool.or_eq_true, Bool.and_eq_true, beq_iff_eq]
      exact fun hor => hor.elim hident hnumber
    rw [if_neg hident, if_neg hbare]
    exact singleBytes_eq .stray (fun _ => rfl) hlow h

/-! ## Chunks -/

/-- No character beyond ASCII is a blank that separates tokens. -/
theorem isAsciiBlank_of_high {d : Char} (h : 0x80 ≤ d.toNat) : isAsciiBlank d = false := by
  refine eq_false_of_high (fun c hc => ?_) h
  simp only [isAsciiBlank, Bool.or_eq_true, beq_iff_eq] at hc
  rcases hc with (((rfl | rfl) | rfl) | rfl) | rfl <;> decide

/-- A byte separates tokens if its character does. -/
theorem separates_iff {b : UInt8} (hb : b ∈ String.utf8EncodeChar c) :
    (isAsciiBlank (Char.ofUInt8 b) || b == ascii ',') = (isAsciiBlank c || c == ',') := by
  rw [class_of_mem_encodeChar (fun _ => isAsciiBlank_of_high) c b hb]
  congr 1
  rw [Bool.eq_iff_iff, beq_iff_eq, beq_iff_eq]
  exact eq_ascii_iff (by decide) hb

/-- A character that separates tokens is one of ASCII. -/
theorem lt_of_separates (hc : (isAsciiBlank c || c == ',') = true) : c.toNat < 0x80 := by
  refine Nat.lt_of_not_le fun high => ?_
  rw [isAsciiBlank_of_high high, beq_of_high (by decide) high] at hc
  exact nomatch hc

/-- What the loop does with a byte. -/
theorem tokensBytes_step {i : Nat} {b : UInt8} (hi : i < stop)
    (hb : byteAt (encode text) i = .ok b) :
    tokensBytes text i stop
      = if isAsciiBlank (Char.ofUInt8 b) || b == ascii ',' then tokensBytes text (i + 1) stop
        else (do
          let token ← readTokenBytes text i stop b
          if i < token.2 then
            let others ← tokensBytes text token.2 stop
            return token.1 :: others
          else throw (.stuck i)) := by
  rw [tokensBytes, if_pos hi, hb]
  rfl

/-- The loop passes a character that separates tokens. -/
theorem tokensBytes_separator {i : Nat} (hc : (isAsciiBlank c || c == ',') = true)
    (h : Cursor text i i stop [] (c :: rest)) :
    tokensBytes text i stop = tokensBytes text (i + 1) stop := by
  obtain ⟨b, hmem, hb⟩ := h.exists_byteAt
  rw [tokensBytes_step h.lt_stop hb, separates_iff hmem, if_pos hc]

/-- Behind a token the program goes on with the rest of the text. -/
theorem cursor_readToken (h : Cursor text start start stop [] (c :: rest)) :
    Cursor text (readToken start c rest).1.place.stop (readToken start c rest).1.place.stop stop []
      (readToken start c rest).2 := by
  rw [← place_readToken_append start c rest] at h
  have behind := h.advance.restart
  rwa [Excerpt.stop, start_place_readToken]

/-- The loop takes a token and goes on behind it. -/
theorem tokensBytes_token {i : Nat} (hc : ¬ (isAsciiBlank c || c == ',') = true)
    (h : Cursor text i i stop [] (c :: rest)) (hstop : Delimited text stop) :
    tokensBytes text i stop = do
      let others ← tokensBytes text (readToken i c rest).1.place.stop stop
      return (readToken i c rest).1 :: others := by
  obtain ⟨b, hmem, hb⟩ := h.exists_byteAt
  rw [tokensBytes_step h.lt_stop hb, separates_iff hmem, if_neg hc,
    readTokenBytes_eq h hstop hmem, ok_bind]
  exact if_pos (lt_stop_readToken i c rest)

/-- The bytes of a chunk are read as its tokens. -/
theorem tokensBytes_eq {i : Nat} (h : Cursor text i i stop [] rest) (hstop : Delimited text stop) :
    tokensBytes text i stop = .ok (tokensFrom i rest) := by
  fun_induction tokensFrom i rest with
  | case1 i =>
      have last : stop = i := h.ends
      rw [tokensBytes, last, if_neg (Nat.lt_irrefl i)]
      rfl
  | case2 i c rest hc ih =>
      have next := (h.advance_char).restart
      have size := utf8Size_of_lt (lt_of_separates hc)
      rw [tokensBytes_separator hc h, ← size]
      exact ih next
  | case3 i c rest hc ih =>
      rw [tokensBytes_token hc h hstop, ih (cursor_readToken h)]
      rfl

end DotLayout.Dot
