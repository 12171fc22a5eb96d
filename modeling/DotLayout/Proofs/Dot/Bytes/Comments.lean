import DotLayout.Dot.Comment
import DotLayout.Proofs.Dot.Bytes.Ends

/-! # Comments, byte by byte

    `stripBytes` works on a copy of the bytes of a text.  It goes over them once, finds the end of
    each comment and writes spaces over the range of the comment; what is then in the copy has to
    be a text again.  `stripBytes_eq` says that it always is, and which one: that of
    `stripComments`.

    * `blankRange_eq`: spaces over all bytes of some characters are `blankOut` of these characters.
    * `lineEnd_eq` and `commentClose_eq` find the ends of comments.
    * `stripFrom_eq` is the loop, by induction on the text that is left. -/

namespace DotLayout.Dot

open Text

/-- What is written over a byte of a comment. -/
def blankByte (b : UInt8) : UInt8 := if b = ascii '\n' then b else ascii ' '

/-- Writes spaces over a range of bytes; line breaks stay. -/
def blankRange (out : List UInt8) (start stop : Nat) : Except Fault (List UInt8) :=
  if start ≤ stop ∧ stop ≤ out.length then
    .ok (out.take start ++ ((out.drop start).take (stop - start)).map blankByte ++ out.drop stop)
  else .error (.range start stop)

/-- The bytes from a position on, which has to be in bounds. -/
def bytesFrom (bytes : List UInt8) (i : Nat) : Except Fault (List UInt8) :=
  if i ≤ bytes.length then .ok (bytes.drop i) else .error (.range i bytes.length)

/-- The position of the first line break from a position on, or the end. -/
def lineEnd (bytes : List UInt8) (i : Nat) : Except Fault Nat := do
  let rest ← bytesFrom bytes i
  return i + (rest.takeWhile (· != ascii '\n')).length

/-- How many bytes stand before the first `*/`. -/
def findClose : List UInt8 → Option Nat
  | [] => none
  | b :: rest =>
    if b = ascii '*' ∧ rest.head? = some (ascii '/') then some 0
    else (findClose rest).map (· + 1)

/-- The position behind the first `*/` from a position on, or the end. -/
def commentClose (bytes : List UInt8) (i : Nat) : Except Fault Nat :=
  if bytes.length ≤ i then return bytes.length
  else do
    let rest ← bytesFrom bytes i
    return (findClose rest).elim bytes.length fun before => i + before + 2

/-- The end of the comment that starts with a byte at a position, if one does. -/
def commentEnd? (bytes : List UInt8) (i : Nat) (fresh : Bool) (b : UInt8) :
    Except Fault (Option Nat) :=
  if b = ascii '/' ∧ bytes[i + 1]? = some (ascii '/') then some <$> lineEnd bytes i
  else if b = ascii '#' ∧ fresh then some <$> lineEnd bytes i
  else if b = ascii '/' ∧ bytes[i + 1]? = some (ascii '*') then some <$> commentClose bytes (i + 2)
  else return none

/-- Whether a line is fresh behind a byte that belongs to no comment. -/
def freshBehind (fresh : Bool) (b : UInt8) : Bool :=
  b == ascii '\n' || (fresh && keepsFresh (Char.ofUInt8 b))

/-- Replaces the comments from a position on in a copy of the bytes. -/
def stripFrom (bytes : List UInt8) (i : Nat) (inString fresh : Bool) (out : List UInt8) :
    Except Fault (List UInt8) :=
  if i < bytes.length then do
    let b ← byteAt bytes i
    if inString then
      if b = ascii '\\' then stripFrom bytes (i + 2) true fresh out
      else stripFrom bytes (i + 1) (b != ascii '"') fresh out
    else if b = ascii '"' then stripFrom bytes (i + 1) true false out
    else
      match ← commentEnd? bytes i fresh b with
      | some stop =>
        let blanked ← blankRange out i stop
        if i < stop then stripFrom bytes stop false fresh blanked else throw (.stuck i)
      | none => stripFrom bytes (i + 1) false (freshBehind fresh b) out
  else return out
  termination_by bytes.length - i

/-- The text that some bytes are the form of. -/
def decode (bytes : List UInt8) : Except Fault (List Char) :=
  match bytes.toByteArray.utf8Decode? with
  | some chars => .ok chars.toList
  | none => .error .noText

/-- The text that is left when the comments of the bytes of a text are replaced. -/
def stripBytes (text : List Char) : Except Fault (List Char) := do
  let bytes := encode text
  if text.head? = some byteOrderMark then
    let out ← blankRange bytes 0 byteOrderMark.utf8Size
    decode (← stripFrom bytes byteOrderMark.utf8Size false true out)
  else
    decode (← stripFrom bytes 0 false true bytes)

/-! ## Blanking -/

/-- The bytes of spaces are spaces. -/
theorem encode_spaces (n : Nat) : encode (List.replicate n ' ') = List.replicate n (ascii ' ') := by
  induction n with
  | zero => rfl
  | succ n ih => rw [List.replicate_succ, List.replicate_succ, encode_cons, ih]; rfl

/-- The blanked bytes of a character are the bytes of the blanked character. -/
theorem encode_blankOut (c : Char) :
    encode (blankOut c) = (String.utf8EncodeChar c).map blankByte := by
  by_cases hc : c = '\n'
  · subst hc
    decide
  · rw [blankOut, if_neg hc, encode_spaces, ← String.length_utf8EncodeChar]
    refine (List.map_eq_replicate_iff.2 fun b hb => ?_).symm
    rw [blankByte, if_neg (ne_of_mem_encodeChar (by decide) hc b hb)]

/-- Blanking characters blanks their bytes. -/
theorem encode_flatMap_blankOut (text : List Char) :
    encode (text.flatMap blankOut) = (encode text).map blankByte := by
  induction text with
  | nil => rfl
  | cons c text ih =>
      rw [List.flatMap_cons, encode_append, encode_blankOut, ih, encode_cons, List.map_append]

/-- Blanking a piece of the copy blanks its characters. -/
theorem blankRange_eq {done : List UInt8} {i stop : Nat} (piece rest : List Char)
    (hi : done.length = i) (hstop : stop = i + byteLength piece) :
    blankRange (done ++ encode (piece ++ rest)) i stop
      = .ok (done ++ encode (piece.flatMap blankOut) ++ encode rest) := by
  -- the bytes before the range, in it and behind it
  have order : i ≤ stop ∧ stop ≤ (done ++ encode (piece ++ rest)).length := by
    rw [List.length_append, length_encode, byteLength_append]
    omega
  have behind : stop = (done ++ encode piece).length := by
    rw [List.length_append, length_encode, hi, hstop]
  have size : stop - i = (encode piece).length := by
    rw [length_encode, hstop, Nat.add_sub_cancel_left]
  rw [blankRange, if_pos order, size, encode_append, behind, ← hi, List.take_left, List.drop_left,
    List.take_left, ← List.append_assoc done, List.drop_left, encode_flatMap_blankOut]

/-! ## Ends of comments -/

/-- The bytes from a position in bounds are there. -/
theorem bytesFrom_eq {bytes tail : List UInt8} {i : Nat} (hi : i ≤ bytes.length)
    (h : bytes.drop i = tail) : bytesFrom bytes i = .ok tail := by
  rw [bytesFrom, if_pos hi, h]

/-- The bytes of a line are those of its characters. -/
theorem takeWhile_encode (text : List Char) :
    (encode text).takeWhile (· != ascii '\n') = encode (text.takeWhile (· != '\n')) := by
  induction text with
  | nil => rfl
  | cons c text ih =>
      by_cases hc : c = '\n'
      · subst hc
        rfl
      · have plain : ∀ b ∈ String.utf8EncodeChar c, (b != ascii '\n') = true :=
          fun b hb => bne_iff_ne.2 (ne_of_mem_encodeChar (by decide) hc b hb)
        rw [encode_cons, List.takeWhile_append_of_pos plain, ih, List.takeWhile_cons,
          if_pos (bne_iff_ne.2 hc), encode_cons]

/-- The end of a line is found behind its characters. -/
theorem lineEnd_eq {bytes : List UInt8} {text : List Char} {i : Nat} (hi : i ≤ bytes.length)
    (h : bytes.drop i = encode text) :
    lineEnd bytes i = .ok (i + byteLength (text.takeWhile (· != '\n'))) := by
  rw [lineEnd, bytesFrom_eq hi h, ok_bind, takeWhile_encode, length_encode]
  rfl

/-- What stands before the end of a block comment, and what follows it. -/
def readComment : List Char → Option (List Char × List Char)
  | [] => none
  | c :: rest =>
    if c = '*' ∧ rest.head? = some '/' then some ([], rest.tail)
    else (readComment rest).map (inFront [c])

/-- A text begins with a character of ASCII exactly if its bytes begin with the byte of it. -/
theorem head?_encode {d : Char} (hd : d.toNat < 0x80) (text : List Char) :
    (encode text).head? = some (ascii d) ↔ text.head? = some d := by
  cases text with
  | nil => exact ⟨nofun, nofun⟩
  | cons c rest =>
      obtain ⟨first, others, hc⟩ :=
        List.exists_cons_of_ne_nil (String.utf8EncodeChar_ne_nil (c := c))
      have mem : first ∈ String.utf8EncodeChar c := hc ▸ List.mem_cons_self
      rw [encode_cons, hc, List.cons_append, List.head?_cons, List.head?_cons, Option.some_inj,
        Option.some_inj]
      exact eq_ascii_iff hd mem

/-- The search for the end of a block comment passes bytes that are no star. -/
theorem findClose_skip {front rest : List UInt8} (h : ∀ b ∈ front, b ≠ ascii '*') :
    findClose (front ++ rest) = (findClose rest).map (front.length + ·) := by
  induction front with
  | nil => simp
  | cons b front ih =>
      have hb : ¬ (b = ascii '*' ∧ (front ++ rest).head? = some (ascii '/')) :=
        fun star => h b List.mem_cons_self star.1
      rw [List.cons_append, findClose, if_neg hb, ih fun d hd => h d (List.mem_cons_of_mem b hd),
        Option.map_map]
      refine congrArg (Option.map · (findClose rest)) (funext fun n => ?_)
      show front.length + n + 1 = front.length + 1 + n
      omega

/-- The end of a block comment is found where the comment ends. -/
theorem findClose_encode (text : List Char) :
    findClose (encode text) = (readComment text).map fun cut => byteLength cut.1 := by
  induction text with
  | nil => rfl
  | cons c rest ih =>
      have step : ((readComment rest).map (inFront [c])).map (fun cut => byteLength cut.1)
          = (findClose (encode rest)).map (c.utf8Size + ·) := by
        rw [ih, Option.map_map, Option.map_map]
        rfl
      rw [readComment]
      by_cases hc : c = '*'
      · subst hc
        have star : String.utf8EncodeChar '*' = [ascii '*'] := encodeChar_of_lt (by decide)
        rw [encode_cons, star, List.singleton_append, findClose]
        simp only [true_and, head?_encode (d := '/') (by decide)]
        split
        · rfl
        · rw [step]
          refine congrArg (Option.map · (findClose (encode rest))) (funext fun n => ?_)
          exact Nat.add_comm n 1
      · -- no byte of another character is a star
        have plain := ne_of_mem_encodeChar (c := c) (d := '*') (by decide) hc
        rw [if_neg fun star => hc star.1, step, encode_cons, findClose_skip plain,
          String.length_utf8EncodeChar]

/-- What a block comment holds, its end included, and what follows it. -/
def cutComment (text : List Char) : List Char × List Char :=
  match readComment text with
  | some cut => (cut.1 ++ ['*', '/'], cut.2)
  | none => (text, [])

/-- A block comment is closed behind its mark, or at the end of the text. -/
theorem commentClose_eq {bytes : List UInt8} {text : List Char} {i : Nat}
    (h : bytes.drop i = encode text) (hlength : bytes.length = i + byteLength text) :
    commentClose bytes i = .ok (i + byteLength (cutComment text).1) := by
  rw [commentClose, cutComment]
  split
  · rename_i hi
    cases text with
    | nil =>
        rw [hlength]
        rfl
    | cons c rest =>
        have positive := c.utf8Size_pos
        rw [byteLength_cons] at hlength
        omega
  · rw [bytesFrom_eq (by omega) h, ok_bind, findClose_encode]
    cases readComment text with
    | none =>
        show Except.ok bytes.length = _
        rw [hlength]
    | some cut =>
        show Except.ok (i + byteLength cut.1 + 2) = Except.ok (i + byteLength (cut.1 ++ ['*', '/']))
        rw [byteLength_append, Nat.add_assoc]
        rfl

/-! ## Comments as pieces of a text -/

/-- The comment that starts with a character, and what follows it. -/
def readAnyComment (fresh : Bool) (c : Char) (rest : List Char) : Option (List Char × List Char) :=
  if c = '/' ∧ rest.head? = some '/' ∨ c = '#' ∧ fresh then
    some ((c :: rest).takeWhile (· != '\n'), (c :: rest).dropWhile (· != '\n'))
  else if c = '/' ∧ rest.head? = some '*' then some (inFront ['/', '*'] (cutComment rest.tail))
  else none

/-- A comment, the mark that ends it and what follows make up the text. -/
theorem readComment_append {text : List Char} {cut : List Char × List Char}
    (h : readComment text = some cut) : cut.1 ++ '*' :: '/' :: cut.2 = text := by
  induction text generalizing cut with
  | nil => exact nomatch h
  | cons c rest ih =>
      rw [readComment] at h
      split at h
      · rename_i hstar
        obtain ⟨after, rfl⟩ := List.head?_eq_some_iff.1 hstar.2
        obtain rfl := Option.some.inj h
        rw [hstar.1]
        rfl
      · obtain ⟨inner, hinner, rfl⟩ := Option.map_eq_some_iff.1 h
        exact congrArg (c :: ·) (ih hinner)

/-- A block comment and what follows it make up the text. -/
theorem cutComment_append (text : List Char) :
    (cutComment text).1 ++ (cutComment text).2 = text := by
  rw [cutComment]
  cases h : readComment text with
  | none => exact List.append_nil text
  | some cut =>
      show cut.1 ++ ['*', '/'] ++ cut.2 = text
      rw [List.append_assoc]
      exact readComment_append h

/-- A comment and what follows it make up the text, and the comment is not empty. -/
theorem readAnyComment_append {fresh : Bool} {c : Char} {rest : List Char}
    {cut : List Char × List Char} (h : readAnyComment fresh c rest = some cut) :
    cut.1 ++ cut.2 = c :: rest ∧ cut.1 ≠ [] := by
  rw [readAnyComment] at h
  split at h
  · rename_i hline
    obtain rfl := Option.some.inj h
    have hc : (c != '\n') = true := by
      rcases hline with ⟨rfl, -⟩ | ⟨rfl, -⟩ <;> decide
    refine ⟨List.takeWhile_append_dropWhile, ?_⟩
    rw [List.takeWhile_cons, if_pos hc]
    exact List.cons_ne_nil _ _
  split at h
  · rename_i hblock
    obtain rfl := Option.some.inj h
    obtain ⟨after, rfl⟩ := List.head?_eq_some_iff.1 hblock.2
    refine ⟨?_, List.cons_ne_nil _ _⟩
    rw [hblock.1]
    exact congrArg (fun text => '/' :: '*' :: text) (cutComment_append after)
  · exact nomatch h

/-- Inside a string nothing is blanked, and behind its end the line is not fresh. -/
theorem blankComments_string (text : List Char) :
    blankComments .string text
      = (readQuoted text).elim text fun cut =>
          cut.1 ++ '"' :: blankComments (.plain false) cut.2 := by
  fun_induction readQuoted text with
  | case1 => rfl
  | case2 rest => rfl
  | case3 => rfl
  | case4 c rest ih =>
      show '\\' :: c :: blankComments .string rest = _
      rw [ih]
      cases readQuoted rest <;> rfl
  | case5 c rest hquote hlast hslash ih =>
      have step : blankComments .string (c :: rest) = c :: blankComments .string rest := by
        rw [blankComments]
        · exact fun d after h hafter => hslash d after h hafter
        · exact hquote
      rw [step, ih]
      cases readQuoted rest <;> rfl

/-- A line comment is blanked up to the line break. -/
theorem blankComments_lineComment (fresh : Bool) (text : List Char) :
    blankComments .lineComment text
      = (text.takeWhile (· != '\n')).flatMap blankOut
        ++ blankComments (.plain fresh) (text.dropWhile (· != '\n')) := by
  induction text with
  | nil => rw [List.takeWhile_nil, List.dropWhile_nil, blankComments, blankComments]; rfl
  | cons c rest ih =>
      by_cases hc : c = '\n'
      · subst hc
        cases fresh <;> rfl
      · rw [List.takeWhile_cons, List.dropWhile_cons, if_pos (bne_iff_ne.2 hc),
          if_pos (bne_iff_ne.2 hc), blankComments, ih, List.flatMap_cons, List.append_assoc]
        exact hc

/-- A block comment is blanked as a whole, and its line stays as fresh as it was. -/
theorem blankComments_blockComment (fresh : Bool) (text : List Char) :
    blankComments (.blockComment fresh) text
      = (cutComment text).1.flatMap blankOut
        ++ blankComments (.plain fresh) (cutComment text).2 := by
  induction text with
  | nil => rfl
  | cons c rest ih =>
      by_cases hstar : c = '*' ∧ rest.head? = some '/'
      · obtain ⟨rfl, hrest⟩ := hstar
        obtain ⟨after, rfl⟩ := List.head?_eq_some_iff.1 hrest
        rfl
      · have step : blankComments (.blockComment fresh) (c :: rest)
            = blankOut c ++ blankComments (.blockComment fresh) rest := by
          rw [blankComments]
          rintro after rfl rfl
          exact hstar ⟨rfl, rfl⟩
        rw [step, ih, cutComment, cutComment, readComment, if_neg hstar]
        cases readComment rest with
        | none => simp
        | some cut => simp

/-- A quote outside of comments opens a string. -/
theorem blankComments_opening (fresh : Bool) (rest : List Char) :
    blankComments (.plain fresh) ('"' :: rest) = '"' :: blankComments .string rest := by
  cases fresh <;> rfl

/-- A comment is blanked as a whole. -/
theorem blankComments_comment {fresh : Bool} {c : Char} {rest : List Char}
    {cut : List Char × List Char} (h : readAnyComment fresh c rest = some cut) :
    blankComments (.plain fresh) (c :: rest)
      = cut.1.flatMap blankOut ++ blankComments (.plain fresh) cut.2 := by
  rw [readAnyComment] at h
  split at h
  · rename_i hline
    obtain rfl := Option.some.inj h
    -- the marks of a comment in a line are blanked like what follows them
    rw [← blankComments_lineComment]
    rcases hline with ⟨rfl, hrest⟩ | ⟨rfl, rfl⟩
    · obtain ⟨after, rfl⟩ := List.head?_eq_some_iff.1 hrest
      cases fresh <;> rfl
    · rfl
  split at h
  · rename_i hblock
    obtain rfl := Option.some.inj h
    obtain ⟨rfl, hrest⟩ := hblock
    obtain ⟨after, rfl⟩ := List.head?_eq_some_iff.1 hrest
    have opening : blankComments (.plain fresh) ('/' :: '*' :: after)
        = ' ' :: ' ' :: blankComments (.blockComment fresh) after := by
      cases fresh <;> rfl
    rw [opening, blankComments_blockComment]
    rfl
  · exact nomatch h

/-- What belongs to no comment stays. -/
theorem blankComments_other {fresh : Bool} {c : Char} {rest : List Char} (hquote : c ≠ '"')
    (h : readAnyComment fresh c rest = none) :
    blankComments (.plain fresh) (c :: rest)
      = c :: blankComments (.plain (c == '\n' || (fresh && keepsFresh c))) rest := by
  rw [readAnyComment] at h
  split at h
  · exact nomatch h
  rename_i hline
  split at h
  · exact nomatch h
  rename_i hblock
  by_cases hc : c = '\n'
  · subst hc
    cases fresh <;> rfl
  · have hne : (c == '\n') = false := beq_false_of_ne hc
    rw [hne, Bool.false_or, blankComments]
    · exact hquote
    · rintro after rfl rfl
      exact hline (.inl ⟨rfl, rfl⟩)
    · rintro rfl rfl
      exact hline (.inr ⟨rfl, rfl⟩)
    · rintro after rfl rfl
      exact hblock ⟨rfl, rfl⟩
    · exact hc

/-! ## The loop -/

variable {bytes : List UInt8} {text rest : List Char} {c : Char} {i : Nat} {fresh : Bool}

/-- The byte behind a character of ASCII is the first one of the rest. -/
theorem getElem?_succ (hc : c.toNat < 0x80) (h : bytes.drop i = encode (c :: rest)) :
    bytes[i + 1]? = (encode rest).head? := by
  rw [encode_cons, encodeChar_of_lt hc, List.singleton_append] at h
  rw [← drop_succ_of_drop h, List.head?_drop]

/-- At the bytes of a character, a comment is found where one starts, with its end. -/
theorem commentEnd?_eq {b : UInt8} (hb : b ∈ String.utf8EncodeChar c)
    (h : bytes.drop i = encode (c :: rest)) (hlength : bytes.length = i + byteLength (c :: rest)) :
    commentEnd? bytes i fresh b
      = .ok ((readAnyComment fresh c rest).map fun cut => i + byteLength cut.1) := by
  have slash : b = ascii '/' ↔ c = '/' := eq_ascii_iff (by decide) hb
  have hash : b = ascii '#' ↔ c = '#' := eq_ascii_iff (by decide) hb
  -- A character of one byte can be tested for by that byte, as no other character contains it.
  have next : ∀ d : Char, d.toNat < 0x80 →
      (b = ascii '/' ∧ bytes[i + 1]? = some (ascii d) ↔ c = '/' ∧ rest.head? = some d) := by
    intro d hd
    rw [slash]
    refine and_congr_right ?_
    rintro rfl
    rw [getElem?_succ (by decide) h, head?_encode hd]
  have line := lineEnd_eq (hlength ▸ Nat.le_add_right ..) h
  rw [commentEnd?, readAnyComment]
  simp only [next '/' (by decide), next '*' (by decide), hash]
  by_cases hslashes : c = '/' ∧ rest.head? = some '/'
  · rw [if_pos hslashes, if_pos (.inl hslashes), line]
    rfl
  rw [if_neg hslashes]
  by_cases hhash : c = '#' ∧ fresh = true
  · rw [if_pos hhash, if_pos (.inr hhash), line]
    rfl
  rw [if_neg hhash, if_neg (not_or.2 ⟨hslashes, hhash⟩)]
  by_cases hblock : c = '/' ∧ rest.head? = some '*'
  · -- `/*` takes two bytes, and the search for the end starts behind them
    rw [if_pos hblock, if_pos hblock]
    obtain ⟨rfl, hrest⟩ := hblock
    obtain ⟨after, rfl⟩ := List.head?_eq_some_iff.1 hrest
    have size : ('/').utf8Size = 1 ∧ ('*').utf8Size = 1 := by decide
    have hafter : bytes.drop (i + 2) = encode after := by
      rw [← List.append_nil (encode _)] at h
      have behind := (byteAt_of_ascii (by decide) (byteAt_of_ascii (by decide) h).2).2
      rwa [List.append_nil] at behind
    rw [byteLength_cons, byteLength_cons, size.1, size.2] at hlength
    rw [commentClose_eq hafter (by omega)]
    refine congrArg (fun n => Except.ok (some n)) ?_
    show i + 2 + _ = i + byteLength ('/' :: '*' :: (cutComment after).1)
    rw [byteLength_cons, byteLength_cons, size.1, size.2]
    omega
  · rw [if_neg hblock, if_neg hblock]
    rfl

/-- What the loop does with a byte outside of strings. -/
theorem stripFrom_step {b : UInt8} {out : List UInt8} (hb : byteAt bytes i = .ok b)
    (hi : i < bytes.length) :
    stripFrom bytes i false fresh out
      = if b = ascii '"' then stripFrom bytes (i + 1) true false out
        else (do
          match ← commentEnd? bytes i fresh b with
          | some stop =>
            let blanked ← blankRange out i stop
            if i < stop then stripFrom bytes stop false fresh blanked else throw (.stuck i)
          | none => stripFrom bytes (i + 1) false (freshBehind fresh b) out) := by
  rw [stripFrom, if_pos hi, hb]
  rfl

/-- The loop blanks a range that is a comment, and goes on behind it. -/
theorem stripFrom_range {b : UInt8} {out blanked : List UInt8} {stop : Nat}
    (hb : byteAt bytes i = .ok b) (hi : i < bytes.length) (hquote : b ≠ ascii '"')
    (hend : commentEnd? bytes i fresh b = .ok (some stop))
    (hblank : blankRange out i stop = .ok blanked) (hstop : i < stop) :
    stripFrom bytes i false fresh out = stripFrom bytes stop false fresh blanked := by
  rw [stripFrom_step hb hi, if_neg hquote, hend, ok_bind]
  show (do
    let blanked ← blankRange out i stop
    if i < stop then stripFrom bytes stop false fresh blanked else throw (Fault.stuck i)) = _
  rw [hblank, ok_bind]
  exact if_pos hstop

/-- The loop passes a byte that starts no comment. -/
theorem stripFrom_other {b : UInt8} (out : List UInt8) (hb : byteAt bytes i = .ok b)
    (hi : i < bytes.length) (hquote : b ≠ ascii '"')
    (hend : commentEnd? bytes i fresh b = .ok none) :
    stripFrom bytes i false fresh out
      = stripFrom bytes (i + 1) false (freshBehind fresh b) out := by
  rw [stripFrom_step hb hi, if_neg hquote, hend]
  rfl

/-- At the end the loop gives back the copy. -/
theorem stripFrom_done {inString : Bool} (out : List UInt8) (hi : bytes.length ≤ i) :
    stripFrom bytes i inString fresh out = .ok out := by
  rw [stripFrom, if_neg (Nat.not_lt.2 hi)]
  rfl

/-- Inside a string the loop looks for nothing but its end. -/
theorem stringLoop_stripFrom (bytes : List UInt8) (fresh : Bool) (out : List UInt8) :
    StringLoop bytes bytes.length (stripFrom bytes · true fresh out)
      (stripFrom bytes · false fresh out) (.ok out) := by
  refine @StringLoop.of_step _ _ _ (fun j inString => stripFrom bytes j inString fresh out) _
    (fun j hj b hb => ?_) fun j hj => stripFrom_done out hj
  rw [stripFrom, if_pos hj, hb]
  rfl

/-! ## One lemma for each kind of character -/

/-- No comment starts with a byte of a character beyond ASCII. -/
theorem commentEnd?_of_high (fresh : Bool) {b : UInt8} (hb : 0x80 ≤ b.toNat) :
    commentEnd? bytes i fresh b = .ok none := by
  have hslash : b ≠ ascii '/' := ne_ascii_of_high hb (by decide)
  have hhash : b ≠ ascii '#' := ne_ascii_of_high hb (by decide)
  rw [commentEnd?, if_neg fun h => hslash h.1, if_neg fun h => hhash h.1,
    if_neg fun h => hslash h.1]
  rfl

/-- A character beyond ASCII makes a line stale. -/
theorem keepsFresh_of_high {c : Char} (h : 0x80 ≤ c.toNat) : keepsFresh c = false := by
  refine eq_false_of_high (fun d hd => ?_) h
  simp only [keepsFresh, Bool.or_eq_true, beq_iff_eq] at hd
  rcases hd with (rfl | rfl) | rfl <;> decide

/-- A byte of a character changes the line as the character does. -/
theorem freshBehind_eq (fresh : Bool) {b : UInt8} (hb : b ∈ String.utf8EncodeChar c) :
    freshBehind fresh b = (c == '\n' || (fresh && keepsFresh c)) := by
  rw [freshBehind, class_of_mem_encodeChar (fun _ => keepsFresh_of_high) c b hb]
  congr 1
  rw [Bool.eq_iff_iff, beq_iff_eq, beq_iff_eq]
  exact eq_ascii_iff (by decide) hb

/-- Behind a byte of 128 or more a line is not fresh. -/
theorem freshBehind_of_high (fresh : Bool) {b : UInt8} (hb : 0x80 ≤ b.toNat) :
    freshBehind fresh b = false := by
  have hnewline : (b == ascii '\n') = false := beq_false_of_ne (ne_ascii_of_high hb (by decide))
  have hblank : keepsFresh (Char.ofUInt8 b) = false := keepsFresh_of_high hb
  rw [freshBehind, hnewline, hblank, Bool.and_false]
  rfl

/-- A character outside of comments and strings changes nothing but the freshness of its line. -/
theorem stripFrom_char (out : List UInt8) (hquote : c ≠ '"')
    (hnone : readAnyComment fresh c rest = none)
    (h : bytes.drop i = encode (c :: rest)) (hlength : bytes.length = i + byteLength (c :: rest)) :
    stripFrom bytes i false fresh out
      = stripFrom bytes (i + c.utf8Size) false (c == '\n' || (fresh && keepsFresh c)) out := by
  have positive := c.utf8Size_pos
  have whole : bytes.drop i = encode (c :: rest) ++ [] := by rw [h, List.append_nil]
  obtain ⟨b, hmem, hb⟩ := exists_byteAt whole
  have hend : commentEnd? bytes i fresh b = .ok none := by
    rw [commentEnd?_eq hmem h hlength, hnone]
    rfl
  rw [byteLength_cons] at hlength
  rw [stripFrom_other out hb (by omega) (ne_of_mem_encodeChar (by decide) hquote b hmem) hend]
  rcases Nat.lt_or_ge c.toNat 0x80 with hc | hc
  · rw [freshBehind_eq fresh hmem, utf8Size_of_lt hc]
  · -- the first byte has ended the fresh part of the line; the others leave it ended
    have stale := freshBehind_of_high fresh (high_of_mem_encodeChar hc b hmem)
    have step : ∀ j < bytes.length, ∀ d : UInt8, 0x80 ≤ d.toNat → byteAt bytes j = .ok d →
        stripFrom bytes j false false out = stripFrom bytes (j + 1) false false out := by
      intro j hj d hd hbyte
      rw [stripFrom_other out hbyte hj (ne_ascii_of_high hd (by decide))
        (commentEnd?_of_high false hd), freshBehind_of_high false hd]
    rw [← freshBehind_eq fresh hmem, stale]
    exact skip_protected (stripFrom bytes · false false out) step whole (by omega)

/-- The loop passes a string as a whole, and one without an end up to the end of the text. -/
theorem stripFrom_string (out : List UInt8) (h : bytes.drop i = encode ('"' :: rest))
    (hlength : bytes.length = i + byteLength ('"' :: rest)) :
    stripFrom bytes i false fresh out
      = (readQuoted rest).elim (.ok out) fun cut =>
          stripFrom bytes (i + byteLength ('"' :: cut.1 ++ ['"'])) false false out := by
  have size : ('"').utf8Size = 1 := by decide
  have whole : bytes.drop i = encode ('"' :: rest) ++ [] := by rw [h, List.append_nil]
  obtain ⟨hb, hrest⟩ := byteAt_of_ascii (by decide) whole
  rw [byteLength_cons, size, ← Nat.add_assoc] at hlength
  rw [stripFrom_step hb (by omega), if_pos rfl,
    (stringLoop_stripFrom bytes false out).run hrest hlength]
  cases readQuoted rest with
  | none => rfl
  | some cut =>
      show stripFrom bytes (i + 1 + byteLength cut.1 + 1) false false out
        = stripFrom bytes (i + byteLength ('"' :: cut.1 ++ ['"'])) false false out
      congr 1
      simp only [byteLength_append, byteLength_cons, byteLength_nil, size]
      omega

/-- A comment is blanked as a whole. -/
theorem stripFrom_comment {done : List UInt8} {cut : List Char × List Char}
    (hdone : done.length = i) (hquote : c ≠ '"')
    (hcomment : readAnyComment fresh c rest = some cut) (h : bytes.drop i = encode (c :: rest))
    (hlength : bytes.length = i + byteLength (c :: rest)) :
    stripFrom bytes i false fresh (done ++ encode (c :: rest))
      = stripFrom bytes (i + byteLength cut.1) false fresh
          (done ++ encode (cut.1.flatMap blankOut) ++ encode cut.2) := by
  have whole : bytes.drop i = encode (c :: rest) ++ [] := by rw [h, List.append_nil]
  obtain ⟨htext, hne⟩ := readAnyComment_append hcomment
  obtain ⟨b, hmem, hb⟩ := exists_byteAt whole
  have hend : commentEnd? bytes i fresh b = .ok (some (i + byteLength cut.1)) := by
    rw [commentEnd?_eq hmem h hlength, hcomment]
    rfl
  have progress : i < i + byteLength cut.1 := by
    have positive := byteLength_pos hne
    omega
  have hi : i < bytes.length := by
    rw [hlength, ← htext, byteLength_append]
    omega
  rw [← htext]
  exact stripFrom_range hb hi (ne_of_mem_encodeChar (by decide) hquote b hmem) hend
    (blankRange_eq cut.1 cut.2 hdone rfl) progress

/-- The loop replaces the comments of the text that is left. -/
theorem stripFrom_eq {done : List UInt8} (hdone : done.length = i)
    (h : bytes.drop i = encode text) (hlength : bytes.length = i + byteLength text) :
    stripFrom bytes i false fresh (done ++ encode text)
      = .ok (done ++ encode (blankComments (.plain fresh) text)) := by
  induction hn : text.length using Nat.strongRecOn generalizing i fresh done text with
  | _ n ih =>
    subst hn
    -- behind a piece that has been dealt with, the text that is left is shorter
    have behind : ∀ (piece rest : List Char) (blanked : List UInt8) (fresh : Bool),
        piece ++ rest = text → piece ≠ [] → blanked.length = byteLength piece →
        stripFrom bytes (i + byteLength piece) false fresh (done ++ blanked ++ encode rest)
          = .ok (done ++ blanked ++ encode (blankComments (.plain fresh) rest)) := by
      rintro piece rest blanked fresh rfl hne hblanked
      have shorter : rest.length < (piece ++ rest).length := by
        have := List.length_pos_iff.2 hne
        simp only [List.length_append]
        omega
      refine ih rest.length shorter ?_ ?_ ?_ rfl
      · rw [List.length_append, hdone, hblanked]
      · rw [encode_append] at h
        rw [← length_encode]
        exact drop_of_drop_append h
      · rw [hlength, byteLength_append, Nat.add_assoc]
    cases text with
    | nil => exact stripFrom_done _ (Nat.le_of_eq hlength)
    | cons c rest =>
        by_cases hquote : c = '"'
        · subst hquote
          rw [stripFrom_string _ h hlength, blankComments_opening, blankComments_string]
          cases hread : readQuoted rest with
          | none => rfl
          | some cut =>
              obtain ⟨content, after⟩ := cut
              have htext : ('"' :: content ++ ['"']) ++ after = '"' :: rest := by
                rw [eq_of_readQuoted hread]
                simp
              have hkept : '"' :: (content ++ '"' :: blankComments (.plain false) after)
                  = ('"' :: content ++ ['"']) ++ blankComments (.plain false) after := by simp
              have next := behind _ after (encode ('"' :: content ++ ['"'])) false htext
                (List.cons_ne_nil _ _) (length_encode _)
              rw [List.append_assoc, List.append_assoc, ← encode_append, ← encode_append, htext,
                ← hkept] at next
              exact next
        · cases hcomment : readAnyComment fresh c rest with
          | none =>
              have next := behind [c] rest (encode [c]) (c == '\n' || (fresh && keepsFresh c)) rfl
                (List.cons_ne_nil _ _) (length_encode _)
              rw [List.append_assoc, List.append_assoc, ← encode_append, ← encode_append] at next
              rw [stripFrom_char _ hquote hcomment h hlength, blankComments_other hquote hcomment]
              exact next
          | some cut =>
              obtain ⟨htext, hne⟩ := readAnyComment_append hcomment
              have blanked : (encode (cut.1.flatMap blankOut)).length = byteLength cut.1 := by
                rw [encode_flatMap_blankOut, List.length_map, length_encode]
              rw [stripFrom_comment hdone hquote hcomment h hlength,
                behind _ _ _ _ htext hne blanked, blankComments_comment hcomment, encode_append,
                List.append_assoc]

/-- The bytes of a text are the form of that text. -/
theorem decode_encode (text : List Char) : decode (encode text) = .ok text := by
  have whole : (encode text).toByteArray.utf8Decode? = some text.toArray :=
    List.utf8Decode?_utf8Encode
  rw [decode, whole]

/-- Replacing the comments of a text never fails, and gives the text that `stripComments` does. -/
theorem stripBytes_eq (text : List Char) : stripBytes text = .ok (stripComments text) := by
  have noMark : text.head? ≠ some byteOrderMark →
      stripComments text = blankComments (.plain true) text := by
    intro h
    cases text with
    | nil => rfl
    | cons c rest => exact if_neg fun hc => h (congrArg some hc)
  rw [stripBytes]
  by_cases hmark : text.head? = some byteOrderMark
  · -- the mark is blanked by itself, and the loop starts behind it
    obtain ⟨rest, rfl⟩ := List.head?_eq_some_iff.1 hmark
    have stripped : stripComments (byteOrderMark :: rest)
        = blankOut byteOrderMark ++ blankComments (.plain true) rest := by
      rw [stripComments, if_pos rfl]
    have blanked : blankRange (encode (byteOrderMark :: rest)) 0 byteOrderMark.utf8Size
        = .ok (encode (blankOut byteOrderMark) ++ encode rest) :=
      @blankRange_eq [] 0 byteOrderMark.utf8Size [byteOrderMark] rest rfl (Nat.zero_add _).symm
    have loop : stripFrom (encode (byteOrderMark :: rest)) byteOrderMark.utf8Size false true
          (encode (blankOut byteOrderMark) ++ encode rest)
        = .ok (encode (blankOut byteOrderMark) ++ encode (blankComments (.plain true) rest)) := by
      refine stripFrom_eq ?_ rfl ?_
      · decide
      · rw [length_encode, byteLength_cons]
    rw [if_pos hmark, blanked, ok_bind, loop, ok_bind, ← encode_append, decode_encode, stripped]
  · have loop : stripFrom (encode text) 0 false true (encode text)
        = .ok (encode (blankComments (.plain true) text)) :=
      @stripFrom_eq (encode text) text 0 true [] rfl rfl
        (by rw [length_encode, Nat.zero_add])
    rw [if_neg hmark, noMark hmark, loop, ok_bind, decode_encode]

end DotLayout.Dot
