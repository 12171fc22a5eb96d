import DotLayout.Proofs.Dot.Bytes.Comments
import DotLayout.Proofs.Dot.Labels
import DotLayout.Proofs.Text.Quoting
import Mathlib.Data.List.Forall2

/-! # What comments are part of

    A text is made of comments, strings and other characters.  `Lexed` says how, by rules that know
    nothing of the program: what a comment is depends on the line it stands on and on what
    follows it, and inside a string there is none.

    * `lexed_lexemes` and `Lexed.eq_lexemes` : every text is made of lexemes in one way.
    * `Source.shown` : without its comments, a source is the same lexemes with spaces for them.
    * `bytes_shown` : byte by byte, a text then is what it was or has a space in place.
    * `comments_blanked_in_place` puts these together. -/

namespace DotLayout.Dot

open Text Text.Quoting

/-! ## Comments -/

/-- A line ends in front of a text. -/
def EndsLine (rest : List Char) : Prop := ∀ c, rest.head? = some c → c = '\n'

/-- What is a comment in front of a text, on a line that is fresh or not. -/
inductive Comment (fresh : Bool) : List Char → List Char → Prop where
  | slashes {inner rest : List Char} (hinner : '\n' ∉ inner) (hrest : EndsLine rest) :
      Comment fresh ('/' :: '/' :: inner) rest
  | hash {inner rest : List Char} (hfresh : fresh = true) (hinner : '\n' ∉ inner)
      (hrest : EndsLine rest) : Comment fresh ('#' :: inner) rest
  | block {inner : List Char} (hinner : ¬ ['*', '/'] <:+: inner) (rest : List Char) :
      Comment fresh ('/' :: '*' :: (inner ++ ['*', '/'])) rest
  /-- A block that is never closed reaches to the end of the text. -/
  | openBlock {inner : List Char} (hinner : ¬ ['*', '/'] <:+: inner) :
      Comment fresh ('/' :: '*' :: inner) []

/-- Behind the rest of a line, the line has ended. -/
theorem endsLine_dropWhile (text : List Char) : EndsLine (text.dropWhile (· != '\n')) := by
  intro c hc
  have stop := List.head?_dropWhile_not (· != '\n') text
  rw [hc] at stop
  simpa using stop

theorem not_mem_takeWhile_line (text : List Char) : '\n' ∉ text.takeWhile (· != '\n') := by
  intro h
  simpa using List.mem_takeWhile_imp h

/-- A comment in a line reaches to the end of the line. -/
theorem line_cut {inner rest : List Char} (hinner : '\n' ∉ inner) (hrest : EndsLine rest) :
    (inner ++ rest).takeWhile (· != '\n') = inner ∧
      (inner ++ rest).dropWhile (· != '\n') = rest := by
  have plain : ∀ c ∈ inner, (c != '\n') = true := by
    intro c hc
    exact bne_iff_ne.2 fun h => hinner (h ▸ hc)
  rw [List.takeWhile_append_of_pos plain, List.dropWhile_append_of_pos plain]
  cases rest with
  | nil => exact ⟨List.append_nil inner, rfl⟩
  | cons c rest =>
      obtain rfl := hrest c rfl
      exact ⟨List.append_nil inner, rfl⟩

/-- Two characters stand side by side in a text: at its front, or further back. -/
theorem infix_pair_cons {a b c : Char} {text : List Char} :
    [a, b] <:+: c :: text ↔ (c = a ∧ text.head? = some b) ∨ [a, b] <:+: text := by
  rw [List.infix_cons_iff, List.cons_prefix_cons, eq_comm]
  cases text with
  | nil => simp
  | cons d text => simp [List.cons_prefix_cons, eq_comm]

/-- A block ends at the first mark that can close it. -/
theorem readComment_close {inner : List Char} (hinner : ¬ ['*', '/'] <:+: inner)
    (rest : List Char) : readComment (inner ++ '*' :: '/' :: rest) = some (inner, rest) := by
  induction inner with
  | nil => rfl
  | cons c inner ih =>
      rw [infix_pair_cons, not_or] at hinner
      -- the mark behind the block starts with a star, so it closes nothing one character earlier
      have hopen : ¬ (c = '*' ∧ (inner ++ '*' :: '/' :: rest).head? = some '/') := by
        rintro ⟨hc, hhead⟩
        cases inner with
        | nil => exact nomatch hhead
        | cons d inner => exact hinner.1 ⟨hc, hhead⟩
      rw [List.cons_append, readComment, if_neg hopen, ih hinner.2]
      rfl

/-- Nothing that could end a block comment stands in front of its end. -/
theorem not_infix_of_readComment {text : List Char} {cut : List Char × List Char}
    (h : readComment text = some cut) : ¬ ['*', '/'] <:+: cut.1 := by
  induction text generalizing cut with
  | nil => exact nomatch h
  | cons c rest ih =>
      rw [readComment] at h
      split at h
      · obtain rfl := Option.some.inj h
        simp
      · rename_i hopen
        obtain ⟨inner, hinner, rfl⟩ := Option.map_eq_some_iff.1 h
        show ¬ ['*', '/'] <:+: c :: inner.1
        rw [infix_pair_cons, not_or]
        refine ⟨?_, ih hinner⟩
        rintro ⟨hc, hhead⟩
        refine hopen ⟨hc, ?_⟩
        rw [← readComment_append hinner, List.head?_append, hhead]
        rfl

/-- A text has no end of a block comment exactly if the mark for it does not occur. -/
theorem readComment_eq_none_iff {text : List Char} :
    readComment text = none ↔ ¬ ['*', '/'] <:+: text := by
  induction text with
  | nil => simp [readComment]
  | cons c rest ih =>
      rw [readComment, infix_pair_cons, not_or, ← ih]
      split
      · rename_i hclose
        simp [hclose]
      · rename_i hclose
        simp [hclose]

/-- A slash and a star open a block comment, in every state of the line. -/
theorem readAnyComment_block (fresh : Bool) (text : List Char) :
    readAnyComment fresh '/' ('*' :: text) = some (inFront ['/', '*'] (cutComment text)) := by
  rw [readAnyComment, if_neg (by simp), if_pos ⟨rfl, rfl⟩, List.tail_cons]

/-- What the scanner reads as a comment is one. -/
theorem comment_of_readAnyComment {fresh : Bool} {c : Char} {rest : List Char}
    {cut : List Char × List Char} (h : readAnyComment fresh c rest = some cut) :
    Comment fresh cut.1 cut.2 := by
  rw [readAnyComment] at h
  split at h
  · rename_i hline
    obtain rfl := Option.some.inj h
    rcases hline with ⟨rfl, hrest⟩ | ⟨rfl, hfresh⟩
    · obtain ⟨after, rfl⟩ := List.head?_eq_some_iff.1 hrest
      exact .slashes (not_mem_takeWhile_line after) (endsLine_dropWhile after)
    · exact .hash hfresh (not_mem_takeWhile_line rest) (endsLine_dropWhile rest)
  split at h
  · rename_i hblock
    obtain ⟨rfl, hrest⟩ := hblock
    obtain ⟨after, rfl⟩ := List.head?_eq_some_iff.1 hrest
    obtain rfl := Option.some.inj h
    rw [List.tail_cons, cutComment]
    cases hread : readComment after with
    | none => exact .openBlock (readComment_eq_none_iff.1 hread)
    | some cut => exact .block (not_infix_of_readComment hread) cut.2
  · cases h

/-- A comment is found where it starts. -/
theorem Comment.exists_read {fresh : Bool} {text rest : List Char} (h : Comment fresh text rest) :
    ∃ c after, text ++ rest = c :: after ∧ c ≠ '"' ∧
      readAnyComment fresh c after = some (text, rest) := by
  cases h with
  | slashes hinner hrest =>
      obtain ⟨htake, hdrop⟩ := line_cut hinner hrest
      refine ⟨'/', _, rfl, by decide, ?_⟩
      rw [readAnyComment, if_pos (.inl ⟨rfl, rfl⟩)]
      exact congrArg some (Prod.ext (congrArg (fun line => '/' :: '/' :: line) htake) hdrop)
  | hash hfresh hinner hrest =>
      obtain ⟨htake, hdrop⟩ := line_cut hinner hrest
      refine ⟨'#', _, rfl, by decide, ?_⟩
      rw [readAnyComment, if_pos (.inr ⟨rfl, hfresh⟩)]
      exact congrArg some (Prod.ext (congrArg ('#' :: ·) htake) hdrop)
  | @block inner hinner rest =>
      refine ⟨'/', '*' :: (inner ++ '*' :: '/' :: rest), by simp, by decide, ?_⟩
      rw [readAnyComment_block, cutComment, readComment_close hinner]
      rfl
  | @openBlock inner hinner =>
      refine ⟨'/', '*' :: inner, List.append_nil _, by decide, ?_⟩
      rw [readAnyComment_block, cutComment, readComment_eq_none_iff.2 hinner]
      rfl

/-- A comment is blanked as a whole. -/
theorem Comment.blankComments {fresh : Bool} {text rest : List Char}
    (h : Comment fresh text rest) : blankComments (.plain fresh) (text ++ rest)
      = text.flatMap blankOut ++ blankComments (.plain fresh) rest := by
  obtain ⟨c, after, htext, -, hread⟩ := h.exists_read
  rw [htext, blankComments_comment hread]

/-! ## Lexemes -/

/-- What a text is made of, as far as comments are concerned. -/
inductive Lexeme where
  /-- The byte order mark at the start of a source. -/
  | mark
  /-- A comment as it is written. -/
  | comment (written : List Char)
  /-- A string, given by what stands between its quotes. -/
  | string (content : List Char)
  /-- A string that is never closed, given by what stands behind its quote. -/
  | openString (content : List Char)
  /-- Any other character. -/
  | char (c : Char)
  deriving Repr, DecidableEq

namespace Lexeme

/-- The text that a lexeme is written as. -/
def written : Lexeme → List Char
  | mark => [byteOrderMark]
  | comment text => text
  | string content => '"' :: content ++ ['"']
  | openString content => '"' :: content
  | char c => [c]

/-- What is left of a lexeme without comments: spaces for those, and else what is written. -/
def shown : Lexeme → List Char
  | mark => blankOut byteOrderMark
  | comment text => text.flatMap blankOut
  | l => l.written

end Lexeme

/-- The text of some lexemes, one behind the other. -/
def written (ls : List Lexeme) : List Char := ls.flatMap Lexeme.written

/-- What is left of some lexemes without their comments. -/
def shown (ls : List Lexeme) : List Char := ls.flatMap Lexeme.shown

/-- Whether a line is fresh behind a character that belongs to no comment. -/
def freshAfter (fresh : Bool) (c : Char) : Bool := c == '\n' || (fresh && keepsFresh c)

/-- What a text is made of, given whether its line is fresh. -/
inductive Lexed : Bool → List Char → List Lexeme → Prop where
  | nil (fresh : Bool) : Lexed fresh [] []
  | comment {fresh : Bool} {text rest : List Char} {ls : List Lexeme}
      (hcomment : Comment fresh text rest) (tail : Lexed fresh rest ls) :
      Lexed fresh (text ++ rest) (.comment text :: ls)
  | string {fresh : Bool} {content rest : List Char} {ls : List Lexeme}
      (hcontent : Content content) (tail : Lexed false rest ls) :
      Lexed fresh ('"' :: content ++ '"' :: rest) (.string content :: ls)
  | openString {fresh : Bool} {rest : List Char}
      (hopen : ∀ inner, inner <+: rest → inside.after inner ≠ outside) :
      Lexed fresh ('"' :: rest) [.openString rest]
  | char {fresh : Bool} {c : Char} {rest : List Char} {ls : List Lexeme} (hquote : c ≠ '"')
      (hcomment : ∀ text behind, Comment fresh text behind → text ++ behind ≠ c :: rest)
      (tail : Lexed (freshAfter fresh c) rest ls) : Lexed fresh (c :: rest) (.char c :: ls)

/-- Splits a text into its lexemes. -/
def lexemes (fresh : Bool) (text : List Char) : List Lexeme :=
  match text with
  | [] => []
  | c :: rest =>
    if c = '"' then
      match _h : readQuoted rest with
      | some (content, after) => .string content :: lexemes false after
      | none => [.openString rest]
    else
      match _h : readAnyComment fresh c rest with
      | some (comment, after) => .comment comment :: lexemes fresh after
      | none => .char c :: lexemes (freshAfter fresh c) rest
  termination_by text.length
  decreasing_by
    · have := length_lt_of_readQuoted _h
      simp
      omega
    · obtain ⟨htext, hne⟩ := readAnyComment_append _h
      have lengths := congrArg List.length htext
      have positive := List.length_pos_iff.2 hne
      simp only [List.length_append] at lengths positive ⊢
      omega
    · simp

/-- A closed string at the start of a text is its first lexeme. -/
theorem lexemes_string {fresh : Bool} {rest content after : List Char}
    (h : readQuoted rest = some (content, after)) :
    lexemes fresh ('"' :: rest) = .string content :: lexemes false after := by
  rw [lexemes, if_pos rfl]
  split
  · rename_i hread
    obtain ⟨rfl, rfl⟩ := Prod.mk.inj (Option.some.inj (hread.symm.trans h))
    rfl
  · rename_i hread
    exact nomatch hread.symm.trans h

/-- A string that is never closed is the last lexeme. -/
theorem lexemes_openString {fresh : Bool} {rest : List Char} (h : readQuoted rest = none) :
    lexemes fresh ('"' :: rest) = [.openString rest] := by
  rw [lexemes, if_pos rfl]
  split
  · rename_i hread
    exact nomatch hread.symm.trans h
  · rfl

/-- A comment at the start of a text is its first lexeme, and the line stays as fresh as it was. -/
theorem lexemes_comment {fresh : Bool} {c : Char} {rest text after : List Char} (hquote : c ≠ '"')
    (h : readAnyComment fresh c rest = some (text, after)) :
    lexemes fresh (c :: rest) = .comment text :: lexemes fresh after := by
  rw [lexemes, if_neg hquote]
  split
  · rename_i hread
    obtain ⟨rfl, rfl⟩ := Prod.mk.inj (Option.some.inj (hread.symm.trans h))
    rfl
  · rename_i hread
    exact nomatch hread.symm.trans h

/-- Any other character is a lexeme of its own. -/
theorem lexemes_char {fresh : Bool} {c : Char} {rest : List Char} (hquote : c ≠ '"')
    (h : readAnyComment fresh c rest = none) :
    lexemes fresh (c :: rest) = .char c :: lexemes (freshAfter fresh c) rest := by
  rw [lexemes, if_neg hquote]
  split
  · rename_i hread
    exact nomatch hread.symm.trans h
  · rfl

/-- The scanner reads no comment exactly where no comment stands. -/
theorem readAnyComment_eq_none_iff {fresh : Bool} {c : Char} {rest : List Char} :
    readAnyComment fresh c rest = none ↔
      ∀ text behind, Comment fresh text behind → text ++ behind ≠ c :: rest := by
  constructor
  · intro h text behind hcomment htext
    obtain ⟨d, after, htext', -, hread⟩ := hcomment.exists_read
    obtain ⟨rfl, rfl⟩ := List.cons.inj (htext'.symm.trans htext)
    exact nomatch h.symm.trans hread
  · intro h
    rw [Option.eq_none_iff_forall_ne_some]
    intro cut hread
    exact h cut.1 cut.2 (comment_of_readAnyComment hread) (readAnyComment_append hread).1

/-- Every text is made of the lexemes that are read from it. -/
theorem lexed_lexemes (fresh : Bool) (text : List Char) :
    Lexed fresh text (lexemes fresh text) := by
  fun_induction lexemes fresh text with
  | case1 fresh => exact .nil fresh
  | case2 fresh rest content after h ih =>
      rw [eq_of_readQuoted h]
      exact .string (content_of_readQuoted h) ih
  | case3 fresh rest h => exact .openString (readQuoted_eq_none_iff.1 h)
  | case4 fresh c rest hquote text after h ih =>
      rw [← (readAnyComment_append h).1]
      exact .comment (comment_of_readAnyComment h) ih
  | case5 fresh c rest hquote h ih => exact .char hquote (readAnyComment_eq_none_iff.1 h) ih

/-- A text is made of lexemes in one way. -/
theorem Lexed.eq_lexemes {fresh : Bool} {text : List Char} {ls : List Lexeme}
    (h : Lexed fresh text ls) : ls = lexemes fresh text := by
  induction h with
  | nil => rw [lexemes]
  | comment hcomment _ ih =>
      obtain ⟨c, after, htext, hquote, hread⟩ := hcomment.exists_read
      rw [htext, lexemes_comment hquote hread, ih]
  | string hcontent _ ih =>
      rw [List.cons_append, lexemes_string (hcontent.readQuoted _), ih]
  | openString hopen => rw [lexemes_openString (readQuoted_eq_none_iff.2 hopen)]
  | char hquote hcomment _ ih =>
      rw [lexemes_char hquote (readAnyComment_eq_none_iff.2 hcomment), ih]

/-- Lexemes are written as the text that they make. -/
theorem Lexed.written {fresh : Bool} {text : List Char} {ls : List Lexeme}
    (h : Lexed fresh text ls) : Dot.written ls = text := by
  induction h with
  | nil => rfl
  | @comment fresh text rest ls _ _ ih =>
      show text ++ Dot.written ls = text ++ rest
      rw [ih]
  | @string fresh content rest ls _ _ ih =>
      show ('"' :: content ++ ['"']) ++ Dot.written ls = _
      rw [ih]
      simp
  | @openString fresh rest =>
      show ('"' :: rest) ++ [] = _
      rw [List.append_nil]
  | @char fresh c rest ls _ _ _ ih =>
      show c :: Dot.written ls = c :: rest
      rw [ih]

/-- Without its comments, a text shows what its lexemes show. -/
theorem Lexed.shown {fresh : Bool} {text : List Char} {ls : List Lexeme} (h : Lexed fresh text ls) :
    Dot.shown ls = blankComments (.plain fresh) text := by
  induction h with
  | nil => rw [blankComments]; rfl
  | @comment fresh text rest ls hcomment _ ih =>
      rw [hcomment.blankComments, ← ih]
      rfl
  | @string fresh content rest ls hcontent _ ih =>
      rw [List.cons_append, blankComments_opening, blankComments_string, hcontent.readQuoted]
      show ('"' :: content ++ ['"']) ++ Dot.shown ls
        = '"' :: (content ++ '"' :: blankComments (.plain false) rest)
      rw [ih]
      simp
  | @openString fresh rest hopen =>
      rw [blankComments_opening, blankComments_string, readQuoted_eq_none_iff.2 hopen]
      exact List.append_nil _
  | @char fresh c rest ls hquote hcomment _ ih =>
      rw [blankComments_other hquote (readAnyComment_eq_none_iff.2 hcomment)]
      exact congrArg (c :: ·) ih

/-! ## Sources -/

/-- What a source is made of: a byte order mark may stand in front of the text. -/
inductive Source : List Char → List Lexeme → Prop where
  | mark {text : List Char} {ls : List Lexeme} (tail : Lexed true text ls) :
      Source (byteOrderMark :: text) (.mark :: ls)
  | text {text : List Char} {ls : List Lexeme} (hmark : text.head? ≠ some byteOrderMark)
      (tail : Lexed true text ls) : Source text ls

/-- Splits a source into its lexemes. -/
def sourceLexemes : List Char → List Lexeme
  | [] => []
  | c :: rest => if c = byteOrderMark then .mark :: lexemes true rest else lexemes true (c :: rest)

/-- Every source is made of the lexemes that are read from it. -/
theorem source_sourceLexemes (text : List Char) : Source text (sourceLexemes text) := by
  cases text with
  | nil => exact .text nofun (.nil true)
  | cons c rest =>
      rw [sourceLexemes]
      split
      · rename_i hc
        rw [hc]
        exact .mark (lexed_lexemes true rest)
      · rename_i hc
        exact .text (fun h => hc (Option.some.inj h)) (lexed_lexemes true (c :: rest))

/-- A source is made of lexemes in one way only. -/
theorem Source.eq_sourceLexemes {text : List Char} {ls : List Lexeme} (h : Source text ls) :
    ls = sourceLexemes text := by
  cases h with
  | mark tail => rw [sourceLexemes, if_pos rfl, tail.eq_lexemes]
  | text hmark tail =>
      cases text with
      | nil => rw [tail.eq_lexemes, sourceLexemes, lexemes]
      | cons c rest =>
          rw [sourceLexemes, if_neg fun hc => hmark (congrArg some hc), tail.eq_lexemes]

/-- The lexemes of a source are written as that source. -/
theorem Source.written {text : List Char} {ls : List Lexeme} (h : Source text ls) :
    Dot.written ls = text := by
  cases h with
  | mark tail => exact congrArg (byteOrderMark :: ·) tail.written
  | text _ tail => exact tail.written

/-- A text without a byte order mark is only freed of its comments. -/
theorem stripComments_of_head {text : List Char} (h : text.head? ≠ some byteOrderMark) :
    stripComments text = blankComments (.plain true) text := by
  cases text with
  | nil => rw [stripComments, blankComments]
  | cons c rest => exact if_neg fun hc => h (congrArg some hc)

/-- Without its comments, a source is what its lexemes leave. -/
theorem Source.shown {text : List Char} {ls : List Lexeme} (h : Source text ls) :
    Dot.shown ls = stripComments text := by
  cases h with
  | mark tail =>
      rw [stripComments, if_pos rfl, ← tail.shown]
      rfl
  | text hmark tail => rw [stripComments_of_head hmark, tail.shown]

/-! ## Bytes -/

/-- What a byte can become when comments are blanked. -/
def Overwritten (b b' : UInt8) : Prop := b' = b ∨ b' = blankByte b

/-- What is overwritten has a line break exactly where there was one. -/
theorem Overwritten.eq_newline_iff {b b' : UInt8} (h : Overwritten b b') :
    b' = ascii '\n' ↔ b = ascii '\n' := by
  rcases h with rfl | rfl
  · rfl
  · rw [blankByte]
    split
    · rfl
    · rename_i hb
      exact iff_of_false (by decide) hb

/-- What is overwritten is what it was, or a space. -/
theorem Overwritten.eq_or_space {b b' : UInt8} (h : Overwritten b b') :
    b' = b ∨ b' = ascii ' ' := by
  rcases h with rfl | rfl
  · exact .inl rfl
  · rw [blankByte]
    split
    · exact .inl rfl
    · exact .inr rfl

/-- The bytes of a lexeme stay, or are overwritten in place. -/
theorem bytes_lexeme (l : Lexeme) :
    List.Forall₂ Overwritten (encode l.written) (encode l.shown) := by
  have same : ∀ bytes : List UInt8, List.Forall₂ Overwritten bytes bytes :=
    fun bytes => List.forall₂_same.2 fun b _ => .inl rfl
  have blanked : ∀ bytes : List UInt8, List.Forall₂ Overwritten bytes (bytes.map blankByte) :=
    fun bytes => List.forall₂_map_right_iff.2 (List.forall₂_same.2 fun b _ => .inr rfl)
  cases l with
  | mark =>
      show List.Forall₂ Overwritten (encode [byteOrderMark]) (encode (blankOut byteOrderMark))
      rw [encode_blankOut, encode_cons, encode_nil, List.append_nil]
      exact blanked _
  | comment text =>
      show List.Forall₂ Overwritten (encode text) (encode (text.flatMap blankOut))
      rw [encode_flatMap_blankOut]
      exact blanked _
  | string => exact same _
  | openString => exact same _
  | char => exact same _

/-- The bytes of a text stay, or are overwritten in place. -/
theorem bytes_shown (ls : List Lexeme) :
    List.Forall₂ Overwritten (encode (written ls)) (encode (shown ls)) := by
  induction ls with
  | nil => exact .nil
  | cons l ls ih =>
      rw [written, shown, List.flatMap_cons, List.flatMap_cons, encode_append, encode_append]
      exact List.rel_append (bytes_lexeme l) ih

/-- A text without its comments has as many bytes as before. -/
theorem byteLength_shown (ls : List Lexeme) : byteLength (shown ls) = byteLength (written ls) := by
  rw [← length_encode, ← length_encode, (bytes_shown ls).length_eq]

/-- The bytes at a position, before and after comments are blanked. -/
theorem overwritten_getElem? {bytes bytes' : List UInt8}
    (h : List.Forall₂ Overwritten bytes bytes') (i : Nat) :
    Option.Rel Overwritten bytes[i]? bytes'[i]? := by
  induction h generalizing i with
  | nil => exact .none
  | cons hb _ ih =>
      cases i with
      | zero => exact .some hb
      | succ i => exact ih i

/-- A text without its comments has its line breaks where they were. -/
theorem newline_getElem?_iff {ls : List Lexeme} {i : Nat} :
    (encode (shown ls))[i]? = some (ascii '\n')
      ↔ (encode (written ls))[i]? = some (ascii '\n') := by
  have same := overwritten_getElem? (bytes_shown ls) i
  generalize (encode (written ls))[i]? = before at same ⊢
  generalize (encode (shown ls))[i]? = after at same ⊢
  cases same with
  | none => rfl
  | some h => rw [Option.some_inj, Option.some_inj, h.eq_newline_iff]

/-- A byte of a text without its comments was there before, or is a space. -/
theorem getElem?_shown_cases {ls : List Lexeme} {i : Nat} {b : UInt8}
    (h : (encode (shown ls))[i]? = some b) :
    (encode (written ls))[i]? = some b ∨ b = ascii ' ' := by
  have same := overwritten_getElem? (bytes_shown ls) i
  rw [h] at same
  generalize (encode (written ls))[i]? = before at same ⊢
  cases same with
  | some h =>
      rcases h.eq_or_space with rfl | hspace
      · exact .inl rfl
      · exact .inr hspace

/-! ## Sources without their comments -/

/-- A text that was made from a source with some lexemes by writing spaces over its comments. -/
structure BlankedInPlace (text stripped : List Char) (ls : List Lexeme) : Prop where
  /-- All lexemes but comments and the byte order mark are shown as they are written. -/
  shown : stripped = Dot.shown ls
  length : (encode stripped).length = (encode text).length
  /-- The bytes that are line breaks are the same ones. -/
  breaks : ∀ i : Nat,
    (encode stripped)[i]? = some (ascii '\n') ↔ (encode text)[i]? = some (ascii '\n')
  bytes : ∀ (i : Nat) (b : UInt8), (encode stripped)[i]? = some b →
    (encode text)[i]? = some b ∨ b = ascii ' '
  /-- No character but spaces is new, nor has one moved. -/
  characters : ∀ front c behind, stripped = front ++ c :: behind → c ≠ ' ' →
    ∃ front' behind', text = front' ++ c :: behind' ∧ byteLength front' = byteLength front
  /-- A string stays where it is, from its first quote to its last. -/
  strings : ∀ before content after, ls = before ++ .string content :: after →
    ∃ front behind, stripped = front ++ ('"' :: content ++ '"' :: behind) ∧
      byteLength front = byteLength (written before)

/-- **Comments turn into spaces in place.**  Every text is made of lexemes in one way.  Writing
    spaces over the bytes of its comments never fails and leaves a text again, in which every byte
    is what it was or a space, line breaks and strings stay, and no character is new. -/
theorem comments_blanked_in_place (text : List Char) :
    ∃ ls, Source text ls ∧ (∀ ls', Source text ls' → ls' = ls) ∧ written ls = text ∧
      stripBytes text = .ok (stripComments text) ∧ BlankedInPlace text (stripComments text) ls := by
  have source := source_sourceLexemes text
  refine ⟨sourceLexemes text, source, fun _ h => h.eq_sourceLexemes, source.written,
    stripBytes_eq text, ?_⟩
  constructor
  case shown => exact source.shown.symm
  case length =>
    rw [length_encode, length_encode, ← source.shown, byteLength_shown, source.written]
  case breaks =>
    intro i
    rw [← source.shown, newline_getElem?_iff, source.written]
  case bytes =>
    intro i b hb
    rw [← source.shown] at hb
    rw [← source.written]
    exact getElem?_shown_cases hb
  case characters =>
    intro front c behind hsplit hc
    obtain ⟨front', behind', htext, hlength, -⟩ :=
      (blanked_stripComments text).exists_of_ne_space hc hsplit
    exact ⟨front', behind', htext, hlength⟩
  case strings =>
    intro before content after hls
    refine ⟨shown before, shown after, ?_, byteLength_shown before⟩
    rw [← source.shown, hls]
    simp [shown, Lexeme.shown, Lexeme.written]

end DotLayout.Dot
