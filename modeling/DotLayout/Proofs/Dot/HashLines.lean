import DotLayout.Proofs.Dot.Lexemes
import Mathlib.Data.List.Induction

/-! # Blanking comments twice

    A text without comments has none, as long as no `#` starts a line in it.  Such a `#` is one of
    the text itself: its line starts inside a block comment, behind other text, and the comment
    does not count as the start of a line while it is read, but looks like one once it is blanked.

    * `lineAfter` follows a line character by character, as `Quoting.after` does with quotes.
    * `blankComments_shown_iff` : what is shown stays the same when it is blanked again, unless it
      has a `#` at the start of a line; by induction on lexemes.
    * `Lexed.hashAt_iff` : where such a `#` comes from; by induction on lexemes again.
    * `stripComments_twice_iff` puts these together. -/

namespace DotLayout.Dot

open Text Text.Quoting

/-! ## Lines -/

/-- Nothing but blanks stands behind the last line break of a text. -/
def EndsFresh (front : List Char) : Prop :=
  ∃ before blanks, front = before ++ blanks ∧ (∀ c, before.getLast? = some c → c = '\n') ∧
    ∀ c ∈ blanks, keepsFresh c = true

/-- Whether a line is fresh behind a text. -/
def lineAfter (fresh : Bool) (text : List Char) : Bool := text.foldl freshAfter fresh

@[simp] theorem lineAfter_nil (fresh : Bool) : lineAfter fresh [] = fresh := rfl

@[simp] theorem lineAfter_cons (fresh : Bool) (c : Char) (text : List Char) :
    lineAfter fresh (c :: text) = lineAfter (freshAfter fresh c) text := rfl

@[simp] theorem lineAfter_append (fresh : Bool) (a b : List Char) :
    lineAfter fresh (a ++ b) = lineAfter (lineAfter fresh a) b :=
  List.foldl_append

/-- Behind anything but a line break, a line is fresh if it was and the character keeps it so. -/
theorem freshAfter_of_ne {c : Char} (hc : c ≠ '\n') (fresh : Bool) :
    freshAfter fresh c = (fresh && keepsFresh c) := by
  rw [freshAfter, beq_false_of_ne hc, Bool.false_or]

/-- A line that is fresh whenever another one is stays so behind the same character. -/
theorem freshAfter_imp {fresh line : Bool} (h : fresh = true → line = true) (c : Char) :
    freshAfter fresh c = true → freshAfter line c = true := by
  rw [freshAfter, freshAfter, Bool.or_eq_true, Bool.or_eq_true, Bool.and_eq_true, Bool.and_eq_true]
  exact Or.imp_right (And.imp_left h)

/-- Behind blanks a fresh line is still fresh. -/
theorem lineAfter_blanks {blanks : List Char} (h : ∀ c ∈ blanks, keepsFresh c = true) :
    lineAfter true blanks = true := by
  induction blanks with
  | nil => rfl
  | cons c blanks ih =>
      have hc : freshAfter true c = true := by simp [freshAfter, h c List.mem_cons_self]
      rw [lineAfter_cons, hc]
      exact ih fun d hd => h d (List.mem_cons_of_mem c hd)

/-- A text ends with a fresh line if following its last line says so. -/
theorem endsFresh_iff (front : List Char) : EndsFresh front ↔ lineAfter true front = true := by
  constructor
  · rintro ⟨before, blanks, rfl, hbefore, hblanks⟩
    have fresh : lineAfter true before = true := by
      rcases List.eq_nil_or_concat before with rfl | ⟨inner, c, rfl⟩
      · rfl
      · obtain rfl := hbefore c (by simp)
        simp [freshAfter]
    rw [lineAfter_append, fresh, lineAfter_blanks hblanks]
  · intro h
    induction front using List.reverseRecOn with
    | nil => exact ⟨[], [], rfl, nofun, nofun⟩
    | append_singleton front c ih =>
        rw [lineAfter_append, lineAfter_cons, lineAfter_nil] at h
        by_cases hc : c = '\n'
        · subst hc
          exact ⟨front ++ ['\n'], [], (List.append_nil _).symm, by simp, nofun⟩
        · rw [freshAfter_of_ne hc, Bool.and_eq_true] at h
          obtain ⟨before, blanks, rfl, hbefore, hblanks⟩ := ih h.1
          refine ⟨before, blanks ++ [c], List.append_assoc .., hbefore, ?_⟩
          intro d hd
          rcases List.mem_append.1 hd with hd | hd
          · exact hblanks d hd
          · rw [List.mem_singleton.1 hd, h.2]

/-! ## A `#` at the start of a line -/

/-- A `#` stands outside of strings on a line that is fresh. -/
def HashAt (q : Quoting) (fresh : Bool) (text : List Char) : Prop :=
  ∃ front behind, text = front ++ '#' :: behind ∧ q.after front = outside ∧
    lineAfter fresh front = true

theorem not_hashAt_nil (q : Quoting) (fresh : Bool) : ¬ HashAt q fresh [] := by
  rintro ⟨front, behind, h, -⟩
  simp at h

/-- A `#` at the start of a line is the next character, or stands behind it. -/
theorem hashAt_cons {q : Quoting} {fresh : Bool} {c : Char} {rest : List Char} :
    HashAt q fresh (c :: rest) ↔
      (c = '#' ∧ q = outside ∧ fresh = true) ∨ HashAt (q.step c) (freshAfter fresh c) rest := by
  constructor
  · rintro ⟨front, behind, htext, hout, hfresh⟩
    cases front with
    | nil => exact .inl ⟨(List.cons.inj htext).1, hout, hfresh⟩
    | cons d front =>
        obtain ⟨rfl, hrest⟩ := List.cons.inj htext
        exact .inr ⟨front, behind, hrest, hout, hfresh⟩
  · rintro (⟨rfl, rfl, rfl⟩ | ⟨front, behind, rfl, hout, hfresh⟩)
    · exact ⟨[], rest, rfl, rfl, rfl⟩
    · exact ⟨c :: front, behind, rfl, hout, hfresh⟩

/-- Any other character can be passed. -/
theorem hashAt_cons_of_ne {q : Quoting} {fresh : Bool} {c : Char} (hc : c ≠ '#')
    {rest : List Char} :
    HashAt q fresh (c :: rest) ↔ HashAt (q.step c) (freshAfter fresh c) rest :=
  hashAt_cons.trans (or_iff_right fun hash => hc hash.1)

/-- A `#` at the start of a line stands in the first of two texts, or in the second. -/
theorem hashAt_append {q : Quoting} {fresh : Bool} {a b : List Char} :
    HashAt q fresh (a ++ b) ↔
      HashAt q fresh a ∨ HashAt (q.after a) (lineAfter fresh a) b := by
  induction a generalizing q fresh with
  | nil => simp [not_hashAt_nil]
  | cons c a ih => rw [List.cons_append, hashAt_cons, hashAt_cons, ih, or_assoc]; rfl

/-- No `#` stands outside of strings between two quotes. -/
theorem not_hashAt_content {content : List Char} (h : Content content) (fresh : Bool) :
    ¬ HashAt inside fresh (content ++ ['"']) := by
  induction h generalizing fresh with
  | nil => simp [hashAt_cons, not_hashAt_nil]
  | slash c _ ih =>
      rw [List.cons_append, List.cons_append, hashAt_cons, hashAt_cons]
      rintro (⟨-, hout, -⟩ | ⟨-, hout, -⟩ | htail)
      · exact nomatch hout
      · exact nomatch hout
      · exact ih _ htail
  | char hquote hslash _ ih =>
      rw [List.cons_append, hashAt_cons, step_inside hquote hslash]
      rintro (⟨-, hout, -⟩ | htail)
      · exact nomatch hout
      · exact ih _ htail

/-- Inside a string that is never closed, no `#` starts a line. -/
theorem not_hashAt_openString {rest : List Char}
    (h : ∀ inner, inner <+: rest → inside.after inner ≠ outside) (fresh : Bool) :
    ¬ HashAt inside fresh rest := by
  rintro ⟨front, behind, rfl, hout, -⟩
  exact h front (List.prefix_append ..) hout

/-! ## What is left of a comment -/

/-- Comments leave spaces and line breaks. -/
theorem mem_blankOut {c d : Char} (h : d ∈ blankOut c) : d = ' ' ∨ (d = '\n' ∧ c = '\n') := by
  rw [blankOut] at h
  split at h
  · rename_i hc
    exact .inr ⟨List.mem_singleton.1 h, hc⟩
  · exact .inl (List.mem_replicate.1 h).2

/-- Spaces and line breaks are no part of strings or comments. -/
def Cleared (text : List Char) : Prop := ∀ c ∈ text, c = ' ' ∨ c = '\n'

/-- What is left of a comment is cleared. -/
theorem cleared_flatMap_blankOut (text : List Char) : Cleared (text.flatMap blankOut) := by
  intro c hc
  obtain ⟨d, -, hd⟩ := List.mem_flatMap.1 hc
  exact (mem_blankOut hd).imp_right And.left

/-- Cleared text leaves no string open. -/
theorem Cleared.after {text : List Char} (h : Cleared text) : outside.after text = outside := by
  induction text with
  | nil => rfl
  | cons c text ih =>
      have hc : c ≠ '"' := by
        rcases h c List.mem_cons_self with rfl | rfl <;> decide
      rw [after_cons, step_outside hc]
      exact ih fun d hd => h d (List.mem_cons_of_mem c hd)

/-- No `#` stands in cleared text. -/
theorem Cleared.not_hashAt {text : List Char} (h : Cleared text) (q : Quoting) (fresh : Bool) :
    ¬ HashAt q fresh text := by
  rintro ⟨front, behind, rfl, -⟩
  rcases h '#' (List.mem_append_right front List.mem_cons_self) with hhash | hhash <;>
    exact nomatch hhash

/-- Spaces leave a line as fresh as it was. -/
theorem lineAfter_spaces (fresh : Bool) (n : Nat) :
    lineAfter fresh (List.replicate n ' ') = fresh := by
  induction n with
  | zero => rfl
  | succ n ih =>
      have hspace : freshAfter fresh ' ' = fresh := Bool.and_true fresh
      rw [List.replicate_succ, lineAfter_cons, hspace, ih]

/-- A comment that is blanked leaves a fresh line if it held a line break, and else the line as it
    was. -/
theorem lineAfter_blanked (fresh : Bool) (text : List Char) :
    lineAfter fresh (text.flatMap blankOut) = (fresh || text.contains '\n') := by
  induction text generalizing fresh with
  | nil => exact (Bool.or_false fresh).symm
  | cons c text ih =>
      rw [List.flatMap_cons, lineAfter_append, ih, List.contains_cons, blankOut]
      split
      · rename_i hc
        subst hc
        simp [freshAfter]
      · rename_i hc
        have hne : ('\n' == c) = false := beq_false_of_ne fun h => hc h.symm
        rw [lineAfter_spaces, hne, Bool.false_or]

/-- Cleared text stays when comments are blanked, and the scanner goes on behind it. -/
theorem Cleared.blankComments {text : List Char} (h : Cleared text) (fresh : Bool)
    (rest : List Char) : blankComments (.plain fresh) (text ++ rest)
      = text ++ blankComments (.plain (lineAfter fresh text)) rest := by
  induction text generalizing fresh with
  | nil => rfl
  | cons c text ih =>
      have other : c ≠ '"' ∧ readAnyComment fresh c (text ++ rest) = none := by
        rcases h c List.mem_cons_self with rfl | rfl <;> exact ⟨by decide, by simp [readAnyComment]⟩
      rw [List.cons_append, blankComments_other other.1 other.2]
      exact congrArg (c :: ·) (ih (fun d hd => h d (List.mem_cons_of_mem c hd)) _)

/-! ## Texts without their comments -/

/-- What is shown starts like the text, or with a space for a comment. -/
theorem head?_shown {fresh : Bool} {text : List Char} {ls : List Lexeme} (h : Lexed fresh text ls) :
    (shown ls).head? = text.head? ∨ (shown ls).head? = some ' ' := by
  cases h with
  | nil => exact .inl rfl
  | comment hcomment =>
      right
      cases hcomment <;> rfl
  | string => exact .inl rfl
  | openString => exact .inl rfl
  | char => exact .inl rfl

/-- Where no comment started, none does when the others are blanked, a `#` apart. -/
theorem readAnyComment_shown {fresh fresh' line : Bool} {c : Char} {rest : List Char}
    {ls : List Lexeme} (h : readAnyComment fresh c rest = none) (tail : Lexed fresh' rest ls)
    (hhash : ¬ (c = '#' ∧ line = true)) : readAnyComment line c (shown ls) = none := by
  have next : ∀ d : Char, d ≠ ' ' → (shown ls).head? = some d → rest.head? = some d := by
    intro d hd hshown
    rcases head?_shown tail with hsame | hspace
    · rw [← hsame, hshown]
    · exact absurd (Option.some.inj (hshown.symm.trans hspace)) hd
  rw [readAnyComment] at h ⊢
  rw [if_neg, if_neg]
  · rintro ⟨rfl, hstar⟩
    rw [if_neg (by simp [next '*' (by decide) hstar]),
      if_pos ⟨rfl, next '*' (by decide) hstar⟩] at h
    cases h
  · rintro (⟨rfl, hslash⟩ | hhash')
    · rw [if_pos (.inl ⟨rfl, next '/' (by decide) hslash⟩)] at h
      cases h
    · exact hhash hhash'

/-! A `#` at the start of a line, lexeme by lexeme. -/

/-- What is left of a comment has no `#`, and a line break in it makes the line fresh. -/
theorem hashAt_shown_comment {line : Bool} {text : List Char} {ls : List Lexeme} :
    HashAt outside line (shown (.comment text :: ls)) ↔
      HashAt outside (line || text.contains '\n') (shown ls) := by
  have cleared := cleared_flatMap_blankOut text
  show HashAt outside line (text.flatMap blankOut ++ shown ls) ↔ _
  rw [hashAt_append, cleared.after, lineAfter_blanked,
    or_iff_right (cleared.not_hashAt outside line)]

theorem shown_string (content : List Char) (ls : List Lexeme) :
    shown (.string content :: ls) = '"' :: (content ++ ['"'] ++ shown ls) := rfl

/-- No `#` of a string starts a line, and behind the string its line is not fresh. -/
theorem hashAt_shown_string {line : Bool} {content : List Char} (h : Content content)
    {ls : List Lexeme} :
    HashAt outside line (shown (.string content :: ls)) ↔ HashAt outside false (shown ls) := by
  have hquote : outside.step '"' = inside := rfl
  have hclosed : lineAfter (freshAfter line '"') (content ++ ['"']) = false := by
    rw [lineAfter_append, lineAfter_cons, lineAfter_nil, freshAfter_of_ne (by decide)]
    exact Bool.and_false _
  rw [shown_string, hashAt_cons_of_ne (by decide), hquote, hashAt_append,
    or_iff_right (not_hashAt_content h _), h.after_quote, hclosed]

/-- No `#` of a string that is never closed starts a line. -/
theorem not_hashAt_shown_openString {line : Bool} {rest : List Char}
    (h : ∀ inner, inner <+: rest → inside.after inner ≠ outside) :
    ¬ HashAt outside line (shown [.openString rest]) := by
  have hshown : shown [.openString rest] = '"' :: rest := List.append_nil _
  rw [hshown, hashAt_cons_of_ne (by decide)]
  exact not_hashAt_openString h _

/-- A single character is a `#` at the start of a line, or one stands behind it. -/
theorem hashAt_shown_char {line : Bool} {c : Char} (hc : c ≠ '"') {ls : List Lexeme} :
    HashAt outside line (shown (.char c :: ls)) ↔
      (c = '#' ∧ line = true) ∨ HashAt outside (freshAfter line c) (shown ls) := by
  show HashAt outside line (c :: shown ls) ↔ _
  rw [hashAt_cons, step_outside hc]
  simp

/-- What is shown of a text on a line stays the same when it is blanked on a line that is fresh at
    least when that one is, unless it has a `#` at the start of a line. -/
theorem blankComments_shown_iff {fresh line : Bool} {text : List Char} {ls : List Lexeme}
    (h : Lexed fresh text ls) (hline : fresh = true → line = true) :
    blankComments (.plain line) (shown ls) = shown ls ↔ ¬ HashAt outside line (shown ls) := by
  induction h generalizing line with
  | nil => exact iff_of_true (blankComments.eq_1 _) (not_hashAt_nil outside line)
  | @comment fresh text rest ls _ _ ih =>
      -- of a comment its blanks and line breaks are left, and they are passed as they stand
      have hshown : shown (.comment text :: ls) = text.flatMap blankOut ++ shown ls := rfl
      rw [hashAt_shown_comment, hshown, (cleared_flatMap_blankOut text).blankComments,
        List.append_cancel_left_eq, lineAfter_blanked]
      refine ih fun hfresh => ?_
      rw [hline hfresh, Bool.true_or]
  | @string fresh content rest ls hcontent _ ih =>
      -- a string is kept as a whole, and behind it the line is not fresh
      have hsplit : content ++ ['"'] ++ shown ls = content ++ '"' :: shown ls := by simp
      refine (Iff.trans ?_ (ih fun hfresh => absurd hfresh Bool.false_ne_true)).trans
        (not_congr (hashAt_shown_string hcontent)).symm
      rw [shown_string, hsplit, blankComments_opening, blankComments_string, hcontent.readQuoted]
      simp
  | @openString fresh rest hopen =>
      have hshown : shown [.openString rest] = '"' :: rest := List.append_nil _
      refine iff_of_true ?_ (not_hashAt_shown_openString hopen)
      rw [hshown, blankComments_opening, blankComments_string, readQuoted_eq_none_iff.2 hopen]
      rfl
  | @char fresh c rest ls hc hcomment tail ih =>
      have hshown : shown (.char c :: ls) = c :: shown ls := rfl
      rw [hashAt_shown_char hc, hshown]
      -- a `#` on a fresh line is taken for a comment, and any other character is kept
      by_cases hhash : c = '#' ∧ line = true
      · obtain ⟨rfl, rfl⟩ := hhash
        refine iff_of_false (fun h => ?_) fun h => h (.inl ⟨rfl, rfl⟩)
        cases (List.cons.inj h).1
      · have hread := readAnyComment_shown (readAnyComment_eq_none_iff.2 hcomment) tail hhash
        rw [blankComments_other hc hread, List.cons_inj_right, or_iff_right hhash]
        exact ih (freshAfter_imp hline c)

/-! ## Where a `#` at the start of a line comes from -/

/-- Comments and blanks leave a line fresh. -/
def Lexeme.Blank : Lexeme → Prop
  | .comment _ => True
  | .char c => keepsFresh c = true
  | _ => False

/-- Behind a comment with a line break stands a `#` that is text, with nothing but comments and
    blanks in between. -/
def BreakHidden (ls : List Lexeme) : Prop :=
  ∃ before comment blanks after,
    ls = before ++ .comment comment :: (blanks ++ .char '#' :: after) ∧ '\n' ∈ comment ∧
      ∀ l ∈ blanks, l.Blank

/-- A hidden line break stays one behind another lexeme. -/
theorem BreakHidden.cons {ls : List Lexeme} (h : BreakHidden ls) (l : Lexeme) :
    BreakHidden (l :: ls) := by
  obtain ⟨before, comment, blanks, after, rfl, hbreak, hblanks⟩ := h
  exact ⟨l :: before, comment, blanks, after, rfl, hbreak, hblanks⟩

/-- A `#` that is text starts a line of what is shown only if its line was fresh for no reason that
    the text gives, or behind a comment with a line break. -/
theorem Lexed.of_hashAt {fresh line : Bool} {text : List Char} {ls : List Lexeme}
    (h : Lexed fresh text ls) (hash : HashAt outside line (Dot.shown ls)) :
    (fresh = false ∧ line = true ∧
      ∃ blanks after, ls = blanks ++ .char '#' :: after ∧ ∀ l ∈ blanks, l.Blank) ∨
    BreakHidden ls := by
  induction h generalizing line with
  | nil => exact absurd hash (not_hashAt_nil outside line)
  | @comment fresh text rest ls _ _ ih =>
      rcases ih (hashAt_shown_comment.1 hash) with
        ⟨hfresh, hline, blanks, after, rfl, hblanks⟩ | hid
      · -- a comment with a line break hides it; without one it is one more blank
        rcases (Bool.or_eq_true ..).mp hline with hline | hbreak
        · refine .inl ⟨hfresh, hline, .comment text :: blanks, after, rfl, ?_⟩
          exact List.forall_mem_cons.2 ⟨trivial, hblanks⟩
        · exact .inr ⟨[], text, blanks, after, rfl, List.contains_iff_mem.1 hbreak, hblanks⟩
      · exact .inr (hid.cons _)
  | string hcontent _ ih =>
      rcases ih ((hashAt_shown_string hcontent).1 hash) with ⟨-, hline, -⟩ | hid
      · -- a string is no blank
        exact absurd hline Bool.false_ne_true
      · exact .inr (hid.cons _)
  | openString hopen => exact absurd hash (not_hashAt_shown_openString hopen)
  | @char fresh c rest ls hc hcomment _ ih =>
      have hread := readAnyComment_eq_none_iff.2 hcomment
      rcases (hashAt_shown_char hc).1 hash with ⟨rfl, rfl⟩ | htail
      · -- on a fresh line the `#` would start a comment
        have hfresh : fresh = false := by
          rw [readAnyComment] at hread
          cases fresh
          · rfl
          · cases hread
        exact .inl ⟨hfresh, rfl, [], ls, rfl, List.forall_mem_nil _⟩
      · rcases ih htail with ⟨hfresh, hline, blanks, after, rfl, hblanks⟩ | hid
        · -- behind a line break the line is fresh
          have hne : c ≠ '\n' := by
            rintro rfl
            cases hfresh
          rw [freshAfter_of_ne hne, Bool.and_eq_true] at hline
          rw [freshAfter_of_ne hne, hline.2, Bool.and_true] at hfresh
          refine .inl ⟨hfresh, hline.1, .char c :: blanks, after, rfl, ?_⟩
          exact List.forall_mem_cons.2 ⟨hline.2, hblanks⟩
        · exact .inr (hid.cons _)

/-- A `#` behind blank lexemes at the start of a line starts that line in what is shown. -/
theorem hashAt_shown_blanks {blanks : List Lexeme} (h : ∀ l ∈ blanks, l.Blank)
    (after : List Lexeme) : HashAt outside true (shown (blanks ++ .char '#' :: after)) := by
  induction blanks with
  | nil => exact hashAt_cons.2 (.inl ⟨rfl, rfl, rfl⟩)
  | cons l blanks ih =>
      have tail := ih fun l' hl' => h l' (List.mem_cons_of_mem l hl')
      have blank := h l List.mem_cons_self
      cases l with
      | comment text =>
          rw [List.cons_append, hashAt_shown_comment, Bool.true_or]
          exact tail
      | char c =>
          have hkeep : keepsFresh c = true := blank
          have hc : c ≠ '"' := by
            rintro rfl
            exact nomatch hkeep
          rw [List.cons_append, hashAt_shown_char hc, freshAfter, hkeep, Bool.and_true,
            Bool.or_true]
          exact .inr tail
      | mark => exact blank.elim
      | string => exact blank.elim
      | openString => exact blank.elim

/-- Behind a comment with a line break, a `#` starts a line of what is shown. -/
theorem Lexed.hashAt_of_breakHidden {fresh line : Bool} {text : List Char} {ls : List Lexeme}
    (h : Lexed fresh text ls) (hidden : BreakHidden ls) : HashAt outside line (Dot.shown ls) := by
  obtain ⟨before, comment, blanks, after, rfl, hbreak, hblanks⟩ := hidden
  have start : ∀ line, HashAt outside line
      (Dot.shown (.comment comment :: (blanks ++ .char '#' :: after))) := by
    intro line
    rw [hashAt_shown_comment, List.contains_iff_mem.2 hbreak, Bool.or_true]
    exact hashAt_shown_blanks hblanks after
  induction before generalizing fresh line text with
  | nil => exact start line
  | cons l before ih =>
      generalize hls : l :: before ++ .comment comment :: (blanks ++ .char '#' :: after) = ls at h ⊢
      cases h with
      | nil => exact nomatch hls
      | comment _ tail =>
          obtain ⟨rfl, rfl⟩ := List.cons.inj hls
          exact hashAt_shown_comment.2 (ih tail)
      | string hcontent tail =>
          obtain ⟨rfl, rfl⟩ := List.cons.inj hls
          exact (hashAt_shown_string hcontent).2 (ih tail)
      | openString => exact absurd (List.cons.inj hls).2 (by simp)
      | char hc _ tail =>
          obtain ⟨rfl, rfl⟩ := List.cons.inj hls
          exact (hashAt_shown_char hc).2 (.inr (ih tail))

/-- A `#` starts a line in what is shown exactly where a comment hides the break of its line. -/
theorem Lexed.hashAt_iff {text : List Char} {ls : List Lexeme} (h : Lexed true text ls) :
    HashAt outside true (Dot.shown ls) ↔ BreakHidden ls := by
  refine ⟨fun hash => ?_, h.hashAt_of_breakHidden⟩
  exact (h.of_hashAt hash).resolve_left fun unfounded => nomatch unfounded.1

/-! ## Stripping twice -/

/-- A `#` starts a line outside of strings. -/
def HashLine (text : List Char) : Prop :=
  ∃ front behind, text = front ++ '#' :: behind ∧ outside.after front = outside ∧ EndsFresh front

/-- A text has a `#` at the start of a line if following its lines from the start finds one. -/
theorem hashLine_iff (text : List Char) : HashLine text ↔ HashAt outside true text := by
  simp only [HashLine, HashAt, endsFresh_iff]

/-- The spaces for a byte order mark change nothing behind them. -/
theorem hashAt_shown_mark {line : Bool} {ls : List Lexeme} :
    HashAt outside line (shown (.mark :: ls)) ↔ HashAt outside line (shown ls) := by
  have hshown : shown (.mark :: ls) = [byteOrderMark].flatMap blankOut ++ shown ls := rfl
  have cleared := cleared_flatMap_blankOut [byteOrderMark]
  have hbreak : [byteOrderMark].contains '\n' = false := by decide
  rw [hshown, hashAt_append, cleared.after, lineAfter_blanked, hbreak, Bool.or_false,
    or_iff_right (cleared.not_hashAt outside line)]

/-- A byte order mark hides no line break. -/
theorem breakHidden_mark {ls : List Lexeme} : BreakHidden (.mark :: ls) ↔ BreakHidden ls := by
  refine ⟨?_, fun hidden => hidden.cons .mark⟩
  rintro ⟨before, comment, blanks, after, hls, hidden⟩
  cases before with
  | nil => exact nomatch (List.cons.inj hls).1
  | cons l before => exact ⟨before, comment, blanks, after, (List.cons.inj hls).2, hidden⟩

/-- What a source leaves without comments has a `#` at the start of a line exactly where a comment
    of the source hides a line break. -/
theorem Source.hashLine_iff {text : List Char} {ls : List Lexeme} (h : Source text ls) :
    HashLine (stripComments text) ↔ BreakHidden ls := by
  rw [Dot.hashLine_iff, ← h.shown]
  cases h with
  | mark tail => rw [hashAt_shown_mark, tail.hashAt_iff, breakHidden_mark]
  | text _ tail => exact tail.hashAt_iff

/-- What is shown of a source starts with no byte order mark. -/
theorem Source.head?_shown_ne {text : List Char} {ls : List Lexeme} (h : Source text ls) :
    (Dot.shown ls).head? ≠ some byteOrderMark := by
  cases h with
  | mark => exact fun hmark => nomatch hmark
  | text hmark tail =>
      rcases head?_shown tail with hsame | hspace
      · rwa [hsame]
      · rw [hspace]
        decide

/-- What is shown of a source stays when it is read as a source, unless a `#` starts a line in
    it. -/
theorem Source.stripComments_shown_iff {text : List Char} {ls : List Lexeme} (h : Source text ls) :
    stripComments (Dot.shown ls) = Dot.shown ls ↔ ¬ HashLine (Dot.shown ls) := by
  rw [stripComments_of_head h.head?_shown_ne, Dot.hashLine_iff]
  cases h with
  | @mark rest ls tail =>
      have cleared := cleared_flatMap_blankOut [byteOrderMark]
      have hshown : Dot.shown (.mark :: ls)
          = [byteOrderMark].flatMap blankOut ++ Dot.shown ls := rfl
      have hfresh : lineAfter true ([byteOrderMark].flatMap blankOut) = true := by
        rw [lineAfter_blanked, Bool.true_or]
      rw [hashAt_shown_mark, hshown, cleared.blankComments, List.append_cancel_left_eq, hfresh]
      exact blankComments_shown_iff tail id
  | text _ tail => exact blankComments_shown_iff tail id

/-- **When a second pass changes nothing.**  A text without its comments has no more of them, as
    long as no `#` starts a line in it.  One does exactly if the text itself has this `#`, behind a
    comment with a line break and then nothing but comments and blanks: the comment hides that a
    line starts there, until it is blanked. -/
theorem stripComments_twice_iff (text : List Char) :
    (stripComments (stripComments text) = stripComments text ↔
      ¬ HashLine (stripComments text)) ∧
    (HashLine (stripComments text) ↔ ∃ ls, Source text ls ∧ BreakHidden ls) := by
  have source := source_sourceLexemes text
  constructor
  · rw [← source.shown]
    exact source.stripComments_shown_iff
  · rw [source.hashLine_iff]
    refine ⟨fun hidden => ⟨_, source, hidden⟩, ?_⟩
    rintro ⟨ls, source', hidden⟩
    rwa [← source'.eq_sourceLexemes]

/-- The second pass takes away a `#` that the first one keeps. -/
theorem hash_line_revived :
    stripComments "a /*\n*/ # b".toList = "a   \n   # b".toList ∧
      HashLine (stripComments "a /*\n*/ # b".toList) ∧
      stripComments (stripComments "a /*\n*/ # b".toList)
        ≠ stripComments "a /*\n*/ # b".toList := by
  refine ⟨by decide +kernel, ?_, by decide +kernel⟩
  refine ⟨"a   \n   ".toList, " b".toList, by decide +kernel, by decide, ?_⟩
  refine ⟨"a   \n".toList, "   ".toList, by decide, ?_, by simp [keepsFresh]⟩
  intro c hc
  exact (Option.some.inj hc).symm

end DotLayout.Dot
