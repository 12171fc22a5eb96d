import DotLayout.Proofs.Dot.HashLines

/-! # Texts without comments

    Outside of strings a comment starts with two slashes, with a slash and a star, or with a `#` at
    the start of a line.  A text without quotes and without any of these is left as it is.

    * `blankComments_eq_self_iff` : only such a text is left as it is; by induction on the text.
    * `blankComments_eq_self_of_countP` : blanking a comment takes its first mark away, so a text
      that keeps its slashes and hashes had no comments; by induction on lexemes. -/

namespace DotLayout.Dot

open Text Text.Quoting

/-- No comment starts in a text without quotes. -/
structure Uncommented (fresh : Bool) (text : List Char) : Prop where
  slashes : ¬ ['/', '/'] <:+: text
  block : ¬ ['/', '*'] <:+: text
  hash : ¬ HashAt outside fresh text

section

variable {fresh : Bool} {c : Char} {a b rest text : List Char}

theorem readAnyComment_eq_none :
    readAnyComment fresh c rest = none ↔
      ¬ (c = '/' ∧ rest.head? = some '/') ∧ ¬ (c = '/' ∧ rest.head? = some '*') ∧
        ¬ (c = '#' ∧ fresh = true) := by
  rw [readAnyComment]
  split
  · rename_i hline
    exact iff_of_false (Option.some_ne_none _) fun h => hline.elim h.1 h.2.2
  · rename_i hline
    rw [not_or] at hline
    split
    · rename_i hblock
      exact iff_of_false (Option.some_ne_none _) fun h => h.2.1 hblock
    · rename_i hblock
      exact iff_of_true rfl ⟨hline.1, hblock, hline.2⟩

theorem mark_of_readAnyComment {cut : List Char × List Char}
    (h : readAnyComment fresh c rest = some cut) : c = '/' ∨ c = '#' := by
  by_contra hnot
  rw [not_or] at hnot
  have hnone : readAnyComment fresh c rest = none :=
    readAnyComment_eq_none.2 ⟨fun h => hnot.1 h.1, fun h => hnot.1 h.1, fun h => hnot.2 h.1⟩
  exact nomatch h.symm.trans hnone

/-- The first mark of a comment turns into a space. -/
theorem blankComments_ne_self {cut : List Char × List Char}
    (h : readAnyComment fresh c rest = some cut) :
    blankComments (.plain fresh) (c :: rest) ≠ c :: rest := by
  intro heq
  have hmark := mark_of_readAnyComment h
  obtain ⟨inner, hinner⟩ : ∃ inner, cut.1 = c :: inner := by
    obtain ⟨hcut, hne⟩ := readAnyComment_append h
    cases hcut' : cut.1 with
    | nil => exact absurd hcut' hne
    | cons d inner =>
        rw [hcut'] at hcut
        exact ⟨inner, by rw [(List.cons.inj hcut).1]⟩
  have hspace : blankOut c = [' '] := by
    rcases hmark with rfl | rfl <;> decide
  rw [blankComments_comment h, hinner, List.flatMap_cons, hspace] at heq
  rcases hmark with rfl | rfl <;> exact nomatch heq

/-- No comment starts in a text if none starts with its first character or behind it. -/
theorem uncommented_cons (hquote : c ≠ '"') :
    Uncommented fresh (c :: rest) ↔
      readAnyComment fresh c rest = none ∧ Uncommented (freshAfter fresh c) rest := by
  have hhash : HashAt outside fresh (c :: rest) ↔
      (c = '#' ∧ fresh = true) ∨ HashAt outside (freshAfter fresh c) rest := by
    rw [hashAt_cons, step_outside hquote]
    simp
  rw [readAnyComment_eq_none]
  constructor
  · rintro ⟨hslashes, hblock, hhashAt⟩
    rw [infix_pair_cons, not_or] at hslashes hblock
    rw [hhash, not_or] at hhashAt
    exact ⟨⟨hslashes.1, hblock.1, hhashAt.1⟩, hslashes.2, hblock.2, hhashAt.2⟩
  · rintro ⟨⟨hslashes, hblock, hfresh⟩, tail⟩
    refine ⟨?_, ?_, ?_⟩
    · rw [infix_pair_cons, not_or]
      exact ⟨hslashes, tail.slashes⟩
    · rw [infix_pair_cons, not_or]
      exact ⟨hblock, tail.block⟩
    · rw [hhash, not_or]
      exact ⟨hfresh, tail.hash⟩

/-- A text without quotes is left as it is if and only if no comment starts in it. -/
theorem blankComments_eq_self_iff (hquote : '"' ∉ text) (fresh : Bool) :
    blankComments (.plain fresh) text = text ↔ Uncommented fresh text := by
  induction text generalizing fresh with
  | nil =>
      rw [blankComments]
      exact iff_of_true rfl ⟨by simp, by simp, not_hashAt_nil outside fresh⟩
  | cons c rest ih =>
      rw [List.mem_cons, not_or] at hquote
      rw [uncommented_cons (Ne.symm hquote.1)]
      cases h : readAnyComment fresh c rest with
      | none =>
          rw [blankComments_other (Ne.symm hquote.1) h, List.cons_inj_right, and_iff_right rfl]
          exact ih hquote.2 _
      | some cut =>
          exact iff_of_false (blankComments_ne_self h) fun h => Option.some_ne_none _ h.1

/-- Two characters do not stand side by side in a text because of what is around it, if the first
    one does not stand there and the second one does not stand right behind the text. -/
theorem infix_pair_between {x y : Char} (ha : x ∉ a) (hb : x ∉ b) (hhead : b.head? ≠ some y) :
    [x, y] <:+: a ++ (text ++ b) ↔ [x, y] <:+: text := by
  have behind : [x, y] <:+: text ++ b ↔ [x, y] <:+: text := by
    induction text with
    | nil =>
        refine iff_of_false (fun h => hb ?_) (by simp)
        exact h.subset List.mem_cons_self
    | cons c text ih =>
        rw [List.cons_append, infix_pair_cons, infix_pair_cons, ih]
        cases text with
        | nil => simp [hhead]
        | cons d text => rfl
  induction a with
  | nil => exact behind
  | cons c a ih =>
      rw [List.mem_cons, not_or] at ha
      rw [List.cons_append, infix_pair_cons]
      exact (or_iff_right fun h => ha.1 h.1.symm).trans (ih ha.2)

end

/-! ## Marks -/

/-- A character that a comment can start with. -/
def isMark (c : Char) : Bool := c == '/' || c == '#'

theorem Comment.exists_mark {fresh : Bool} {text rest : List Char} (h : Comment fresh text rest) :
    ∃ c ∈ text, isMark c = true := by
  cases h with
  | slashes | block | openBlock => exact ⟨'/', List.mem_cons_self, rfl⟩
  | hash => exact ⟨'#', List.mem_cons_self, rfl⟩

theorem Cleared.countP_mark {text : List Char} (h : Cleared text) : text.countP isMark = 0 := by
  rw [List.countP_eq_zero]
  intro c hc
  rcases h c hc with rfl | rfl <;> decide

/-- Blanking comments adds no marks, and takes some away unless it changes nothing. -/
theorem Lexed.countP_shown {fresh : Bool} {text : List Char} {ls : List Lexeme}
    (h : Lexed fresh text ls) :
    (Dot.shown ls).countP isMark ≤ text.countP isMark ∧
      (text.countP isMark ≤ (Dot.shown ls).countP isMark → Dot.shown ls = text) := by
  -- what is shown as it is written can be left out on both sides
  have behind : ∀ (piece : List Char) {shown rest : List Char},
      (shown.countP isMark ≤ rest.countP isMark ∧
        (rest.countP isMark ≤ shown.countP isMark → shown = rest)) →
      (piece ++ shown).countP isMark ≤ (piece ++ rest).countP isMark ∧
        ((piece ++ rest).countP isMark ≤ (piece ++ shown).countP isMark →
          piece ++ shown = piece ++ rest) := by
    intro piece shown rest ⟨hle, heq⟩
    rw [List.countP_append, List.countP_append]
    exact ⟨by omega, fun hge => by rw [heq (by omega)]⟩
  induction h with
  | nil => exact ⟨Nat.le_refl _, fun _ => rfl⟩
  | @comment fresh text rest ls hcomment tail ih =>
      have hnone := (cleared_flatMap_blankOut text).countP_mark
      have hsome := List.countP_pos_iff.2 hcomment.exists_mark
      show (text.flatMap blankOut ++ Dot.shown ls).countP isMark ≤ (text ++ rest).countP isMark ∧
        ((text ++ rest).countP isMark ≤ (text.flatMap blankOut ++ Dot.shown ls).countP isMark → _)
      rw [List.countP_append, List.countP_append, hnone]
      exact ⟨by omega, fun hge => by omega⟩
  | @string fresh content rest ls _ _ ih =>
      have hsplit : '"' :: content ++ '"' :: rest = ('"' :: content ++ ['"']) ++ rest := by simp
      rw [hsplit]
      exact behind ('"' :: content ++ ['"']) ih
  | @openString fresh rest _ =>
      have hshown : Dot.shown [.openString rest] = '"' :: rest := List.append_nil _
      rw [hshown]
      exact ⟨Nat.le_refl _, fun _ => rfl⟩
  | @char fresh c rest ls _ _ _ ih => exact behind [c] ih

/-- A text that keeps its marks when comments are blanked is left as it is. -/
theorem blankComments_eq_self_of_countP {fresh : Bool} {text : List Char}
    (h : text.countP isMark ≤ (blankComments (.plain fresh) text).countP isMark) :
    blankComments (.plain fresh) text = text := by
  have lexed := lexed_lexemes fresh text
  rw [← lexed.shown] at h ⊢
  exact lexed.countP_shown.2 h

end DotLayout.Dot
