import DotLayout.Dot.Bracket
import DotLayout.Proofs.Text.Quoting

/-! # Lists that close

    `Closes` says when an attribute list closes, in terms of quotes and brackets only.

    * `closed_readBracket_iff` : `readBracket` finds exactly the lists that close.
    * `readBracket_content` and `after_content_readBracket` : a closed list ends at the same
      bracket whatever follows it, and leaves the text outside of quotes. -/

namespace DotLayout.Dot

open Text Text.Quoting

/-- A list whose content starts with a text closes: a `]` outside of quotes stands before every
    brace and every `[` outside of quotes. -/
def Closes (q : Quoting) (text : List Char) : Prop :=
  ∃ inner behind, text = inner ++ ']' :: behind ∧ q.after inner = outside ∧
    ∀ a c z, inner = a ++ c :: z → q.after a = outside → endsList c = false

theorem not_closes_nil (q : Quoting) : ¬ Closes q [] := by
  rintro ⟨inner, behind, h, -⟩
  simp at h

/-- A list closes at its next character, or it goes on behind it and closes later. -/
theorem closes_cons {q : Quoting} {c : Char} {rest : List Char} :
    Closes q (c :: rest) ↔ (q = outside ∧ c = ']') ∨
      ((q = outside → endsList c = false) ∧ Closes (q.step c) rest) := by
  constructor
  · rintro ⟨inner, behind, htext, hout, hends⟩
    cases inner with
    | nil => exact Or.inl ⟨hout, (List.cons.inj htext).1⟩
    | cons d inner =>
        obtain ⟨rfl, hrest⟩ := List.cons.inj htext
        refine Or.inr ⟨hends [] c inner rfl, inner, behind, hrest, hout, ?_⟩
        intro a d z hinner hq
        exact hends (c :: a) d z (by rw [hinner]; rfl) hq
  · rintro (⟨rfl, rfl⟩ | ⟨hc, inner, behind, rfl, hout, hends⟩)
    · exact ⟨[], rest, rfl, rfl, fun a d z h => by simp at h⟩
    · refine ⟨c :: inner, behind, rfl, hout, ?_⟩
      intro a d z hinner hq
      cases a with
      | nil =>
          obtain ⟨rfl, -⟩ := List.cons.inj hinner
          exact hc hq
      | cons e a =>
          obtain ⟨rfl, htail⟩ := List.cons.inj hinner
          exact hends a d z htail hq

/-- A string in a list has no part in whether the list closes. -/
theorem closes_content {content : List Char} (h : Content content) (rest : List Char) :
    Closes inside (content ++ '"' :: rest) ↔ Closes outside rest := by
  induction h with
  | nil =>
      rw [List.nil_append, closes_cons]
      exact ⟨fun h => (h.resolve_left nofun).2, fun h => Or.inr ⟨nofun, h⟩⟩
  | slash c _ ih =>
      rw [List.cons_append, List.cons_append, closes_cons, closes_cons, ← ih]
      exact ⟨fun h => ((h.resolve_left nofun).2.resolve_left nofun).2,
        fun h => Or.inr ⟨nofun, Or.inr ⟨nofun, h⟩⟩⟩
  | char hquote hslash _ ih =>
      rw [List.cons_append, closes_cons, step_inside hquote hslash, ← ih]
      exact ⟨fun h => (h.resolve_left nofun).2, fun h => Or.inr ⟨nofun, h⟩⟩

/-- The list that is read at the start of a text is closed exactly if a list closes there. -/
theorem closed_readBracket_iff (text : List Char) :
    (readBracket text).closed = true ↔ Closes outside text := by
  fun_induction readBracket text with
  | case1 =>
      exact ⟨fun h => absurd h Bool.false_ne_true, fun h => absurd h (not_closes_nil _)⟩
  | case2 rest => exact ⟨fun _ => closes_cons.2 (Or.inl ⟨rfl, rfl⟩), fun _ => rfl⟩
  | case3 c rest hclose hends =>
      -- the list ends here, and not at a `]`
      refine ⟨fun h => absurd h Bool.false_ne_true, fun h => ?_⟩
      rcases closes_cons.1 h with ⟨-, hc⟩ | ⟨hc, -⟩
      · exact absurd hc hclose
      · exact absurd hends (Bool.eq_false_iff.1 (hc rfl))
  | case4 rest content after hread _ _ ih =>
      -- within the string nothing closes, so both go on behind it
      have content := content_of_readQuoted hread
      rw [closes_cons, eq_of_readQuoted hread]
      show (readBracket after).closed = true ↔ _ ∨ _ ∧ Closes inside _
      rw [closes_content content, ← ih]
      have quote : '"' ≠ ']' := by decide
      exact ⟨fun h => Or.inr ⟨fun _ => rfl, h⟩, fun h => (h.resolve_left fun h => quote h.2).2⟩
  | case5 rest hread =>
      -- closing would need the string to end
      refine ⟨fun h => absurd h Bool.false_ne_true, fun h => ?_⟩
      obtain ⟨-, inner, behind, rfl, hout, -⟩ :=
        (closes_cons.1 h).resolve_left fun h => absurd h.2 (by decide)
      exact absurd hout (readQuoted_eq_none_iff.1 hread inner (List.prefix_append ..))
  | case6 c rest hclose hends hquote ih =>
      rw [closes_cons, step_outside hquote, ← ih]
      exact ⟨fun h => Or.inr ⟨fun _ => eq_false_of_ne_true hends, h⟩,
        fun h => (h.resolve_left fun h => hclose h.2).2⟩

/-! ## Closed lists -/

/-- A string in a list is passed as a whole. -/
theorem readBracket_string {rest content after : List Char}
    (h : readQuoted rest = some (content, after)) :
    readBracket ('"' :: rest) = (readBracket after).after ('"' :: content ++ ['"']) := by
  rw [readBracket, if_neg (by decide), if_neg (by decide), if_pos rfl]
  split
  · rename_i hread
    obtain ⟨rfl, rfl⟩ := Prod.mk.inj (Option.some.inj (hread.symm.trans h))
    rfl
  · rename_i hread
    cases hread.symm.trans h

/-- A list with a string that is never closed reaches to the end and stays open. -/
theorem readBracket_openString {rest : List Char} (h : readQuoted rest = none) :
    readBracket ('"' :: rest) = ⟨'"' :: rest, false, []⟩ := by
  rw [readBracket, if_neg (by decide), if_neg (by decide), if_pos rfl]
  split
  · rename_i hread
    cases hread.symm.trans h
  · rfl

/-- A list that closes ends behind its content, whatever follows. -/
theorem readBracket_content {text : List Char} (h : (readBracket text).closed = true)
    (rest : List Char) :
    readBracket ((readBracket text).content ++ ']' :: rest)
      = ⟨(readBracket text).content, true, rest⟩ := by
  fun_induction readBracket text with
  | case1 => exact absurd h Bool.false_ne_true
  | case2 => rw [List.nil_append, readBracket, if_pos rfl]
  | case3 => exact absurd h Bool.false_ne_true
  | case4 tail content after hread _ _ ih =>
      have string := (content_of_readQuoted hread).readQuoted
        ((readBracket after).content ++ ']' :: rest)
      have list := readBracket_string string
      rw [ih h] at list
      simpa [BracketText.after] using list
  | case5 => exact absurd h Bool.false_ne_true
  | case6 c tail hclose hends hquote ih =>
      show readBracket (c :: ((readBracket tail).content ++ ']' :: rest)) = _
      rw [readBracket, if_neg hclose, if_neg hends, if_neg hquote, ih h]
      rfl

/-- Behind the content of a closed list no string is open. -/
theorem after_content_readBracket {text : List Char} (h : (readBracket text).closed = true) :
    outside.after (readBracket text).content = outside := by
  fun_induction readBracket text with
  | case1 => exact absurd h Bool.false_ne_true
  | case2 => rfl
  | case3 => exact absurd h Bool.false_ne_true
  | case4 rest content after hread _ _ ih =>
      show outside.after ('"' :: content ++ ['"'] ++ (readBracket after).content) = outside
      have string : outside.after ('"' :: content ++ ['"']) = outside :=
        (content_of_readQuoted hread).after_quote
      rw [after_append, string]
      exact ih h
  | case5 => exact absurd h Bool.false_ne_true
  | case6 c rest _ _ hquote ih =>
      show outside.after (c :: (readBracket rest).content) = outside
      rw [after_cons, step_outside hquote]
      exact ih h

end DotLayout.Dot
