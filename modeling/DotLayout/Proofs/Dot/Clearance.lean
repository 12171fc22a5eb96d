import DotLayout.Proofs.Dot.Lists
import DotLayout.Proofs.Dot.Scanning

/-! # Places that strings and closed lists leave clear

    A text may be cut between two characters without harm if no string and no closed list reaches
    across the cut.  `Clear` says so in terms of quotes and brackets only, whatever the scanners do.

    * `readBracket_of_listContent` : the closed lists meant here are the ones that are read so.
    * `Clear.append` : behind a clear cut, the rest of the text may be looked at on its own.
    * `clear_readChunk` : so a chunk ends at a clear cut, unless the text ends with it.
    * `Clear.exposed` : a character at a clear cut stands outside of every string and closed list,
      unless it opens one. -/

namespace DotLayout.Dot

open Text Text.Quoting

/-! ## Closed lists -/

/-- What may stand between the brackets of a closed list: all strings are closed, and outside of
    them there is no bracket and no brace. -/
def ListContent (content : List Char) : Prop :=
  outside.after content = outside ∧
    ∀ a c z, content = a ++ c :: z → outside.after a = outside → endsList c = false ∧ c ≠ ']'

/-- A closed list with some content stands behind the front of a text. -/
def ClosedList (text front content : List Char) : Prop :=
  outside.after front = outside ∧ ListContent content ∧
    ∃ behind, text = front ++ '[' :: (content ++ ']' :: behind)

section

variable {text content : List Char}

/-- A character outside of quotes stands in front of a string or behind it. -/
theorem split_of_string {a z rest : List Char} {c : Char} (h : Content content)
    (hsplit : a ++ c :: z = '"' :: content ++ ['"'] ++ rest) (hout : outside.after a = outside) :
    a = [] ∧ c = '"' ∨ ∃ behind, a = '"' :: content ++ ['"'] ++ behind ∧
      rest = behind ++ c :: z ∧ outside.after behind = outside := by
  rcases split_of_append hsplit with ⟨after, hstring⟩ | ⟨behind, rfl, hrest⟩
  · left
    cases a with
    | nil => exact ⟨rfl, (List.cons.inj hstring).1.symm⟩
    | cons d a =>
        -- between the quotes no character stands outside
        obtain rfl : '"' = d := (List.cons.inj hstring).1
        have htail : content ++ ['"'] = a ++ c :: after := (List.cons.inj hstring).2
        refine absurd hout (h.after_ne_outside ?_)
        rcases split_of_append htail.symm with ⟨inner, hinner⟩ | ⟨front, rfl, hfront⟩
        · exact ⟨_, hinner.symm⟩
        · obtain rfl : front = [] := by
            cases front with
            | nil => rfl
            | cons e front => simp at hfront
          exact ⟨[], by simp⟩
  · refine .inr ⟨behind, rfl, hrest, ?_⟩
    have string : outside.after ('"' :: content ++ ['"']) = outside := h.after_quote
    rwa [after_append, string] at hout

/-- The content of a list that closes. -/
theorem listContent_readBracket (h : (readBracket text).closed = true) :
    ListContent (readBracket text).content := by
  refine ⟨after_content_readBracket h, ?_⟩
  fun_induction readBracket text with
  | case1 => exact absurd h Bool.false_ne_true
  | case2 => exact fun a c z hnil => absurd hnil (by simp)
  | case3 => exact absurd h Bool.false_ne_true
  | case4 rest content after hread _ _ ih =>
      intro a c z hsplit hout
      rcases split_of_string (content_of_readQuoted hread) hsplit.symm hout with
        ⟨-, rfl⟩ | ⟨behind, -, hbehind, hout'⟩
      · decide
      · exact ih h behind c z hbehind hout'
  | case5 => exact absurd h Bool.false_ne_true
  | case6 d rest hclose hends hquote ih =>
      intro a c z hsplit hout
      cases a with
      | nil =>
          obtain ⟨rfl, -⟩ := List.cons.inj hsplit
          exact ⟨eq_false_of_ne_true hends, hclose⟩
      | cons e a =>
          obtain ⟨rfl, htail⟩ := List.cons.inj hsplit
          rw [after_cons, step_outside hquote] at hout
          exact ih h a c z htail hout

/-- A closed list ends in one place only. -/
theorem ListContent.unique {content' behind behind' : List Char} (h : ListContent content)
    (h' : ListContent content') (hsplit : content ++ ']' :: behind = content' ++ ']' :: behind') :
    content = content' ∧ behind = behind' := by
  rcases split_of_append hsplit with ⟨rest, rfl⟩ | ⟨front, rfl, hfront⟩
  · exact absurd rfl (h'.2 content ']' rest rfl h.1).2
  · cases front with
    | nil => exact ⟨List.append_nil _, (List.cons.inj hfront).2.symm⟩
    | cons d front =>
        obtain ⟨rfl, -⟩ := List.cons.inj hfront
        exact absurd rfl (h.2 content' ']' front rfl h'.1).2

/-- The closed lists are those that `readBracket` closes. -/
theorem readBracket_of_listContent (h : ListContent content) (behind : List Char) :
    readBracket (content ++ ']' :: behind) = ⟨content, true, behind⟩ := by
  have hcloses : Closes outside (content ++ ']' :: behind) :=
    ⟨content, behind, rfl, h.1, fun a c z hsplit hout => (h.2 a c z hsplit hout).1⟩
  have hclosed := (closed_readBracket_iff _).2 hcloses
  have hlist := readBracket_append (content ++ ']' :: behind)
  rw [BracketText.closing, if_pos hclosed] at hlist
  obtain ⟨hcontent, hrest⟩ := (listContent_readBracket hclosed).unique h hlist
  generalize readBracket (content ++ ']' :: behind) = list at hclosed hcontent hrest
  cases list
  simp_all

end

/-! ## Clear cuts -/

/-- The cut behind the front of a text is clear: it stands outside of quotes, and every closed list
    starts behind it or ends in front of it. -/
def Clear (text before : List Char) : Prop :=
  outside.after before = outside ∧ ∀ front content, ClosedList text front content →
    before.length ≤ front.length ∨ front.length + content.length + 2 ≤ before.length

/-- The character behind the front of a text stands outside of quotes and of closed lists, their
    brackets included. -/
def Exposed (text before : List Char) : Prop :=
  outside.after before = outside ∧ ∀ front content, ClosedList text front content →
    before.length < front.length ∨ front.length + content.length + 2 ≤ before.length

section

variable {text done piece rest content : List Char} {c : Char}

theorem clear_nil (text : List Char) : Clear text [] := ⟨rfl, fun _ _ _ => .inl (Nat.zero_le _)⟩

/-- The closed list at the start of a text is the one that is read there. -/
theorem readBracket_of_closedList (h : ClosedList ('[' :: rest) [] content) :
    (readBracket rest).closed = true ∧ (readBracket rest).content = content := by
  obtain ⟨-, hcontent, behind, htext⟩ := h
  obtain rfl : rest = content ++ ']' :: behind := (List.cons.inj htext).2
  rw [readBracket_of_listContent hcontent]
  exact ⟨rfl, rfl⟩

/-- Behind a clear cut, whether another one is clear is seen from the rest of the text. -/
theorem Clear.append (h : Clear text done) (htext : text = done ++ rest) (h' : Clear rest piece) :
    Clear text (done ++ piece) := by
  refine ⟨by rw [after_append, h.1, h'.1], ?_⟩
  intro front content hlist
  rw [List.length_append]
  rcases h.2 front content hlist with hbehind | hends
  · obtain ⟨hopens, hcontent, behind, hsplit⟩ := hlist
    -- the list stands in the rest
    obtain ⟨a, rfl⟩ : done <+: front :=
      List.prefix_of_prefix_length_le ⟨_, htext.symm⟩ ⟨_, hsplit.symm⟩ hbehind
    rw [after_append, h.1] at hopens
    rw [htext, List.append_assoc] at hsplit
    have hrest := List.append_cancel_left hsplit
    rcases h'.2 a content ⟨hopens, hcontent, behind, hrest⟩ with hclear | hclear
    · left
      rw [List.length_append]
      exact Nat.add_le_add_left hclear _
    · right
      rw [List.length_append]
      omega
  · right
    omega

/-- A single character is passed, if it opens no string and no closed list. -/
theorem clear_char (hquote : c ≠ '"') (hlist : c = '[' → (readBracket rest).closed = false) :
    Clear (c :: rest) [c] := by
  refine ⟨step_outside hquote, ?_⟩
  intro front content h
  cases front with
  | cons d front => exact .inl (Nat.succ_le_succ (Nat.zero_le _))
  | nil =>
      obtain ⟨-, -, behind, htext⟩ := id h
      obtain ⟨rfl, -⟩ := List.cons.inj htext
      exact nomatch (hlist rfl).symm.trans (readBracket_of_closedList h).1

/-- A string is passed as a whole. -/
theorem clear_string (h : Content content) (rest : List Char) :
    Clear ('"' :: content ++ ['"'] ++ rest) ('"' :: content ++ ['"']) := by
  refine ⟨h.after_quote, ?_⟩
  rintro front inner ⟨hopens, -, behind, htext⟩
  rcases split_of_string h htext.symm hopens with ⟨-, hquote⟩ | ⟨a, rfl, -, -⟩
  · exact absurd hquote (by decide)
  · exact .inl (List.prefix_append ..).length_le

/-- A closed list is passed as a whole. -/
theorem clear_list (h : (readBracket rest).closed = true) :
    Clear ('[' :: rest) ('[' :: (readBracket rest).content ++ [']']) := by
  obtain ⟨hout, hends⟩ := listContent_readBracket h
  refine ⟨?_, ?_⟩
  · rw [List.cons_append, after_cons, step_outside (by decide), after_append, hout]
    rfl
  intro front content hlist
  simp only [List.cons_append, List.length_cons, List.length_append, List.length_nil]
  cases front with
  | nil =>
      right
      rw [(readBracket_of_closedList hlist).2, List.length_nil]
      omega
  | cons d front =>
      left
      obtain ⟨hopens, -, behind, htext⟩ := hlist
      obtain rfl : '[' = d := (List.cons.inj htext).1
      have hrest : rest = front ++ '[' :: (content ++ ']' :: behind) := (List.cons.inj htext).2
      rw [after_cons, step_outside (by decide)] at hopens
      have whole := readBracket_append rest
      rw [BracketText.closing, if_pos h] at whole
      -- another list cannot start in the content of this one, nor at its closing bracket
      rcases split_of_append (hrest.symm.trans whole.symm) with ⟨inner, hinner⟩ | ⟨a, hfront, ha⟩
      · exact absurd (hends front '[' inner hinner hopens).1 (by decide)
      · cases a with
        | nil => exact absurd (List.cons.inj ha).1 (by decide)
        | cons e a =>
            rw [hfront]
            simp only [List.length_cons, List.length_append]
            omega

/-- A chunk ends at a clear cut, unless the text ends with it. -/
theorem clear_readChunk (h : (readChunk text).2 ≠ []) : Clear text (readChunk text).1 := by
  fun_induction readChunk text with
  | case1 => exact clear_nil _
  | case2 => exact clear_nil _
  | case3 rest content after hread _ ih =>
      have whole : '"' :: rest = '"' :: content ++ ['"'] ++ after := by
        simp [eq_of_readQuoted hread]
      have string := clear_string (content_of_readQuoted hread) after
      rw [← whole] at string
      exact string.append whole (ih h)
  | case4 => exact absurd rfl h
  | case5 c rest _ _ hlist ih =>
      obtain ⟨rfl, hclosed⟩ := hlist
      have whole : '[' :: rest
          = '[' :: (readBracket rest).content ++ [']'] ++ (readBracket rest).rest := by
        have split := readBracket_append rest
        rw [BracketText.closing, if_pos hclosed] at split
        rw [List.cons_append, List.cons_append, List.append_assoc, split]
      exact (clear_list hclosed).append whole (ih h)
  | case6 c rest _ hquote hopen ih =>
      have char : Clear (c :: rest) [c] := by
        refine clear_char hquote ?_
        intro hc
        exact eq_false_of_ne_true fun hclosed => hopen ⟨hc, hclosed⟩
      exact char.append rfl (ih h)

/-- What separates chunks opens nothing, so the cuts among such characters are clear. -/
theorem clear_between (h : ∀ c ∈ piece, betweenChunks c = true) : Clear (piece ++ rest) piece := by
  induction piece with
  | nil => exact clear_nil _
  | cons c piece ih =>
      obtain ⟨hc, hpiece⟩ := List.forall_mem_cons.1 h
      have char : Clear (c :: (piece ++ rest)) [c] := by
        refine clear_char ?_ ?_
        · rintro rfl
          exact nomatch hc
        · rintro rfl
          exact nomatch hc
      exact char.append rfl (ih hpiece)

/-- A character at a clear cut is exposed, unless it is an opening bracket. -/
theorem Clear.exposed {before after : List Char} (h : Clear text before)
    (htext : text = before ++ c :: after) (hc : c ≠ '[') : Exposed text before := by
  refine ⟨h.1, ?_⟩
  intro front content hlist
  refine (h.2 front content hlist).imp_left ?_
  intro hle
  refine lt_of_le_of_ne hle ?_
  intro hlength
  obtain ⟨-, -, behind, hsplit⟩ := hlist
  rw [htext] at hsplit
  exact hc (List.cons.inj (List.append_inj hsplit hlength).2).1

end

end DotLayout.Dot
