import DotLayout.Proofs.Dot.Bytes.Comments
import DotLayout.Proofs.Dot.Labels
import DotLayout.Proofs.Text.Quoting

/-! # Cuts in a text with comments

    Most characters mean nothing where comments are read.  Where one of them is left of a text, the
    text in front of it does not depend on what stands there or behind it.

    * `cutsAt_of_blankComments` : by induction on how a text is blanked; one lemma for a blanked
      piece and one for a character that stays.
    * `exists_cut_at` says this of whole sources. -/

namespace DotLayout.Dot

open Text

/-- A cut at a character that is not in the first part of a text is a cut of the second part. -/
theorem exists_append_of_not_mem {c : Char} {a b front rest : List Char} (hc : c ∉ a)
    (h : a ++ b = front ++ c :: rest) : ∃ inner, front = a ++ inner ∧ b = inner ++ c :: rest := by
  rcases List.append_eq_append_iff.1 h with ⟨inner, hfront, hb⟩ | ⟨inner, ha, hrest⟩
  · exact ⟨inner, hfront, hb⟩
  · cases inner with
    | nil => exact ⟨[], by rw [ha]; simp, hrest.symm⟩
    | cons d inner =>
        obtain ⟨rfl, -⟩ := List.cons.inj hrest
        exact absurd (ha ▸ List.mem_append_right front List.mem_cons_self) hc

/-- A character that neither starts nor ends a comment or string, and is none of the blanks that
    leave a line fresh. -/
def Ordinary (c : Char) : Prop :=
  c ∉ ['"', '\\', '/', '*', '#', '\n', ' ', '\t', '\r', byteOrderMark]

instance (c : Char) : Decidable (Ordinary c) := inferInstanceAs (Decidable (_ ∉ _))

theorem Ordinary.ne {c d : Char} (h : Ordinary c) (hd : ¬ Ordinary d) : c ≠ d :=
  fun heq => hd (heq ▸ h)

theorem Ordinary.keepsFresh {c : Char} (h : Ordinary c) : keepsFresh c = false := by
  simp [Dot.keepsFresh, h.ne (d := ' ') (by decide), h.ne (d := '\t') (by decide),
    h.ne (d := '\r') (by decide)]

/-- An ordinary character stays when comments are blanked. -/
theorem blankComments_ordinary {c : Char} (h : Ordinary c) (fresh : Bool) (rest : List Char) :
    blankComments (.plain fresh) (c :: rest) = c :: blankComments (.plain false) rest := by
  have hread : readAnyComment fresh c rest = none := by
    simp [readAnyComment, h.ne (d := '/') (by decide), h.ne (d := '#') (by decide)]
  have hbreak : (c == '\n') = false := beq_false_of_ne (h.ne (by decide))
  rw [blankComments_other (h.ne (by decide)) hread, hbreak, h.keepsFresh, Bool.and_false,
    Bool.or_self]

/-- A text has a character in the place where its form without comments has it, and whatever
    ordinary character stands there instead, and whatever follows it, the text in front of it has
    the same form. -/
def CutsAt (c : Char) (region : Region) (text front : List Char) : Prop :=
  ∃ kept dropped after, text = kept ++ c :: dropped ∧ byteLength kept = byteLength front ∧
    ∀ d, Ordinary d → ∀ more, blankComments region (kept ++ d :: more)
      = front ++ d :: blankComments after more

section Steps

variable {c : Char} {region region' : Region} {rest front behind : List Char}

/-- A piece of a text, blanked on its own, can stand in front of a cut. -/
theorem CutsAt.prepend (piece shown : List Char) (h : CutsAt c region' rest front)
    (hlength : byteLength piece = byteLength shown)
    (hstep : ∀ kept dropped d more, rest = kept ++ c :: dropped → Ordinary d →
      blankComments region (piece ++ (kept ++ d :: more))
        = shown ++ blankComments region' (kept ++ d :: more)) :
    CutsAt c region (piece ++ rest) (shown ++ front) := by
  obtain ⟨kept, dropped, after, rfl, hkept, hmore⟩ := h
  refine ⟨piece ++ kept, dropped, after, (List.append_assoc ..).symm, ?_, fun d hd more => ?_⟩
  · rw [byteLength_append, byteLength_append, hlength, hkept]
  · rw [List.append_assoc, hstep kept dropped d more rfl hd, hmore d hd, List.append_assoc]

/-- What is blanked without the character stands in front of the cut as a whole. -/
theorem cutsAt_of_piece (piece shown : List Char)
    (h : shown ++ blankComments region' rest = front ++ c :: behind) (hshown : c ∉ shown)
    (hlength : byteLength piece = byteLength shown)
    (ih : ∀ {front}, blankComments region' rest = front ++ c :: behind →
      CutsAt c region' rest front)
    (hstep : ∀ kept dropped d more, rest = kept ++ c :: dropped → Ordinary d →
      blankComments region (piece ++ (kept ++ d :: more))
        = shown ++ blankComments region' (kept ++ d :: more)) :
    CutsAt c region (piece ++ rest) front := by
  obtain ⟨inner, rfl, hinner⟩ := exists_append_of_not_mem hshown h
  exact (ih hinner).prepend piece shown hlength hstep

/-- A character that stays stands in front of the cut, or at the cut. -/
theorem cutsAt_of_char {b : Char} (h : b :: blankComments region' rest = front ++ c :: behind)
    (ih : ∀ {front}, blankComments region' rest = front ++ c :: behind →
      CutsAt c region' rest front)
    (hcut : b = c → ∀ d, Ordinary d → ∀ more, blankComments region (d :: more)
      = d :: blankComments region' more)
    (hstep : ∀ kept dropped d more, rest = kept ++ c :: dropped → Ordinary d →
      blankComments region (b :: (kept ++ d :: more))
        = b :: blankComments region' (kept ++ d :: more)) :
    CutsAt c region (b :: rest) front := by
  cases front with
  | nil =>
      obtain ⟨rfl, -⟩ := List.cons.inj h
      exact ⟨[], rest, region', rfl, rfl, hcut rfl⟩
  | cons b front =>
      obtain ⟨rfl, htail⟩ := List.cons.inj h
      exact (ih htail).prepend [_] [_] rfl hstep

end Steps

/-- No ordinary character is left of a comment. -/
theorem not_mem_blankOut {c : Char} (hc : Ordinary c) (b : Char) : c ∉ blankOut b := by
  intro h
  rw [blankOut] at h
  refine hc ?_
  split at h
  · simp [List.mem_singleton.1 h]
  · simp [(List.mem_replicate.1 h).2]

/-- What is left of a character in a comment has as many bytes. -/
theorem byteLength_blankOut (c : Char) : byteLength [c] = byteLength (blankOut c) := by
  rw [blankOut]
  split
  · rename_i hc
    rw [hc]
  · rw [byteLength_spaces]
    rfl

/-- What is left of an ordinary character when comments are blanked is that character itself, and
    what stands in front of it does not depend on it. -/
theorem cutsAt_of_blankComments {c : Char} (hc : Ordinary c) {region : Region}
    {text front behind : List Char} (h : blankComments region text = front ++ c :: behind) :
    CutsAt c region text front := by
  -- one case for each way in which a piece is blanked; what it depends on behind the piece is one
  -- character at most, and that stands in front of the cut or is ordinary
  have spaces : c ∉ [' ', ' '] := by simp [hc.ne (d := ' ') (by decide)]
  fun_induction blankComments region text generalizing front with
  | case1 => simp at h
  | case2 b rest ih =>
      -- the character may be the one that the backslash protects
      obtain ⟨inner, rfl, hinner⟩ := exists_append_of_not_mem (a := ['\\'])
        (by simpa using hc.ne (d := '\\') (by decide)) h
      cases inner with
      | nil =>
          obtain ⟨rfl, -⟩ := List.cons.inj hinner
          exact ⟨['\\'], rest, .string, rfl, rfl, fun _ _ _ => rfl⟩
      | cons d inner =>
          obtain ⟨rfl, htail⟩ := List.cons.inj hinner
          exact (ih htail).prepend ['\\', b] ['\\', b] rfl fun _ _ _ _ _ _ => rfl
  | case3 rest ih =>
      exact cutsAt_of_piece ['"'] ['"'] h (by simpa using hc.ne (by decide)) rfl ih
        fun _ _ _ _ _ _ => rfl
  | case4 b rest hslash hquote ih =>
      refine cutsAt_of_char h ih (fun _ d hd more => ?_) fun kept dropped d more hrest _ => ?_
      · rw [blankComments]
        · exact fun _ _ hd' _ => hd.ne (by decide) hd'
        · exact hd.ne (by decide)
      · rw [blankComments]
        · rintro e tail rfl -
          cases kept <;> exact hslash _ _ rfl hrest
        · exact hquote
  | case5 rest ih =>
      exact cutsAt_of_piece ['\n'] ['\n'] h (by simpa using hc.ne (by decide)) rfl ih
        fun _ _ _ _ _ _ => rfl
  | case6 b rest hbreak ih =>
      refine cutsAt_of_piece [b] (blankOut b) h (not_mem_blankOut hc b) (byteLength_blankOut b) ih
        ?_
      intro kept dropped d more _ _
      rw [List.singleton_append, blankComments]
      exact hbreak
  | case7 fresh rest ih =>
      exact cutsAt_of_piece ['*', '/'] [' ', ' '] h spaces rfl ih fun _ _ _ _ _ _ => rfl
  | case8 fresh b rest hclose ih =>
      refine cutsAt_of_piece [b] (blankOut b) h (not_mem_blankOut hc b) (byteLength_blankOut b) ih
        ?_
      intro kept dropped d more hrest hd
      rw [List.singleton_append, blankComments]
      intro tail hb htail
      obtain ⟨inner, rfl⟩ := exists_cons_of_append (hd.ne (by decide)).symm htail
      exact hclose _ hb hrest
  | case9 fresh rest ih =>
      exact cutsAt_of_piece ['"'] ['"'] h (by simpa using hc.ne (by decide)) rfl ih
        fun _ _ _ _ _ _ => by cases fresh <;> rfl
  | case10 fresh rest ih =>
      exact cutsAt_of_piece ['/', '/'] [' ', ' '] h spaces rfl ih
        fun _ _ _ _ _ _ => by cases fresh <;> rfl
  | case11 rest ih =>
      exact cutsAt_of_piece ['#'] [' '] h (by simpa using spaces) rfl ih fun _ _ _ _ _ _ => rfl
  | case12 fresh rest ih =>
      exact cutsAt_of_piece ['/', '*'] [' ', ' '] h spaces rfl ih
        fun _ _ _ _ _ _ => by cases fresh <;> rfl
  | case13 fresh rest ih =>
      exact cutsAt_of_piece ['\n'] ['\n'] h (by simpa using hc.ne (by decide)) rfl ih
        fun _ _ _ _ _ _ => by cases fresh <;> rfl
  | case14 fresh b rest hquote hline hmark hblock hbreak ih =>
      refine cutsAt_of_char h ih (fun hb d hd more => ?_) fun kept dropped d more hrest hd => ?_
      · rw [blankComments_ordinary hd, hb, hc.keepsFresh, Bool.and_false]
      · rw [blankComments]
        · exact hquote
        · intro tail hb htail
          obtain ⟨inner, rfl⟩ := exists_cons_of_append (hd.ne (by decide)).symm htail
          exact hline _ hb hrest
        · exact hmark
        · intro tail hb htail
          obtain ⟨inner, rfl⟩ := exists_cons_of_append (hd.ne (by decide)).symm htail
          exact hblock _ hb hrest
        · exact hbreak

/-- Every ordinary character of a text without comments is one of the text, and what stands in
    front of it does not depend on it or on what stands behind it. -/
theorem exists_cut_at {c : Char} (hc : Ordinary c) {text front behind : List Char}
    (h : stripComments text = front ++ c :: behind) :
    ∃ kept dropped after, text = kept ++ c :: dropped ∧ byteLength kept = byteLength front ∧
      ∀ d, Ordinary d → ∀ more, stripComments (kept ++ d :: more)
        = front ++ d :: blankComments after more := by
  cases text with
  | nil => simp [stripComments] at h
  | cons b text =>
      by_cases hmark : b = byteOrderMark
      · -- the mark at the front is blanked by itself, and no ordinary character is in its blanks
        subst hmark
        rw [stripComments, if_pos rfl] at h
        obtain ⟨inner, rfl, hinner⟩ := exists_append_of_not_mem (not_mem_blankOut hc _) h
        obtain ⟨kept, dropped, after, rfl, hkept, hmore⟩ := cutsAt_of_blankComments hc hinner
        refine ⟨byteOrderMark :: kept, dropped, after, rfl, ?_, fun d hd more => ?_⟩
        · rw [byteLength_append, ← hkept, ← byteLength_blankOut]
          rfl
        · rw [List.cons_append, stripComments, if_pos rfl, hmore d hd, List.append_assoc]
      · rw [stripComments, if_neg hmark] at h
        obtain ⟨kept, dropped, after, htext, hkept, hmore⟩ := cutsAt_of_blankComments hc h
        refine ⟨kept, dropped, after, htext, hkept, fun d hd more => ?_⟩
        rw [← hmore d hd]
        -- the new character could come first, but it is ordinary and so no mark
        cases kept with
        | nil => rw [List.nil_append, stripComments, if_neg (hd.ne (by decide))]
        | cons e kept =>
            obtain ⟨rfl, -⟩ := List.cons.inj htext
            exact if_neg hmark

end DotLayout.Dot
