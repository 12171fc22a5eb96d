import DotLayout.Proofs.Text.Pieces

/-! # Boundaries between characters

    `Boundary text p` says that no character of a text covers both sides of the byte position `p`.
    Comments turn into spaces before a text is scanned, and such a space may stand for the middle
    of a character.  A position that has something other than a space on one side is `Firm`; it
    is safe from that.

    * A part of a text is `Solid` when both of its ends are firm.  Firm positions of a solid part
      are firm in the whole (`Excerpt.Solid.firm`), so solidity carries over from part to part.
    * `Excerpt.Blanked` says how a text and its form with spaces for comments are related, and
      `boundary_of_firm` that firm positions of the second are boundaries of the first. -/

namespace DotLayout.Text

/-! ## Boundaries -/

/-- A byte position at an end of a text or between two of its characters. -/
def Boundary (text : List Char) (p : Nat) : Prop :=
  ∃ before after, text = before ++ after ∧ byteLength before = p

/-- A boundary stays one behind a further character. -/
theorem Boundary.cons {text : List Char} {p : Nat} (h : Boundary text p) (c : Char) :
    Boundary (c :: text) (c.utf8Size + p) := by
  obtain ⟨before, after, rfl, rfl⟩ := h
  exact ⟨c :: before, after, rfl, rfl⟩

theorem boundary_zero (text : List Char) : Boundary text 0 := ⟨[], text, rfl, rfl⟩

/-- No boundary is behind the end of its text. -/
theorem Boundary.le_byteLength {text : List Char} {p : Nat} (h : Boundary text p) :
    p ≤ byteLength text := by
  obtain ⟨before, after, rfl, rfl⟩ := h
  rw [byteLength_append]
  exact Nat.le_add_right ..

/-- The bytes of a string are those of its characters. -/
theorem utf8ByteSize_ofList (text : List Char) :
    (String.ofList text).utf8ByteSize = byteLength text := by
  induction text with
  | nil => rfl
  | cons c text ih =>
      rw [String.ofList_cons, String.utf8ByteSize_append, ih, String.utf8ByteSize_singleton]
      rfl

/-- The characters of a string have as many bytes as the string. -/
theorem byteLength_toList (s : String) : byteLength s.toList = s.utf8ByteSize := by
  rw [← utf8ByteSize_ofList, String.ofList_toList]

/-- Boundaries are the valid positions of a string. -/
theorem isValid_iff_boundary {s : String} {p : Nat} :
    (⟨p⟩ : String.Pos.Raw).IsValid s ↔ Boundary s.toList p := by
  rw [String.Pos.Raw.isValid_iff_exists_append]
  constructor
  · rintro ⟨before, after, rfl, hp⟩
    refine ⟨before.toList, after.toList, String.toList_append, ?_⟩
    rw [byteLength_toList]
    exact (congrArg String.Pos.Raw.byteIdx hp).symm
  · rintro ⟨before, after, hs, rfl⟩
    refine ⟨String.ofList before, String.ofList after, ?_, ?_⟩
    · rw [← String.ofList_append, ← hs, String.ofList_toList]
    · rw [String.rawEndPos, utf8ByteSize_ofList]

/-! ## Firm positions -/

namespace Excerpt

variable {e whole : Excerpt} {p : Nat}

/-- A position at an end of an excerpt, or between two characters that are not both spaces. -/
def Firm (whole : Excerpt) (p : Nat) : Prop :=
  ∃ before after, whole.chars = before ++ after ∧ p = whole.start + byteLength before ∧
    (before.getLast? ≠ some ' ' ∨ after.head? ≠ some ' ')

theorem firm_start (whole : Excerpt) : whole.Firm whole.start :=
  ⟨[], whole.chars, rfl, rfl, .inl nofun⟩

theorem firm_stop (whole : Excerpt) : whole.Firm whole.stop :=
  ⟨whole.chars, [], (List.append_nil _).symm, rfl, .inr nofun⟩

/-- A part of an excerpt whose ends are both firm. -/
structure Solid (e whole : Excerpt) : Prop where
  partOf : e.PartOf whole
  start : whole.Firm e.start
  stop : whole.Firm e.stop

theorem Solid.refl (e : Excerpt) : e.Solid e := ⟨.refl e, firm_start e, firm_stop e⟩

/-- Firm positions of a solid part are firm in the whole. -/
theorem Solid.firm (h : e.Solid whole) (hp : e.Firm p) : whole.Firm p := by
  obtain ⟨inner, outer, he, hstart, hfirm⟩ := hp
  -- at the ends of the part the neighbours are not known, but there the part is solid
  by_cases hinner : inner = []
  · rw [hstart, hinner]
    exact h.start
  by_cases houter : outer = []
  · rw [houter, List.append_nil] at he
    rw [hstart, ← he]
    exact h.stop
  obtain ⟨before, after, hwhole, hbefore⟩ := h.partOf
  refine ⟨before ++ inner, outer ++ after, ?_, ?_, ?_⟩
  · rw [hwhole, he]
    simp
  · rw [hstart, hbefore, byteLength_append, Nat.add_assoc]
  · rwa [List.getLast?_append_of_ne_nil before hinner, List.head?_append_of_ne_nil outer houter]

/-- A solid part of a solid part is solid. -/
theorem Solid.trans {a b c : Excerpt} (hab : a.Solid b) (hbc : b.Solid c) : a.Solid c :=
  ⟨hab.partOf.trans hbc.partOf, hbc.firm hab.start, hbc.firm hab.stop⟩

/-- What stands around the two ends of a part decides whether it is solid. -/
theorem solid_of_split (before after : List Char)
    (hwhole : whole.chars = before ++ (e.chars ++ after))
    (hstart : e.start = whole.start + byteLength before)
    (hfront : before.getLast? ≠ some ' ' ∨ (e.chars ++ after).head? ≠ some ' ')
    (hback : (before ++ e.chars).getLast? ≠ some ' ' ∨ after.head? ≠ some ' ') :
    e.Solid whole where
  partOf := ⟨before, after, hwhole, hstart⟩
  start := ⟨before, e.chars ++ after, hwhole, hstart, hfront⟩
  stop := by
    refine ⟨before ++ e.chars, after, ?_, ?_, hback⟩
    · rw [hwhole, List.append_assoc]
    · rw [Excerpt.stop, hstart, byteLength_append, Nat.add_assoc]

/-- A part that neither starts nor ends with a space is solid. -/
theorem solid_of_ends (h : e.PartOf whole) (hne : e.chars ≠ []) (hhead : e.chars.head? ≠ some ' ')
    (hlast : e.chars.getLast? ≠ some ' ') : e.Solid whole := by
  obtain ⟨before, after, hwhole, hstart⟩ := h
  refine solid_of_split before after hwhole hstart (.inr ?_) (.inl ?_)
  · rwa [List.head?_append_of_ne_nil _ hne]
  · rwa [List.getLast?_append_of_ne_nil _ hne]

/-- A solid part that does not start with a space stays solid when more text is put in front. -/
theorem Solid.prepend {start : Nat} {front text cs : List Char} {c : Char}
    (h : e.Solid ⟨start + byteLength front, text⟩) (hchars : e.chars = c :: cs) (hc : c ≠ ' ') :
    e.Solid ⟨start, front ++ text⟩ := by
  obtain ⟨before, after, htext, hstart⟩ := h.partOf
  obtain ⟨before', after', htext', hstop, hfirm⟩ := h.stop
  have htext : text = before ++ (e.chars ++ after) := htext
  have htext' : text = before' ++ after' := htext'
  have hstart : e.start = start + byteLength front + byteLength before := hstart
  have hstop : e.stop = start + byteLength front + byteLength before' := hstop
  refine ⟨⟨front ++ before, after, ?_, ?_⟩, ⟨front ++ before, e.chars ++ after, ?_, ?_, .inr ?_⟩,
    ⟨front ++ before', after', ?_, ?_, ?_⟩⟩
  · rw [htext, List.append_assoc]
  · rw [hstart, byteLength_append, Nat.add_assoc]
  · rw [htext, List.append_assoc]
  · rw [hstart, byteLength_append, Nat.add_assoc]
  · rw [hchars]
    simpa using hc
  · rw [htext', List.append_assoc]
  · rw [hstop, byteLength_append, Nat.add_assoc]
  · have hne : before' ≠ [] := by
      rintro rfl
      have := c.utf8Size_pos
      rw [Excerpt.stop, hchars, hstart, byteLength_cons, byteLength_nil] at hstop
      omega
    rwa [List.getLast?_append_of_ne_nil front hne]

end Excerpt

/-! ## Texts with spaces for comments -/

/-- The second text is the first one with some characters replaced by as many spaces as they have
    bytes. -/
inductive Blanked : List Char → List Char → Prop where
  | nil : Blanked [] []
  | keep {text blanked : List Char} (c : Char) (tail : Blanked text blanked) :
      Blanked (c :: text) (c :: blanked)
  | blank {text blanked : List Char} (c : Char) (tail : Blanked text blanked) :
      Blanked (c :: text) (List.replicate c.utf8Size ' ' ++ blanked)

/-- Every space is one byte. -/
theorem byteLength_spaces (n : Nat) : byteLength (List.replicate n ' ') = n := by
  induction n with
  | zero => rfl
  | succ n ih =>
      rw [List.replicate_succ, byteLength_cons, ih, Nat.add_comm]
      rfl

/-- A blanked text has as many bytes as before. -/
theorem Blanked.byteLength_eq {text blanked : List Char} (h : Blanked text blanked) :
    byteLength blanked = byteLength text := by
  induction h with
  | nil => rfl
  | keep c _ ih => rw [byteLength_cons, byteLength_cons, ih]
  | blank c _ ih => rw [byteLength_append, byteLength_spaces, byteLength_cons, ih]

/-- Any other character of a blanked text than a space was there before. -/
theorem Blanked.mem_of_ne_space {text blanked : List Char} (h : Blanked text blanked) {c : Char}
    (hc : c ≠ ' ') (hmem : c ∈ blanked) : c ∈ text := by
  induction h with
  | nil => exact hmem
  | keep d _ ih =>
      rcases List.mem_cons.1 hmem with rfl | htail
      · exact List.mem_cons_self
      · exact List.mem_cons_of_mem d (ih htail)
  | blank d _ ih =>
      rcases List.mem_append.1 hmem with hspace | htail
      · exact absurd (List.mem_replicate.1 hspace).2 hc
      · exact List.mem_cons_of_mem d (ih htail)

/-- A character that is no space stands in the same place of the text. -/
theorem Blanked.exists_of_ne_space {text blanked front behind : List Char} {c : Char}
    (h : Blanked text blanked) (hc : c ≠ ' ') (hsplit : blanked = front ++ c :: behind) :
    ∃ front' behind', text = front' ++ c :: behind' ∧ byteLength front' = byteLength front ∧
      Blanked behind' behind := by
  induction h generalizing front with
  | nil => simp at hsplit
  | @keep text blanked d tail ih =>
      cases front with
      | nil =>
          obtain ⟨rfl, rfl⟩ := List.cons.inj hsplit
          exact ⟨[], text, rfl, rfl, tail⟩
      | cons e front =>
          obtain ⟨rfl, htail⟩ := List.cons.inj hsplit
          obtain ⟨front', behind', rfl, hlength, hbehind⟩ := ih htail
          refine ⟨d :: front', behind', rfl, ?_, hbehind⟩
          rw [byteLength_cons, byteLength_cons, hlength]
  | @blank text blanked d _ ih =>
      -- the character stands behind the spaces
      rcases List.append_eq_append_iff.1 hsplit with ⟨rest, hfront, hrest⟩ | ⟨rest, hspaces, hrest⟩
      · obtain ⟨front', behind', rfl, hlength, hbehind⟩ := ih hrest
        refine ⟨d :: front', behind', rfl, ?_, hbehind⟩
        rw [hfront, byteLength_append, byteLength_spaces, byteLength_cons, hlength]
      · cases rest with
        | nil =>
            obtain ⟨front', behind', rfl, hlength, hbehind⟩ := @ih [] hrest.symm
            refine ⟨d :: front', behind', rfl, ?_, hbehind⟩
            rw [List.append_nil] at hspaces
            rw [← hspaces, byteLength_spaces, byteLength_cons, hlength]
            rfl
        | cons e rest =>
            obtain ⟨rfl, -⟩ := List.cons.inj hrest
            have hmem : c ∈ List.replicate d.utf8Size ' ' :=
              hspaces ▸ List.mem_append_right front List.mem_cons_self
            exact absurd (List.mem_replicate.1 hmem).2 hc

/-- A firm position of a text with more characters in front, past these, is firm in the text. -/
theorem Excerpt.firm_of_firm_append (front : List Char) {before after blanked : List Char}
    (hsplit : blanked = before ++ after)
    (h : (front ++ before).getLast? ≠ some ' ' ∨ after.head? ≠ some ' ') :
    Excerpt.Firm ⟨0, blanked⟩ (byteLength before) := by
  refine ⟨before, after, hsplit, (Nat.zero_add _).symm, ?_⟩
  rcases h with hlast | hhead
  · left
    intro hbefore
    rw [List.getLast?_append, hbefore] at hlast
    exact hlast rfl
  · exact .inr hhead

/-- Firm positions are boundaries of the text before its comments became spaces. -/
theorem Blanked.boundary {text blanked : List Char} (h : Blanked text blanked) {p : Nat}
    (hp : Excerpt.Firm ⟨0, blanked⟩ p) : Boundary text p := by
  induction h generalizing p with
  | nil =>
      obtain ⟨before, after, hsplit, rfl, -⟩ := hp
      have hsplit : [] = before ++ after := hsplit
      rw [(List.nil_eq_append_iff.1 hsplit).1]
      exact boundary_zero []
  | @keep text blanked c _ ih =>
      -- a character that stays: the position is before it, or behind it in the rest
      obtain ⟨before, after, hsplit, rfl, hfirm⟩ := hp
      have hsplit : c :: blanked = before ++ after := hsplit
      cases before with
      | nil => exact boundary_zero (c :: text)
      | cons d before =>
          obtain ⟨rfl, htail⟩ := List.cons.inj hsplit
          have inner := ih (Excerpt.firm_of_firm_append [c] htail hfirm)
          rw [byteLength_cons, Nat.zero_add]
          exact inner.cons c
  | @blank text blanked c _ ih =>
      obtain ⟨before, after, hsplit, rfl, hfirm⟩ := hp
      rcases List.append_eq_append_iff.1 hsplit
        with ⟨rest, hbefore, hrest⟩ | ⟨rest, hspaces, hafter⟩
      · have inner := ih (Excerpt.firm_of_firm_append _ hrest (hbefore ▸ hfirm))
        rw [hbefore, byteLength_append, byteLength_spaces, Nat.zero_add]
        exact inner.cons c
      · -- the position is among the spaces, and these surround it unless it is at their ends
        obtain ⟨hlength, hleft, hright⟩ := List.append_eq_replicate_iff.1 hspaces.symm
        have hp : byteLength before = before.length := by
          rw [hleft, byteLength_spaces, List.length_replicate]
        rw [Nat.zero_add, hp]
        rcases Nat.eq_zero_or_pos before.length with hzero | hpos
        · rw [hzero]
          exact boundary_zero (c :: text)
        rcases Nat.eq_zero_or_pos rest.length with hzero | hpos'
        · have hall : before.length = c.utf8Size + 0 := by omega
          rw [hall]
          exact (boundary_zero text).cons c
        · exfalso
          rcases hfirm with hlast | hhead
          · rw [hleft, List.getLast?_replicate, if_neg (by omega)] at hlast
            exact hlast rfl
          · rw [hafter, hright, List.head?_append, List.head?_replicate, if_neg (by omega)] at hhead
            exact hhead rfl

end DotLayout.Text
