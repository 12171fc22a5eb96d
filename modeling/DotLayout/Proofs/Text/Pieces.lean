import DotLayout.Text.Excerpt
import Mathlib.Data.List.Basic

/-! # Pieces of a text

    `Pieces skip start text es` says that the excerpts `es` are what a text that starts at a
    position consists of, one after the other, once the characters that satisfy `skip` are left
    out between them.

    * `Excerpt.PartOf` says that an excerpt stands in another one at its own position; each piece
      is a part of the whole (`Pieces.partOf`).
    * Pieces never overlap (`Pieces.pairwise`), nor do pieces of pieces (`pairwise_flatMap`).
    * A character that is not skipped stands in one of the pieces (`Pieces.covers`). -/

namespace DotLayout.Text

variable {skip : Char → Bool} {start : Nat} {text : List Char} {e : Excerpt} {es : List Excerpt}

/-- A text that is not empty has bytes. -/
theorem byteLength_pos {text : List Char} (h : text ≠ []) : 0 < byteLength text := by
  cases text with
  | nil => exact absurd rfl h
  | cons c text =>
      have := c.utf8Size_pos
      rw [byteLength_cons]
      omega

/-- An excerpt stands inside another one, at its own position. -/
def Excerpt.PartOf (e whole : Excerpt) : Prop :=
  ∃ before after, whole.chars = before ++ (e.chars ++ after) ∧
    e.start = whole.start + byteLength before

theorem Excerpt.PartOf.refl (e : Excerpt) : e.PartOf e :=
  ⟨[], [], by simp, rfl⟩

/-- A part of a part is a part. -/
theorem Excerpt.PartOf.trans {a b c : Excerpt} (hab : a.PartOf b) (hbc : b.PartOf c) :
    a.PartOf c := by
  obtain ⟨before, after, hb, ha⟩ := hab
  obtain ⟨before', after', hc, hb'⟩ := hbc
  refine ⟨before' ++ before, after ++ after', ?_, ?_⟩
  · rw [hc, hb]
    simp
  · rw [ha, hb', byteLength_append]
    omega

/-- A part does not begin in front of the whole. -/
theorem Excerpt.PartOf.start_le (h : e.PartOf ⟨start, text⟩) : start ≤ e.start := by
  obtain ⟨before, after, -, he⟩ := h
  have he : e.start = start + byteLength before := he
  omega

/-- A part does not end behind the whole. -/
theorem Excerpt.PartOf.stop_le (h : e.PartOf ⟨start, text⟩) :
    e.stop ≤ start + byteLength text := by
  obtain ⟨before, after, ht, he⟩ := h
  have ht : text = before ++ (e.chars ++ after) := ht
  have he : e.start = start + byteLength before := he
  rw [Excerpt.stop, ht, byteLength_append, byteLength_append]
  omega

/-- The pieces that a text consists of, with nothing but skipped characters around them. -/
def Pieces (skip : Char → Bool) : Nat → List Char → List Excerpt → Prop
  | _, text, [] => ∀ c ∈ text, skip c = true
  | start, text, e :: es =>
    ∃ gap rest, text = gap ++ (e.chars ++ rest) ∧ (∀ c ∈ gap, skip c = true) ∧
      e.start = start + byteLength gap ∧ Pieces skip e.stop rest es

/-- A text may have more skipped characters in front. -/
theorem Pieces.skip_append {gap : List Char} (hgap : ∀ c ∈ gap, skip c = true)
    (h : Pieces skip (start + byteLength gap) text es) : Pieces skip start (gap ++ text) es := by
  cases es with
  | nil =>
      intro c hc
      rcases List.mem_append.1 hc with hc | hc
      · exact hgap c hc
      · exact h c hc
  | cons e es =>
      obtain ⟨inner, rest, rfl, hinner, hstart, hrest⟩ := h
      refine ⟨gap ++ inner, rest, by simp, ?_, ?_, hrest⟩
      · intro c hc
        rcases List.mem_append.1 hc with hc | hc
        · exact hgap c hc
        · exact hinner c hc
      · rw [hstart, byteLength_append]
        omega

/-- A character that is skipped can stand in front of pieces. -/
theorem Pieces.skip_cons {c : Char} (hc : skip c = true)
    (h : Pieces skip (start + c.utf8Size) text es) : Pieces skip start (c :: text) es := by
  have gap : ∀ c' ∈ [c], skip c' = true := by simpa using hc
  exact Pieces.skip_append gap (by simpa using h)

theorem Pieces.cons (h : Pieces skip e.stop text es) :
    Pieces skip e.start (e.chars ++ text) (e :: es) :=
  ⟨[], text, rfl, by simp, by simp, h⟩

/-- Pieces of two texts are pieces of both of them together. -/
theorem Pieces.append {text' : List Char} {es' : List Excerpt} (h : Pieces skip start text es)
    (h' : Pieces skip (start + byteLength text) text' es') :
    Pieces skip start (text ++ text') (es ++ es') := by
  induction es generalizing start text with
  | nil => exact Pieces.skip_append h h'
  | cons e es ih =>
      obtain ⟨gap, rest, rfl, hgap, hstart, hrest⟩ := h
      refine ⟨gap, rest ++ text', by simp, hgap, hstart, ih hrest ?_⟩
      have hstop : e.stop + byteLength rest
          = start + byteLength (gap ++ (e.chars ++ rest)) := by
        rw [Excerpt.stop, hstart, byteLength_append, byteLength_append]
        omega
      rwa [hstop]

/-- Every piece is a part of the whole. -/
theorem Pieces.partOf (h : Pieces skip start text es) : ∀ e ∈ es, e.PartOf ⟨start, text⟩ := by
  induction es generalizing start text with
  | nil => simp
  | cons head es ih =>
      obtain ⟨gap, rest, rfl, -, hstart, hrest⟩ := h
      have tail : Excerpt.PartOf ⟨head.stop, rest⟩ ⟨start, gap ++ (head.chars ++ rest)⟩ := by
        refine ⟨gap ++ head.chars, [], by simp, ?_⟩
        rw [byteLength_append, ← Nat.add_assoc, ← hstart]
        rfl
      intro e he
      rcases List.mem_cons.1 he with rfl | he
      · exact ⟨gap, rest, rfl, hstart⟩
      · exact (ih hrest e he).trans tail

/-- Pieces stand one after the other. -/
theorem Pieces.pairwise (h : Pieces skip start text es) :
    es.Pairwise fun a b => a.stop ≤ b.start := by
  induction es generalizing start text with
  | nil => exact List.Pairwise.nil
  | cons head es ih =>
      obtain ⟨gap, rest, -, -, -, hrest⟩ := h
      exact List.pairwise_cons.2 ⟨fun b hb => (hrest.partOf b hb).start_le, ih hrest⟩

/-- A character of two texts in a row stands in the first one or in the second one. -/
theorem split_of_append {before after a b : List Char} {c : Char}
    (h : before ++ c :: after = a ++ b) :
    (∃ rest, a = before ++ c :: rest) ∨ ∃ front, before = a ++ front ∧ b = front ++ c :: after := by
  rcases List.append_eq_append_iff.1 h with ⟨front, rfl, hb⟩ | ⟨front, rfl, hb⟩
  · cases front with
    | nil => exact .inr ⟨[], by simp, hb.symm⟩
    | cons d rest =>
        obtain ⟨rfl, -⟩ := List.cons.inj hb
        exact .inl ⟨rest, rfl⟩
  · exact .inr ⟨front, rfl, hb⟩

/-- A character is skipped or stands in a piece. -/
theorem Pieces.covers {before after : List Char} {c : Char} (h : Pieces skip start text es)
    (htext : text = before ++ c :: after) :
    skip c = true ∨ ∃ e ∈ es, e.start ≤ start + byteLength before ∧
      start + byteLength before + c.utf8Size ≤ e.stop := by
  induction es generalizing start text before with
  | nil => exact .inl (h c (by simp [htext]))
  | cons e es ih =>
      obtain ⟨gap, rest, hsplit, hgap, hstart, hrest⟩ := h
      rw [htext] at hsplit
      -- the character is in the gap, in the piece, or behind both
      rcases split_of_append hsplit with ⟨inner, rfl⟩ | ⟨front, rfl, hfront⟩
      · exact .inl (hgap c (by simp))
      rcases split_of_append hfront.symm with ⟨inner, hchars⟩ | ⟨behind, rfl, hbehind⟩
      · refine .inr ⟨e, List.mem_cons_self, ?_, ?_⟩
        · rw [hstart, byteLength_append]
          omega
        · rw [Excerpt.stop, hstart, hchars]
          simp only [byteLength_append, byteLength_cons]
          omega
      · have place : start + byteLength (gap ++ (e.chars ++ behind))
            = e.stop + byteLength behind := by
          rw [Excerpt.stop, hstart, byteLength_append, byteLength_append]
          omega
        rw [place]
        refine (ih hrest hbehind).imp_right ?_
        rintro ⟨other, hother, hplace⟩
        exact ⟨other, List.mem_cons_of_mem e hother, hplace⟩

/-- Parts of excerpts that stand one after the other do so as well. -/
theorem pairwise_flatMap {f : Excerpt → List Excerpt} (h : es.Pairwise fun a b => a.stop ≤ b.start)
    (hparts : ∀ whole ∈ es, ∀ e ∈ f whole, e.PartOf whole)
    (hpairs : ∀ whole ∈ es, (f whole).Pairwise fun a b => a.stop ≤ b.start) :
    (es.flatMap f).Pairwise fun a b => a.stop ≤ b.start := by
  rw [List.pairwise_flatMap]
  refine ⟨hpairs, h.imp_of_mem ?_⟩
  intro a b ha hb hab x hx y hy
  have hxa : x.stop ≤ a.stop := (hparts a ha x hx).stop_le
  have hby : b.start ≤ y.start := (hparts b hb y hy).start_le
  omega

end DotLayout.Text
