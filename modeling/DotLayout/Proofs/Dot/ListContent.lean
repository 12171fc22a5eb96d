import DotLayout.Proofs.Dot.Bytes.Entries
import DotLayout.Proofs.Dot.Rounds
import Mathlib.Data.List.Pairwise

/-! # What becomes of the content of a list

    An attribute list is read as pairs, and whatever else stands in it is reported.  Each pair keeps
    the range that it was read from, and each warning has a label.

    * `mem_pairSpans` and `mem_labelSpans` : these ranges are the places of the entries of the list.
    * `pairwise_entries` : entries stand one after the other, so no two of the ranges meet.
    * `content_sharedOut` : pairs and warnings share out all of the content but its separators. -/

namespace DotLayout.Dot

open Text

/-- The ranges that the pairs of a list are read from. -/
def pairSpans (content : Excerpt) : List Span :=
  (placedPairs (readEntries content)).map fun placed => placed.2.span

/-- What is reported about the content of a list. -/
def Bracket.contentWarnings (b : Bracket) : List Diagnostic :=
  withCode .malformedAttribute (b.findings.map Finding.diagnostic)

/-- The ranges that the labels of diagnostics are about. -/
def labelSpans (ds : List Diagnostic) : List Span := ds.flatMap fun d => d.labels.map Label.span

/-- Pairs and labels share out a content among them: nothing but separators is left over, and
    nothing is in two of them. -/
structure SharedOut (content : Excerpt) (pairs labels : List Span) : Prop where
  pairs_inOrder : pairs.Pairwise fun a b => a.stop ≤ b.start
  labels_inOrder : labels.Pairwise fun a b => a.stop ≤ b.start
  disjoint : ∀ p ∈ pairs, ∀ l ∈ labels, p.stop ≤ l.start ∨ l.stop ≤ p.start
  inside : ∀ s ∈ pairs ++ labels,
    content.start ≤ s.start ∧ s.start < s.stop ∧ s.stop ≤ content.stop
  covers : ∀ before c after, content.chars = before ++ c :: after → isSeparator c = false →
    ∃ s ∈ pairs ++ labels, s.start ≤ content.start + byteLength before ∧
      content.start + byteLength before + c.utf8Size ≤ s.stop
  /-- A label starts and ends with a character that separates nothing. -/
  ends : ∀ l ∈ labels, ∃ place : Excerpt, place.PartOf content ∧ place.span = l ∧
    (∃ c ∈ place.chars.head?, isSeparator c = false) ∧
    ∃ c ∈ place.chars.getLast?, isSeparator c = false

section

variable {b : Bracket} {content : Excerpt} {s : Span}

/-- Junk is all that is reported about the content of a list. -/
theorem contentWarnings_eq (b : Bracket) : b.contentWarnings
    = (((readEntries b.content).filterMap Entry.junk?).map Finding.malformed).map
        Finding.diagnostic := by
  have junk : ∀ places : List Excerpt,
      withCode .malformedAttribute ((places.map Finding.malformed).map Finding.diagnostic)
        = (places.map Finding.malformed).map Finding.diagnostic := by
    intro places
    refine List.filter_eq_self.2 ?_
    intro d hd
    obtain ⟨f, hf, rfl⟩ := List.mem_map.1 hd
    obtain ⟨place, -, rfl⟩ := List.mem_map.1 hf
    rfl
  rw [Bracket.contentWarnings, Bracket.findings, List.map_append, withCode, List.filter_append]
  refine Eq.trans ?_ (junk _)
  cases b.closed <;> rfl

theorem labelSpans_malformed (places : List Excerpt) :
    labelSpans ((places.map Finding.malformed).map Finding.diagnostic)
      = places.map Excerpt.span := by
  induction places with
  | nil => rfl
  | cons place places ih => exact congrArg (List.cons place.span) ih

theorem mem_pairSpans :
    s ∈ pairSpans content ↔ ∃ p place, .pair p place ∈ readEntries content ∧ place.span = s := by
  rw [pairSpans, List.mem_map]
  constructor
  · rintro ⟨⟨p, place⟩, hplaced, rfl⟩
    obtain ⟨entry, hentry, heq⟩ := List.mem_filterMap.1 hplaced
    cases entry with
    | pair p' place' =>
        obtain ⟨rfl, rfl⟩ := Prod.mk.inj (Option.some.inj heq)
        exact ⟨p', place', hentry, rfl⟩
    | junk place' => exact nomatch heq
  · rintro ⟨p, place, hentry, rfl⟩
    exact ⟨(p, place), List.mem_filterMap.2 ⟨_, hentry, rfl⟩, rfl⟩

theorem mem_labelSpans : s ∈ labelSpans b.contentWarnings ↔
    ∃ place, .junk place ∈ readEntries b.content ∧ place.span = s := by
  rw [contentWarnings_eq, labelSpans_malformed, List.mem_map]
  constructor
  · rintro ⟨place, hplace, rfl⟩
    obtain ⟨entry, hentry, heq⟩ := List.mem_filterMap.1 hplace
    cases entry with
    | pair p place' => exact nomatch heq
    | junk place' =>
        obtain rfl := Option.some.inj heq
        exact ⟨place', hentry, rfl⟩
  · rintro ⟨place, hentry, rfl⟩
    exact ⟨place, List.mem_filterMap.2 ⟨_, hentry, rfl⟩, rfl⟩

/-- An entry is a pair or is reported, and its place is a range of its kind. -/
theorem span_place_mem {entry : Entry} (h : entry ∈ readEntries b.content) :
    entry.place.span ∈ pairSpans b.content ++ labelSpans b.contentWarnings := by
  rw [List.mem_append, mem_pairSpans, mem_labelSpans]
  cases entry with
  | pair p place => exact .inl ⟨p, place, h, rfl⟩
  | junk place => exact .inr ⟨place, h, rfl⟩

theorem exists_entry (h : s ∈ pairSpans b.content ++ labelSpans b.contentWarnings) :
    ∃ entry ∈ readEntries b.content, entry.place.span = s := by
  rw [List.mem_append, mem_pairSpans, mem_labelSpans] at h
  rcases h with ⟨p, place, hentry, hspan⟩ | ⟨place, hentry, hspan⟩
  · exact ⟨_, hentry, hspan⟩
  · exact ⟨_, hentry, hspan⟩

/-- A pair is read from a key and what is assigned to it. -/
theorem exists_assigned {start : Nat} {gap text : List Char} {p : Pair} {place : Excerpt}
    (h : .pair p place ∈ entriesAfter start gap text) :
    ∃ c key behind reading, place.chars = c :: key ++ reading.written ∧
      (∀ d ∈ c :: key, isKeyChar d = true) ∧ readAssigned behind = some reading ∧
      p = ⟨String.ofList (c :: key), String.ofList reading.value⟩ := by
  have pair_of_gap : ∀ {gap}, Entry.pair p place ∉ junkIn gap := by
    intro gap hgap
    rw [junkIn] at hgap
    split at hgap <;> simp at hgap
  fun_induction entriesAfter start gap text with
  | case1 => exact absurd h pair_of_gap
  | case2 start gap c rest hc key afterKey reading hread before place' ih =>
      rcases List.mem_append.1 h with hgap | hrest
      · exact absurd hgap pair_of_gap
      rcases List.mem_cons.1 hrest with heq | hlater
      · obtain ⟨rfl, rfl⟩ := Entry.pair.inj heq
        exact ⟨c, rest.takeWhile isKeyChar, _, reading, rfl,
          List.forall_mem_cons.2 ⟨hc, fun _ => List.mem_takeWhile_imp⟩, hread, rfl⟩
      · have hplace : place' = ⟨Excerpt.stop ⟨start, gap.reverse⟩, key ++ reading.written⟩ := by
          simp [place', before]
        rw [hplace] at ih
        exact ih hlater
  | case3 _ _ _ _ _ _ _ _ ih => exact ih h
  | case4 _ _ _ _ _ ih => exact ih h

/-- Every entry is read from at least one character. -/
theorem place_ne_nil {start : Nat} {gap text : List Char} {entry : Entry}
    (h : entry ∈ entriesAfter start gap text) : entry.place.chars ≠ [] := by
  cases entry with
  | junk place => exact (ends_of_junk h).1
  | pair p place =>
      obtain ⟨c, key, behind, reading, hchars, -⟩ := exists_assigned h
      rw [Entry.place, hchars]
      exact List.cons_ne_nil _ _

/-- The entries of a list stand one after the other. -/
theorem pairwise_entries (content : Excerpt) :
    (readEntries content).Pairwise fun a b => a.place.stop ≤ b.place.start :=
  List.pairwise_map.1 (pieces_entries content).pairwise

/-- The entries of one kind stand one after the other. -/
theorem pairwise_kind {α : Type} {kind : Entry → Option α} {span : α → Span}
    (h : ∀ entry a, kind entry = some a → span a = entry.place.span) (content : Excerpt) :
    (((readEntries content).filterMap kind).map span).Pairwise fun a b => a.stop ≤ b.start := by
  refine List.pairwise_map.2 ((pairwise_entries content).filterMap kind ?_)
  intro entry other hentry a ha b hb
  rw [h entry a ha, h other b hb]
  exact hentry

/-- One of two entries ends before the other one starts. -/
def Entry.Apart (a b : Entry) : Prop :=
  a.place.stop ≤ b.place.start ∨ b.place.stop ≤ a.place.start

instance : Std.Symm Entry.Apart := ⟨fun _ _ => Or.symm⟩

/-- A pair and junk stand apart. -/
theorem disjoint_entries {p : Pair} {place junk : Excerpt}
    (hpair : .pair p place ∈ readEntries content) (hjunk : .junk junk ∈ readEntries content) :
    (Entry.pair p place).Apart (.junk junk) := by
  have apart : (readEntries content).Pairwise Entry.Apart := (pairwise_entries content).imp Or.inl
  exact apart.forall hpair hjunk nofun

end

/-- **Pairs and warnings account for all of a list.**  The ranges of the pairs of an attribute list
    and of the labels of the warnings about it lie in the list, are not empty, stand one after the
    other and never meet.  Every character of the list that is no blank, comma or semicolon is in
    one of them, and a label starts and ends with such a character.  Each warning has one label. -/
theorem content_sharedOut (b : Bracket) :
    pairsOf [b] = (placedPairs (readEntries b.content)).map Prod.fst ∧
    SharedOut b.content (pairSpans b.content) (labelSpans b.contentWarnings) ∧
    ∀ d ∈ b.contentWarnings, d.severity = .warning ∧ ∃ label, d.labels = [label] := by
  have pieces := pieces_entries b.content
  refine ⟨?_, ⟨?_, ?_, ?_, ?_, ?_, ?_⟩, ?_⟩
  · -- the pairs are the entries of that kind, in order
    rw [pairsOf, List.flatMap_singleton, placedPairs, List.map_filterMap]
    refine congrArg (List.filterMap · _) (funext fun entry => ?_)
    cases entry <;> rfl
  · -- spans of one kind stand in order
    refine pairwise_kind ?_ b.content
    intro entry placed hplaced
    cases entry with
    | pair p place =>
        obtain rfl := Option.some.inj hplaced
        rfl
    | junk place => cases hplaced
  · rw [contentWarnings_eq, labelSpans_malformed]
    refine pairwise_kind ?_ b.content
    intro entry place hplace
    cases entry with
    | pair p place => cases hplace
    | junk place =>
        obtain rfl := Option.some.inj hplace
        rfl
  · -- a pair and a label come from two entries, which are disjoint
    intro p hp l hl
    obtain ⟨pair, place, hpair, rfl⟩ := mem_pairSpans.1 hp
    obtain ⟨junk, hjunk, rfl⟩ := mem_labelSpans.1 hl
    exact disjoint_entries hpair hjunk
  · -- every span is inside the content and not empty
    intro s hs
    obtain ⟨entry, hentry, rfl⟩ := exists_entry hs
    have part := pieces.partOf _ (List.mem_map_of_mem hentry)
    have positive := byteLength_pos (place_ne_nil hentry)
    exact ⟨part.start_le, Nat.lt_add_of_pos_right positive, part.stop_le⟩
  · -- a character that is not skipped lies in some entry, whatever its kind
    intro before c after hchars hc
    rcases pieces.covers hchars with hskip | ⟨place, hplace, hstart, hstop⟩
    · exact absurd (hc.symm.trans hskip) Bool.false_ne_true
    · obtain ⟨entry, hentry, rfl⟩ := List.mem_map.1 hplace
      exact ⟨entry.place.span, span_place_mem hentry, hstart, hstop⟩
  · -- a label begins and ends with characters that are not skipped
    intro l hl
    obtain ⟨place, hplace, rfl⟩ := mem_labelSpans.1 hl
    obtain ⟨hne, hhead, hlast⟩ := ends_of_junk hplace
    refine ⟨place, pieces.partOf place (List.mem_map.2 ⟨_, hplace, rfl⟩), rfl, ?_, ?_⟩
    · exact ⟨_, List.head?_eq_some_head hne, hhead _ (List.head?_eq_some_head hne)⟩
    · exact ⟨_, List.getLast?_eq_some_getLast hne, hlast _ (List.getLast?_eq_some_getLast hne)⟩
  · intro d hd
    rw [contentWarnings_eq] at hd
    obtain ⟨f, hf, rfl⟩ := List.mem_map.1 hd
    obtain ⟨place, -, rfl⟩ := List.mem_map.1 hf
    exact ⟨rfl, _, rfl⟩

/-- A sign without a key and a word without a value in front of a pair are reported together. -/
example : let b : Bracket := ⟨⟨1, "=red, bold, label=ok".toList⟩, false, ⟨0, []⟩⟩
    (pairSpans b.content).map (fun s => (s.start, s.stop)) = [(13, 21)] ∧
      (labelSpans b.contentWarnings).map (fun s => (s.start, s.stop)) = [(1, 11)] := by
  decide +kernel

end DotLayout.Dot
