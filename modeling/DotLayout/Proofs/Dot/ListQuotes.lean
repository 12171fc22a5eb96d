import DotLayout.Proofs.Dot.ListContent
import DotLayout.Proofs.Text.Quoting
import Mathlib.Data.List.Induction

/-! # Pairs and quoted strings

    The end of an attribute list is looked for outside of quoted strings, but a pair is looked for
    everywhere in the list.  A quoted value is read as a string, so it leads outside again; a quote
    that is skipped, or stands in a markup value, opens a string for the first search only.

    * `Quoting.atByte` follows the quotes of a text up to a byte, and `Excerpt.InString` says which
      bytes are in the string that a quote opens; `exists_inString` finds that quote.
    * `after_place` : a pair that starts outside of strings ends outside of them, unless its value
      is markup.
    * `pairs_outside_iff` : so pairs start in strings only if one starts in a string that is opened
      by a quote of the other kind. -/

namespace DotLayout

namespace Text

open Quoting

/-- Where the character stands that a byte of a text belongs to. -/
def Quoting.atByte (q : Quoting) : List Char → Nat → Quoting
  | [], _ => q
  | c :: text, i => if i < c.utf8Size then q else (q.step c).atByte text (i - c.utf8Size)

/-- Where the character at a byte of an excerpt stands, given that the excerpt starts outside of
    strings. -/
def Excerpt.quotingAt (e : Excerpt) (i : Nat) : Quoting := outside.atByte e.chars (i - e.start)

/-- The string that is opened by the quote at one byte has not ended at another one. -/
structure Excerpt.InString (e : Excerpt) (opening i : Nat) : Prop where
  opens : e.quotingAt opening = outside
  lt : opening < i
  stays : ∀ j, opening < j → j ≤ i → e.quotingAt j ≠ outside

section

variable {q : Quoting} {before after text rest : List Char} {e : Excerpt} {i : Nat}

theorem atByte_zero (q : Quoting) (text : List Char) : q.atByte text 0 = q := by
  cases text with
  | nil => rfl
  | cons c text => exact if_pos c.utf8Size_pos

theorem atByte_append (q : Quoting) (before after : List Char) (i : Nat) :
    q.atByte (before ++ after) (byteLength before + i) = (q.after before).atByte after i := by
  induction before generalizing q with
  | nil => rw [byteLength_nil, Nat.zero_add]; rfl
  | cons c before ih =>
      rw [List.cons_append, Quoting.atByte, byteLength_cons, if_neg (by omega), Nat.add_assoc,
        Nat.add_sub_cancel_left, ih]
      rfl

/-- Within a text the bytes stand behind its prefixes. -/
theorem exists_prefix_atByte (q : Quoting) (rest : List Char) (h : i ≤ byteLength text) :
    ∃ front, front <+: text ∧ q.atByte (text ++ rest) i = q.after front := by
  induction text generalizing q i with
  | nil =>
      obtain rfl := Nat.le_zero.1 h
      exact ⟨[], List.prefix_rfl, atByte_zero q rest⟩
  | cons c text ih =>
      rw [List.cons_append, Quoting.atByte]
      split
      · exact ⟨[], List.nil_prefix, rfl⟩
      · rw [byteLength_cons] at h
        obtain ⟨front, hfront, hat⟩ := ih (q.step c) (i := i - c.utf8Size) (by omega)
        exact ⟨c :: front, List.cons_prefix_cons.2 ⟨rfl, hfront⟩, hat⟩

/-- Where a character stands depends on the text before it. -/
theorem quotingAt_eq (hchars : e.chars = before ++ after) (hi : i = e.start + byteLength before) :
    e.quotingAt i = outside.after before := by
  rw [Excerpt.quotingAt, hchars, hi, Nat.add_sub_cancel_left, ← Nat.add_zero (byteLength before),
    atByte_append, atByte_zero]

/-- A text that leads into a string has a quote that opens it. -/
theorem exists_opening (h : outside.after text ≠ outside) :
    ∃ before inner, text = before ++ '"' :: inner ∧ outside.after before = outside ∧
      ∀ front, front <+: inner → inside.after front ≠ outside := by
  -- from the last character backwards: the quote is the last one that stands outside
  induction text using List.reverseRecOn with
  | nil => exact absurd rfl h
  | append_singleton text c ih =>
      by_cases hout : outside.after text = outside
      · have hc : c = '"' := by
          by_contra hc
          rw [after_append, hout, after_cons, after_nil, step_outside hc] at h
          exact h rfl
        refine ⟨text, [], by rw [hc], hout, fun front hfront => ?_⟩
        obtain rfl := List.prefix_nil.1 hfront
        exact nofun
      · obtain ⟨before, inner, rfl, hbefore, hinner⟩ := ih hout
        refine ⟨before, inner ++ [c], by simp, hbefore, fun front hfront => ?_⟩
        rcases List.prefix_concat_iff.1 hfront with rfl | hfront
        · intro hend
          refine h ?_
          rw [List.append_assoc, after_append, hbefore]
          exact hend
        · exact hinner front hfront

/-- A character that does not stand outside is in the string of some quote. -/
theorem exists_inString (hchars : e.chars = text ++ rest) (hi : i = e.start + byteLength text)
    (h : e.quotingAt i ≠ outside) :
    ∃ before inner, text = before ++ '"' :: inner ∧
      e.InString (e.start + byteLength before) i := by
  rw [quotingAt_eq hchars hi] at h
  obtain ⟨before, inner, rfl, hbefore, hinner⟩ := exists_opening h
  have hquote : byteLength (before ++ ['"']) = byteLength before + 1 := byteLength_append ..
  have hopening : e.chars = before ++ '"' :: (inner ++ rest) := by simp [hchars]
  have hinside : e.chars = before ++ ['"'] ++ (inner ++ rest) := by simp [hchars]
  have hlength :
      byteLength (before ++ '"' :: inner) = byteLength before + 1 + byteLength inner := by
    rw [← hquote, ← byteLength_append, List.append_assoc, List.singleton_append]
  refine ⟨before, inner, rfl, (quotingAt_eq hopening rfl).trans hbefore, by omega,
    fun j hlt hle => ?_⟩
  obtain ⟨d, hd⟩ := Nat.exists_eq_add_of_le (show byteLength before + 1 ≤ j - e.start by omega)
  have hbound : d ≤ byteLength inner := by omega
  obtain ⟨front, hfront, hat⟩ := exists_prefix_atByte inside rest hbound
  rw [Excerpt.quotingAt, hinside, hd, ← hquote, atByte_append, after_append, hbefore]
  exact hat.symm ▸ hinner front hfront

end

end Text

namespace Dot

open Text Text.Quoting

/-! ## What is read without its quotes -/

/-- The value of a pair is written in angle brackets. -/
def Pair.IsMarkup (p : Pair) (place : Excerpt) : Prop :=
  ∃ front, place.chars = front ++ '<' :: (p.value.toList ++ ['>'])

/-- A quote at a byte of a list does not belong to a quoted value: the byte is skipped, or it is one
    of a pair whose value is markup. -/
def Bracket.Loose (b : Bracket) (i : Nat) : Prop :=
  (∃ label ∈ labelSpans b.contentWarnings, label.start ≤ i ∧ i < label.stop) ∨
    ∃ p place, .pair p place ∈ readEntries b.content ∧ p.IsMarkup place ∧
      place.start ≤ i ∧ i < place.stop

theorem noQuote_of_all {p : Char → Bool} {text : List Char} (hp : p '"' = false)
    (h : ∀ c ∈ text, p c = true) : '"' ∉ text := by
  intro hmem
  rw [h _ hmem] at hp
  exact nomatch hp

section

variable {text : List Char} {reading : Reading}

theorem after_readBare (h : readBare text = some reading) :
    outside.after reading.written = outside := by
  rw [readBare] at h
  split at h
  · exact nomatch h
  · obtain rfl := Option.some.inj h
    exact after_of_noQuote (noQuote_of_all (p := isBareChar) (by decide)
      fun _ => List.mem_takeWhile_imp)

/-- A value leads outside again, or it is written in angle brackets. -/
theorem after_readValue (h : readValue text = some reading) :
    reading.written = '<' :: (reading.value ++ ['>']) ∨
      outside.after reading.written = outside := by
  rw [readValue.eq_def] at h
  split at h
  · obtain ⟨⟨content, after⟩, hread, rfl⟩ := Option.map_eq_some_iff.1 h
    have hcontent := content_of_readQuoted (Option.filter_eq_some_iff.1 hread).1
    exact .inr hcontent.after_quote
  · rcases Option.or_eq_some_iff.1 h with hmarkup | ⟨-, hbare⟩
    · obtain ⟨⟨content, after⟩, -, rfl⟩ := Option.map_eq_some_iff.1 hmarkup
      exact .inl rfl
    · exact .inr (after_readBare hbare)
  · exact .inr (after_readBare h)

theorem after_readAssigned (h : readAssigned text = some reading) :
    (∃ front, reading.written = front ++ '<' :: (reading.value ++ ['>'])) ∨
      outside.after reading.written = outside := by
  rw [readAssigned] at h
  split at h
  · rename_i rest _
    obtain ⟨inner, hread, rfl⟩ := Option.map_eq_some_iff.1 h
    have hblanks : ∀ t : List Char, '"' ∉ t.takeWhile isBlank := fun t =>
      noQuote_of_all (p := isBlank) (by decide) fun _ => List.mem_takeWhile_imp
    have hsign : outside.after (text.takeWhile isBlank ++ '=' :: rest.takeWhile isBlank)
        = outside := by
      refine after_of_noQuote ?_
      simp [hblanks text, hblanks rest]
    rcases after_readValue hread with hmarkup | hout
    · exact .inl ⟨_, congrArg (_ ++ ·) hmarkup⟩
    · refine .inr ?_
      show outside.after (_ ++ inner.written) = outside
      rw [after_append, hsign, hout]
  · exact nomatch h

end

/-- A pair leads outside again, unless its value is markup. -/
theorem after_place {content place : Excerpt} {p : Pair}
    (h : .pair p place ∈ readEntries content) :
    p.IsMarkup place ∨ outside.after place.chars = outside := by
  obtain ⟨c, key, text, reading, hchars, hkey, hread, rfl⟩ := exists_assigned h
  rw [Pair.IsMarkup, hchars, String.toList_ofList]
  rcases after_readAssigned hread with ⟨front, hwritten⟩ | hout
  · refine .inl ⟨c :: key ++ front, ?_⟩
    rw [hwritten, List.append_assoc]
  · right
    rw [after_append, after_of_noQuote (noQuote_of_all (by decide) hkey), hout]

section

variable {b : Bracket} {content : Excerpt} {p : Pair} {place : Excerpt}

/-- Behind a pair that starts outside of strings and is no markup, the list is outside of them. -/
theorem quotingAt_stop (hpair : .pair p place ∈ readEntries content) (hplain : ¬ p.IsMarkup place)
    (hstart : content.quotingAt place.start = outside) :
    content.quotingAt place.stop = outside := by
  obtain ⟨before, behind, hchars, hplace⟩ :=
    (pieces_entries content).partOf place (List.mem_map_of_mem hpair)
  have hplace : place.start = content.start + byteLength before := hplace
  rw [quotingAt_eq hchars hplace] at hstart
  have hsplit : content.chars = (before ++ place.chars) ++ behind := by simpa using hchars
  have hstop : place.stop = content.start + byteLength (before ++ place.chars) := by
    rw [Excerpt.stop, hplace, byteLength_append]
    omega
  rw [quotingAt_eq hsplit hstop, after_append, hstart]
  exact (after_place hpair).resolve_left hplain

/-- A pair that starts earlier than another one ends in front of it. -/
theorem stop_le_of_start_lt {p' : Pair} {place' : Excerpt}
    (hpair : .pair p place ∈ readEntries content) (hpair' : .pair p' place' ∈ readEntries content)
    (h : place.start < place'.start) : place.stop ≤ place'.start := by
  have apart : (readEntries content).Pairwise Entry.Apart :=
    (pairwise_entries content).imp Or.inl
  have hne : Entry.pair p place ≠ .pair p' place' := by
    intro heq
    obtain ⟨-, rfl⟩ := Entry.pair.inj heq
    exact Nat.lt_irrefl _ h
  have horder : place.stop ≤ place'.start ∨ place'.stop ≤ place.start :=
    apart.forall hpair hpair' hne
  have hend : place'.start ≤ place'.stop := Nat.le_add_right ..
  exact horder.resolve_right fun hbefore => by omega

/-- The first pair that starts in a string is in the string of a loose quote. -/
theorem exists_loose (hpair : .pair p place ∈ readEntries b.content)
    (hfirst : ∀ s ∈ pairSpans b.content, s.start < place.start →
      b.content.quotingAt s.start = outside)
    (hinside : b.content.quotingAt place.start ≠ outside) :
    ∃ opening, b.Loose opening ∧ b.content.InString opening place.start := by
  have pieces := pieces_entries b.content
  obtain ⟨text, behind, hchars, hstart⟩ := pieces.partOf place (List.mem_map_of_mem hpair)
  obtain ⟨before, inner, rfl, hstring⟩ := exists_inString hchars hstart hinside
  refine ⟨_, ?_, hstring⟩
  have hquote : b.content.chars = before ++ '"' :: (inner ++ (place.chars ++ behind)) := by
    simpa using hchars
  -- the quote separates nothing, so it stands in an entry
  obtain ⟨other, hother, hlow, hhigh⟩ := (pieces.covers hquote).resolve_left (by decide)
  obtain ⟨entry, hentry, rfl⟩ := List.mem_map.1 hother
  have hlt : b.content.start + byteLength before < entry.place.stop :=
    Nat.lt_of_lt_of_le (Nat.lt_add_of_pos_right '"'.utf8Size_pos) hhigh
  cases entry with
  | junk junk => exact .inl ⟨_, mem_labelSpans.2 ⟨junk, hentry, rfl⟩, hlow, hlt⟩
  | pair p' place' =>
      refine .inr ⟨p', place', hentry, ?_, hlow, hlt⟩
      -- it stands in an earlier pair, and behind a plain one its string would have ended
      by_contra hplain
      have hearlier : place'.start < place.start := Nat.lt_of_le_of_lt hlow hstring.lt
      have hout := hfirst place'.span (mem_pairSpans.2 ⟨p', place', hentry, rfl⟩) hearlier
      exact hstring.stays place'.stop hlt (stop_le_of_start_lt hentry hpair hearlier)
        (quotingAt_stop hentry hplain hout)

end

/-- **Pairs in quoted strings.**  All pairs of an attribute list start outside of the quoted strings
    in it, if and only if none starts in a string that is opened by a loose quote: one that is
    reported as malformed, or one in a markup value. -/
theorem pairs_outside_iff (b : Bracket) :
    (∀ s ∈ pairSpans b.content, b.content.quotingAt s.start = outside) ↔
      ∀ opening, b.Loose opening →
        ∀ s ∈ pairSpans b.content, ¬ b.content.InString opening s.start := by
  constructor
  · intro h opening _ s hs hstring
    exact hstring.stays s.start hstring.lt (Nat.le_refl _) (h s hs)
  · intro h s hs
    -- from pair to pair in the order of the list
    induction hn : s.start using Nat.strong_induction_on generalizing s with
    | _ n ih =>
        subst hn
        obtain ⟨p, place, hpair, rfl⟩ := mem_pairSpans.1 hs
        by_contra hinside
        obtain ⟨opening, hloose, hstring⟩ :=
          exists_loose hpair (fun s hs hlt => ih s.start hlt s hs rfl) hinside
        exact h opening hloose _ hs hstring

/-- A pair in quotes is read, and only the quotes are reported. -/
theorem pair_in_quotes :
    let b : Bracket := ⟨⟨13, "\"color=red\"".toList⟩, true, ⟨24, []⟩⟩
    pairsOf [b] = [⟨"color", "red"⟩] ∧
      ¬ ∀ s ∈ pairSpans b.content, b.content.quotingAt s.start = outside := by
  intro b
  have hspans : (pairSpans b.content).map Span.start = [14] := by decide +kernel
  refine ⟨by decide +kernel, fun h => ?_⟩
  obtain ⟨s, hs, hstart⟩ := List.mem_map.1 (hspans ▸ List.mem_singleton_self 14)
  have hout := h s hs
  rw [hstart] at hout
  exact absurd hout (by decide +kernel)

end Dot

end DotLayout
