import DotLayout.Proofs.Dot.Header
import DotLayout.Proofs.Dot.Lists
import Mathlib.Data.List.Forall2

/-! # Texts that differ in dashes

    The two characters that edge operators are made of mean the same to every scanner but the one
    of tokens.  Two texts are `Alike` if they differ in nothing else; then they are cut at the same
    places, one lemma for each scanner. -/

namespace DotLayout.Dot

open Text

/-- A character that edge operators are made of. -/
def Dash (c : Char) : Prop := c = '-' ∨ c = '>'

instance (c : Char) : Decidable (Dash c) := inferInstanceAs (Decidable (_ ∨ _))

/-- Two characters that are the same, or both of them parts of edge operators. -/
def Similar (c d : Char) : Prop := c = d ∨ (Dash c ∧ Dash d)

/-- Two texts of the same length that differ in the parts of edge operators alone. -/
def Alike (a b : List Char) : Prop := List.Forall₂ Similar a b

namespace Similar

variable {c d : Char} (h : Similar c d)
include h

theorem symm : Similar d c := h.imp Eq.symm And.symm

/-- Any other character stands in both texts, or in neither. -/
theorem eq_iff {x : Char} (hx : ¬ Dash x) : c = x ↔ d = x := by
  rcases h with rfl | ⟨hc, hd⟩
  · rfl
  · exact iff_of_false (fun hcx => hx (hcx ▸ hc)) fun hdx => hx (hdx ▸ hd)

/-- A class that does not tell the two characters apart holds both or neither. -/
theorem class_eq (p : Char → Bool) (hp : p '-' = p '>') : p c = p d := by
  rcases h with rfl | ⟨rfl | rfl, rfl | rfl⟩
  · rfl
  · rfl
  · exact hp
  · exact hp.symm
  · rfl

theorem utf8Size_eq : c.utf8Size = d.utf8Size := by
  rcases h with rfl | ⟨rfl | rfl, rfl | rfl⟩ <;> rfl

end Similar

namespace Alike

variable {a b a' b' text text' : List Char}

theorem refl (text : List Char) : Alike text text := List.forall₂_same.2 fun _ _ => .inl rfl

theorem symm (h : Alike a b) : Alike b a := h.flip.imp fun _ _ hsimilar => Similar.symm hsimilar

theorem append (h : Alike a a') (h' : Alike b b') : Alike (a ++ b) (a' ++ b') :=
  List.rel_append h h'

/-- Where one text can be split, the other one can be. -/
theorem split (h : Alike (a ++ b) text) :
    ∃ a' b', text = a' ++ b' ∧ Alike a a' ∧ Alike b b' := by
  have front := List.forall₂_take a.length h
  have behind := List.forall₂_drop a.length h
  rw [List.take_left] at front
  rw [List.drop_left] at behind
  exact ⟨_, _, (List.take_append_drop a.length text).symm, front, behind⟩

/-- A text that is like one with a first character has a similar one. -/
theorem uncons {c : Char} (h : Alike (c :: a) text) :
    ∃ d a', text = d :: a' ∧ Similar c d ∧ Alike a a' := by
  obtain ⟨d, a', hsimilar, htail, rfl⟩ := List.forall₂_cons_left_iff.1 h
  exact ⟨d, a', rfl, hsimilar, htail⟩

/-- A first character that is no part of an operator is the first one of both texts. -/
theorem exists_cons {c : Char} (h : Alike (c :: a) text) (hc : ¬ Dash c) :
    ∃ a', text = c :: a' ∧ Alike a a' := by
  obtain ⟨d, a', rfl, hsimilar, htail⟩ := h.uncons
  obtain rfl := (hsimilar.eq_iff hc).1 rfl
  exact ⟨a', rfl, htail⟩

/-- Texts that are cut into pieces of the same lengths are cut at the same place. -/
theorem cut {x y : List Char} (h : Alike a a') (hcut : a' ++ x = a ++ y) : a' = a ∧ x = y :=
  List.append_inj hcut h.length_eq.symm

/-- Texts that are alike have the same number of bytes. -/
theorem byteLength_eq (h : Alike a b) : byteLength a = byteLength b := by
  induction h with
  | nil => rfl
  | cons hsimilar _ ih => rw [byteLength_cons, byteLength_cons, hsimilar.utf8Size_eq, ih]

/-- A class that does not tell the two characters apart holds all of both texts, or of neither. -/
theorem forall_class {p : Char → Bool} (hp : p '-' = p '>') (h : Alike a b)
    (ha : ∀ c ∈ a, p c = true) : ∀ c ∈ b, p c = true := by
  induction h with
  | nil => exact ha
  | cons hsimilar _ ih =>
      obtain ⟨hc, htail⟩ := List.forall_mem_cons.1 ha
      exact List.forall_mem_cons.2 ⟨hsimilar.class_eq p hp ▸ hc, ih htail⟩

/-- The longest beginnings within such a class are alike, and so is what follows them. -/
theorem span (p : Char → Bool) (hp : p '-' = p '>') (h : Alike a b) :
    Alike (a.takeWhile p) (b.takeWhile p) ∧ Alike (a.dropWhile p) (b.dropWhile p) := by
  induction h with
  | nil => exact ⟨.nil, .nil⟩
  | @cons c d _ _ hsimilar htail ih =>
      have hclass := hsimilar.class_eq p hp
      rw [List.takeWhile_cons, List.takeWhile_cons, List.dropWhile_cons, List.dropWhile_cons,
        ← hclass]
      split
      · exact ⟨.cons hsimilar ih.1, ih.2⟩
      · exact ⟨.nil, .cons hsimilar htail⟩

/-- Any other character occurs in both texts, or in neither. -/
theorem mem_iff {c : Char} (hc : ¬ Dash c) (h : Alike a b) : c ∈ a ↔ c ∈ b := by
  induction h with
  | nil => rfl
  | cons hsimilar _ ih =>
      rw [List.mem_cons, List.mem_cons, ih, eq_comm, hsimilar.eq_iff hc, eq_comm]

/-! ## Strings -/

/-- What is like the content of a string is the content of a string. -/
theorem content (h : Alike a b) (ha : Content a) : Content b := by
  induction ha generalizing b with
  | nil =>
      cases h
      exact .nil
  | slash c _ ih =>
      obtain ⟨rest, rfl, hrest⟩ := h.exists_cons (by decide)
      obtain ⟨d, inner, rfl, -, hinner⟩ := hrest.uncons
      exact .slash d (ih hinner)
  | char hquote hslash _ ih =>
      obtain ⟨d, inner, rfl, hsimilar, hinner⟩ := h.uncons
      exact .char (mt (hsimilar.eq_iff (by decide)).2 hquote)
        (mt (hsimilar.eq_iff (by decide)).2 hslash) (ih hinner)

/-- Where one text begins with a string, the other one begins with a string like it. -/
theorem readQuoted_some {content after : List Char} (h : Alike text text')
    (hread : readQuoted text = some (content, after)) :
    ∃ content' after', readQuoted text' = some (content', after') ∧ Alike content content' ∧
      Alike after after' := by
  rw [eq_of_readQuoted hread] at h
  obtain ⟨content', rest, rfl, hcontent, hrest⟩ := h.split
  obtain ⟨after', rfl, hafter⟩ := hrest.exists_cons (by decide)
  have closed := hcontent.content (content_of_readQuoted hread)
  exact ⟨content', after', closed.readQuoted after', hcontent, hafter⟩

/-- Where one text begins with no complete string, neither does the other one. -/
theorem readQuoted_none (h : Alike text text') (hread : readQuoted text = none) :
    readQuoted text' = none := by
  rw [Option.eq_none_iff_forall_ne_some]
  rintro ⟨content, after⟩ hread'
  obtain ⟨content', after', hsome, -⟩ := h.symm.readQuoted_some hread'
  exact nomatch hread.symm.trans hsome

/-- What is like a text with a protected line break has a protected line break. -/
theorem protectsBreak (h : Alike a b) (ha : ProtectsBreak a) : ProtectsBreak b := by
  obtain ⟨inner, behind, rfl, hinner⟩ := ha
  obtain ⟨inner', rest, rfl, hfront, hrest⟩ := h.split
  obtain ⟨tail, rfl, htail⟩ := hrest.exists_cons (by decide)
  obtain ⟨behind', rfl, -⟩ := htail.exists_cons (by decide)
  exact ⟨inner', behind', rfl, hfront.content hinner⟩

/-- Contents of strings that are alike both go on behind a line break, or neither does. -/
theorem continuesLine_eq (h : Alike a b) (ha : Content a) : continuesLine a = continuesLine b := by
  rw [Bool.eq_iff_iff, ha.continuesLine_iff, (h.content ha).continuesLine_iff]
  exact ⟨h.protectsBreak, h.symm.protectsBreak⟩

/-! ## Lists -/

/-- Two lists that end in the same way. -/
structure Lists (b b' : BracketText) : Prop where
  content : Alike b.content b'.content
  closed : b.closed = b'.closed
  rest : Alike b.rest b'.rest

theorem Lists.after {front front' : List Char} {b b' : BracketText} (h : Lists b b')
    (hfront : Alike front front') : Lists (b.after front) (b'.after front') :=
  ⟨hfront.append h.content, h.closed, h.rest⟩

/-- Texts that are alike begin with lists that end in the same way. -/
theorem readBracket (h : Alike text text') : Lists (readBracket text) (readBracket text') := by
  fun_induction Dot.readBracket text generalizing text' with
  | case1 =>
      cases h
      rw [Dot.readBracket]
      exact ⟨.nil, rfl, .nil⟩
  | case2 rest =>
      obtain ⟨rest', rfl, hrest⟩ := h.exists_cons (by decide)
      rw [Dot.readBracket, if_pos rfl]
      exact ⟨.nil, rfl, hrest⟩
  | case3 c rest hclose hends =>
      obtain ⟨d, rest', rfl, hsimilar, hrest⟩ := h.uncons
      have hclose' := mt (hsimilar.eq_iff (by decide)).2 hclose
      rw [hsimilar.class_eq endsList rfl] at hends
      rw [Dot.readBracket, if_neg hclose', if_pos hends]
      exact ⟨.nil, rfl, .cons hsimilar hrest⟩
  | case4 rest content after hread _ _ ih =>
      obtain ⟨rest', rfl, hrest⟩ := h.exists_cons (by decide)
      obtain ⟨content', after', hread', hcontent, hafter⟩ := hrest.readQuoted_some hread
      rw [readBracket_string hread']
      exact (ih hafter).after ((refl ['"']).append (hcontent.append (refl ['"'])))
  | case5 rest hread =>
      obtain ⟨rest', rfl, hrest⟩ := h.exists_cons (by decide)
      rw [readBracket_openString (hrest.readQuoted_none hread)]
      exact ⟨(refl ['"']).append hrest, rfl, .nil⟩
  | case6 c rest hclose hends hquote ih =>
      obtain ⟨d, rest', rfl, hsimilar, hrest⟩ := h.uncons
      have hclose' := mt (hsimilar.eq_iff (by decide)).2 hclose
      have hquote' := mt (hsimilar.eq_iff (by decide)).2 hquote
      rw [hsimilar.class_eq endsList rfl] at hends
      rw [Dot.readBracket, if_neg hclose', if_neg hends, if_neg hquote']
      exact (ih hrest).after (.cons hsimilar .nil)

/-! ## Chunks -/

/-- Texts that are alike are cut into statements at the same place. -/
theorem readChunk (h : Alike text text') :
    Alike (readChunk text).1 (readChunk text').1 ∧
      Alike (readChunk text).2 (readChunk text').2 := by
  fun_induction Dot.readChunk text generalizing text' with
  | case1 =>
      cases h
      rw [Dot.readChunk]
      exact ⟨.nil, .nil⟩
  | case2 c rest hend =>
      obtain ⟨d, rest', rfl, hsimilar, hrest⟩ := h.uncons
      rw [hsimilar.class_eq endsChunk rfl] at hend
      rw [readChunk_delimiter hend]
      exact ⟨.nil, .cons hsimilar hrest⟩
  | case3 rest content after hread _ ih =>
      obtain ⟨rest', rfl, hrest⟩ := h.exists_cons (by decide)
      obtain ⟨content', after', hread', hcontent, hafter⟩ := hrest.readQuoted_some hread
      rw [readChunk_string hread']
      obtain ⟨hchunk, hbehind⟩ := ih hafter
      exact ⟨((refl ['"']).append (hcontent.append (refl ['"']))).append hchunk, hbehind⟩
  | case4 rest hread _ =>
      obtain ⟨rest', rfl, hrest⟩ := h.exists_cons (by decide)
      rw [readChunk_openString (hrest.readQuoted_none hread)]
      exact ⟨(refl ['"']).append hrest, .nil⟩
  | case5 c rest _ _ hlist ih =>
      obtain ⟨rfl, hclosed⟩ := hlist
      obtain ⟨rest', rfl, hrest⟩ := h.exists_cons (by decide)
      have lists := hrest.readBracket
      rw [readChunk_list (lists.closed ▸ hclosed)]
      obtain ⟨hchunk, hbehind⟩ := ih lists.rest
      exact ⟨((refl ['[']).append (lists.content.append (refl [']']))).append hchunk, hbehind⟩
  | case6 c rest hend hquote hlist ih =>
      obtain ⟨d, rest', rfl, hsimilar, hrest⟩ := h.uncons
      have hquote' := mt (hsimilar.eq_iff (by decide)).2 hquote
      have hbracket := hsimilar.eq_iff (x := '[') (by decide)
      -- a bracket stands in both texts or in neither, and its list is open in both
      have step : Dot.readChunk (d :: rest') = inFront [d] (Dot.readChunk rest') := by
        by_cases hd : d = '['
        · have hopen : (Dot.readBracket rest').closed = false := by
            rw [← hrest.readBracket.closed]
            exact eq_false_of_ne_true fun hclosed => hlist ⟨hbracket.2 hd, hclosed⟩
          rw [hd, readChunk_openList hopen]
        · rw [hsimilar.class_eq endsChunk rfl] at hend
          exact readChunk_other hend hquote' hd rest'
      rw [step]
      obtain ⟨hchunk, hbehind⟩ := ih hrest
      exact ⟨.cons hsimilar hchunk, hbehind⟩

/-! ## Ports -/

/-- A port that is a complete string is passed as a whole. -/
theorem readPorts_string {rest content after : List Char}
    (h : readQuoted rest = some (content, after)) : readPorts (':' :: '"' :: rest)
      = inFront (':' :: '"' :: content ++ ['"']) (readPorts after) := by
  rw [readPorts]
  split
  · rename_i hread
    obtain ⟨rfl, rfl⟩ := Prod.mk.inj (Option.some.inj (hread.symm.trans h))
    rfl
  · rename_i hread
    cases hread.symm.trans h

/-- A port that is a string without an end is not passed. -/
theorem readPorts_openString {rest : List Char} (h : readQuoted rest = none) :
    readPorts (':' :: '"' :: rest) = ([], ':' :: '"' :: rest) := by
  rw [readPorts]
  split
  · rename_i hread
    cases hread.symm.trans h
  · rfl

/-- The ports that words are followed by end at the same place in both texts. -/
theorem readPorts (h : Alike text text') :
    Alike (readPorts text).1 (readPorts text').1 ∧
      Alike (readPorts text).2 (readPorts text').2 := by
  fun_induction Dot.readPorts text generalizing text' with
  | case1 rest content after hread ih =>
      -- The mark of a port is no dash, so it has to stand in the other text too.
      obtain ⟨tail, rfl, htail⟩ := h.exists_cons (by decide)
      obtain ⟨rest', rfl, hrest⟩ := htail.exists_cons (by decide)
      obtain ⟨content', after', hread', hcontent, hafter⟩ := hrest.readQuoted_some hread
      rw [readPorts_string hread']
      obtain ⟨hports, hbehind⟩ := ih hafter
      exact ⟨((refl [':', '"']).append (hcontent.append (refl ['"']))).append hports, hbehind⟩
  | case2 rest hread =>
      obtain ⟨tail, rfl, htail⟩ := h.exists_cons (by decide)
      obtain ⟨rest', rfl, hrest⟩ := htail.exists_cons (by decide)
      rw [readPorts_openString (hrest.readQuoted_none hread)]
      exact ⟨.nil, h⟩
  | case3 c rest hquote hc ih =>
      obtain ⟨tail, rfl, htail⟩ := h.exists_cons (by decide)
      obtain ⟨d, rest', rfl, hsimilar, hrest⟩ := htail.uncons
      -- a quote in one text is a quote in the other, so the same branch is taken
      have hquote' := mt (hsimilar.eq_iff (by decide)).2 hquote
      obtain ⟨hname, hbehind⟩ := hrest.span isIdentChar rfl
      rw [hsimilar.class_eq isIdentChar rfl] at hc
      rw [Dot.readPorts, if_pos hc]
      · obtain ⟨hports, hlast⟩ := ih hbehind
        exact ⟨(Alike.append (.cons (.inl rfl) (.cons hsimilar hname)) hports), hlast⟩
      · exact hquote'
  | case4 c rest hquote hc =>
      obtain ⟨tail, rfl, htail⟩ := h.exists_cons (by decide)
      obtain ⟨d, rest', rfl, hsimilar, hrest⟩ := htail.uncons
      have hquote' := mt (hsimilar.eq_iff (by decide)).2 hquote
      rw [hsimilar.class_eq isIdentChar rfl] at hc
      rw [Dot.readPorts, if_neg hc]
      · exact ⟨.nil, h⟩
      · exact hquote'
  | case5 text hstring hport =>
      -- a dash is no colon, so a port in the other text would be one here
      have noPort : ∀ d rest', text' ≠ ':' :: d :: rest' := by
        rintro d rest' rfl
        obtain ⟨tail, rfl, htail⟩ := h.symm.exists_cons (by decide)
        obtain ⟨c, rest, rfl, -, -⟩ := htail.uncons
        exact hport c rest rfl
      rw [Dot.readPorts]
      · exact ⟨.nil, h⟩
      · exact noPort '"'
      · exact noPort

/-! ## Headers -/

/-- Where one text does not begin with a quoted name, neither does the other one. -/
theorem readQuotedName?_none (h : Alike text text') (hnone : readQuotedName? text = none) :
    readQuotedName? text' = none := by
  rw [Option.eq_none_iff_forall_ne_some]
  rintro ⟨written, rest⟩ hread
  -- a name read from the second text is one of the first, dashes in its content apart
  obtain ⟨content, blanks, rfl, htext', hcontent, hline, hblank⟩ :=
    readQuotedName?_eq_some_iff.1 hread
  have flat : ∀ content blanks rest : List Char,
      '"' :: content ++ ['"'] ++ (blanks ++ '\x7b' :: rest)
        = '"' :: (content ++ '"' :: (blanks ++ '\x7b' :: rest)) := by simp
  rw [htext', flat] at h
  obtain ⟨opened, rfl, hopened⟩ := h.symm.exists_cons (by decide)
  obtain ⟨content', closed, rfl, hcontent', hclosed⟩ := hopened.split
  obtain ⟨behind, rfl, hbehind⟩ := hclosed.exists_cons (by decide)
  obtain ⟨blanks', brace, rfl, hblanks, hbrace⟩ := hbehind.split
  obtain ⟨rest', rfl, -⟩ := hbrace.exists_cons (by decide)
  have named : readQuotedName? ('"' :: content' ++ ['"'] ++ (blanks' ++ '\x7b' :: rest'))
      = some ('"' :: content' ++ ['"'], rest') := by
    refine readQuotedName?_eq_some_iff.2 ⟨content', blanks', rfl, rfl, hcontent'.content hcontent,
      ?_, hblanks.forall_class rfl hblank⟩
    rw [← hcontent'.continuesLine_eq hcontent, hline]
  rw [flat] at named
  exact nomatch hnone.symm.trans named

/-- Bodies that are alike end at the same brace. -/
theorem body (text : List Char) :
    ∃ after, text = (beforeLastBrace? text).getD text ++ after ∧
      ∀ {inside}, Alike ((beforeLastBrace? text).getD text) inside →
        (beforeLastBrace? (inside ++ after)).getD (inside ++ after) = inside ∧
          (beforeLastBrace? (inside ++ after)).isSome = (beforeLastBrace? text).isSome := by
  cases hbrace : beforeLastBrace? text with
  | none =>
      refine ⟨[], (List.append_nil text).symm, fun {inside} halike => ?_⟩
      have hinside := mt (halike.mem_iff (by decide)).2 (beforeLastBrace?_eq_none_iff.1 hbrace)
      rw [List.append_nil, beforeLastBrace?_eq_none_iff.2 hinside]
      exact ⟨rfl, rfl⟩
  | some inside =>
      obtain ⟨behind, rfl, hbehind⟩ := split_of_beforeLastBrace? hbrace
      refine ⟨'\x7d' :: behind, rfl, fun {inside'} _ => ?_⟩
      rw [beforeLastBrace?_append inside' hbehind]
      exact ⟨rfl, rfl⟩

end Alike

end DotLayout.Dot
