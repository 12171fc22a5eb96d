import DotLayout.Text.Quoted
import Mathlib.Data.List.Basic

/-! # Inside and outside of quotes

    `Quoting.after` follows the quotes of a text character by character and knows nothing of the
    scanners: a quote opens or closes a string, and inside a string a backslash protects the next
    character.

    * `Content` : what may stand between two quotes; the quote behind it leads outside
      (`Content.after_quote`), and a string ends there whatever follows (`Content.readQuoted`).
    * `readQuoted_eq_none_iff` : a string is never closed if nothing leads outside.
    * `Content.continuesLine_iff` : which strings hold a protected line break.
    * `unescape_slash` : what a string stands for can be said of its parts in front of a backslash
      and behind it; `Content.getLast?_eq_quote` is where that is needed. -/

namespace DotLayout.Text

/-- Where a character of a text stands. -/
inductive Quoting where
  | outside
  | inside
  /-- Inside a string, right after a backslash. -/
  | escaped
  deriving Repr, DecidableEq

namespace Quoting

/-- What one character does: a quote opens or closes a string, and a backslash in a string protects
    the next character. -/
def step : Quoting → Char → Quoting
  | outside, c => if c = '"' then inside else outside
  | inside, c => if c = '"' then outside else if c = '\\' then escaped else inside
  | escaped, _ => inside

/-- Where the character behind a text stands. -/
def after (q : Quoting) (text : List Char) : Quoting := text.foldl step q

@[simp] theorem after_nil (q : Quoting) : q.after [] = q := rfl

@[simp] theorem after_cons (q : Quoting) (c : Char) (text : List Char) :
    q.after (c :: text) = (q.step c).after text := rfl

@[simp] theorem after_append (q : Quoting) (a b : List Char) :
    q.after (a ++ b) = (q.after a).after b :=
  List.foldl_append

/-- Outside of strings only a quote changes anything. -/
theorem step_outside {c : Char} (h : c ≠ '"') : outside.step c = outside := if_neg h

/-- In a string any other character than a quote or a backslash changes nothing. -/
theorem step_inside {c : Char} (hquote : c ≠ '"') (hslash : c ≠ '\\') :
    inside.step c = inside := by
  rw [step, if_neg hquote, if_neg hslash]

/-- A text without quotes does not lead into a string. -/
theorem after_of_noQuote {text : List Char} (h : '"' ∉ text) : outside.after text = outside := by
  induction text with
  | nil => rfl
  | cons c text ih =>
      rw [List.mem_cons, not_or] at h
      rw [after_cons, step_outside (Ne.symm h.1)]
      exact ih h.2

end Quoting

open Quoting

/-! ## Closed strings -/

/-- What may stand between the quotes of a string. -/
inductive Content : List Char → Prop where
  | nil : Content []
  | slash (c : Char) {inner : List Char} (tail : Content inner) : Content ('\\' :: c :: inner)
  | char {c : Char} {inner : List Char} (hquote : c ≠ '"') (hslash : c ≠ '\\')
      (tail : Content inner) : Content (c :: inner)

/-- The quote behind the content of a string leads outside. -/
theorem Content.after_quote {content : List Char} (h : Content content) :
    inside.after (content ++ ['"']) = outside := by
  induction h with
  | nil => rfl
  | slash _ _ ih => exact ih
  | char hquote hslash _ ih =>
      rw [List.cons_append, after_cons, step_inside hquote hslash]
      exact ih

/-- A string ends behind its content, whatever follows. -/
theorem Content.readQuoted {content : List Char} (h : Content content) (rest : List Char) :
    readQuoted (content ++ '"' :: rest) = some (content, rest) := by
  induction h with
  | nil => rfl
  | @slash c inner _ ih =>
      show (Text.readQuoted (inner ++ '"' :: rest)).map (inFront ['\\', c]) = _
      rw [ih]
      rfl
  | @char c inner _ hslash _ ih =>
      have step : Text.readQuoted (c :: (inner ++ '"' :: rest))
          = (Text.readQuoted (inner ++ '"' :: rest)).map (inFront [c]) := by
        simp [Text.readQuoted, hslash]
      rw [List.cons_append, step, ih]
      rfl

variable {text content rest : List Char}

/-- A character that takes no other one with it is no backslash. -/
theorem ne_slash_of_last {c : Char} (hlast : c = '\\' → rest = [] → False)
    (hmore : ∀ d tail, c = '\\' → rest = d :: tail → False) : c ≠ '\\' := by
  intro h
  cases rest with
  | nil => exact hlast h rfl
  | cons d tail => exact hmore d tail h rfl

/-- What is read up to the end of a string is the content of a string. -/
theorem content_of_readQuoted (h : readQuoted text = some (content, rest)) : Content content := by
  fun_induction readQuoted text generalizing content with
  | case1 => cases h
  | case2 =>
      obtain ⟨rfl, -⟩ := Prod.mk.inj (Option.some.inj h)
      exact .nil
  | case3 => cases h
  | case4 c tail ih =>
      obtain ⟨⟨inner, behind⟩, hread, hcut⟩ := Option.map_eq_some_iff.1 h
      obtain ⟨rfl, rfl⟩ := Prod.mk.inj hcut
      exact .slash c (ih hread)
  | case5 c tail hquote hlast hmore ih =>
      obtain ⟨⟨inner, behind⟩, hread, hcut⟩ := Option.map_eq_some_iff.1 h
      obtain ⟨rfl, rfl⟩ := Prod.mk.inj hcut
      exact .char hquote (ne_slash_of_last hlast hmore) (ih hread)

/-! ## Strings that are never closed -/

/-- A string is never closed if no quote in the rest of the text leads outside. -/
theorem readQuoted_eq_none_iff :
    readQuoted text = none ↔ ∀ inner, inner <+: text → inside.after inner ≠ outside := by
  constructor
  · intro h inner hinner
    fun_induction readQuoted text generalizing inner with
    | case1 =>
        obtain rfl := List.prefix_nil.1 hinner
        decide
    | case2 => cases h
    | case3 =>
        rcases List.prefix_cons_iff.1 hinner with rfl | ⟨tail, rfl, htail⟩
        · decide
        · obtain rfl := List.prefix_nil.1 htail
          decide
    | case4 c text ih =>
        rcases List.prefix_cons_iff.1 hinner with rfl | ⟨tail, rfl, htail⟩
        · decide
        rcases List.prefix_cons_iff.1 htail with rfl | ⟨behind, rfl, hbehind⟩
        · decide
        · exact ih (Option.map_eq_none_iff.1 h) behind hbehind
    | case5 c text hquote hlast hmore ih =>
        rcases List.prefix_cons_iff.1 hinner with rfl | ⟨tail, rfl, htail⟩
        · decide
        · rw [after_cons, step_inside hquote (ne_slash_of_last hlast hmore)]
          exact ih (Option.map_eq_none_iff.1 h) tail htail
  · intro h
    rw [Option.eq_none_iff_forall_ne_some]
    rintro ⟨content, rest⟩ hread
    refine h (content ++ ['"']) ⟨rest, ?_⟩ (content_of_readQuoted hread).after_quote
    rw [eq_of_readQuoted hread, List.append_assoc]
    rfl

/-- Within its content a string is not closed. -/
theorem Content.after_ne_outside (h : Content content) {inner : List Char}
    (hinner : inner <+: content) : inside.after inner ≠ outside := by
  induction h generalizing inner with
  | nil =>
      obtain rfl := List.prefix_nil.1 hinner
      decide
  | slash c _ ih =>
      rcases List.prefix_cons_iff.1 hinner with rfl | ⟨tail, rfl, htail⟩
      · decide
      rcases List.prefix_cons_iff.1 htail with rfl | ⟨behind, rfl, hbehind⟩
      · decide
      · show inside.after behind ≠ outside
        exact ih hbehind
  | char hquote hslash _ ih =>
      rcases List.prefix_cons_iff.1 hinner with rfl | ⟨tail, rfl, htail⟩
      · decide
      · rw [after_cons, step_inside hquote hslash]
        exact ih htail

/-! ## Protected line breaks -/

/-- A backslash protects a line break somewhere in the content of a string. -/
def ProtectsBreak (content : List Char) : Prop :=
  ∃ inner behind, content = inner ++ '\\' :: '\n' :: behind ∧ Content inner

/-- A protected character that is no line break protects no line break. -/
theorem protectsBreak_slash {c : Char} (hc : c ≠ '\n') {inner : List Char} :
    ProtectsBreak ('\\' :: c :: inner) ↔ ProtectsBreak inner := by
  constructor
  · rintro ⟨before, behind, hcontent, hbefore⟩
    cases hbefore with
    | nil => exact absurd (List.cons.inj (List.cons.inj hcontent).2).1 hc
    | @slash d before tail =>
        obtain ⟨-, hrest⟩ := List.cons.inj (List.cons.inj hcontent).2
        exact ⟨before, behind, hrest, tail⟩
    | char _ hslash _ => exact absurd (List.cons.inj hcontent).1.symm hslash
  · rintro ⟨before, behind, rfl, hbefore⟩
    exact ⟨'\\' :: c :: before, behind, rfl, .slash c hbefore⟩

/-- A character that is no backslash protects no line break. -/
theorem protectsBreak_char {c : Char} (hquote : c ≠ '"') (hslash : c ≠ '\\')
    {inner : List Char} : ProtectsBreak (c :: inner) ↔ ProtectsBreak inner := by
  constructor
  · rintro ⟨before, behind, hcontent, hbefore⟩
    cases hbefore with
    | nil => exact absurd (List.cons.inj hcontent).1 hslash
    | slash => exact absurd (List.cons.inj hcontent).1 hslash
    | @char d before _ _ tail => exact ⟨before, behind, (List.cons.inj hcontent).2, tail⟩
  · rintro ⟨before, behind, rfl, hbefore⟩
    exact ⟨c :: before, behind, rfl, .char hquote hslash hbefore⟩

/-- A string goes on behind a line break exactly if its content protects one. -/
theorem Content.continuesLine_iff (h : Content content) :
    continuesLine content = true ↔ ProtectsBreak content := by
  induction h with
  | nil =>
      refine ⟨nofun, ?_⟩
      rintro ⟨before, behind, hcontent, -⟩
      simp at hcontent
  | @slash c inner _ ih =>
      by_cases hc : c = '\n'
      · subst hc
        exact ⟨fun _ => ⟨[], inner, rfl, .nil⟩, fun _ => rfl⟩
      · rw [protectsBreak_slash hc, ← ih]
        simp [continuesLine]
  | char hquote hslash _ ih =>
      rw [protectsBreak_char hquote hslash, ← ih]
      simp [continuesLine, hslash]

/-! ## What a string stands for -/

/-- If a text begins with one character and has another one in it, the first stands in front of
    it. -/
theorem exists_cons_of_append {before tail : List Char} {c d : Char} (hc : c ≠ d)
    (h : before ++ d :: rest = c :: tail) : ∃ inner, before = c :: inner := by
  cases before with
  | nil => exact absurd (List.cons.inj h).1.symm hc
  | cons d inner => exact ⟨inner, by rw [(List.cons.inj h).1]⟩

/-- A backslash never belongs to the escape before it. -/
theorem unescape_slash (before rest : List Char) :
    unescape (before ++ '\\' :: rest) = unescape before ++ unescape ('\\' :: rest) := by
  fun_induction unescape before with
  | case1 => rfl
  | case2 before ih => exact congrArg ('"' :: ·) ih
  | case3 before ih => exact ih
  | case4 before ih => exact ih
  | case5 before hbreak ih =>
      have step : unescape ('\\' :: '\r' :: (before ++ '\\' :: rest))
          = unescape (before ++ '\\' :: rest) := by
        rw [unescape]
        intro tail hbefore
        obtain ⟨inner, rfl⟩ := exists_cons_of_append (by decide) hbefore
        exact hbreak inner rfl
      exact step.trans ih
  | case6 c before hquote hbreak _ hreturn ih =>
      -- what would make an escape of `c` stands in front of the backslash already
      have step : unescape (c :: (before ++ '\\' :: rest))
          = c :: unescape (before ++ '\\' :: rest) := by
        rw [unescape]
        all_goals
          intro tail hc hbefore
          obtain ⟨inner, rfl⟩ := exists_cons_of_append (by decide) hbefore
        · exact hquote inner hc rfl
        · exact hbreak inner hc rfl
        · exact hreturn inner hc rfl
        · exact hreturn inner hc rfl
      exact step.trans (congrArg (c :: ·) ih)

/-- The content of a string ends with a quote only behind a backslash. -/
theorem Content.getLast?_eq_quote (h : Content content) (hlast : content.getLast? = some '"') :
    ∃ inner, content = inner ++ ['\\', '"'] := by
  induction h with
  | nil => exact nomatch hlast
  | @slash c inner tail ih =>
      cases inner with
      | nil =>
          obtain rfl : c = '"' := Option.some.inj hlast
          exact ⟨[], rfl⟩
      | cons d inner =>
          obtain ⟨before, hbefore⟩ := ih (by simpa using hlast)
          exact ⟨'\\' :: c :: before, by rw [hbefore]; rfl⟩
  | @char c inner hquote _ _ ih =>
      cases inner with
      | nil => exact absurd (Option.some.inj hlast) hquote
      | cons d inner =>
          obtain ⟨before, hbefore⟩ := ih (by simpa using hlast)
          exact ⟨c :: before, by rw [hbefore]; rfl⟩

end DotLayout.Text
