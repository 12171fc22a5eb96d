import DotLayout.Dot.Bracket
import DotLayout.Proofs.Text.Bytes

/-! # Ends of strings and lists, byte by byte

    `findStringEnd` and `findListEnd` look for the end of a quoted string and of an attribute list
    in the bytes between two positions.  After a backslash they skip one byte, which may be only a
    part of a character.  `findStringEnd_eq` and `findListEnd_eq` say that they still find the
    ends that `readQuoted` and `readBracket` find. -/

namespace DotLayout.Dot

open Text

/-- The position of the quote that closes a string whose content starts at a position. -/
def findStringEnd (bytes : List UInt8) (i stop : Nat) : Except Fault (Option Nat) :=
  if i < stop then do
    let b ← byteAt bytes i
    if b = ascii '\\' then findStringEnd bytes (i + 2) stop
    else if b = ascii '"' then return some i
    else findStringEnd bytes (i + 1) stop
  else return none
  termination_by stop - i

/-- Whether the list whose content starts at a position is closed, and where it ends. -/
def findListEnd (bytes : List UInt8) (i stop : Nat) (inString : Bool) :
    Except Fault (Bool × Nat) :=
  if i < stop then do
    let b ← byteAt bytes i
    if inString then
      if b = ascii '\\' then findListEnd bytes (i + 2) stop true
      else findListEnd bytes (i + 1) stop (b != ascii '"')
    else if b = ascii '"' then findListEnd bytes (i + 1) stop true
    else if b = ascii ']' then return (true, i)
    else if endsList (Char.ofUInt8 b) then return (false, i)
    else findListEnd bytes (i + 1) stop false
  else return (false, min stop bytes.length)
  termination_by stop - i

/-! ## Strings -/

variable {bytes tail : List UInt8} {i stop : Nat} {α : Type}

/-- Whether a byte means nothing inside a string. -/
def PlainInString (b : UInt8) : Prop := b ≠ ascii '\\' ∧ b ≠ ascii '"'

/-- A loop that reads the bytes of a string: `inside` is the loop in the string, `outside` what
    follows its closing quote and `unclosed` what comes of a string without one. -/
structure StringLoop (bytes : List UInt8) (stop : Nat) (inside outside : Nat → α) (unclosed : α) :
    Prop where
  slash : ∀ j < stop, byteAt bytes j = .ok (ascii '\\') → inside j = inside (j + 2)
  quote : ∀ j < stop, byteAt bytes j = .ok (ascii '"') → inside j = outside (j + 1)
  plain : ∀ j < stop, ∀ b, PlainInString b → byteAt bytes j = .ok b → inside j = inside (j + 1)
  done : ∀ j, stop ≤ j → inside j = unclosed

/-- A loop that keeps track of being in a string, and skips the byte behind a backslash there. -/
theorem StringLoop.of_step {loop : Nat → Bool → α} {unclosed : α}
    (step : ∀ j < stop, ∀ b, byteAt bytes j = .ok b →
      loop j true = if b = ascii '\\' then loop (j + 2) true else loop (j + 1) (b != ascii '"'))
    (done : ∀ j, stop ≤ j → loop j true = unclosed) :
    StringLoop bytes stop (loop · true) (loop · false) unclosed where
  slash := fun j hj hb => by
    rw [step j hj _ hb, if_pos rfl]
  quote := fun j hj hb => by
    rw [step j hj _ hb, if_neg (by decide)]
    rfl
  plain := fun j hj b hplain hb => by
    rw [step j hj b hb, if_neg hplain.1, bne_iff_ne.2 hplain.2]
  done := done

/-- A loop over the bytes of a string ends where `readQuoted` does. -/
theorem StringLoop.run {inside outside : Nat → α} {unclosed : α}
    (loop : StringLoop bytes stop inside outside unclosed) {text : List Char}
    (h : bytes.drop i = encode text ++ tail) (hstop : stop = i + byteLength text) :
    inside i
      = (readQuoted text).elim unclosed fun cut => outside (i + byteLength cut.1 + 1) := by
  have size : ('"').utf8Size = 1 ∧ ('\\').utf8Size = 1 := by decide
  fun_induction readQuoted text generalizing i with
  | case1 => exact loop.done i (Nat.le_of_eq hstop)
  | case2 rest =>
      rw [byteLength_cons] at hstop
      exact loop.quote i (by omega) (byteAt_of_ascii (by decide) h).1
  | case3 =>
      rw [byteLength_cons, byteLength_nil] at hstop
      rw [loop.slash i (by omega) (byteAt_of_ascii (by decide) h).1]
      exact loop.done (i + 2) (by omega)
  | case4 c rest ih =>
      -- the skipped byte is the first one of `c`; the others mean nothing inside a string
      rw [byteLength_cons, byteLength_cons] at hstop
      obtain ⟨hb, hrest⟩ := byteAt_of_ascii (by decide) h
      have passed := skip_protected inside (fun j hj b high hb => loop.plain j hj b
        ⟨ne_ascii_of_high high (by decide), ne_ascii_of_high high (by decide)⟩ hb) hrest (by omega)
      rw [loop.slash i (by omega) hb, passed, ih (drop_char hrest) (by omega)]
      cases readQuoted rest with
      | none => rfl
      | some cut =>
          show outside _ = outside (i + byteLength ('\\' :: c :: cut.1) + 1)
          congr 1
          rw [byteLength_cons, byteLength_cons]
          omega
  | case5 c rest hquote hlast hslash ih =>
      have hslash : c ≠ '\\' := by
        rintro rfl
        cases rest with
        | nil => exact hlast rfl rfl
        | cons d rest => exact hslash d rest rfl rfl
      rw [byteLength_cons] at hstop
      have passed := skip_char inside (fun j hj b hb hbyte => loop.plain j hj b
        ⟨ne_of_mem_encodeChar (by decide) hslash b hb, ne_of_mem_encodeChar (by decide) hquote b hb⟩
        hbyte) h (by omega)
      rw [passed, ih (drop_char h) (by omega)]
      cases readQuoted rest with
      | none => rfl
      | some cut =>
          show outside _ = outside (i + byteLength (c :: cut.1) + 1)
          rw [byteLength_cons, Nat.add_assoc i]

/-- What the search for the end of a string does with a byte. -/
theorem findStringEnd_step {b : UInt8} (hi : i < stop) (hb : byteAt bytes i = .ok b) :
    findStringEnd bytes i stop
      = if b = ascii '\\' then findStringEnd bytes (i + 2) stop
        else if b = ascii '"' then .ok (some i)
        else findStringEnd bytes (i + 1) stop := by
  rw [findStringEnd, if_pos hi, hb]
  rfl

/-- The end of a string is found where its content ends, and not at all if it has no end. -/
theorem findStringEnd_eq {text : List Char} (h : bytes.drop i = encode text ++ tail)
    (hstop : stop = i + byteLength text) :
    findStringEnd bytes i stop = .ok ((readQuoted text).map fun cut => i + byteLength cut.1) := by
  have loop : StringLoop bytes stop (findStringEnd bytes · stop) (fun j => .ok (some (j - 1)))
      (.ok none) := by
    refine ⟨fun j hj hb => ?_, fun j hj hb => ?_, fun j hj b hplain hb => ?_, fun j hj => ?_⟩
    · rw [findStringEnd_step hj hb, if_pos rfl]
    · rw [findStringEnd_step hj hb, if_neg (by decide), if_pos rfl]
      rfl
    · rw [findStringEnd_step hj hb, if_neg hplain.1, if_neg hplain.2]
    · rw [findStringEnd, if_neg (Nat.not_lt.2 hj)]
      rfl
  rw [loop.run h hstop]
  cases readQuoted text <;> rfl

/-! ## Lists -/

/-- A character that ends an open list is one of three. -/
theorem eq_of_endsList {c : Char} (h : endsList c = true) : c = '[' ∨ c = '\x7b' ∨ c = '\x7d' := by
  simp only [endsList, Bool.or_eq_true, beq_iff_eq] at h
  rcases h with (h | h) | h
  · exact .inl h
  · exact .inr (.inl h)
  · exact .inr (.inr h)

theorem endsList_of_high {c : Char} (h : 0x80 ≤ c.toNat) : endsList c = false := by
  refine eq_false_of_high (fun d hd => ?_) h
  rcases eq_of_endsList hd with rfl | rfl | rfl <;> decide

/-- What the search for the end of a list does with a byte outside of strings. -/
theorem findListEnd_step {b : UInt8} (hi : i < stop) (hb : byteAt bytes i = .ok b) :
    findListEnd bytes i stop false
      = if b = ascii '"' then findListEnd bytes (i + 1) stop true
        else if b = ascii ']' then .ok (true, i)
        else if endsList (Char.ofUInt8 b) then .ok (false, i)
        else findListEnd bytes (i + 1) stop false := by
  rw [findListEnd, if_pos hi, hb]
  rfl

/-- At the end of the text the search stops without a bracket. -/
theorem findListEnd_done (inString : Bool) (hlength : stop ≤ bytes.length) (hi : stop ≤ i) :
    findListEnd bytes i stop inString = .ok (false, stop) := by
  rw [findListEnd, if_neg (Nat.not_lt.2 hi), Nat.min_eq_left hlength]
  rfl

/-- Inside a string the search looks for nothing but its end. -/
theorem stringLoop_findListEnd (hlength : stop ≤ bytes.length) :
    StringLoop bytes stop (findListEnd bytes · stop true) (findListEnd bytes · stop false)
      (.ok (false, stop)) := by
  refine StringLoop.of_step (fun j hj b hb => ?_) fun j hj => findListEnd_done true hlength hj
  rw [findListEnd, if_pos hj, hb]
  rfl

/-- The end of a list is found where its content ends, whether it is closed or not. -/
theorem findListEnd_eq {text : List Char} (h : bytes.drop i = encode text ++ tail)
    (hstop : stop = i + byteLength text) (hlength : stop ≤ bytes.length) :
    findListEnd bytes i stop false
      = .ok ((readBracket text).closed, i + byteLength (readBracket text).content) := by
  have size : ('"').utf8Size = 1 ∧ (']').utf8Size = 1 := by decide
  fun_induction readBracket text generalizing i with
  | case1 =>
      have hstop : stop = i := hstop
      rw [findListEnd_done false hlength (Nat.le_of_eq hstop), hstop]
      rfl
  | case2 rest =>
      rw [byteLength_cons] at hstop
      rw [findListEnd_step (by omega) (byteAt_of_ascii (by decide) h).1, if_neg (by decide),
        if_pos rfl]
      rfl
  | case3 c rest hclose hends =>
      have positive := c.utf8Size_pos
      rw [byteLength_cons] at hstop
      -- a character that ends the list: the loop stops on its only byte
      rcases eq_of_endsList hends with rfl | rfl | rfl
      all_goals
        rw [findListEnd_step (by omega) (byteAt_of_ascii (by decide) h).1]
        rfl
  | case4 rest content after hread _ _ ih =>
      -- a closed string: the nested loop stops at its quote, and the search goes on behind it
      have htext := eq_of_readQuoted hread
      rw [byteLength_cons] at hstop
      obtain ⟨hb, hrest⟩ := byteAt_of_ascii (by decide) h
      have hlengths : byteLength rest = byteLength content + (1 + byteLength after) := by
        rw [htext, byteLength_append, byteLength_cons, size.1]
      have hafter : bytes.drop (i + 1 + byteLength content + 1) = encode after ++ tail := by
        rw [htext] at hrest
        exact (byteAt_of_ascii (by decide) (drop_text hrest)).2
      rw [findListEnd_step (by omega) hb, if_pos rfl,
        (stringLoop_findListEnd hlength).run hrest (by omega), hread]
      show findListEnd bytes (i + 1 + byteLength content + 1) stop false = _
      rw [ih hafter (by omega), BracketText.content_after, byteLength_append, byteLength_append,
        byteLength_cons, byteLength_cons, byteLength_nil, size.1]
      refine congrArg (fun p => Except.ok ((readBracket after).closed, p)) ?_
      omega
  | case5 rest hread =>
      -- an open string takes the rest
      rw [byteLength_cons] at hstop
      obtain ⟨hb, hrest⟩ := byteAt_of_ascii (by decide) h
      rw [findListEnd_step (by omega) hb, if_pos rfl,
        (stringLoop_findListEnd hlength).run hrest (by omega), hread, hstop]
      rfl
  | case6 c rest hclose hends hquote ih =>
      -- any other character is passed byte by byte, as no byte of it stops the loop
      have plain : ∀ j < stop, ∀ b ∈ String.utf8EncodeChar c, byteAt bytes j = .ok b →
          findListEnd bytes j stop false = findListEnd bytes (j + 1) stop false := by
        intro j hj b hb hbyte
        rw [findListEnd_step hj hbyte, if_neg (ne_of_mem_encodeChar (by decide) hquote b hb),
          if_neg (ne_of_mem_encodeChar (by decide) hclose b hb),
          class_of_mem_encodeChar (fun _ => endsList_of_high) c b hb, if_neg hends]
      rw [byteLength_cons] at hstop
      rw [skip_char (findListEnd bytes · stop false) plain h (by omega),
        ih (drop_char h) (by omega), BracketText.content_after, byteLength_append, byteLength_cons,
        byteLength_nil]
      refine congrArg (fun p => Except.ok ((readBracket rest).closed, p)) ?_
      omega

end DotLayout.Dot
