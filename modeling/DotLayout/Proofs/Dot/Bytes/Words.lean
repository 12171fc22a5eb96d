import DotLayout.Dot.Token
import DotLayout.Proofs.Dot.Bytes.Ends

/-! # Words and ports, byte by byte

    `scanIdent` finds the end of a word without quotes, in which every byte of 128 or more counts,
    and `skipPorts` that of the ports behind a word.  They stop where `takeWhile isIdentChar`
    (`scanIdent_eq`) and `readPorts` (`skipPorts_eq`) do. -/

namespace DotLayout.Dot

open Text

/-- Whether a byte may stand in a word without quotes. -/
def isIdentByte (b : UInt8) : Bool := isIdentChar (Char.ofUInt8 b)

/-- The end of the run of word bytes at a position. -/
def scanIdent (bytes : List UInt8) (i stop : Nat) : Except Fault Nat :=
  if i < stop then do
    let b ← byteAt bytes i
    if isIdentByte b then scanIdent bytes (i + 1) stop else return i
  else return i
  termination_by stop - i

/-- The end of the port whose colon is at a position, if there is a port. -/
def portEnd? (bytes : List UInt8) (i stop : Nat) : Except Fault (Option Nat) :=
  if i + 1 < stop then do
    let d ← byteAt bytes (i + 1)
    if d = ascii '"' then
      let close ← findStringEnd bytes (i + 2) stop
      return close.map (· + 1)
    else if isIdentByte d then
      let next ← scanIdent bytes (i + 1) stop
      return some next
    else return none
  else return none

/-- The end of the ports at a position. -/
def skipPorts (bytes : List UInt8) (i stop : Nat) : Except Fault Nat :=
  if i < stop then do
    let b ← byteAt bytes i
    if b = ascii ':' then
      match ← portEnd? bytes i stop with
      | some next => if i < next then skipPorts bytes next stop else throw (.stuck i)
      | none => return i
    else return i
  else return i
  termination_by stop - i

/-! ## Words -/

variable {bytes tail : List UInt8} {text : List Char} {i stop : Nat}

theorem isIdentChar_of_high {c : Char} (h : 0x80 ≤ c.toNat) : isIdentChar c = true := by
  simp [isIdentChar, h]

/-- In front of the end, a byte that can be part of a word is passed, and any other one stops. -/
theorem scanIdent_step {b : UInt8} (hi : i < stop) (hb : byteAt bytes i = .ok b) :
    scanIdent bytes i stop
      = if isIdentByte b then scanIdent bytes (i + 1) stop else .ok i := by
  rw [scanIdent, if_pos hi, hb]
  rfl

theorem scanIdent_done (hi : stop ≤ i) : scanIdent bytes i stop = .ok i := by
  rw [scanIdent, if_neg (Nat.not_lt.2 hi)]
  rfl

/-- A word ends where the first character stands that cannot be part of it. -/
theorem scanIdent_eq (h : bytes.drop i = encode text ++ tail) (hstop : stop = i + byteLength text) :
    scanIdent bytes i stop = .ok (i + byteLength (text.takeWhile isIdentChar)) := by
  induction text generalizing i with
  | nil => exact scanIdent_done (Nat.le_of_eq hstop)
  | cons c rest ih =>
      have positive := c.utf8Size_pos
      rw [byteLength_cons] at hstop
      have byte := class_of_mem_encodeChar (fun _ => isIdentChar_of_high) c
      by_cases hc : isIdentChar c = true
      · have run : ∀ j < stop, ∀ b ∈ String.utf8EncodeChar c, byteAt bytes j = .ok b →
            scanIdent bytes j stop = scanIdent bytes (j + 1) stop := by
          intro j hj b hb hbyte
          rw [scanIdent_step hj hbyte, isIdentByte, byte b hb, if_pos hc]
        rw [skip_char (scanIdent bytes · stop) run h (by omega), ih (drop_char h) (by omega),
          List.takeWhile_cons, if_pos hc, byteLength_cons, Nat.add_assoc]
      · -- its first byte is enough to stop at
        obtain ⟨first, hmem, hfirst⟩ := exists_byteAt h
        rw [scanIdent_step (by omega) hfirst, isIdentByte, byte first hmem, if_neg hc,
          List.takeWhile_cons, if_neg hc]
        rfl

/-! ## Ports -/

/-- A port is passed as a whole. -/
theorem skipPorts_port {next : Nat} (hi : i < stop) (hb : byteAt bytes i = .ok (ascii ':'))
    (hend : portEnd? bytes i stop = .ok (some next)) (hnext : i < next) :
    skipPorts bytes i stop = skipPorts bytes next stop := by
  rw [skipPorts, if_pos hi, hb]
  show (do match ← portEnd? bytes i stop with
    | some next => if i < next then skipPorts bytes next stop else throw (Fault.stuck i)
    | none => return i) = _
  rw [hend]
  exact if_pos hnext

/-- A colon without a port behind it stops. -/
theorem skipPorts_noPort (hi : i < stop) (hb : byteAt bytes i = .ok (ascii ':'))
    (hend : portEnd? bytes i stop = .ok none) : skipPorts bytes i stop = .ok i := by
  rw [skipPorts, if_pos hi, hb]
  show (do match ← portEnd? bytes i stop with
    | some next => if i < next then skipPorts bytes next stop else throw (Fault.stuck i)
    | none => return i) = _
  rw [hend]
  rfl

/-- Any other byte than a colon stops. -/
theorem skipPorts_other {b : UInt8} (hi : i < stop) (hb : byteAt bytes i = .ok b)
    (hcolon : b ≠ ascii ':') : skipPorts bytes i stop = .ok i := by
  rw [skipPorts, if_pos hi, hb]
  exact if_neg hcolon

theorem skipPorts_done (hi : stop ≤ i) : skipPorts bytes i stop = .ok i := by
  rw [skipPorts, if_neg (Nat.not_lt.2 hi)]
  rfl

/-- A port in quotes ends with its string, and there is none if the string has no end. -/
theorem portEnd?_string {rest : List Char} (hi : i + 1 < stop)
    (h : bytes.drop (i + 1) = encode ('"' :: rest) ++ tail)
    (hstop : stop = i + 2 + byteLength rest) :
    portEnd? bytes i stop
      = .ok ((readQuoted rest).map fun cut => i + 2 + byteLength cut.1 + 1) := by
  obtain ⟨hquote, hrest⟩ := byteAt_of_ascii (by decide) h
  rw [portEnd?, if_pos hi, hquote]
  show (do let close ← findStringEnd bytes (i + 2) stop; return close.map (· + 1)) = _
  rw [findStringEnd_eq hrest hstop]
  show Except.ok (((readQuoted rest).map _).map (· + 1)) = _
  rw [Option.map_map]
  rfl

/-- A port without quotes ends with its word, and there is none without such a word. -/
theorem portEnd?_char {c : Char} {rest : List Char} (hc : c ≠ '"')
    (h : bytes.drop (i + 1) = encode (c :: rest) ++ tail)
    (hstop : stop = i + 1 + byteLength (c :: rest)) :
    portEnd? bytes i stop = .ok (if isIdentChar c then
      some (i + 1 + byteLength ((c :: rest).takeWhile isIdentChar)) else none) := by
  have positive := c.utf8Size_pos
  have hi : i + 1 < stop := by
    rw [byteLength_cons] at hstop
    omega
  obtain ⟨b, hmem, hb⟩ := exists_byteAt h
  rw [portEnd?, if_pos hi, hb]
  show (if b = ascii '"' then _ else if isIdentByte b then _ else _) = _
  rw [if_neg (ne_of_mem_encodeChar (by decide) hc b hmem), isIdentByte,
    class_of_mem_encodeChar (fun _ => isIdentChar_of_high) c b hmem, scanIdent_eq h hstop]
  split <;> rfl

/-- Behind a port there may be more of them. -/
theorem skipPorts_piece {piece rest more : List Char}
    (h : bytes.drop i = encode (':' :: piece ++ rest) ++ tail)
    (hstop : stop = i + byteLength (':' :: piece ++ rest))
    (hend : portEnd? bytes i stop = .ok (some (i + byteLength (':' :: piece))))
    (hrest : ∀ {j}, bytes.drop j = encode rest ++ tail → stop = j + byteLength rest →
      skipPorts bytes j stop = .ok (j + byteLength more)) :
    skipPorts bytes i stop = .ok (i + byteLength (':' :: piece ++ more)) := by
  have size : (':').utf8Size = 1 := by decide
  have hcolon := (@byteAt_of_ascii bytes tail i ':' (piece ++ rest) (by decide) h).1
  have hpos : i < i + byteLength (':' :: piece) := by
    rw [byteLength_cons]
    omega
  rw [byteLength_append] at hstop ⊢
  rw [skipPorts_port (by omega) hcolon hend hpos, hrest (drop_text h) (by omega), Nat.add_assoc]

/-- The ports behind a word end where the last of them does. -/
theorem skipPorts_eq (h : bytes.drop i = encode text ++ tail) (hstop : stop = i + byteLength text) :
    skipPorts bytes i stop = .ok (i + byteLength (readPorts text).1) := by
  have size : (':').utf8Size = 1 ∧ ('"').utf8Size = 1 := by decide
  fun_induction readPorts text generalizing i with
  | case1 rest content after hread ih =>
      -- a port in quotes: the piece goes on to its closing quote
      have whole : ':' :: '"' :: rest = (':' :: '"' :: content ++ ['"']) ++ after := by
        rw [eq_of_readQuoted hread]
        simp
      have hend : portEnd? bytes i stop
          = .ok (some (i + byteLength (':' :: '"' :: content ++ ['"']))) := by
        have hquote := (byteAt_of_ascii (by decide) h).2
        simp only [byteLength_cons, size] at hstop
        rw [portEnd?_string (by omega) hquote (by omega), hread]
        simp only [Option.map_some, byteLength_append, byteLength_cons, byteLength_nil, size]
        congr 2
        omega
      rw [whole] at h hstop
      exact skipPorts_piece h hstop hend ih
  | case2 rest hread =>
      -- the quotes do not close, so neither loop takes the port
      obtain ⟨hcolon, hquote⟩ := byteAt_of_ascii (by decide) h
      simp only [byteLength_cons, size] at hstop
      have hend : portEnd? bytes i stop = .ok none := by
        rw [portEnd?_string (by omega) hquote (by omega), hread]
        rfl
      exact skipPorts_noPort (by omega) hcolon hend
  | case3 c rest hc hident ih =>
      -- a port of word characters
      have whole : ':' :: c :: rest
          = (':' :: c :: rest.takeWhile isIdentChar) ++ rest.dropWhile isIdentChar := by simp
      have hend : portEnd? bytes i stop
          = .ok (some (i + byteLength (':' :: c :: rest.takeWhile isIdentChar))) := by
        have hrest := (byteAt_of_ascii (by decide) h).2
        rw [byteLength_cons, size.1] at hstop
        rw [portEnd?_char hc hrest (by omega), if_pos hident, List.takeWhile_cons, if_pos hident,
          byteLength_cons ':', size.1, ← Nat.add_assoc]
      rw [whole] at h hstop
      exact skipPorts_piece h hstop hend ih
  | case4 c rest hc hident =>
      -- a colon without a port ends both loops
      obtain ⟨hcolon, hrest⟩ := byteAt_of_ascii (by decide) h
      have positive := c.utf8Size_pos
      rw [byteLength_cons, size.1] at hstop
      have hend : portEnd? bytes i stop = .ok none := by
        rw [portEnd?_char hc hrest (by omega), if_neg hident]
      exact skipPorts_noPort (by omega) hcolon hend
  | case5 text hstring hchar =>
      -- no colon in front, or nothing behind it
      cases text with
      | nil => exact skipPorts_done (Nat.le_of_eq hstop)
      | cons c rest =>
          have positive := c.utf8Size_pos
          rw [byteLength_cons] at hstop
          by_cases hc : c = ':'
          · subst hc
            cases rest with
            | nil =>
                have hend : portEnd? bytes i stop = .ok none := by
                  rw [byteLength_nil] at hstop
                  rw [portEnd?, if_neg (by omega)]
                  rfl
                exact skipPorts_noPort (by omega) (byteAt_of_ascii (by decide) h).1 hend
            | cons d rest => exact absurd rfl (hchar d rest)
          · obtain ⟨b, hmem, hb⟩ := exists_byteAt h
            exact skipPorts_other (by omega) hb (ne_of_mem_encodeChar (by decide) hc b hmem)

end DotLayout.Dot
