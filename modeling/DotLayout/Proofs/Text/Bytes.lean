import DotLayout.Proofs.Text.Boundary

/-! # Texts as bytes

    A program that reads a text byte by byte has positions of its own, and each time it takes a
    byte or cuts a piece it has to be at the right place.  `byteAt` and `cut` say what it gets
    there, or which `Fault` it runs into.

    * `encode` gives the bytes of a text.  Those of a character beyond ASCII are all 128 or more
      (`high_of_mem_encodeChar`), so none of them is taken for another character
      (`ne_of_mem_encodeChar`).
    * `cut_eq` says where a piece can be cut, and `skip_bytes` moves a loop over bytes that mean
      nothing to it. -/

namespace DotLayout.Text

/-- What stops a program that reads bytes. -/
inductive Fault where
  /-- There is no byte at a position. -/
  | noByte (i : Nat)
  /-- A range is not in order, reaches beyond the text or ends inside a character. -/
  | range (start stop : Nat)
  /-- Bytes are not the form of any text. -/
  | noText
  /-- A loop makes no progress at a position. -/
  | stuck (i : Nat)
  deriving Repr, DecidableEq

theorem ok_bind {α β : Type} (a : α) (f : α → Except Fault β) : (Except.ok a >>= f) = f a := rfl

/-! ## Bytes of characters -/

/-- The bytes of a text in UTF-8. -/
def encode (text : List Char) : List UInt8 := text.flatMap String.utf8EncodeChar

@[simp] theorem encode_nil : encode [] = [] := rfl

@[simp] theorem encode_cons (c : Char) (text : List Char) :
    encode (c :: text) = String.utf8EncodeChar c ++ encode text := rfl

@[simp] theorem encode_append (a b : List Char) : encode (a ++ b) = encode a ++ encode b :=
  List.flatMap_append

/-- A text has as many bytes as the sum over its characters says. -/
@[simp] theorem length_encode (text : List Char) : (encode text).length = byteLength text := by
  induction text with
  | nil => rfl
  | cons c text ih =>
      rw [encode_cons, List.length_append, String.length_utf8EncodeChar, ih, byteLength_cons]

/-- The byte of a character of ASCII. -/
def ascii (c : Char) : UInt8 := c.toUInt8

/-- The byte of a character of ASCII has the number of the character. -/
theorem toNat_ascii {c : Char} (h : c.toNat < 0x80) : (ascii c).toNat = c.toNat := by
  show c.val.toUInt8.toNat = c.toNat
  rw [UInt32.toNat_toUInt8]
  exact Nat.mod_eq_of_lt (Nat.lt_trans h (by decide))

/-- A character of ASCII is a single byte. -/
theorem encodeChar_of_lt {c : Char} (h : c.toNat < 0x80) : String.utf8EncodeChar c = [ascii c] := by
  have hle : c.val.toNat ≤ 0x7f := Nat.le_of_lt_succ h
  simp only [String.utf8EncodeChar, if_pos hle]
  rfl

theorem utf8Size_of_lt {c : Char} (h : c.toNat < 0x80) : c.utf8Size = 1 := by
  rw [← String.length_utf8EncodeChar, encodeChar_of_lt h, List.length_singleton]

/-- All bytes of a character beyond ASCII are 128 or more. -/
theorem high_of_mem_encodeChar {c : Char} (h : 0x80 ≤ c.toNat) :
    ∀ b ∈ String.utf8EncodeChar c, 0x80 ≤ b.toNat := by
  have hle : ¬ c.val.toNat ≤ 0x7f := Nat.not_le_of_lt h
  have high : ∀ n, n < 256 → 0x80 ≤ n → 0x80 ≤ (UInt8.ofNat n).toNat := by
    intro n hn hle
    rwa [UInt8.toNat_ofNat_of_lt' hn]
  -- one case for each number of bytes; every byte has its highest bit set
  simp only [String.utf8EncodeChar, if_neg hle]
  intro b hb
  split at hb
  · simp only [List.mem_cons, List.not_mem_nil, or_false] at hb
    rcases hb with rfl | rfl <;> exact high _ (by omega) (by omega)
  split at hb
  · simp only [List.mem_cons, List.not_mem_nil, or_false] at hb
    rcases hb with rfl | rfl | rfl <;> exact high _ (by omega) (by omega)
  · simp only [List.mem_cons, List.not_mem_nil, or_false] at hb
    rcases hb with rfl | rfl | rfl | rfl <;> exact high _ (by omega) (by omega)

/-- The bytes of a character after its first one have nothing to do with ASCII. -/
theorem high_of_mem_tail_encodeChar (c : Char) :
    ∀ b ∈ (String.utf8EncodeChar c).tail, 0x80 ≤ b.toNat := by
  intro b hb
  rcases Nat.lt_or_ge c.toNat 0x80 with h | h
  · rw [encodeChar_of_lt h] at hb
    exact nomatch hb
  · exact high_of_mem_encodeChar h b (List.mem_of_mem_tail hb)

/-- A byte of 128 or more is not that of a character of ASCII. -/
theorem ne_ascii_of_high {b : UInt8} {d : Char} (hb : 0x80 ≤ b.toNat) (hd : d.toNat < 0x80) :
    b ≠ ascii d := by
  rintro rfl
  rw [toNat_ascii hd] at hb
  omega

/-- No byte of a character is an ASCII character other than itself. -/
theorem ne_of_mem_encodeChar {c d : Char} (hd : d.toNat < 0x80) (h : c ≠ d) :
    ∀ b ∈ String.utf8EncodeChar c, b ≠ ascii d := by
  intro b hb
  rcases Nat.lt_or_ge c.toNat 0x80 with hc | hc
  · rw [encodeChar_of_lt hc] at hb
    obtain rfl := List.mem_singleton.1 hb
    intro heq
    have nats := congrArg UInt8.toNat heq
    rw [toNat_ascii hc, toNat_ascii hd] at nats
    exact h (Char.toNat_inj.1 nats)
  · exact ne_ascii_of_high (high_of_mem_encodeChar hc b hb) hd

/-- A byte of a character is that of an ASCII character only if the two are the same. -/
theorem eq_ascii_iff {b : UInt8} {c d : Char} (hd : d.toNat < 0x80)
    (hb : b ∈ String.utf8EncodeChar c) : b = ascii d ↔ c = d := by
  constructor
  · intro h
    by_contra hne
    exact ne_of_mem_encodeChar hd hne b hb h
  · rintro rfl
    rw [encodeChar_of_lt hd] at hb
    exact List.mem_singleton.1 hb

/-- The byte of a character of ASCII, read as a character, is that character. -/
theorem ofUInt8_ascii {c : Char} (h : c.toNat < 0x80) : Char.ofUInt8 (ascii c) = c := by
  rw [← Char.toNat_inj]
  exact toNat_ascii h

/-- A class of characters of ASCII holds no other character. -/
theorem eq_false_of_high {p : Char → Bool} (hp : ∀ c, p c = true → c.toNat < 0x80) {c : Char}
    (hc : 0x80 ≤ c.toNat) : p c = false := by
  cases h : p c with
  | false => rfl
  | true => exact absurd (hp c h) (Nat.not_lt.2 hc)

/-- The bytes of a character are in the same class as the character, if all characters beyond
    ASCII are in one class. -/
theorem class_of_mem_encodeChar {p : Char → Bool} {high : Bool}
    (hp : ∀ d : Char, 0x80 ≤ d.toNat → p d = high) (c : Char) :
    ∀ b ∈ String.utf8EncodeChar c, p (Char.ofUInt8 b) = p c := by
  intro b hb
  rcases Nat.lt_or_ge c.toNat 0x80 with hc | hc
  · rw [encodeChar_of_lt hc] at hb
    rw [List.mem_singleton.1 hb, ofUInt8_ascii hc]
  · rw [hp c hc]
    exact hp _ (high_of_mem_encodeChar hc b hb)

/-! ## Access to bytes -/

variable {bytes tail : List UInt8} {i : Nat}

/-- The byte at a position, which has to be there. -/
def byteAt (bytes : List UInt8) (i : Nat) : Except Fault UInt8 :=
  match bytes[i]? with
  | some b => .ok b
  | none => .error (.noByte i)

/-- The byte at a position is the first one of what is left there. -/
theorem byteAt_of_drop {b : UInt8} (h : bytes.drop i = b :: tail) : byteAt bytes i = .ok b := by
  have get : bytes[i]? = some b := by
    rw [← List.head?_drop, h, List.head?_cons]
  rw [byteAt, get]

theorem drop_succ_of_drop {b : UInt8} (h : bytes.drop i = b :: tail) :
    bytes.drop (i + 1) = tail := by
  rw [← List.drop_drop, h, List.drop_succ_cons, List.drop_zero]

theorem drop_of_drop_append {front : List UInt8} (h : bytes.drop i = front ++ tail) :
    bytes.drop (i + front.length) = tail := by
  rw [← List.drop_drop, h, List.drop_left]

/-- The bytes at a position where an ASCII character stands. -/
theorem byteAt_of_ascii {c : Char} {rest : List Char} (hc : c.toNat < 0x80)
    (h : bytes.drop i = encode (c :: rest) ++ tail) :
    byteAt bytes i = .ok (ascii c) ∧ bytes.drop (i + 1) = encode rest ++ tail := by
  rw [encode_cons, encodeChar_of_lt hc] at h
  exact ⟨byteAt_of_drop h, drop_succ_of_drop h⟩

/-- There is a byte of the character that stands at a position. -/
theorem exists_byteAt {c : Char} {rest : List Char}
    (h : bytes.drop i = encode (c :: rest) ++ tail) :
    ∃ b ∈ String.utf8EncodeChar c, byteAt bytes i = .ok b := by
  obtain ⟨first, others, hc⟩ := List.exists_cons_of_ne_nil (String.utf8EncodeChar_ne_nil (c := c))
  rw [encode_cons, hc] at h
  exact ⟨first, hc ▸ List.mem_cons_self, byteAt_of_drop h⟩

/-- Behind a text that stands at a position, the rest of the text is left. -/
theorem drop_text {front rest : List Char} (h : bytes.drop i = encode (front ++ rest) ++ tail) :
    bytes.drop (i + byteLength front) = encode rest ++ tail := by
  rw [encode_append, List.append_assoc] at h
  rw [← length_encode]
  exact drop_of_drop_append h

/-- Behind a character that stands at a position, the rest of the text is left. -/
theorem drop_char {c : Char} {rest : List Char} (h : bytes.drop i = encode (c :: rest) ++ tail) :
    bytes.drop (i + c.utf8Size) = encode rest ++ tail :=
  @drop_text bytes tail i [c] rest h

/-- A loop that passes over each of the bytes at hand has passed over all of them. -/
theorem skip_bytes {α : Type} (loop : Nat → α) {stop : Nat} {front : List UInt8}
    (hstep : ∀ j, j < stop → ∀ b ∈ front, byteAt bytes j = .ok b → loop j = loop (j + 1))
    (h : bytes.drop i = front ++ tail) (hstop : i + front.length ≤ stop) :
    loop i = loop (i + front.length) := by
  induction front generalizing i with
  | nil => rfl
  | cons b front ih =>
      rw [List.length_cons] at hstop ⊢
      have first := hstep i (by omega) b List.mem_cons_self (byteAt_of_drop h)
      have rest := ih (fun j hj d hd => hstep j hj d (List.mem_cons_of_mem b hd))
        (drop_succ_of_drop h) (by omega)
      rw [first, rest]
      congr 1
      omega

/-- A loop that passes over the bytes of the character at hand has passed over it. -/
theorem skip_char {α : Type} (loop : Nat → α) {stop : Nat} {c : Char} {rest : List Char}
    (hstep : ∀ j, j < stop → ∀ b ∈ String.utf8EncodeChar c, byteAt bytes j = .ok b →
      loop j = loop (j + 1))
    (h : bytes.drop i = encode (c :: rest) ++ tail) (hstop : i + c.utf8Size ≤ stop) :
    loop i = loop (i + c.utf8Size) := by
  rw [encode_cons, List.append_assoc] at h
  rw [← String.length_utf8EncodeChar] at hstop ⊢
  exact skip_bytes loop hstep h hstop

/-- A loop that skips one byte behind the current one, and passes over bytes beyond ASCII, goes
    on behind the next character. -/
theorem skip_protected {α : Type} (loop : Nat → α) {stop : Nat} {c : Char} {rest : List Char}
    (hstep : ∀ j, j < stop → ∀ b : UInt8, 0x80 ≤ b.toNat → byteAt bytes j = .ok b →
      loop j = loop (j + 1))
    (h : bytes.drop i = encode (c :: rest) ++ tail) (hstop : i + c.utf8Size ≤ stop) :
    loop (i + 1) = loop (i + c.utf8Size) := by
  obtain ⟨first, others, hc⟩ := List.exists_cons_of_ne_nil (String.utf8EncodeChar_ne_nil (c := c))
  have length : others.length + 1 = c.utf8Size := by
    rw [← String.length_utf8EncodeChar, hc, List.length_cons]
  have high : ∀ b ∈ others, 0x80 ≤ b.toNat := by
    have tail_high := high_of_mem_tail_encodeChar c
    rwa [hc] at tail_high
  rw [encode_cons, hc, List.cons_append, List.cons_append, List.append_assoc] at h
  have skipped := skip_bytes loop (fun j hj b hb => hstep j hj b (high b hb)) (drop_succ_of_drop h)
    (by omega)
  rw [skipped]
  congr 1
  omega

/-! ## Cutting pieces -/

/-- Splits a text at a byte position, if that is a boundary. -/
def splitAt? : Nat → List Char → Option (List Char × List Char)
  | 0, text => some ([], text)
  | _ + 1, [] => none
  | p + 1, c :: text =>
    if c.utf8Size ≤ p + 1 then
      (splitAt? (p + 1 - c.utf8Size) text).map fun halves => (c :: halves.1, halves.2)
    else none

/-- A text can be split behind any part that it begins with. -/
theorem splitAt?_append (before after : List Char) :
    splitAt? (byteLength before) (before ++ after) = some (before, after) := by
  induction before with
  | nil => cases after <;> rfl
  | cons c before ih =>
      have positive := c.utf8Size_pos
      obtain ⟨p, hp⟩ : ∃ p, byteLength (c :: before) = p + 1 :=
        ⟨c.utf8Size - 1 + byteLength before, by rw [byteLength_cons]; omega⟩
      have rest : p + 1 - c.utf8Size = byteLength before := by
        rw [byteLength_cons] at hp
        omega
      have fits : c.utf8Size ≤ p + 1 := by
        rw [byteLength_cons] at hp
        omega
      rw [hp, List.cons_append, splitAt?, if_pos fits, rest, ih]
      rfl

/-- Cuts the piece between two byte positions out of a text. -/
def cut (text : List Char) (start stop : Nat) : Except Fault Excerpt :=
  match splitAt? start text with
  | none => .error (.range start stop)
  | some (_, rest) =>
    if stop < start then .error (.range start stop)
    else
      match splitAt? (stop - start) rest with
      | none => .error (.range start stop)
      | some (chars, _) => .ok ⟨start, chars⟩

/-- The parts of a text can be cut out of it. -/
theorem cut_eq {text : List Char} {e : Excerpt} (h : e.PartOf ⟨0, text⟩) :
    cut text e.start e.stop = .ok e := by
  obtain ⟨before, after, htext, hstart⟩ := h
  have htext : text = before ++ (e.chars ++ after) := htext
  have hstart : e.start = byteLength before := hstart.trans (Nat.zero_add _)
  have length : e.stop - e.start = byteLength e.chars := Nat.add_sub_cancel_left ..
  have order : ¬ e.stop < e.start := Nat.not_lt.2 (Nat.le_add_right ..)
  have first : splitAt? e.start text = some (before, e.chars ++ after) := by
    rw [hstart, htext, splitAt?_append]
  rw [cut, first]
  simp only [if_neg order, length, splitAt?_append]

/-! ## Places in a text -/

/-- A program that reads the bytes of a text up to `stop` is at the position `i`.  It has read
    `done` since `start`, and `rest` is left to be read. -/
structure Cursor (text : List Char) (start i stop : Nat) (done rest : List Char) : Prop where
  split : ∃ front behind, text = front ++ (done ++ (rest ++ behind)) ∧ byteLength front = start
  here : i = start + byteLength done
  ends : stop = i + byteLength rest

namespace Cursor

variable {text done rest : List Char} {start i stop : Nat}

/-- What is left to be read stands at the position of the program. -/
theorem drop (h : Cursor text start i stop done rest) :
    ∃ tail, (encode text).drop i = encode rest ++ tail := by
  obtain ⟨front, behind, rfl, hstart⟩ := h.split
  refine ⟨encode behind, ?_⟩
  have hi : i = byteLength (front ++ done) := by
    rw [h.here, byteLength_append, hstart]
  have whole : encode (front ++ (done ++ (rest ++ behind)))
      = encode (front ++ done) ++ (encode rest ++ encode behind) := by simp
  rw [whole, hi, ← length_encode, List.drop_left]

/-- What has been read can be cut out of the text. -/
theorem cut (h : Cursor text start i stop done rest) : cut text start i = .ok ⟨start, done⟩ := by
  obtain ⟨front, behind, htext, hstart⟩ := h.split
  have part : Excerpt.PartOf ⟨start, done⟩ ⟨0, text⟩ := by
    refine ⟨front, rest ++ behind, htext, ?_⟩
    show start = 0 + byteLength front
    rw [hstart, Nat.zero_add]
  have hi : i = Excerpt.stop ⟨start, done⟩ := h.here
  rw [hi]
  exact cut_eq part

/-- The program does not read beyond the end of the text. -/
theorem stop_le (h : Cursor text start i stop done rest) : stop ≤ (encode text).length := by
  obtain ⟨front, behind, rfl, hstart⟩ := h.split
  have hi := h.here
  have hstop := h.ends
  rw [length_encode, byteLength_append, byteLength_append, byteLength_append]
  omega

/-- The program reads a piece and goes on behind it. -/
theorem advance {piece : List Char} (h : Cursor text start i stop done (piece ++ rest)) :
    Cursor text start (i + byteLength piece) stop (done ++ piece) rest := by
  obtain ⟨front, behind, htext, hstart⟩ := h.split
  refine ⟨⟨front, behind, ?_, hstart⟩, ?_, ?_⟩
  · rw [htext]
    simp
  · rw [h.here, byteLength_append, Nat.add_assoc]
  · rw [h.ends, byteLength_append, Nat.add_assoc]

/-- The program reads a character and goes on behind it. -/
theorem advance_char {c : Char} (h : Cursor text start i stop done (c :: rest)) :
    Cursor text start (i + c.utf8Size) stop (done ++ [c]) rest :=
  @advance text done rest start i stop [c] h

/-- The program reads a character of ASCII, which is one byte. -/
theorem advance_ascii {c : Char} (hc : c.toNat < 0x80)
    (h : Cursor text start i stop done (c :: rest)) :
    Cursor text start (i + 1) stop (done ++ [c]) rest := by
  have next := h.advance_char
  rwa [utf8Size_of_lt hc] at next

/-- The program reads all that is left. -/
theorem finish (h : Cursor text start i stop done rest) :
    Cursor text start stop stop (done ++ rest) [] := by
  have hrest : Cursor text start i stop done (rest ++ []) := (List.append_nil rest).symm ▸ h
  have last := hrest.advance
  rwa [← h.ends] at last

/-- The program starts anew at its position, with nothing read. -/
theorem restart (h : Cursor text start i stop done rest) : Cursor text i i stop [] rest := by
  obtain ⟨front, behind, htext, hstart⟩ := h.split
  refine ⟨⟨front ++ done, behind, ?_, ?_⟩, rfl, h.ends⟩
  · rw [htext]
    simp
  · rw [byteLength_append, h.here, hstart]

/-- The byte of the ASCII character that is to be read. -/
theorem byteAt_ascii {c : Char} (hc : c.toNat < 0x80)
    (h : Cursor text start i stop done (c :: rest)) : byteAt (encode text) i = .ok (ascii c) := by
  obtain ⟨tail, hdrop⟩ := h.drop
  exact (byteAt_of_ascii hc hdrop).1

/-- The program finds a byte of the next character at its position. -/
theorem exists_byteAt {c : Char} (h : Cursor text start i stop done (c :: rest)) :
    ∃ b ∈ String.utf8EncodeChar c, byteAt (encode text) i = .ok b := by
  obtain ⟨tail, hdrop⟩ := h.drop
  exact Text.exists_byteAt hdrop

theorem le_stop (h : Cursor text start i stop done rest) : i ≤ stop := by
  rw [h.ends]
  exact Nat.le_add_right ..

/-- The program is in front of its end as long as a character is left. -/
theorem lt_stop {c : Char} (h : Cursor text start i stop done (c :: rest)) : i < stop := by
  have hstop := h.ends
  have positive := c.utf8Size_pos
  rw [byteLength_cons] at hstop
  omega

end Cursor

end DotLayout.Text
