/-! # Excerpts and spans

    Positions in a text are counted in bytes of its UTF-8 form.  A `Span` is a pair of positions
    in order.  An `Excerpt` is a piece of a text together with the position where it starts, so
    its span is known without looking at the text again and always ends between two characters. -/

namespace DotLayout.Text

/-- The number of bytes that characters take in UTF-8. -/
def byteLength : List Char → Nat
  | [] => 0
  | c :: text => c.utf8Size + byteLength text

@[simp] theorem byteLength_nil : byteLength [] = 0 := rfl

@[simp] theorem byteLength_cons (c : Char) (text : List Char) :
    byteLength (c :: text) = c.utf8Size + byteLength text := rfl

/-- Texts one behind the other have their bytes together. -/
@[simp] theorem byteLength_append (a b : List Char) :
    byteLength (a ++ b) = byteLength a + byteLength b := by
  induction a with
  | nil => simp
  | cons c a ih => simp [ih, Nat.add_assoc]

/-- A range of byte positions. -/
structure Span where
  start : Nat
  stop : Nat
  start_le_stop : start ≤ stop
  deriving Repr, DecidableEq

namespace Span

/-- The span between two positions; if they are in the wrong order it is empty. -/
def between (start stop : Nat) : Span where
  start := start
  stop := max stop start
  start_le_stop := Nat.le_max_right ..

/-- The number of bytes in a range. -/
def length (s : Span) : Nat := s.stop - s.start

def isEmpty (s : Span) : Bool := s.start == s.stop

/-- The smallest span that holds both spans. -/
def union (s t : Span) : Span where
  start := min s.start t.start
  stop := max s.stop t.stop
  start_le_stop := by
    have := s.start_le_stop
    omega

end Span

/-- A piece of a text and the byte position where it starts. -/
structure Excerpt where
  start : Nat
  chars : List Char
  deriving Repr, DecidableEq

namespace Excerpt

/-- The position after the last character. -/
def stop (e : Excerpt) : Nat := e.start + byteLength e.chars

/-- The range of bytes that an excerpt covers. -/
def span (e : Excerpt) : Span where
  start := e.start
  stop := e.stop
  start_le_stop := Nat.le_add_right ..

/-- The text of an excerpt. -/
def text (e : Excerpt) : String := String.ofList e.chars

/-- An excerpt without the characters at its ends that satisfy `drop`. -/
def trimWhere (drop : Char → Bool) (e : Excerpt) : Excerpt where
  start := e.start + byteLength (e.chars.takeWhile drop)
  chars := ((e.chars.dropWhile drop).reverse.dropWhile drop).reverse

end Excerpt

end DotLayout.Text
