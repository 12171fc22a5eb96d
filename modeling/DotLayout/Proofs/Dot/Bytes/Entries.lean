import DotLayout.Proofs.Dot.Scanning
import DotLayout.Proofs.Text.Bytes

/-! # Attribute lists, gap by gap

    An attribute list is cut out of its text, and what stands between its pairs is cut out of the
    list, at positions that count from the start of the list.  `listEntries_eq` says that all of
    these are pieces of the list, and that they hold the junk that `readEntries` finds. -/

namespace DotLayout.Dot

open Text

/-- The pairs among entries, with their places. -/
def placedPairs (entries : List Entry) : List (Pair × Excerpt) :=
  entries.filterMap fun
    | .pair p place => some (p, place)
    | .junk _ => none

/-- The entries of a list from a position in it on, where the given pairs are left. -/
def entriesFrom (list : Excerpt) (i : Nat) : List (Pair × Excerpt) → Except Fault (List Entry)
  | [] => do
    let gap ← cut list.chars i (byteLength list.chars)
    return junkIn ⟨list.start + gap.start, gap.chars⟩
  | (p, place) :: others => do
    let gap ← cut list.chars i (place.start - list.start)
    let entries ← entriesFrom list (place.stop - list.start) others
    return junkIn ⟨list.start + gap.start, gap.chars⟩ ++ .pair p place :: entries

/-- The entries of the list between two positions of a text. -/
def listEntries (text : List Char) (start stop : Nat) : Except Fault (List Entry) := do
  let list ← cut text start stop
  entriesFrom list 0 (placedPairs (readEntries list))

theorem placedPairs_junkIn (gap : Excerpt) (entries : List Entry) :
    placedPairs (junkIn gap ++ entries) = placedPairs entries := by
  rw [junkIn]
  split <;> rfl

/-- A gap that starts behind the front of a list can be cut out of the list. -/
theorem cut_gap {list front gap text : List Char} (h : list = front ++ (gap ++ text)) {i stop : Nat}
    (hi : i = byteLength front) (hstop : stop = i + byteLength gap) :
    cut list i stop = .ok ⟨i, gap⟩ := by
  have part : Excerpt.PartOf ⟨i, gap⟩ ⟨0, list⟩ := ⟨front, text, h, hi.trans (Nat.zero_add _).symm⟩
  rw [hstop]
  exact cut_eq part

/-- A pair is found behind the gap before it. -/
theorem entriesFrom_pair {list : Excerpt} {front gap written after : List Char} {start : Nat}
    {p : Pair} {entries : List Entry} (h : list.chars = front ++ (gap ++ (written ++ after)))
    (hstart : start = list.start + byteLength front)
    (hothers : entriesFrom list (byteLength (front ++ (gap ++ written))) (placedPairs entries)
      = .ok entries) :
    entriesFrom list (byteLength front)
        (placedPairs (junkIn ⟨start, gap⟩ ++ .pair p ⟨start + byteLength gap, written⟩ :: entries))
      = .ok (junkIn ⟨start, gap⟩ ++ .pair p ⟨start + byteLength gap, written⟩ :: entries) := by
  have size : start + byteLength gap - list.start = byteLength front + byteLength gap := by
    omega
  have next : start + byteLength gap + byteLength written - list.start
      = byteLength (front ++ (gap ++ written)) := by
    rw [byteLength_append, byteLength_append]
    omega
  rw [placedPairs_junkIn]
  show (do
    let found ← cut list.chars (byteLength front) (start + byteLength gap - list.start)
    let others ← entriesFrom list (start + byteLength gap + byteLength written - list.start)
      (placedPairs entries)
    return junkIn ⟨list.start + found.start, found.chars⟩
      ++ Entry.pair p ⟨start + byteLength gap, written⟩ :: others) = _
  rw [size, next, cut_gap h rfl rfl, ok_bind, hothers, ok_bind, hstart]
  rfl

/-- The entries behind the front of a list, of which a gap has been read. -/
theorem entriesFrom_eq {list : Excerpt} {front gap text : List Char} {start : Nat}
    (h : list.chars = front ++ (gap.reverse ++ text))
    (hstart : start = list.start + byteLength front) :
    entriesFrom list (byteLength front) (placedPairs (entriesAfter start gap text))
      = .ok (entriesAfter start gap text) := by
  fun_induction entriesAfter start gap text generalizing front with
  | case1 start gap =>
      have pairs : placedPairs (junkIn ⟨start, gap.reverse⟩) = [] := by
        have none := placedPairs_junkIn ⟨start, gap.reverse⟩ []
        rwa [List.append_nil] at none
      have length : byteLength list.chars = byteLength front + byteLength gap.reverse := by
        rw [h, byteLength_append, List.append_nil]
      rw [pairs, entriesFrom, cut_gap h rfl length, hstart]
      rfl
  | case2 start gap c rest _ key afterKey reading hread before place =>
      rename_i ih
      have hplace : place = ⟨start + byteLength gap.reverse, key ++ reading.written⟩ := by
        simp [place, before, Excerpt.stop]
      have whole : c :: rest = (key ++ reading.written) ++ reading.after := by
        rw [List.append_assoc, written_readAssigned hread, List.cons_append,
          List.takeWhile_append_dropWhile]
      rw [whole] at h
      have stop : start + byteLength gap.reverse + byteLength (key ++ reading.written)
          = list.start + byteLength (front ++ (gap.reverse ++ (key ++ reading.written))) := by
        rw [byteLength_append front, byteLength_append gap.reverse, hstart, Nat.add_assoc,
          Nat.add_assoc]
      -- the next gap starts behind the pair
      rw [hplace] at ih
      refine entriesFrom_pair h hstart (ih ?_ stop)
      rw [h]
      simp
  | case3 start gap c rest _ key afterKey hread =>
      rename_i ih
      have whole : (key.reverse ++ gap).reverse ++ afterKey = gap.reverse ++ c :: rest := by
        have text : key ++ afterKey = c :: rest := by simp [key, afterKey]
        rw [List.reverse_append, List.reverse_reverse, List.append_assoc, text]
      exact ih (by rw [h, whole]) hstart
  | case4 start gap c rest _ =>
      rename_i ih
      exact ih (by rw [h]; simp) hstart

theorem listEntries_eq {text : List Char} {list : Excerpt} (h : list.PartOf ⟨0, text⟩) :
    listEntries text list.start list.stop = .ok (readEntries list) := by
  rw [listEntries, cut_eq h, ok_bind]
  exact @entriesFrom_eq list [] [] list.chars list.start rfl rfl

end DotLayout.Dot
