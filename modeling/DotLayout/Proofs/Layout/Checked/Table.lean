import DotLayout.Numeric.Rounding
import DotLayout.Proofs.Layout.Loops

/-! # Steps that can stop an engine

    An engine keeps its values in tables, counts with natural numbers and sorts.  Here every access
    to a table says whether there is such an entry, every difference and every quotient whether it
    is defined, and every comparison whether it is an order.

    * `fetch_eq`, `store_eq` : an entry of a table can be read and written.
    * `sorted_eq` : a total and transitive comparison sorts every list.
    * `foldlM_update` : a loop over all entries that changes each of them in its place. -/

namespace DotLayout.Layout.Checked

open Numeric

/-- What stops an engine. -/
inductive Fault where
  /-- A table has no entry with a number. -/
  | outOfRange (i : Nat)
  /-- A number is taken off a smaller one. -/
  | underflow
  | divisionByZero
  /-- A comparison does not put a list into one order. -/
  | noOrder
  /-- A loop makes no progress. -/
  | stuck
  /-- A rectangle leaves no room. -/
  | limits (fault : ClampFault)
  deriving Repr, DecidableEq

variable {α : Type} {table : List α} {i : Nat} {a : α}

/-- The entry of a table with a number. -/
def fetch (table : List α) (i : Nat) : Except Fault α :=
  match table[i]? with
  | some a => .ok a
  | none => .error (.outOfRange i)

/-- Writes an entry of a table, which has to be there. -/
def store (table : List α) (i : Nat) (a : α) : Except Fault (List α) :=
  if i < table.length then .ok (table.set i a) else .error (.outOfRange i)

/-- A difference, which has to be a natural number. -/
def minus (a b : Nat) : Except Fault Nat := if b ≤ a then .ok (a - b) else .error .underflow

/-- A quotient, where the divisor has to be positive. -/
def quotient (a b : Nat) : Except Fault Nat :=
  if b = 0 then .error .divisionByZero else .ok (a / b)

/-- A remainder, where the divisor has to be positive. -/
def remainder (a b : Nat) : Except Fault Nat :=
  if b = 0 then .error .divisionByZero else .ok (a % b)

/-- Changes an entry of a table. -/
def update (table : List α) (i : Nat) (f : α → α) : Except Fault (List α) := do
  store table i (f (← fetch table i))

/-- Sorts by a comparison, which is to put all of the list into one order. -/
def sorted (le : α → α → Bool) (l : List α) : Except Fault (List α) :=
  if (l.all fun a => l.all fun b => le a b || le b a)
      && (l.all fun a => l.all fun b => l.all fun c => !(le a b && le b c) || le a c)
  then .ok (l.mergeSort le)
  else .error .noOrder

theorem ok_bind {β : Type} (a : α) (f : α → Except Fault β) : (Except.ok a >>= f) = f a := rfl

/-- An entry that is there can be read. -/
theorem fetch_eq (h : table[i]? = some a) : fetch table i = .ok a := by
  rw [fetch, h]

/-- An entry that is there can be written. -/
theorem store_eq (h : i < table.length) (a : α) : store table i a = .ok (table.set i a) :=
  if_pos h

/-- A smaller number can be subtracted. -/
theorem minus_eq {a b : Nat} (h : b ≤ a) : minus a b = .ok (a - b) := if_pos h

theorem quotient_eq (a : Nat) {b : Nat} (h : b ≠ 0) : quotient a b = .ok (a / b) := if_neg h

theorem remainder_eq (a : Nat) {b : Nat} (h : b ≠ 0) : remainder a b = .ok (a % b) := if_neg h

/-- An entry that is there can be changed. -/
theorem update_eq (h : i < table.length) (f : α → α) :
    update table i f = .ok (table.modify i f) := by
  have hentry := List.getElem?_eq_getElem h
  rw [update, fetch_eq hentry, ok_bind, store_eq h, List.modify_eq_set_getElem?, hentry]
  rfl

/-- A total and transitive comparison sorts every list, and does so stably. -/
theorem sorted_eq {le : α → α → Bool} (htotal : ∀ a b, le a b || le b a)
    (htrans : ∀ a b c, le a b → le b c → le a c) (l : List α) :
    sorted le l = .ok (l.mergeSort le) := by
  refine if_pos (Bool.and_eq_true_iff.2 ⟨?_, ?_⟩)
  · exact List.all_eq_true.2 fun a _ => List.all_eq_true.2 fun b _ => htotal a b
  · refine List.all_eq_true.2 fun a _ => List.all_eq_true.2 fun b _ =>
      List.all_eq_true.2 fun c _ => ?_
    by_cases hchain : (le a b && le b c) = true
    · obtain ⟨hab, hbc⟩ := Bool.and_eq_true_iff.1 hchain
      rw [htrans a b c hab hbc, Bool.or_true]
    · rw [eq_false_of_ne_true hchain]
      rfl

/-- A loop that changes every entry of a table in its place, by its number and its value alone. -/
theorem foldlM_update {f : Nat → α → Except Fault α} {body : List α → Nat → Except Fault (List α)}
    (h : ∀ now i a, now.length = table.length → now[i]? = some a →
      body now i = (f i a).map (now.set i ·)) :
    (List.range table.length).foldlM body table = table.zipIdx.mapM fun (a, i) => f i a := by
  -- along the entries that are still to come, behind those that are changed already
  have aux : ∀ rest before : List α, before.length + rest.length = table.length →
      (List.range' before.length rest.length).foldlM body (before ++ rest)
        = ((rest.zipIdx before.length).mapM fun (a, i) => f i a).map (before ++ ·) := by
    intro rest
    induction rest with
    | nil => exact fun before _ => rfl
    | cons a rest ih =>
      intro before hlen
      have hentry : (before ++ a :: rest)[before.length]? = some a := by simp
      have hnow : (before ++ a :: rest).length = table.length := by rw [List.length_append, hlen]
      rw [List.length_cons, List.range'_succ, List.foldlM_cons, h _ _ _ hnow hentry,
        List.zipIdx_cons, List.mapM_cons]
      dsimp only
      cases f before.length a with
      | error fault => rfl
      | ok b =>
        have hset : (before ++ a :: rest).set before.length b = before ++ [b] ++ rest := by simp
        have hrest := ih (before ++ [b]) (by rw [← hlen]; simp [Nat.add_assoc, Nat.add_comm 1])
        rw [List.length_append, List.length_singleton] at hrest
        show List.foldlM body ((before ++ a :: rest).set before.length b) _ = _
        rw [hset, hrest]
        cases (rest.zipIdx (before.length + 1)).mapM fun (a, i) => f i a with
        | error fault => rfl
        | ok changed => exact congrArg Except.ok (List.append_assoc ..)
  rw [List.range_eq_range']
  refine (aux table [] (Nat.zero_add _)).trans ?_
  cases table.zipIdx.mapM fun (a, i) => f i a <;> rfl

end DotLayout.Layout.Checked
