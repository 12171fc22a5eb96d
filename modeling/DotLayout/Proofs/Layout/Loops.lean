import Mathlib.Data.List.Basic

/-! # Loops that can fail

    A loop whose body may fail ends well if the body does so each time, and then it computes what
    the loop over a body that cannot fail computes.

    * `mapM_eq_ok_map`, `anyM_eq_ok`, `filterM_eq_ok`, `foldlM_eq_ok` : the loops over a list; the
      last one carries an invariant.
    * `drain` : a loop over a stock of work that is to become smaller in every round;
      `exists_drain_eq_ok` and `drain_eq_ok` say what it ends with. -/

namespace DotLayout.Layout

variable {ε α β σ : Type}

/-- If a function succeeds on every element, it succeeds on the whole list. -/
theorem mapM_eq_ok_map {f : α → Except ε β} {r : α → β} {l : List α}
    (h : ∀ a ∈ l, f a = .ok (r a)) : l.mapM f = .ok (l.map r) := by
  induction l with
  | nil => rfl
  | cons a l ih =>
    rw [List.mapM_cons, h a List.mem_cons_self, ih fun a' ha' => h a' (List.mem_cons_of_mem a ha')]
    rfl

/-- If a function fails on one element, it fails on the whole list. -/
theorem mapM_eq_error {f : α → Except ε β} {l : List α} {a : α} {fault : ε} (ha : a ∈ l)
    (hfault : f a = .error fault) : ∃ first, l.mapM f = .error first := by
  induction l with
  | nil => exact nomatch ha
  | cons b l ih =>
    rw [List.mapM_cons]
    rcases List.mem_cons.1 ha with rfl | hmem
    · rw [hfault]
      exact ⟨fault, rfl⟩
    · obtain ⟨first, hfirst⟩ := ih hmem
      cases hb : f b with
      | error other => exact ⟨other, rfl⟩
      | ok c =>
        rw [hfirst]
        exact ⟨first, rfl⟩

/-- Renaming faults can be done for each element or for the whole list. -/
theorem mapM_mapError {ε' : Type} (k : ε → ε') (f : α → Except ε β) (l : List α) :
    l.mapM (fun a => (f a).mapError k) = (l.mapM f).mapError k := by
  induction l with
  | nil => rfl
  | cons a l ih =>
    rw [List.mapM_cons, List.mapM_cons, ih]
    cases f a with
    | error fault => rfl
    | ok b => cases l.mapM f <;> rfl

/-- A search with tests that succeed finds what a search without faults finds. -/
theorem anyM_eq_ok {f : α → Except ε Bool} {r : α → Bool} {l : List α}
    (h : ∀ a ∈ l, f a = .ok (r a)) : l.anyM f = .ok (l.any r) := by
  induction l with
  | nil => rfl
  | cons a l ih =>
    have hrest := ih fun a' ha' => h a' (List.mem_cons_of_mem a ha')
    rw [List.anyM, h a List.mem_cons_self, List.any_cons]
    cases hr : r a with
    | true => rfl
    | false => exact hrest

/-- A selection with tests that succeed keeps what a selection without faults keeps. -/
theorem filterM_eq_ok {f : α → Except ε Bool} {r : α → Bool} {l : List α}
    (h : ∀ a ∈ l, f a = .ok (r a)) : l.filterM f = .ok (l.filter r) := by
  have aux : ∀ (l kept : List α), (∀ a ∈ l, f a = .ok (r a)) →
      List.filterAuxM f l kept = .ok ((l.filter r).reverse ++ kept) := by
    intro l
    induction l with
    | nil => exact fun kept _ => rfl
    | cons a l ih =>
      intro kept h
      have hrest := fun kept => ih kept fun a' ha' => h a' (List.mem_cons_of_mem a ha')
      rw [List.filterAuxM, h a List.mem_cons_self, List.filter_cons]
      cases hr : r a with
      | true =>
        rw [if_pos rfl, List.reverse_cons, List.append_assoc]
        exact hrest (a :: kept)
      | false => exact hrest kept
  rw [List.filterM, aux l [] h, List.append_nil]
  show Except.ok (l.filter r).reverse.reverse = _
  rw [List.reverse_reverse]

/-- A loop that carries a state, and an invariant of the state. -/
theorem foldlM_eq_ok (I : σ → Prop) {f : σ → α → Except ε σ} {g : σ → α → σ} {l : List α} {s : σ}
    (hs : I s) (h : ∀ a ∈ l, ∀ s, I s → f s a = .ok (g s a) ∧ I (g s a)) :
    l.foldlM f s = .ok (l.foldl g s) ∧ I (l.foldl g s) := by
  induction l generalizing s with
  | nil => exact ⟨rfl, hs⟩
  | cons a l ih =>
    obtain ⟨hstep, hnext⟩ := h a List.mem_cons_self s hs
    rw [List.foldlM_cons, hstep, List.foldl_cons]
    exact ih hnext fun a' ha' => h a' (List.mem_cons_of_mem a ha')

/-- Takes rounds until there is nothing left to do.  A round that does not make the work smaller is
    a fault. -/
def drain (work : σ → Nat) (stuck : ε) (round : σ → Except ε (Option σ)) (s : σ) : Except ε σ :=
  match round s with
  | .error fault => .error fault
  | .ok none => .ok s
  | .ok (some next) =>
    if work next < work s then drain work stuck round next else .error stuck
  termination_by work s

/-- A loop ends, with nothing left to do, if every round does less than was left to do; and what
    every round keeps is true in the end. -/
theorem exists_drain_eq_ok (I : σ → Prop) {work : σ → Nat} (stuck : ε)
    {round : σ → Except ε (Option σ)}
    (h : ∀ s, I s → round s = .ok none ∨
      ∃ next, round s = .ok (some next) ∧ work next < work s ∧ I next)
    {s : σ} (hs : I s) :
    ∃ last, drain work stuck round s = .ok last ∧ I last ∧ round last = .ok none := by
  induction hwork : work s using Nat.strongRecOn generalizing s with
  | ind n ih =>
    rw [drain]
    rcases h s hs with hdone | ⟨next, hround, hless, hnext⟩
    · rw [hdone]
      exact ⟨s, rfl, hs, hdone⟩
    · rw [hround]
      dsimp only
      rw [if_pos hless]
      exact ih (work next) (hwork ▸ hless) hnext rfl

/-- A loop ends as it is said to if every round does less than was left to do and does not change
    what the loop is to end with. -/
theorem drain_eq_ok (I : σ → Prop) (final : σ → σ) {work : σ → Nat} {stuck : ε}
    {round : σ → Except ε (Option σ)}
    (h : ∀ s, I s → (round s = .ok none ∧ final s = s) ∨
      ∃ next, round s = .ok (some next) ∧ work next < work s ∧ I next ∧ final s = final next)
    {s : σ} (hs : I s) : drain work stuck round s = .ok (final s) ∧ I (final s) := by
  have hrounds : ∀ r, I r ∧ final s = final r → round r = .ok none ∨
      ∃ next, round r = .ok (some next) ∧ work next < work r ∧ I next ∧ final s = final next := by
    rintro r ⟨hr, hfinal⟩
    rcases h r hr with ⟨hdone, -⟩ | ⟨next, hround, hless, hnext, hsame⟩
    · exact .inl hdone
    · exact .inr ⟨next, hround, hless, hnext, hfinal.trans hsame⟩
  obtain ⟨last, hdrain, ⟨hlast, hfinal⟩, hdone⟩ :=
    exists_drain_eq_ok _ stuck hrounds ⟨hs, rfl⟩
  obtain rfl : final s = last := by
    rcases h last hlast with ⟨-, hsame⟩ | ⟨next, hround, -⟩
    · exact hfinal.trans hsame
    · cases hdone.symm.trans hround
  exact ⟨hdrain, hlast⟩

end DotLayout.Layout
