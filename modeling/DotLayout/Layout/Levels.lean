/-! # Levels

    The level of a node is the length of the longest walk that leads to it from a root and meets
    no root on the way; walks around a cycle do not raise a level beyond the number of nodes minus
    one.  A root has level zero, and a node that no root leads to has no level.

    `levels` starts a queue with the roots.  The node at its front asks the targets of its arrows
    for one level more than its own, and every target that this raises joins the queue again.  A
    raise uses up room below the cap, so `Progress.work` falls with each node that leaves the queue,
    and the run ends on every graph. -/

namespace DotLayout.Layout

abbrev Levels := Array (Option Nat)

def Levels.at (levels : Levels) (i : Nat) : Option Nat := (levels[i]?).join

/-- The targets of the arrows out of a node, the newest arrow first. -/
def targetsFrom (arrows : List (Nat × Nat)) (i : Nat) : List Nat :=
  (arrows.filter fun a => a.1 == i).reverse.map Prod.snd

/-- What levels spread along: the roots, the highest level, and the targets of the arrows out of
    each node. -/
structure Flow where
  roots : List Nat
  cap : Nat
  targets : Array (List Nat)

/-- How far a run has come. -/
structure Progress where
  levels : Levels
  /-- The nodes whose arrows are to be followed because their level is new. -/
  queue : List Nat

namespace Progress

def raise (p : Progress) (i level : Nat) : Progress :=
  ⟨p.levels.setIfInBounds i (some level), p.queue ++ [i]⟩

/-- How often a node can still be raised. -/
def room (cap : Nat) : Option Nat → Nat
  | none => cap + 1
  | some level => cap - level

/-- What is left to do at most: every raise that there is room for adds one visit, and weighs two so
    that it costs more than it adds. -/
def work (p : Progress) (cap : Nat) : Nat :=
  2 * p.levels.toList.foldr (fun level rest => room cap level + rest) 0 + p.queue.length

end Progress

/-- Setting one value of a list moves its weight by the difference that this value makes. -/
theorem foldr_set {α : Type} {l : List α} {i : Nat} {old : α} (weight : α → Nat) (new : α)
    (h : l[i]? = some old) :
    (l.set i new).foldr (fun a rest => weight a + rest) 0 + weight old
      = l.foldr (fun a rest => weight a + rest) 0 + weight new := by
  induction l generalizing i with
  | nil => simp at h
  | cons a l ih =>
    cases i with
    | zero =>
      obtain rfl : a = old := by simpa using h
      simp only [List.set_cons_zero, List.foldr_cons]
      omega
    | succ i =>
      have rest := ih (i := i) (by simpa using h)
      simp only [List.set_cons_succ, List.foldr_cons]
      omega

namespace Flow

/-- Asks a node for a level.  A root stays where it is, and so does a node that is high enough. -/
def ask (f : Flow) (level : Nat) (p : Progress) (i : Nat) : Progress :=
  if f.roots.contains i then p
  else
    match p.levels[i]? with
    | none => p
    | some none => p.raise i level
    | some (some current) => if level ≤ current then p else p.raise i level

/-- The level that a node on the given level asks its targets for. -/
def next (f : Flow) (level : Nat) : Nat := min (level + 1) f.cap

def visit (f : Flow) (node : Nat) (p : Progress) : Progress :=
  match p.levels.at node with
  | none => p
  | some level => ((f.targets[node]?).getD []).foldl (f.ask (f.next level)) p

theorem next_le_cap (f : Flow) (level : Nat) : f.next level ≤ f.cap := Nat.min_le_right ..

/-- A raise within the cap uses up more than the visit that it adds. -/
theorem work_raise_lt {cap level i : Nat} {old : Option Nat} {p : Progress}
    (hold : p.levels[i]? = some old)
    (hroom : Progress.room cap (some level) < Progress.room cap old) :
    (p.raise i level).work cap < p.work cap := by
  have hweight := foldr_set (Progress.room cap) (some level)
    (show p.levels.toList[i]? = some old by simpa using hold)
  simp only [Progress.work, Progress.raise, Array.toList_setIfInBounds, List.length_append,
    List.length_singleton]
  omega

/-- Asking for a level within the cap never adds work. -/
theorem work_ask_le (f : Flow) {level : Nat} (hcap : level ≤ f.cap) (p : Progress) (i : Nat) :
    (f.ask level p i).work f.cap ≤ p.work f.cap := by
  unfold ask
  split
  · exact Nat.le_refl _
  split
  · exact Nat.le_refl _
  · rename_i hnone
    exact Nat.le_of_lt (work_raise_lt hnone (by simp only [Progress.room]; omega))
  · rename_i current hsome
    split
    · exact Nat.le_refl _
    · exact Nat.le_of_lt (work_raise_lt hsome (by simp only [Progress.room]; omega))

theorem work_visit_le (f : Flow) (node : Nat) (p : Progress) :
    (f.visit node p).work f.cap ≤ p.work f.cap := by
  have fold : ∀ (targets : List Nat) {level : Nat}, level ≤ f.cap → ∀ p : Progress,
      (targets.foldl (f.ask level) p).work f.cap ≤ p.work f.cap := by
    intro targets level hcap
    induction targets with
    | nil => exact fun p => Nat.le_refl _
    | cons i targets ih => exact fun p => Nat.le_trans (ih _) (work_ask_le f hcap p i)
  unfold visit
  split
  · exact Nat.le_refl _
  · exact fold _ (f.next_le_cap _) p

/-- Visits the nodes of the queue until none is left. -/
def settle (f : Flow) (p : Progress) : Levels :=
  match _h : p.queue with
  | [] => p.levels
  | node :: queue => f.settle (f.visit node ⟨p.levels, queue⟩)
  termination_by p.work f.cap
  decreasing_by
    have := work_visit_le f node ⟨p.levels, queue⟩
    simp only [Progress.work, _h, List.length_cons] at *
    omega

end Flow

/-- The flow of levels along arrows between so many nodes. -/
def flow (count : Nat) (roots : List Nat) (arrows : List (Nat × Nat)) : Flow where
  roots := roots
  cap := count - 1
  targets := (Array.range count).map (targetsFrom arrows)

/-- How a run starts: the roots have level zero and are visited first. -/
def sources (count : Nat) (roots : List Nat) : Progress where
  levels := (Array.range count).map fun i => if roots.contains i then some 0 else none
  queue := (roots.filter fun i => i < count).eraseDups

/-- The levels of so many nodes above the given roots. -/
def levels (count : Nat) (roots : List Nat) (arrows : List (Nat × Nat)) : Levels :=
  (flow count roots arrows).settle (sources count roots)

end DotLayout.Layout
