import DotLayout.Proofs.Layout.Checked.Formula
import DotLayout.Proofs.Layout.LongestWalk

/-! # Checked levels

    The levels are kept in a table, and another table marks the roots.  The queue holds numbers of
    nodes only, so every access finds an entry; and every round that a node leaves the queue makes
    the work smaller, so the queue runs empty.

    * `seed_eq` : marking the roots one by one, each the first time that it comes.
    * `visit_eq` : a visit in bounds is a visit of the run over tables without bounds.
    * `levels_eq` : so the levels are found on every topology. -/

namespace DotLayout.Layout.Checked

open Engine

variable {t : Topology} {roots : List Nat}

/-- Gives a level to a node, which joins the queue. -/
def raise (p : Progress) (i level : Nat) : Except Fault Progress := do
  return ⟨(← store p.levels.toList i (some level)).toArray, p.queue ++ [i]⟩

/-- Marks a root and gives it the level zero, unless it is marked or no node. -/
def seed (count : Nat) (start : List Bool × Progress) (root : Nat) :
    Except Fault (List Bool × Progress) :=
  if root < count then do
    if ← fetch start.1 root then return start
    return (← store start.1 root true, ← raise start.2 root 0)
  else return start

/-- Asks a node for a level. -/
def ask (isRoot : List Bool) (level : Nat) (p : Progress) (i : Nat) : Except Fault Progress := do
  if ← fetch isRoot i then return p
  match ← fetch p.levels.toList i with
  | some current => if level ≤ current then return p else raise p i level
  | none => raise p i level

/-- A visit of a node asks each node that it leads to for a deeper level. -/
def visit (t : Topology) (isRoot : List Bool) (node : Nat) (p : Progress) :
    Except Fault Progress := do
  match ← fetch p.levels.toList node with
  | none => return p
  | some level => (t.successors node).foldlM (ask isRoot (min (level + 1) (t.count - 1))) p

/-- Takes the next node of the queue. -/
def round (t : Topology) (isRoot : List Bool) (p : Progress) : Except Fault (Option Progress) :=
  match p.queue with
  | [] => return none
  | node :: queue => return some (← visit t isRoot node ⟨p.levels, queue⟩)

/-- The levels above some roots, found by visits until the queue is empty. -/
def levels (t : Topology) (roots : List Nat) : Except Fault Levels := do
  let (isRoot, start) ← roots.foldlM (seed t.count)
    (List.replicate t.count false, ⟨Array.replicate t.count none, []⟩)
  let settled ← drain (Progress.work · (t.count - 1)) .stuck (round t isRoot) start
  return settled.levels

/-! ## The roots -/

/-- An entry that is there can be raised. -/
theorem raise_eq {p : Progress} {i : Nat} (h : i < p.levels.size) (level : Nat) :
    raise p i level = .ok (p.raise i level) := by
  have hlevels : (p.levels.toList.set i (some level)).toArray
      = p.levels.setIfInBounds i (some level) := by
    rw [← Array.toList_inj, Array.toList_setIfInBounds]
  rw [raise, store_eq h, ok_bind, hlevels]
  rfl

/-- The table of the marks of some roots. -/
def marks (count : Nat) (roots : List Nat) : List Bool := (List.range count).map (roots.contains ·)

/-- The table of marks has an entry for every node, which says whether it is a root. -/
theorem getElem?_marks {count i : Nat} (h : i < count) (roots : List Nat) :
    (marks count roots)[i]? = some (roots.contains i) := by
  rw [marks, List.getElem?_map, List.getElem?_range h]
  rfl

/-- One more root sets one more mark. -/
theorem marks_concat (count : Nat) (roots : List Nat) (root : Nat) :
    marks count (roots ++ [root]) = (marks count roots).set root true := by
  refine List.ext_getElem (by simp [marks]) fun i hi hi' => ?_
  by_cases h : root = i
  · simp [marks, h]
  · simp [marks, List.getElem_set_ne h, Ne.symm h]

/-- One more root sets its level, unless it was a root before. -/
theorem levels_sources_concat (count : Nat) (roots : List Nat) (root : Nat) :
    (sources count (roots ++ [root])).levels
      = if root < count ∧ root ∉ roots
        then (sources count roots).levels.setIfInBounds root (some 0)
        else (sources count roots).levels := by
  refine Array.ext_getElem? fun i => ?_
  by_cases hlt : i < count
  · split
    · rename_i hnew
      rw [Array.getElem?_setIfInBounds]
      by_cases h : root = i
      · simp [sources, hlt, h]
      · simp [sources, hlt, h, Ne.symm h]
    · rename_i hold
      have hmem : i = root → root ∈ roots := fun heq => by
        by_contra hnot
        exact hold ⟨heq ▸ hlt, hnot⟩
      by_cases h : i = root
      · have hroot := hmem h
        subst h
        simp [sources, hlt, hroot]
      · simp [sources, hlt, h]
  · split <;> simp [sources, hlt]

/-- One more root joins the queue, unless it was a root before. -/
theorem queue_sources_concat (count : Nat) (roots : List Nat) (root : Nat) :
    (sources count (roots ++ [root])).queue
      = if root < count ∧ root ∉ roots then (sources count roots).queue ++ [root]
        else (sources count roots).queue := by
  simp only [sources, List.filter_append]
  by_cases hlt : root < count
  · by_cases hmem : root ∈ roots
    · simp [hlt, hmem, eraseDups_concat]
    · simp [hlt, hmem, eraseDups_concat]
  · simp [hlt]

/-- A root that comes last counts if it is a new node. -/
theorem sources_concat (count : Nat) (roots : List Nat) (root : Nat) :
    sources count (roots ++ [root])
      = if root < count ∧ root ∉ roots then (sources count roots).raise root 0
        else sources count roots := by
  have hlevels := levels_sources_concat count roots root
  have hqueue := queue_sources_concat count roots root
  split
  · rename_i hnew
    rw [if_pos hnew] at hlevels hqueue
    rw [Progress.raise, ← hlevels, ← hqueue]
  · rename_i hold
    rw [if_neg hold] at hlevels hqueue
    generalize sources count (roots ++ [root]) = p at *
    cases p
    dsimp only at hlevels hqueue
    rw [hlevels, hqueue]

/-- Marking the roots one by one gives their marks, their levels and the queue. -/
theorem seed_eq (count : Nat) (roots : List Nat) :
    roots.foldlM (seed count) (List.replicate count false, ⟨Array.replicate count none, []⟩)
      = .ok (marks count roots, sources count roots) := by
  -- from the last root backwards
  induction roots using List.reverseRecOn with
  | nil =>
    have hmarks : marks count [] = List.replicate count false := by
      simp [marks]
    have hsources : sources count [] = ⟨Array.replicate count none, []⟩ := by
      simp [sources, ← Array.toList_inj]
    rw [hmarks, hsources]
    rfl
  | append_singleton roots root ih =>
    have hlength : (marks count roots).length = count := by simp [marks]
    have hsize : (sources count roots).levels.size = count := by simp [sources]
    rw [List.foldlM_append, ih, ok_bind, List.foldlM_cons, sources_concat, marks_concat, seed]
    by_cases hlt : root < count
    · rw [if_pos hlt, fetch_eq (getElem?_marks hlt roots), ok_bind]
      by_cases hmem : root ∈ roots
      · have hmarked : (marks count roots)[root]? = some true := by
          rw [getElem?_marks hlt, List.contains_iff_mem.2 hmem]
        obtain ⟨hi, hentry⟩ := List.getElem?_eq_some_iff.1 hmarked
        have hset : (marks count roots).set root true = marks count roots := by
          rw [← hentry, List.set_getElem_self]
        rw [List.contains_iff_mem.2 hmem, if_pos rfl, if_neg fun h => h.2 hmem, hset]
        rfl
      · have hfree : ¬ roots.contains root = true := fun h => hmem (List.contains_iff_mem.1 h)
        have hmark : root < (marks count roots).length := by omega
        have hraise := raise_eq (p := sources count roots) (i := root) (by omega) 0
        rw [if_neg hfree, store_eq hmark, ok_bind, hraise, if_pos ⟨hlt, hmem⟩]
        rfl
    · rw [if_neg hlt, if_neg fun h => hlt h.1, List.set_eq_of_length_le (by omega)]
      rfl

/-! ## Visits -/

/-- A run between so many nodes. -/
structure Within (count : Nat) (p : Progress) : Prop where
  size : p.levels.size = count
  queue : ∀ i ∈ p.queue, i < count

/-- Raising a node keeps the tables in bounds. -/
theorem within_raise {count i : Nat} {p : Progress} (h : Within count p) (hi : i < count)
    (level : Nat) : Within count (p.raise i level) where
  size := by rw [Progress.raise, Array.size_setIfInBounds, h.size]
  queue := by
    intro j hj
    rcases List.mem_append.1 hj with hold | hnew
    · exact h.queue j hold
    · rwa [List.mem_singleton.1 hnew]

/-- The level of a node can be read. -/
theorem fetch_levels {count i : Nat} {p : Progress} (h : Within count p) (hi : i < count) :
    fetch p.levels.toList i = .ok (p.levels.at i) := by
  have hlt : i < p.levels.toList.length := by
    rw [Array.length_toList, h.size]
    exact hi
  rw [fetch_eq (List.getElem?_eq_getElem hlt), Levels.at, ← Array.getElem?_toList,
    List.getElem?_eq_getElem hlt]
  rfl

/-- Asking a node succeeds and keeps the tables in bounds. -/
theorem ask_eq {f : Flow} {isRoot : List Bool} {count i : Nat} {p : Progress} (h : Within count p)
    (hi : i < count) (hroot : isRoot[i]? = some (f.roots.contains i)) (level : Nat) :
    ask isRoot level p i = .ok (f.ask level p i) ∧ Within count (f.ask level p i) := by
  have hsize : i < p.levels.size := by
    rw [h.size]
    exact hi
  have hraise := raise_eq hsize level
  have hwithin := within_raise h hi level
  rw [ask, fetch_eq hroot, ok_bind, fetch_levels h hi, ok_bind, Flow.ask, Levels.at,
    Array.getElem?_eq_getElem hsize]
  by_cases hr : f.roots.contains i = true
  · rw [if_pos hr, if_pos hr]
    exact ⟨rfl, h⟩
  · rw [if_neg hr, if_neg hr]
    cases p.levels[i] with
    | none => exact ⟨hraise, hwithin⟩
    | some current =>
      dsimp only [Option.join_some]
      split
      · exact ⟨rfl, h⟩
      · exact ⟨hraise, hwithin⟩

/-- Visiting a node succeeds and keeps the tables in bounds. -/
theorem visit_eq (roots : List Nat) {p : Progress} {node : Nat}
    (hedges : ∀ e ∈ t.edges, e.1 < t.count ∧ e.2 < t.count) (h : Within t.count p)
    (hnode : node < t.count) :
    visit t (marks t.count roots) node p = .ok ((flow t.count roots t.edges).visit node p)
      ∧ Within t.count ((flow t.count roots t.edges).visit node p) := by
  have htargets : (flow t.count roots t.edges).targets[node]?.getD [] = t.successors node := by
    simp [flow, hnode, targetsFrom, Topology.successors]
  rw [visit, fetch_levels h hnode, ok_bind, Flow.visit, htargets]
  cases p.levels.at node with
  | none => exact ⟨rfl, h⟩
  | some level =>
    refine foldlM_eq_ok (Within t.count) h fun i hi p hp => ?_
    have hlt : i < t.count := by
      obtain ⟨e, he, rfl⟩ := List.mem_map.1 hi
      exact (hedges e (List.mem_filter.1 (List.mem_reverse.1 he)).1).2
    exact ask_eq (f := flow t.count roots t.edges) hp hlt (getElem?_marks hlt roots) _

/-- The levels are found on every topology: no table is left, and the queue runs empty. -/
theorem levels_eq (hedges : ∀ e ∈ t.edges, e.1 < t.count ∧ e.2 < t.count) (roots : List Nat) :
    levels t roots = .ok (Layout.levels t.count roots t.edges) := by
  have hstart : Within t.count (sources t.count roots) := by
    refine ⟨by simp [sources], fun i hi => ?_⟩
    exact of_decide_eq_true (List.mem_filter.1 (List.mem_eraseDups.1 hi)).2
  have hdrain : drain (Progress.work · (t.count - 1)) Fault.stuck (round t (marks t.count roots))
      (sources t.count roots)
      = .ok ⟨(flow t.count roots t.edges).settle (sources t.count roots), []⟩ := by
    -- The queue and all arrows stay below the count, so no round meets an index out of bounds.
    refine (drain_eq_ok (Within t.count)
      (fun p => ⟨(flow t.count roots t.edges).settle p, []⟩) (fun p hp => ?_) hstart).1
    obtain ⟨levels, queue⟩ := p
    cases queue with
    | nil =>
      left
      refine ⟨rfl, ?_⟩
      rw [Flow.settle]
    | cons node queue =>
      right
      have hnode := hp.queue node List.mem_cons_self
      have hrest : Within t.count ⟨levels, queue⟩ :=
        ⟨hp.size, fun i hi => hp.queue i (List.mem_cons_of_mem node hi)⟩
      obtain ⟨hvisit, hnext⟩ := visit_eq roots hedges hrest hnode
      -- a visit never adds work, and taking the node off the queue removes some
      have hless := Flow.work_visit_le (flow t.count roots t.edges) node ⟨levels, queue⟩
      refine ⟨_, ?_, ?_, hnext, ?_⟩
      · rw [round]
        dsimp only
        rw [hvisit]
        rfl
      · refine Nat.lt_of_le_of_lt hless ?_
        simp only [Progress.work, List.length_cons]
        exact Nat.lt_succ_self _
      · rw [Flow.settle]
  rw [levels, seed_eq, ok_bind]
  dsimp only
  rw [hdrain]
  rfl

end DotLayout.Layout.Checked
