import DotLayout.Layout.Levels
import Mathlib.Data.List.Perm.Subperm
import Mathlib.Logic.Relation
import Mathlib.Order.Bounds.Basic

/-! # Levels are longest walks

    A level is the length of the longest walk from a root that meets no root after its start,
    where lengths count at most up to the number of nodes minus one.

    * `Settling` is what every step of a run keeps: no level exceeds what a walk accounts for, and
      an arrow out of a node that does not wait in the queue is satisfied, unless it is still due.
    * `settling_ask` follows one arrow, `settling_visit` all arrows out of a node, and
      `settled_settle` a whole run; the queue is empty then, so every arrow is satisfied.
    * Without a cycle a walk meets no node twice, so the cap does not bind. -/

namespace DotLayout.Layout

variable {count : Nat} {roots : List Nat} {arrows : List (Nat × Nat)}

/-- The arrow from one of so many nodes to another one. -/
def Joins (count : Nat) (arrows : List (Nat × Nat)) (i j : Nat) : Prop :=
  (i, j) ∈ arrows ∧ i < count ∧ j < count

/-- A walk of so many arrows that leads from a root to a node and meets no root after its start. -/
inductive Walk (count : Nat) (roots : List Nat) (arrows : List (Nat × Nat)) : Nat → Nat → Prop where
  | root {i : Nat} : i ∈ roots → i < count → Walk count roots arrows 0 i
  | step {k i j : Nat} :
      Walk count roots arrows k i → Joins count arrows i j → j ∉ roots →
        Walk count roots arrows (k + 1) j

/-- No walk along the arrows leads back to where it started. -/
def Acyclic (count : Nat) (arrows : List (Nat × Nat)) : Prop :=
  ∀ i, ¬ Relation.TransGen (Joins count arrows) i i

/-- A walk ends at a node. -/
theorem Walk.lt_count {k i : Nat} (h : Walk count roots arrows k i) : i < count := by
  cases h with
  | root _ hi => exact hi
  | step _ hj _ => exact hj.2.2

/-! ## One arrow, one node, one run -/

/-- What a run keeps.  The arrows in `due` are those out of the visited node that are yet to be
    followed. -/
structure Settling (count : Nat) (roots : List Nat) (arrows due : List (Nat × Nat))
    (p : Progress) : Prop where
  size : p.levels.size = count
  root : ∀ i ∈ roots, i < count → p.levels.at i = some 0
  walk : ∀ i l, p.levels.at i = some l → ∃ k, Walk count roots arrows k i ∧ l = min k (count - 1)
  arrow : ∀ i l, p.levels.at i = some l → i ∉ p.queue → ∀ j, Joins count arrows i j → j ∉ roots →
    (i, j) ∉ due → ∃ m, p.levels.at j = some m ∧ min (l + 1) (count - 1) ≤ m

/-- A node that is raised has its new level. -/
theorem at_raise_self {p : Progress} {i level : Nat} {old : Option Nat}
    (h : p.levels[i]? = some old) : (p.raise i level).levels.at i = some level := by
  obtain ⟨hi, -⟩ := Array.getElem?_eq_some_iff.1 h
  simp [Levels.at, Progress.raise, hi]

theorem at_raise_of_ne {p : Progress} {i j level : Nat} (h : i ≠ j) :
    (p.raise j level).levels.at i = p.levels.at i := by
  simp [Levels.at, Progress.raise, h.symm]

/-- What an entry of the levels says is the level found there. -/
theorem at_of_getElem? {levels : Levels} {i : Nat} {level : Option Nat}
    (h : levels[i]? = some level) : levels.at i = level := by
  simp [Levels.at, h]

/-- A node with a level has an entry. -/
theorem lt_size_of_at {levels : Levels} {i l : Nat} (h : levels.at i = some l) :
    i < levels.size := by
  by_contra hi
  simp [Levels.at, Array.getElem?_eq_none (Nat.le_of_not_lt hi)] at h

/-- Raising a node to what a visited one asks for follows the arrow between them. -/
theorem settling_raise {due : List (Nat × Nat)} {p : Progress} {node l j : Nat} {old : Option Nat}
    (h : Settling count roots arrows ((node, j) :: due) p)
    (hnode : p.levels.at node = some l ∨ node ∈ p.queue)
    (hwalk : ∃ k, Walk count roots arrows k node ∧ l = min k (count - 1))
    (harrow : (node, j) ∈ arrows) (hroot : j ∉ roots) (hj : p.levels[j]? = some old)
    (hold : ∀ m, old = some m → m < min (l + 1) (count - 1)) :
    Settling count roots arrows due (p.raise j (min (l + 1) (count - 1))) := by
  obtain ⟨k, hk, rfl⟩ := hwalk
  have hjoins : Joins count arrows node j := by
    refine ⟨harrow, hk.lt_count, ?_⟩
    rw [← h.size]
    exact (Array.getElem?_eq_some_iff.1 hj).1
  refine ⟨?_, ?_, ?_, ?_⟩
  · simp [Progress.raise, h.size]
  · -- no root is raised
    intro i hi hlt
    have hne : i ≠ j := fun heq => hroot (heq ▸ hi)
    rw [at_raise_of_ne hne]
    exact h.root i hi hlt
  · -- the walk to `node` and the arrow make a walk to `j`
    intro i m hm
    by_cases hij : i = j
    · subst hij
      rw [at_raise_self hj] at hm
      obtain rfl := Option.some.inj hm
      exact ⟨k + 1, .step hk hjoins hroot, by omega⟩
    · rw [at_raise_of_ne hij] at hm
      exact h.walk i m hm
  · -- Arrows out of `j` wait, as `j` is queued; an arrow into `j` meets a higher level than before.
    intro i m hm hqueue t hit ht hdue
    have hi : i ∉ p.queue ∧ i ≠ j := by simpa [Progress.raise] using hqueue
    rw [at_raise_of_ne hi.2] at hm
    by_cases htj : t = j
    · subst htj
      refine ⟨_, at_raise_self hj, ?_⟩
      by_cases hin : i = node
      · -- the arrow that is followed right now
        subst hin
        have hl := hnode.resolve_right hi.1
        obtain rfl := Option.some.inj (hm.symm.trans hl)
        exact Nat.le_refl _
      · obtain ⟨m', hm', hle⟩ := h.arrow i m hm hi.1 t hit ht (by simp [hin, hdue])
        have := hold m' ((at_of_getElem? hj).symm.trans hm')
        omega
    · rw [at_raise_of_ne htj]
      exact h.arrow i m hm hi.1 t hit ht (by simp [htj, hdue])

/-- An arrow whose target needs no raise is followed already. -/
theorem settling_keep {due : List (Nat × Nat)} {p : Progress} {node l j : Nat}
    (h : Settling count roots arrows ((node, j) :: due) p)
    (hnode : p.levels.at node = some l ∨ node ∈ p.queue)
    (hj : Joins count arrows node j → j ∉ roots →
      ∃ m, p.levels.at j = some m ∧ min (l + 1) (count - 1) ≤ m) :
    Settling count roots arrows due p := by
  refine ⟨h.size, h.root, h.walk, ?_⟩
  intro i m hm hqueue t hit ht hdue
  by_cases heq : (i, t) = (node, j)
  · obtain ⟨rfl, rfl⟩ := Prod.mk.inj heq
    have hl := hnode.resolve_right hqueue
    obtain rfl := Option.some.inj (hm.symm.trans hl)
    exact hj hit ht
  · exact h.arrow i m hm hqueue t hit ht (by simpa [hdue] using heq)

/-- Asking the target of an arrow follows it. -/
theorem settling_ask {due : List (Nat × Nat)} {p : Progress} {node l j : Nat}
    (h : Settling count roots arrows ((node, j) :: due) p)
    (hnode : p.levels.at node = some l ∨ node ∈ p.queue)
    (hwalk : ∃ k, Walk count roots arrows k node ∧ l = min k (count - 1))
    (harrow : (node, j) ∈ arrows) :
    Settling count roots arrows due
      ((flow count roots arrows).ask (min (l + 1) (count - 1)) p j) := by
  unfold Flow.ask
  split
  · -- nothing flows into a root
    rename_i hroot
    exact settling_keep h hnode fun _ hj => absurd (by simpa [flow] using hroot) hj
  rename_i hroot
  have hroot : j ∉ roots := by simpa [flow] using hroot
  split
  · -- no node has this index, so the arrow joins nothing
    rename_i hnone
    refine settling_keep h hnode fun hj _ => absurd hj.2.2 ?_
    rw [← h.size]
    exact Nat.not_lt.2 (Array.getElem?_eq_none_iff.1 hnone)
  · -- the first level `j` gets
    rename_i hnone
    exact settling_raise h hnode hwalk harrow hroot hnone (by simp)
  · rename_i current hsome
    -- a level that is high enough stays, and a lower one is raised
    split
    · rename_i hle
      exact settling_keep h hnode fun _ _ => ⟨current, at_of_getElem? hsome, hle⟩
    · rename_i hlt
      refine settling_raise h hnode hwalk harrow hroot hsome ?_
      intro m hm
      obtain rfl := Option.some.inj hm
      exact Nat.lt_of_not_le hlt

/-- While the targets of a node are asked, the node keeps its level or waits in the queue. -/
theorem held_ask (f : Flow) {p : Progress} {node l level j : Nat}
    (h : p.levels.at node = some l ∨ node ∈ p.queue) :
    (f.ask level p j).levels.at node = some l ∨ node ∈ (f.ask level p j).queue := by
  have raised : (p.raise j level).levels.at node = some l ∨ node ∈ (p.raise j level).queue := by
    by_cases hj : node = j
    · exact Or.inr (by simp [Progress.raise, hj])
    · rw [at_raise_of_ne hj]
      exact h.imp id fun hq => by simp [Progress.raise, hq]
  unfold Flow.ask
  split
  · exact h
  split
  · exact h
  · exact raised
  · split
    · exact h
    · exact raised

/-- Asking the targets of a node one after the other follows all arrows out of it. -/
theorem settling_foldl {node l : Nat} :
    ∀ (targets : List Nat) (p : Progress),
      Settling count roots arrows (targets.map fun j => (node, j)) p →
      (p.levels.at node = some l ∨ node ∈ p.queue) →
      (∃ k, Walk count roots arrows k node ∧ l = min k (count - 1)) →
      (∀ j ∈ targets, (node, j) ∈ arrows) →
      Settling count roots arrows []
        (targets.foldl ((flow count roots arrows).ask (min (l + 1) (count - 1))) p) := by
  intro targets
  induction targets with
  | nil =>
      intro p h _ _ _
      exact h
  | cons j targets ih =>
      intro p h hnode hwalk harrow
      refine ih _ ?_ (held_ask _ hnode) hwalk fun t ht => harrow t (List.mem_cons_of_mem j ht)
      exact settling_ask h hnode hwalk (harrow j List.mem_cons_self)

/-- The targets from a node are those that arrows lead to from it. -/
theorem mem_targetsFrom {i j : Nat} : j ∈ targetsFrom arrows i ↔ (i, j) ∈ arrows := by
  simp only [targetsFrom, List.map_reverse, List.mem_reverse, List.mem_map, List.mem_filter,
    beq_iff_eq]
  constructor
  · rintro ⟨a, ⟨ha, rfl⟩, rfl⟩
    exact ha
  · intro h
    exact ⟨(i, j), ⟨h, rfl⟩, rfl⟩

/-- Visiting the node at the front of the queue makes up for taking it out. -/
theorem settling_visit {p : Progress} {node : Nat} {queue : List Nat}
    (h : Settling count roots arrows [] p) (hq : p.queue = node :: queue) :
    Settling count roots arrows []
      ((flow count roots arrows).visit node ⟨p.levels, queue⟩) := by
  -- without the node in the queue, the arrows out of it are due
  have popped : Settling count roots arrows ((targetsFrom arrows node).map fun j => (node, j))
      ⟨p.levels, queue⟩ := by
    refine ⟨h.size, h.root, h.walk, ?_⟩
    intro i m hm hqueue j hij hj hdue
    have hi : i ≠ node := by
      rintro rfl
      exact hdue (List.mem_map.2 ⟨j, mem_targetsFrom.2 hij.1, rfl⟩)
    exact h.arrow i m hm (by simp [hq, hi, hqueue]) j hij hj (by simp)
  rw [Flow.visit]
  split
  · rename_i hnone
    have hnone : p.levels.at node = none := hnone
    refine ⟨h.size, h.root, h.walk, ?_⟩
    intro i m hm hqueue
    have hi : i ≠ node := by
      rintro rfl
      exact nomatch hnone.symm.trans hm
    exact h.arrow i m hm (by simp [hq, hi, hqueue])
  · rename_i l hl
    have hl : p.levels.at node = some l := hl
    have hlt : node < count := h.size ▸ lt_size_of_at hl
    have htargets : ((flow count roots arrows).targets[node]?).getD []
        = targetsFrom arrows node := by
      simp [flow, hlt]
    rw [htargets]
    exact settling_foldl _ _ popped (Or.inl hl) (h.walk node l hl) fun j hj => mem_targetsFrom.1 hj

/-- Settling with an empty queue leaves the levels settled. -/
theorem settled_settle {p : Progress} (h : Settling count roots arrows [] p) :
    Settling count roots arrows [] ⟨(flow count roots arrows).settle p, []⟩ := by
  fun_induction Flow.settle (flow count roots arrows) p with
  | case1 p hq => exact ⟨h.size, h.root, h.walk, by simpa [hq] using h.arrow⟩
  | case2 p node queue hq ih => exact ih (settling_visit h hq)

/-- A run starts with the roots on level zero and in the queue. -/
theorem settling_sources : Settling count roots arrows [] (sources count roots) := by
  have hat : ∀ i, (sources count roots).levels.at i
      = if i < count ∧ i ∈ roots then some 0 else none := by
    intro i
    by_cases hi : i < count <;> by_cases hr : i ∈ roots <;> simp [sources, Levels.at, hi, hr]
  refine ⟨by simp [sources], ?_, ?_, ?_⟩
  · intro i hi hlt
    rw [hat, if_pos ⟨hlt, hi⟩]
  · intro i l hl
    rw [hat] at hl
    split at hl
    · rename_i hi
      obtain rfl := Option.some.inj hl
      exact ⟨0, .root hi.2 hi.1, by omega⟩
    · exact nomatch hl
  · -- only the roots have a level, and they are all in the queue
    intro i l hl hqueue
    rw [hat] at hl
    split at hl
    · rename_i hi
      exact absurd (List.mem_eraseDups.2 (by simp [hi])) hqueue
    · exact nomatch hl

/-- The levels are settled, and no node is left in the queue. -/
theorem settled_levels : Settling count roots arrows [] ⟨levels count roots arrows, []⟩ :=
  settled_settle settling_sources

/-! ## Walks and levels -/

/-- Every walk is accounted for by the level of the node where it ends. -/
theorem le_level_of_walk {k i : Nat} (h : Walk count roots arrows k i) :
    ∃ l, (levels count roots arrows).at i = some l ∧ min k (count - 1) ≤ l := by
  -- along the walk: the queue is empty, so each of its arrows has been followed
  induction h with
  | root hr hi => exact ⟨0, settled_levels.root _ hr hi, by omega⟩
  | @step k i j _ hij hj ih =>
      obtain ⟨l, hl, hle⟩ := ih
      obtain ⟨m, hm, hle'⟩ :=
        settled_levels.arrow i l hl List.not_mem_nil j hij hj List.not_mem_nil
      exact ⟨m, hm, by omega⟩

/-- A level is the largest of the capped lengths of walks. -/
theorem at_levels_iff {i l : Nat} :
    (levels count roots arrows).at i = some l
      ↔ IsGreatest {m | ∃ k, Walk count roots arrows k i ∧ m = min k (count - 1)} l := by
  constructor
  · intro hl
    refine ⟨settled_levels.walk i l hl, ?_⟩
    rintro m ⟨k, hk, rfl⟩
    obtain ⟨l', hl', hle⟩ := le_level_of_walk hk
    obtain rfl := Option.some.inj (hl.symm.trans hl')
    exact hle
  · rintro ⟨⟨k, hk, rfl⟩, hmax⟩
    obtain ⟨l, hl, hle⟩ := le_level_of_walk hk
    have hge : l ≤ min k (count - 1) := hmax (settled_levels.walk i l hl)
    rw [hl, Nat.le_antisymm hge hle]

/-- Without a cycle, the nodes of a walk are distinct. -/
theorem Walk.exists_nodup (hac : Acyclic count arrows) {k i : Nat}
    (h : Walk count roots arrows k i) :
    ∃ nodes : List Nat, nodes.length = k + 1 ∧ nodes.Nodup ∧
      ∀ v ∈ nodes, v < count ∧ Relation.ReflTransGen (Joins count arrows) v i := by
  -- a node that is met again would close a cycle
  induction h with
  | @root i _ hi => exact ⟨[i], rfl, by simp, by simp [hi, Relation.ReflTransGen.refl]⟩
  | @step k i j _ hij _ ih =>
      obtain ⟨nodes, hlen, hnodup, hnodes⟩ := ih
      have hnew : j ∉ nodes := fun hmem => hac j (.tail' (hnodes j hmem).2 hij)
      refine ⟨j :: nodes, by simp [hlen], List.nodup_cons.2 ⟨hnew, hnodup⟩, ?_⟩
      intro v hv
      rcases List.mem_cons.1 hv with rfl | hmem
      · exact ⟨hij.2.2, .refl⟩
      · exact ⟨(hnodes v hmem).1, (hnodes v hmem).2.tail hij⟩

/-- Without a cycle, no walk is longer than there are other nodes. -/
theorem Walk.le_cap (hac : Acyclic count arrows) {k i : Nat} (h : Walk count roots arrows k i) :
    k ≤ count - 1 := by
  obtain ⟨nodes, hlen, hnodup, hnodes⟩ := h.exists_nodup hac
  -- so many distinct nodes have to be among the `count` nodes that there are
  have hsub : nodes ⊆ List.range count := fun v hv => List.mem_range.2 (hnodes v hv).1
  have := (hnodup.subperm hsub).length_le
  rw [List.length_range] at this
  omega

/-- **Levels are longest walks.**  On every graph, with cycles, self loops and parts that no root
    leads to: every node has an entry; a root has level zero; any other node has the largest
    capped length of a walk to it, or no level if no walk leads to it.  No level exceeds the cap,
    and without a cycle the cap does not bind. -/
theorem levels_eq_longest_walk (count : Nat) (roots : List Nat) (arrows : List (Nat × Nat)) :
    (levels count roots arrows).size = count ∧
      (∀ i ∈ roots, i < count → (levels count roots arrows).at i = some 0) ∧
      (∀ i, i ∉ roots → ∀ l, (levels count roots arrows).at i = some l ↔
        IsGreatest {m | ∃ k, Walk count roots arrows k i ∧ m = min k (count - 1)} l) ∧
      (∀ i, (levels count roots arrows).at i = none ↔ ∀ k, ¬ Walk count roots arrows k i) ∧
      (∀ i l, (levels count roots arrows).at i = some l → l ≤ count - 1) ∧
      (Acyclic count arrows → (∀ k i, Walk count roots arrows k i → k ≤ count - 1) ∧
        ∀ i l, (levels count roots arrows).at i = some l ↔
          IsGreatest {k | Walk count roots arrows k i} l) := by
  refine ⟨settled_levels.size, settled_levels.root, fun i _ l => at_levels_iff, ?_, ?_, ?_⟩
  · -- a node has a level as soon as a walk reaches it
    intro i
    constructor
    · intro hnone k hk
      obtain ⟨l, hl, -⟩ := le_level_of_walk hk
      exact nomatch hnone.symm.trans hl
    · intro hno
      by_contra hsome
      obtain ⟨l, hl⟩ := Option.ne_none_iff_exists'.1 hsome
      obtain ⟨k, hk, -⟩ := settled_levels.walk i l hl
      exact hno k hk
  · intro i l hl
    obtain ⟨k, -, rfl⟩ := settled_levels.walk i l hl
    exact Nat.min_le_right ..
  · -- no walk without a cycle is longer than the cap
    intro hac
    refine ⟨fun k i hk => hk.le_cap hac, ?_⟩
    intro i l
    have uncapped : {m | ∃ k, Walk count roots arrows k i ∧ m = min k (count - 1)}
        = {k | Walk count roots arrows k i} := by
      ext m
      constructor
      · rintro ⟨k, hk, rfl⟩
        rwa [Nat.min_eq_left (hk.le_cap hac)]
      · intro hm
        exact ⟨m, hm, (Nat.min_eq_left (hm.le_cap hac)).symm⟩
    rw [at_levels_iff, uncapped]

/-- A self loop lifts its node up to the cap, and roots that are no nodes are left out. -/
example : levels 4 [0, 7, 0] [(0, 1), (1, 1), (3, 3)] = #[some 0, some 3, none, none] := by cbv

end DotLayout.Layout
