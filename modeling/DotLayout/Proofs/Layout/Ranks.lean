import DotLayout.Proofs.Layout.LongestWalk
import DotLayout.Proofs.Layout.Positions
import Mathlib.Data.Fintype.EquivFin
import Mathlib.Order.WellFounded

/-! # Ranks of the nodes of a graph

    The rank of a node is its level above the entrances of the graph: the nodes that no edge from
    another node leads to, or the first node if there is none.

    * `levels_congr` : levels do not depend on the order of roots and arrows, since walks do not.
    * `rank_lt_of_leads` : without a cycle, every edge leads to a higher rank.
    * `rank_isGreatest` : without a cycle, every node is reached from an entrance, and its rank is
      the length of the longest path that leads there. -/

namespace DotLayout

namespace Layout

variable {count : Nat} {roots roots' : List Nat} {arrows arrows' : List (Nat × Nat)}

/-! ## Levels and the order of arrows -/

theorem Joins.mono (harrows : arrows ⊆ arrows') {i j : Nat} (h : Joins count arrows i j) :
    Joins count arrows' i j :=
  ⟨harrows h.1, h.2⟩

/-- A walk over arrows is one over more arrows from the same roots. -/
theorem Walk.congr (hroots : ∀ i, i ∈ roots ↔ i ∈ roots') (harrows : arrows ⊆ arrows') {k i : Nat}
    (h : Walk count roots arrows k i) : Walk count roots' arrows' k i := by
  induction h with
  | root hr hi => exact .root ((hroots _).1 hr) hi
  | step _ hij hj ih => exact .step ih (hij.mono harrows) fun hmem => hj ((hroots _).2 hmem)

theorem getElem_eq_at {levels : Levels} {i : Nat} (hi : i < levels.size) :
    levels[i] = levels.at i := by
  rw [Levels.at, Array.getElem?_eq_getElem hi, Option.join_some]

/-- **Levels do not depend on order.**  Lists of the same roots and of the same arrows give the
    same levels. -/
theorem levels_congr (hroots : ∀ i, i ∈ roots ↔ i ∈ roots')
    (harrows : ∀ a, a ∈ arrows ↔ a ∈ arrows') :
    levels count roots arrows = levels count roots' arrows' := by
  have hwalk : ∀ k i, Walk count roots arrows k i ↔ Walk count roots' arrows' k i := by
    intro k i
    constructor
    · exact Walk.congr hroots fun a => (harrows a).1
    · exact Walk.congr (fun i => (hroots i).symm) fun a => (harrows a).2
  have hat : ∀ i, (levels count roots arrows).at i = (levels count roots' arrows').at i := by
    intro i
    refine Option.ext fun l => ?_
    rw [at_levels_iff, at_levels_iff]
    simp only [hwalk]
  refine Array.ext ?_ ?_
  · rw [settled_levels.size, settled_levels.size]
  · intro i hi hi'
    rw [getElem_eq_at hi, getElem_eq_at hi', hat]

/-! ## Paths -/

/-- A path of so many steps from a node to another one. -/
inductive Path (leads : Nat → Nat → Prop) (start : Nat) : Nat → Nat → Prop where
  | nil : Path leads start 0 start
  | step {k i j : Nat} : Path leads start k i → leads i j → Path leads start (k + 1) j

end Layout

open Layout

namespace Graph

variable {g : Graph}

/-- Whether no edge from another node leads to a node. -/
def IsEntrance (g : Graph) (i : Nat) : Prop := i < g.nodes.length ∧ ∀ j, ¬ g.Leads j i

/-- The edges between different nodes, by the numbers of the nodes. -/
def links (g : Graph) : List (Nat × Nat) := g.edges.filterMap (arrow? g)

/-- The nodes that no edge from another node leads to, or else the first node. -/
def entrances (g : Graph) : List Nat :=
  let free := (List.range g.nodes.length).filter fun i => !g.links.any fun l => l.2 == i
  if free.isEmpty then [0] else free

/-- The level of a node above the entrances; a node that they do not lead to has rank zero. -/
def rank (g : Graph) (i : Nat) : Nat :=
  ((levels g.nodes.length g.entrances g.links).at i).getD 0

/-- The links of a graph are the edges between different nodes. -/
theorem mem_links {i j : Nat} : (i, j) ∈ g.links ↔ g.Leads i j := by
  rw [← mem_arrows_ofGraph (p := {}), Scene.ofGraph, List.mem_eraseDups, links]

/-- The links join what the edges of the graph lead to. -/
theorem joins_links {i j : Nat} : Joins g.nodes.length g.links i j ↔ g.Leads i j := by
  constructor
  · intro h
    exact mem_links.1 h.1
  · intro h
    exact ⟨mem_links.2 h, h.lt_left, h.lt_right⟩

/-- The entrances are the nodes that nothing leads to, or the first node if there is none. -/
theorem mem_entrances {i : Nat} :
    i ∈ g.entrances ↔ g.IsEntrance i ∨ i = 0 ∧ ∀ j, ¬ g.IsEntrance j := by
  have hfree : ∀ j, j ∈ (List.range g.nodes.length).filter (fun i => !g.links.any fun l => l.2 == i)
      ↔ g.IsEntrance j := by
    intro j
    rw [List.mem_filter, List.mem_range, IsEntrance]
    refine and_congr_right fun _ => ?_
    simp only [← mem_links, Bool.not_eq_true', List.any_eq_false, beq_iff_eq]
    constructor
    · intro h i hij
      exact h (i, j) hij rfl
    · rintro h ⟨i, k⟩ hik rfl
      exact h i hik
  unfold entrances
  dsimp only
  split
  · -- every node has an arrow into it, so the first node stands in
    rename_i hempty
    have hnone : ∀ j, ¬ g.IsEntrance j := by
      intro j hj
      rw [← hfree, List.isEmpty_iff.1 hempty] at hj
      exact nomatch hj
    simp [hnone]
  · -- some node has none, so node 0 counts only if it is one of them
    rename_i hsome
    obtain ⟨j, hj⟩ := List.exists_mem_of_ne_nil _ fun h => hsome (List.isEmpty_iff.2 h)
    rw [hfree]
    constructor
    · exact Or.inl
    · rintro (h | ⟨-, hnone⟩)
      · exact h
      · exact absurd ((hfree j).1 hj) (hnone j)

/-! ## Graphs without a cycle -/

section Acyclic

variable (hac : ∀ i, ¬ Relation.TransGen g.Leads i i)

include hac

/-- The links of a graph have no cycle if its edges between different nodes have none. -/
theorem acyclic_links : Acyclic g.nodes.length g.links := by
  intro i h
  exact hac i (Relation.TransGen.mono (fun _ _ => joins_links.1) i i h)

/-- Without a cycle, a way back along the edges ends at an entrance. -/
theorem exists_path_of_acyclic {i : Nat} (hi : i < g.nodes.length) :
    ∃ r k, g.IsEntrance r ∧ Path g.Leads r k i := by
  -- induction along the edges, which is possible as there are finitely many nodes
  let before (a b : Fin g.nodes.length) : Prop := Relation.TransGen g.Leads a b
  have : IsTrans (Fin g.nodes.length) before := ⟨fun _ _ _ => Relation.TransGen.trans⟩
  have : Std.Irrefl before := ⟨fun a => hac a⟩
  have wf : WellFounded before := Finite.wellFounded_of_trans_of_irrefl before
  have key : ∀ a : Fin g.nodes.length, ∃ r k, g.IsEntrance r ∧ Path g.Leads r k a := by
    intro a
    induction a using wf.induction with
    | _ a ih =>
      by_cases hfree : ∀ j, ¬ g.Leads j a
      · exact ⟨a, 0, ⟨a.isLt, hfree⟩, .nil⟩
      · obtain ⟨j, hj⟩ := not_forall_not.1 hfree
        obtain ⟨r, k, hr, hpath⟩ := ih ⟨j, hj.lt_left⟩ (.single hj)
        exact ⟨r, k + 1, hr, .step hpath hj⟩
  exact key ⟨i, hi⟩

/-- Without a cycle, the first node stands in for nothing. -/
theorem mem_entrances_of_acyclic {i : Nat} (hi : i < g.nodes.length) {j : Nat} :
    j ∈ g.entrances ↔ g.IsEntrance j := by
  obtain ⟨r, -, hr, -⟩ := exists_path_of_acyclic hac hi
  rw [mem_entrances]
  constructor
  · rintro (h | ⟨-, hnone⟩)
    · exact h
    · exact absurd hr (hnone r)
  · exact Or.inl

/-- A walk from an entrance is a path of edges from one. -/
theorem walk_iff_path {k i : Nat} (hi : i < g.nodes.length) :
    Walk g.nodes.length g.entrances g.links k i ↔ ∃ r, g.IsEntrance r ∧ Path g.Leads r k i := by
  have hmem := fun j => mem_entrances_of_acyclic hac hi (j := j)
  constructor
  · intro h
    induction h with
    | root hr _ => exact ⟨_, (hmem _).1 hr, .nil⟩
    | step hwalk hij _ ih =>
      obtain ⟨r, hr, hpath⟩ := ih hwalk.lt_count
      exact ⟨r, hr, .step hpath (joins_links.1 hij)⟩
  · rintro ⟨r, hr, hpath⟩
    induction hpath with
    | nil => exact .root ((hmem r).2 hr) hr.1
    | step _ hij ih =>
      -- an entrance is never met again, since no edge leads to it
      refine .step (ih hij.lt_left) (joins_links.2 hij) fun hj => ?_
      exact ((hmem _).1 hj).2 _ hij

/-- Every node has its rank for its level. -/
theorem at_levels_rank {i : Nat} (hi : i < g.nodes.length) :
    (levels g.nodes.length g.entrances g.links).at i = some (g.rank i) := by
  obtain ⟨r, k, hr, hpath⟩ := exists_path_of_acyclic hac hi
  obtain ⟨l, hl, -⟩ := le_level_of_walk ((walk_iff_path hac hi).2 ⟨r, hr, hpath⟩)
  rw [rank, hl, Option.getD_some]

/-- Without a cycle, the rank of a node is the length of the longest path to it from a node that
    no edge leads to. -/
theorem rank_isGreatest {i : Nat} (hi : i < g.nodes.length) :
    IsGreatest {k | ∃ r, g.IsEntrance r ∧ Path g.Leads r k i} (g.rank i) := by
  have hgreatest := at_levels_iff.1 (at_levels_rank hac hi)
  -- no walk is longer than the cap
  have uncapped : {m | ∃ k, Walk g.nodes.length g.entrances g.links k i
      ∧ m = min k (g.nodes.length - 1)} = {k | ∃ r, g.IsEntrance r ∧ Path g.Leads r k i} := by
    ext m
    simp only [Set.mem_ofPred_eq, ← walk_iff_path hac hi]
    constructor
    · rintro ⟨k, hk, rfl⟩
      rwa [Nat.min_eq_left (hk.le_cap (acyclic_links hac))]
    · intro hm
      exact ⟨m, hm, (Nat.min_eq_left (hm.le_cap (acyclic_links hac))).symm⟩
  rwa [uncapped] at hgreatest

/-- Without a cycle, every edge leads to a higher rank. -/
theorem rank_lt_of_leads {i j : Nat} (h : g.Leads i j) : g.rank i + 1 ≤ g.rank j := by
  obtain ⟨r, hr, hpath⟩ := (rank_isGreatest hac h.lt_left).1
  exact (rank_isGreatest hac h.lt_right).2 ⟨r, hr, .step hpath h⟩

end Acyclic

end Graph

end DotLayout
