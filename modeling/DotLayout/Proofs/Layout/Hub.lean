import DotLayout.Proofs.Layout.Engine.Topology
import DotLayout.Proofs.Layout.Ranks

/-! # The hub of a graph

    The circular and the radial layout give the first place to the anchor, or else to the node with
    the largest degree, the first one if there are several.

    * `degree_scene` : the degree counts the nodes that edges lead to, and those that they come
      from.
    * `busiest?_range` : one pass over the nodes finds the first one with the largest degree.
    * `isHub_of_hub?` and `exists_hub` : so the node that is chosen is the hub, and only an empty
      graph has none. -/

namespace DotLayout

open Layout

namespace Graph

/-- The number of nodes that edges lead to from a node, and of those that edges to it come from.
    Self loops do not count, and a node on both sides counts twice. -/
def degree (g : Graph) (i : Nat) : Nat :=
  (List.range g.nodes.length).countP (fun j => g.links.contains (i, j))
    + (List.range g.nodes.length).countP (fun j => g.links.contains (j, i))

/-- The first of the nodes with the largest degree. -/
structure IsBusiest (g : Graph) (i : Nat) : Prop where
  lt : i < g.nodes.length
  most : ∀ j < g.nodes.length, g.degree j ≤ g.degree i
  first : ∀ j < i, g.degree j < g.degree i

/-- The node with the first place: the anchor if it is a node, and else the first of the nodes with
    the largest degree. -/
def IsHub (g : Graph) (anchor : Option String) (hub : Nat) : Prop :=
  (∃ id, anchor = some id ∧ g.indexOf? id = some hub) ∨
    (∀ id, anchor = some id → g.indexOf? id = none) ∧ g.IsBusiest hub

theorem IsHub.lt {g : Graph} {anchor : Option String} {hub : Nat} (h : g.IsHub anchor hub) :
    hub < g.nodes.length := by
  rcases h with ⟨id, -, hindex⟩ | ⟨-, hbest⟩
  · exact lt_of_indexOf? hindex
  · exact hbest.lt

end Graph

namespace Layout

variable {g : Graph} {p : Params} {hub : Nat}

/-- A list of different pairs has as many pairs of a kind as there are nodes on their other side. -/
theorem countP_side {l : List (Nat × Nat)} (hl : l.Nodup) (side other : Nat × Nat → Nat)
    (pair : Nat → Nat × Nat) {i n : Nat} (hpair : ∀ a, side a = i ↔ a = pair (other a))
    (hother : ∀ j, other (pair j) = j) (hlt : ∀ a ∈ l, other a < n) :
    l.countP (fun a => side a == i) = (List.range n).countP fun j => l.contains (pair j) := by
  have hinj : ∀ a ∈ l.filter (fun a => side a == i), ∀ b ∈ l.filter (fun a => side a == i),
      other a = other b → a = b := by
    intro a ha b hb hab
    have ha := (hpair a).1 (eq_of_beq (List.mem_filter.1 ha).2)
    have hb := (hpair b).1 (eq_of_beq (List.mem_filter.1 hb).2)
    rw [ha, hb, hab]
  have hnodup : ((l.filter fun a => side a == i).map other).Nodup :=
    (hl.filter _).map_on hinj
  have hperm : ((l.filter fun a => side a == i).map other).Perm
      ((List.range n).filter fun j => l.contains (pair j)) := by
    refine (List.perm_ext_iff_of_nodup hnodup (List.nodup_range.filter _)).2 ?_
    intro j
    simp only [List.mem_map, List.mem_filter, List.mem_range, beq_iff_eq, List.contains_iff_mem]
    constructor
    · rintro ⟨a, ⟨ha, hside⟩, rfl⟩
      exact ⟨hlt a ha, (hpair a).1 hside ▸ ha⟩
    · rintro ⟨-, hmem⟩
      exact ⟨pair j, ⟨hmem, (hpair _).2 (by rw [hother])⟩, hother j⟩
  rw [List.countP_eq_length_filter, List.countP_eq_length_filter, ← hperm.length_eq,
    List.length_map]

theorem degree_scene (g : Graph) (p : Params) (i : Nat) :
    (Scene.ofGraph g p).degree i = g.degree i := by
  have hcontains : ∀ a, g.links.contains a = (Scene.ofGraph g p).arrows.contains a := by
    intro a
    rw [Bool.eq_iff_iff, List.contains_iff_mem, List.contains_iff_mem]
    exact List.mem_eraseDups.symm
  have hleads : ∀ a ∈ (Scene.ofGraph g p).arrows, g.Leads a.1 a.2 := fun _ => mem_arrows_ofGraph.1
  rw [Scene.degree, ← Engine.countP_ends fun a ha => (hleads a ha).1, Graph.degree]
  simp only [hcontains]
  congr 1
  · refine countP_side (arrows_nodup g p) Prod.fst Prod.snd (fun j => (i, j)) ?_ (fun _ => rfl)
      fun a ha => (hleads a ha).lt_right
    exact fun a => ⟨fun h => Prod.ext h rfl, fun h => congrArg Prod.fst h⟩
  · refine countP_side (arrows_nodup g p) Prod.snd Prod.fst (fun j => (j, i)) ?_ (fun _ => rfl)
      fun a ha => (hleads a ha).lt_left
    exact fun a => ⟨fun h => Prod.ext rfl h, fun h => congrArg Prod.snd h⟩

/-- Going through the first nodes, the best one so far has the largest degree, and all before it
    have a smaller one. -/
theorem busiest?_range (s : Scene) {n b : Nat} (h : s.busiest? (List.range n) = some b) :
    b < n ∧ (∀ i < n, s.degree i ≤ s.degree b) ∧ ∀ i < b, s.degree i < s.degree b := by
  induction n generalizing b with
  | zero => exact nomatch h
  | succ n ih =>
    rw [Scene.busiest?, List.range_succ, List.foldl_append, List.foldl_cons, List.foldl_nil,
      ← Scene.busiest?] at h
    cases hbest : s.busiest? (List.range n) with
    | none =>
      -- no node before it, so it is the first
      have hnil : n = 0 := by
        by_contra hn
        have hsome := isSome_busiest? s (show List.range n ≠ [] by simpa using hn)
        rw [hbest] at hsome
        exact nomatch hsome
      subst hnil
      rw [hbest] at h
      obtain rfl := Option.some.inj h
      refine ⟨Nat.zero_lt_one, fun i hi => ?_, nofun⟩
      obtain rfl := Nat.lt_one_iff.1 hi
      exact Nat.le_refl _
    | some best =>
      obtain ⟨hlt, hmost, hfirst⟩ := ih hbest
      rw [hbest] at h
      dsimp only at h
      split at h
      · rename_i hle
        obtain rfl := Option.some.inj h
        refine ⟨Nat.lt_succ_of_lt hlt, fun i hi => ?_, hfirst⟩
        rcases Nat.lt_succ_iff_lt_or_eq.1 hi with hi | rfl
        · exact hmost i hi
        · exact hle
      · -- the new node has a larger degree than every node before it
        rename_i hgt
        obtain rfl := Option.some.inj h
        have hbefore : ∀ i < n, s.degree i < s.degree n := fun i hi =>
          Nat.lt_of_le_of_lt (hmost i hi) (Nat.lt_of_not_le hgt)
        refine ⟨Nat.lt_succ_self n, fun i hi => ?_, hbefore⟩
        rcases Nat.lt_succ_iff_lt_or_eq.1 hi with hi | rfl
        · exact Nat.le_of_lt (hbefore i hi)
        · exact Nat.le_refl _

/-- The node that is given the first place is the hub. -/
theorem isHub_of_hub? (h : (Scene.ofGraph g p).hub? = some hub) : g.IsHub p.anchor hub := by
  rw [Scene.hub?, Option.or_eq_some_iff] at h
  rcases h with hanchor | ⟨hnone, hbest⟩
  · obtain ⟨id, hid, hindex⟩ := Option.bind_eq_some_iff.1 hanchor
    exact .inl ⟨id, hid, hindex⟩
  · refine .inr ⟨fun id hid => ?_, ?_⟩
    · have hbind : p.anchor.bind g.indexOf? = none := hnone
      rwa [hid] at hbind
    · obtain ⟨hlt, hmost, hfirst⟩ := busiest?_range _ hbest
      simp only [degree_scene, count_ofGraph] at hlt hmost hfirst
      exact ⟨hlt, hmost, hfirst⟩

/-- Only an empty graph has no hub. -/
theorem exists_hub (p : Params) (h : g.nodes ≠ []) :
    ∃ hub, (Scene.ofGraph g p).hub? = some hub := by
  refine Option.ne_none_iff_exists'.1 fun hnone => h ?_
  have hcount := count_eq_zero_of_hub? hnone
  rw [count_ofGraph] at hcount
  exact List.length_eq_zero_iff.1 hcount

end Layout

end DotLayout
