import DotLayout.Proofs.Layout.Checked.Placer
import DotLayout.Proofs.Layout.Rows

/-! # Giving way

    A node of the hierarchical layout gives way to those that stand in its row already: it goes half
    a spacing to the right while one of them is too close, but not more than eight times.

    * `GivesWay` : what placing a node does, and how often it was shifted.
    * `exists_givesWay` : every node without a place gives way like that.
    * `Journal` : the places of a run, with a note of every call that placed a node.
    * `Journal.Sound` : every call is the first one for its node, and no later one undoes it;
      `Journal.keeps_sound` says that a run keeps it so.
    * `gives_way_once` : so it is in a layout. -/

namespace DotLayout.Layout.Hierarchical

open Numeric Engine Checked

variable {l : Placer} {placed : Placed} {i : Nat} {x : Float32}

/-! ## One node -/

/-- Whether a node on the level of `i` has a place that is closer to the coordinate `x` than the
    clearance, by the distance as it is computed. -/
def Tight (l : Placer) (placed : Placed) (i : Nat) (x : Float32) : Prop :=
  ∃ j q, placed.at j = some q ∧ l.level j = l.level i ∧ (q.x - x).abs < l.clearance

/-- The coordinate so many steps to the right of `x`, one step after the other. -/
def shifted (l : Placer) (x : Float32) (steps : Nat) : Float32 := (· + l.spacing / 2)^[steps] x

/-- What placing `i` near `x` makes of the places after so many shifts. -/
structure GivesWay (l : Placer) (placed : Placed) (i : Nat) (x : Float32) (shifts : Nat)
    (placed' : Placed) : Prop where
  place : placed'.at i = some ⟨shifted l x shifts, l.rowY i⟩
  others : ∀ j, j ≠ i → placed'[j]? = placed[j]?
  length : placed'.length = placed.length
  /-- There was a reason for every shift. -/
  before : ∀ k < shifts, Tight l placed i (shifted l x k)
  /-- It was the last one because there is room now, or because there are no more than eight. -/
  ending : shifts < 8 ∧ ¬ Tight l placed i (shifted l x shifts) ∨ shifts = 8

/-- A node without a place does not stand in its own way, so it need not be left out. -/
theorem crowded_iff_tight (h : placed.isFree i = true) :
    l.crowded placed i x = true ↔ Tight l placed i x := by
  have hfree := Placed.isFree_iff.1 h
  rw [Placer.crowded, List.any_eq_true]
  constructor
  · rintro ⟨⟨place, j⟩, hmem, htest⟩
    simp only [Bool.and_eq_true, beq_iff_eq, Option.any_eq_true] at htest
    obtain ⟨⟨-, hlevel⟩, q, rfl, hclose⟩ := htest
    refine ⟨j, q, ?_, hlevel, of_decide_eq_true hclose⟩
    rw [Placed.at, List.mem_zipIdx_iff_getElem?.1 hmem, Option.join_some]
  · rintro ⟨j, q, hat, hlevel, hclose⟩
    have hj : placed[j]? = some (some q) := Option.join_eq_some_iff.1 hat
    have hne : j ≠ i := by
      rintro rfl
      cases hfree.symm.trans hj
    refine ⟨(some q, j), List.mem_zipIdx_iff_getElem?.2 hj, ?_⟩
    simp [hne, hlevel, hclose]

/-- The shifts end at the first coordinate that is not crowded, or with the last attempt. -/
theorem exists_shift (l : Placer) (placed : Placed) (i attempts : Nat) (x : Float32) :
    ∃ shifts ≤ attempts, l.shift placed i attempts x = shifted l x shifts ∧
      (∀ k < shifts, l.crowded placed i (shifted l x k) = true) ∧
      (shifts < attempts → l.crowded placed i (shifted l x shifts) = false) := by
  induction attempts generalizing x with
  | zero => exact ⟨0, Nat.le_refl 0, rfl, nofun, nofun⟩
  | succ attempts ih =>
    rw [Placer.shift]
    cases hcrowded : l.crowded placed i x with
    | false => exact ⟨0, Nat.zero_le _, rfl, nofun, fun _ => hcrowded⟩
    | true =>
      obtain ⟨shifts, hle, hshift, hbefore, hroom⟩ := ih (x + l.spacing / 2)
      refine ⟨shifts + 1, Nat.succ_le_succ hle, hshift, ?_,
        fun hlt => hroom (Nat.lt_of_succ_lt_succ hlt)⟩
      intro k hk
      cases k with
      | zero => exact hcrowded
      | succ k => exact hbefore k (Nat.lt_of_succ_lt_succ hk)

theorem at_set_self (h : i < placed.length) (q : Point) :
    Placed.at (placed.set i (some q)) i = some q := by
  rw [Placed.at, List.getElem?_set_self h, Option.join_some]

/-- Every node without a place gives way to those that have one. -/
theorem exists_givesWay (h : placed.isFree i = true) (x : Float32) :
    ∃ shifts ≤ 8, GivesWay l placed i x shifts (l.place placed i x) := by
  obtain ⟨shifts, hle, hshift, hbefore, hroom⟩ := exists_shift l placed i maxShifts x
  refine ⟨shifts, hle, ?_⟩
  exact {
    place := by rw [Placer.place, at_set_self (lt_of_isFree h), hshift]
    others := fun j hj => List.getElem?_set_ne hj.symm
    length := List.length_set ..
    before := fun k hk => (crowded_iff_tight h).1 (hbefore k hk)
    ending := by
      rcases Nat.lt_or_eq_of_le hle with hlt | heq
      · refine .inl ⟨hlt, fun htight => ?_⟩
        exact Bool.false_ne_true ((hroom hlt).symm.trans ((crowded_iff_tight h).2 htight))
      · exact .inr heq }

/-! ## All calls of a run -/

/-- A call that places a node. -/
structure Call where
  /-- The places that there are before it. -/
  placed : Placed
  node : Nat
  x : Float32

/-- Places, and the calls that were made to get there, in order. -/
structure Journal where
  placed : Placed
  calls : List Call

namespace Journal

/-- Places a node as the engine does, and takes a note of the call. -/
def place (l : Placer) (s : Journal) (i : Nat) (x : Float32) : Except Fault Journal := do
  return ⟨← Checked.place l s.placed i x, s.calls ++ [⟨s.placed, i, x⟩]⟩

/-- The way to place nodes that takes notes. -/
def placing : Placing Journal where
  start count := ⟨List.replicate count none, []⟩
  placed := Journal.placed
  place := Journal.place

def nodes (s : Journal) : List Nat := s.calls.map Call.node

/-- Whether all calls of a journal are for different nodes, each of them for a node without a place
    until then, and whether what they found is what the journal has now. -/
structure Sound (l : Placer) (s : Journal) : Prop where
  once : s.nodes.Nodup
  free : ∀ c ∈ s.calls, c.placed.isFree c.node = true
  sized : ∀ c ∈ s.calls, c.placed.length = l.levels.size
  kept : ∀ c ∈ s.calls, s.placed.at c.node = (l.place c.placed c.node c.x).at c.node
  all : ∀ i, i ∈ s.nodes ↔ ∃ q, s.placed.at i = some q

variable {s : Journal}

theorem nodes_append (s : Journal) (c : Call) (placed : Placed) :
    nodes ⟨placed, s.calls ++ [c]⟩ = s.nodes ++ [c.node] := by
  rw [nodes, List.map_append, List.map_singleton, ← nodes]

theorem sound_start (l : Placer) (count : Nat) : Sound l ⟨List.replicate count none, []⟩ where
  once := List.nodup_nil
  free := nofun
  sized := nofun
  kept := nofun
  all i := by simp [nodes, at_replicate]

/-- A node without a place has not been called. -/
theorem Sound.not_mem_nodes (h : s.Sound l) (hfree : s.placed.isFree i = true) : i ∉ s.nodes := by
  intro hmem
  obtain ⟨q, hq⟩ := (h.all i).1 hmem
  rw [Placed.at, Placed.isFree_iff.1 hfree, Option.join_some] at hq
  cases hq

/-- Another call is sound if it is for a node without a place. -/
theorem Sound.place (h : s.Sound l) (hlen : s.placed.length = l.levels.size)
    (hfree : s.placed.isFree i = true) (x : Float32) :
    Sound l ⟨l.place s.placed i x, s.calls ++ [⟨s.placed, i, x⟩]⟩ := by
  have hnew := h.not_mem_nodes hfree
  have hother : ∀ j, j ≠ i → (l.place s.placed i x).at j = s.placed.at j :=
    fun j hj => at_set_of_ne hj.symm _
  constructor
  case once =>
    rw [nodes_append]
    refine List.nodup_append.2 ⟨h.once, List.nodup_singleton _, ?_⟩
    rintro j hj k hk rfl
    obtain rfl : j = i := List.mem_singleton.1 hk
    exact hnew hj
  case free => exact List.forall_mem_append.2 ⟨h.free, List.forall_mem_singleton.2 hfree⟩
  case sized => exact List.forall_mem_append.2 ⟨h.sized, List.forall_mem_singleton.2 hlen⟩
  case kept =>
    refine List.forall_mem_append.2 ⟨fun c hc => ?_, List.forall_mem_singleton.2 rfl⟩
    -- the new call is for another node than all calls before it
    have hne : c.node ≠ i := fun heq => hnew (heq ▸ List.mem_map_of_mem hc)
    exact (hother _ hne).trans (h.kept c hc)
  case all =>
    intro j
    rw [nodes_append, List.mem_append, List.mem_singleton, h.all j]
    by_cases hj : j = i
    · subst hj
      exact ⟨fun _ => ⟨_, at_set_self (lt_of_isFree hfree) _⟩, fun _ => .inr rfl⟩
    · rw [hother j hj, or_iff_left hj]

/-- A journal stays sound as long as only nodes without a place are placed. -/
theorem keeps_sound (l : Placer) : placing.Keeps l (Sound l) where
  start := sound_start l _
  placed_start := rfl
  place := by
    intro s i x hs hlen hfree
    have hplace : Checked.place l s.placed i x = .ok (l.place s.placed i x) :=
      Checked.place_eq (Nat.le_of_eq hlen) (lt_of_isFree hfree) x
    refine ⟨_, ?_, hs.place hlen hfree x, rfl⟩
    show Journal.place l s i x = _
    rw [Journal.place, hplace]
    rfl

end Journal

/-! ## Layouts -/

/-- The point of a node that the tree has a place for. -/
theorem getElem?_points_of_at {s : Scene} {q : Point} (hi : i < s.count)
    (hq : (tree s).at i = some q) : (points s)[i]? = some q := by
  rw [points, List.getElem?_map, List.getElem?_range hi, Option.map_some, hq, Option.getD_some]

/-- **Nodes give way, and once.**  Whatever places there are and wherever a node without a place is
    to stand, placing it comes to an end after at most eight shifts, each by half the spacing from
    where the one before it led.  It gives the node its place and leaves all others as they are.
    Each shift was made because a node on the same level was closer than the clearance; and after
    the last one there is no such node any more, unless it was the eighth.  No table is accessed
    where it has no entry, if every node has one in the table of levels.

    When a graph is laid out, a node is placed so at most once, and never when it has a place.  The
    nodes that are placed are those of the tree, and each of them keeps the place that it found. -/
theorem gives_way_once :
    (∀ (l : Placer) (placed : Placed) (i : Nat) (x : Float32), placed.isFree i = true →
      ∃ shifts ≤ 8, GivesWay l placed i x shifts (l.place placed i x) ∧
        (placed.length ≤ l.levels.size →
          Checked.place l placed i x = .ok (l.place placed i x))) ∧
    ∀ (g : Graph) (p : Params),
      let s := Scene.ofGraph g p
      let levels := levelsOf s
      ∃ journal positions, Journal.placing.hierarchical g p = .ok (journal, positions) ∧
        Algorithm.hierarchical.layout g p = .ok positions ∧
        journal.nodes.Nodup ∧ (∀ i, i ∈ journal.nodes ↔ ∃ q, (tree s).at i = some q) ∧
        ∀ c ∈ journal.calls, c.placed.isFree c.node = true ∧
          (∃ shifts ≤ 8, GivesWay (.ofScene s levels) c.placed c.node c.x shifts
            (place s levels c.placed c.node c.x)) ∧
          ∃ n, g.nodes[c.node]? = some n ∧
            positions.get? n.id = (place s levels c.placed c.node c.x).at c.node := by
  constructor
  · intro l placed i x hfree
    obtain ⟨shifts, hle, hway⟩ := exists_givesWay (l := l) hfree x
    -- a free index has a place in the list, which is what the checked call needs
    exact ⟨shifts, hle, hway, fun hlen => Checked.place_eq hlen (lt_of_isFree hfree) x⟩
  · intro g p s levels
    obtain ⟨journal, hrun, hsound, htree⟩ := Placing.hierarchical_ok g p (Journal.keeps_sound _)
    have hpoints : Algorithm.hierarchical.points s = .ok (points s) := rfl
    obtain ⟨positions, hlayout, hentries⟩ := entries_layout hpoints
    -- the journal keeps the engine's run, so its positions are those of the layout
    obtain rfl := Except.ok.inj ((Engine.hierarchical_eq g p).symm.trans hlayout)
    have htree : journal.placed = tree s := htree
    refine ⟨journal, _, hrun, hlayout, hsound.once, fun i => htree ▸ hsound.all i, ?_⟩
    intro c hc
    have hfree := hsound.free c hc
    have hsized : c.placed.length = g.nodes.length :=
      (hsound.sized c hc).trans ((size_levels_ofGraph g p).trans (count_topology g))
    have hi : c.node < g.nodes.length := hsized ▸ lt_of_isFree hfree
    have hn := List.getElem?_eq_getElem hi
    have hplacer : Placer.ofGraph g (.ofGraph g) p = .ofScene s levels :=
      placer_ofGraph p (Nat.ne_of_gt (Nat.zero_lt_of_lt hi))
    -- the point of a recorded call is never taken back, so it is the node's position in the end
    obtain ⟨q, hq⟩ := (hsound.all c.node).1 (List.mem_map_of_mem hc)
    have hpoint : (points s)[c.node]? = some q :=
      getElem?_points_of_at ((count_ofGraph g p).symm ▸ hi) (htree ▸ hq)
    have hkept := hsound.kept c hc
    rw [hplacer, ← Engine.place_eq, hq] at hkept
    refine ⟨hfree, ?_, _, hn, ?_⟩
    · rw [Engine.place_eq]
      exact exists_givesWay hfree c.x
    · rw [get?_of_entries hentries hn hpoint, hkept]

/-- A placer that asks for more room than all shifts together make. -/
def squeezed : Placer where
  levels := #[some 0, some 0]
  spacing := 2
  clearance := 100
  rank := 120
  center := .origin

/-- A second node at the place of the first one is shifted eight times, and is still too close. -/
theorem gives_way_once_squeezed :
    let one : Placed := [some .origin, none]
    one.isFree 1 = true ∧ one.length ≤ squeezed.levels.size ∧
      Checked.place squeezed one 1 0 = .ok [some .origin, some ⟨8, 0⟩] ∧
      GivesWay squeezed one 1 0 8 [some .origin, some ⟨8, 0⟩] := by
  intro one
  have hfree : one.isFree 1 = true := rfl
  have hlen : one.length ≤ squeezed.levels.size := Nat.le_refl 2
  have hplace : squeezed.place one 1 0 = [some .origin, some ⟨8, 0⟩] := by decide +kernel
  have htight : ∀ k < 8, Tight squeezed one 1 (shifted squeezed 0 k) := by
    have hclose : ∀ k < 8, ((0 : Float32) - shifted squeezed 0 k).abs < 100 := by decide +kernel
    exact fun k hk => ⟨0, .origin, rfl, rfl, hclose k hk⟩
  obtain ⟨shifts, hle, hway, hchecked⟩ := gives_way_once.1 squeezed one 1 0 hfree
  obtain rfl : shifts = 8 := by
    rcases hway.ending with ⟨hlt, hroom⟩ | heq
    · exact absurd (htight shifts hlt) hroom
    · exact heq
  exact ⟨hfree, hlen, hplace ▸ hchecked hlen, hplace ▸ hway⟩

end DotLayout.Layout.Hierarchical
