import DotLayout.Proofs.Layout.Hub
import DotLayout.Proofs.Layout.Independence

/-! # Slots on a circle

    The circular layout hands out the slots of its circle one after the other.  Only the hub takes
    none, wherever it stands in the order.

    * `getElem?_points` : the point of a node by its number.
    * `slot_of_eraseIdx` : without the hub, the nodes are numbered by their slots.
    * `circular_slots` puts these together. -/

namespace DotLayout.Layout.Circular

open Numeric

variable {s : Scene} {hub i : Nat}

/-- The point of a node: the center for the hub, and for any other one its slot on the circle. -/
theorem getElem?_points (hhub : s.hub? = some hub) (hi : i < s.count) :
    (points s)[i]? = some (if i = hub then s.measures.center
      else .polar s.measures.center (radius s (s.count - 1))
        (angle (s.count - 1) (slot hub i))) := by
  rw [points, hhub, List.getElem?_map, List.getElem?_range hi, Option.map_some]

/-- Without the hub, the nodes are numbered by their slots. -/
theorem slot_of_eraseIdx {α : Type} {l : List α} {hub k : Nat} {a : α}
    (h : (l.eraseIdx hub)[k]? = some a) : ∃ i, l[i]? = some a ∧ i ≠ hub ∧ slot hub i = k := by
  rw [List.getElem?_eraseIdx] at h
  split at h
  · rename_i hbefore
    exact ⟨k, h, Nat.ne_of_lt hbefore, if_pos hbefore⟩
  · rename_i hbehind
    exact ⟨k + 1, h, by omega, if_neg (by omega)⟩

/-- **The hub is in the center, the others around it.**  The circular layout of a graph with nodes
    puts its hub into the center.  The other nodes, in order, take the slots of one circle around
    it, one each: the first slot is at the top, the slots are the same angle apart, and the radius
    is the least radius asked for or the one at which neighbours keep their distance, whichever is
    larger. -/
theorem circular_slots (g : Graph) (p : Params) (h : g.nodes ≠ []) :
    let ring := g.nodes.length - 1
    let radius := larger p.minRadius (p.minSpacing (g.nodes.map Node.size) * ofCount ring / tau)
    ∃ hub positions, g.IsHub p.anchor hub ∧ Algorithm.circular.layout g p = .ok positions ∧
      positions.keys = g.ids ∧
      (∀ n, g.nodes[hub]? = some n → positions.get? n.id = some p.center) ∧
      (g.nodes.eraseIdx hub).length = ring ∧
      ∀ (slot : Nat) n, (g.nodes.eraseIdx hub)[slot]? = some n → positions.get? n.id =
        some (.polar p.center radius (-tau / 4 + tau * ofCount slot / ofCount ring)) := by
  intro ring radius
  obtain ⟨hub, hhub⟩ := exists_hub p h
  have hishub := isHub_of_hub? hhub
  obtain ⟨positions, hlayout, hentries⟩ :=
    entries_layout (show Algorithm.circular.points (.ofGraph g p) = .ok (points _) from rfl)
  have hplace : ∀ (i : Nat) n, g.nodes[i]? = some n → positions.get? n.id = some
      (if i = hub then p.center else .polar p.center radius (angle ring (slot hub i))) := by
    intro i n hn
    have hi : i < (Scene.ofGraph g p).count := by
      rw [count_ofGraph]
      exact (List.getElem?_eq_some_iff.1 hn).1
    have hpoint := getElem?_points hhub hi
    rw [count_ofGraph] at hpoint
    exact get?_of_entries hentries hn hpoint
  refine ⟨hub, positions, hishub, hlayout, (layout_eq_ok hlayout).2, ?_,
    List.length_eraseIdx_of_lt hishub.lt, ?_⟩
  · intro n hn
    rw [hplace hub n hn, if_pos rfl]
  · intro k n hn
    obtain ⟨i, hi, hne, rfl⟩ := slot_of_eraseIdx hn
    rw [hplace i n hi, if_neg hne]
    rfl

/-- Three nodes, the second one joined with both others. -/
def path : Graph :=
  ((Graph.empty false none).connect "a" "b" {} .curved).connect "b" "c" {} .curved

/-- Without an anchor the node in the middle of a path is in the center, and the last node takes the
    second slot. -/
theorem circular_slots_path :
    path.nodes ≠ [] ∧ ∃ positions, Algorithm.circular.layout path {} = .ok positions ∧
      positions.get? "b" = some .origin ∧
      positions.get? "c" = some (.polar .origin 200 (-tau / 4 + tau * ofCount 1 / ofCount 2)) := by
  have hne : path.nodes ≠ [] := by decide
  obtain ⟨hub, positions, hhub, hlayout, -, hcenter, -, hslots⟩ := circular_slots path {} hne
  obtain rfl : hub = 1 := by
    obtain ⟨-, hlt, hmost, -⟩ := hhub.resolve_left fun ⟨_, hanchor, _⟩ => nomatch hanchor
    have hlt : hub < 3 := hlt
    have hmiddle : path.degree 1 ≤ path.degree hub := hmost 1 (by decide)
    interval_cases hub
    · exact absurd hmiddle (by decide)
    · rfl
    · exact absurd hmiddle (by decide)
  have hradius : larger 200 ((Measures.minSpacing {} (path.nodes.map Node.size)) * ofCount 2 / tau)
      = 200 := by
    decide +kernel
  have hlast := hslots 1 (path.nodes.get ⟨2, by decide⟩) rfl
  rw [show path.nodes.length - 1 = 2 from rfl, hradius] at hlast
  exact ⟨hne, positions, hlayout, hcenter (path.nodes.get ⟨1, by decide⟩) rfl, hlast⟩

end DotLayout.Layout.Circular
