import DotLayout.Proofs.Graph.Placement
import DotLayout.Proofs.Layout.Checked.Placer
import DotLayout.Proofs.Layout.Checked.RingTable
import DotLayout.Proofs.Layout.Checked.Simulation
import DotLayout.Proofs.Layout.Limits

/-! # Every graph is laid out

    The checked engines stop at any access to a table without such an entry, at any difference or
    quotient that is not defined, and in any loop without progress.  None of it happens, on any
    graph and with any measures, so the layouts end and have a position for every node.

    * `Checked.layout_eq` : the checked engines compute the layouts.
    * `placedAt_applyPositions` : positions for all nodes move every node and nothing else. -/

namespace DotLayout.Layout

open ForceDirected (Field)

variable {g : Graph} {p : Params}

/-- The layout of a graph as the checked engines compute it. -/
def Checked.layout (algorithm : Algorithm) (g : Graph) (p : Params) : Except Fault Positions :=
  match algorithm with
  | .circular => circular g p
  | .grid => grid g p
  | .hierarchical => hierarchical g p
  | .forceDirected => forceDirected g p
  | .radial => radial g p

theorem Checked.layout_eq (algorithm : Algorithm) (g : Graph) (p : Params) :
    Checked.layout algorithm g p = (algorithm.layout g p).mapError .limits := by
  rw [layout_eq_engine]
  cases algorithm with
  | circular => exact circular_eq g p
  | grid => exact grid_eq g p
  | hierarchical => exact hierarchical_eq g p
  | forceDirected => exact forceDirected_eq g p
  | radial => exact radial_eq g p

/-- Whether a graph differs from another one in nothing but the positions of its nodes, and those
    are the given ones. -/
structure PlacedAt (g : Graph) (positions : Positions) (g' : Graph) : Prop where
  same : g.SameButPlaces g'
  /-- Node by node, id, label, size and style are the old ones. -/
  nodes : ∀ (i : Nat) (n : Node), g.nodes[i]? = some n →
    ∃ q, positions.get? n.id = some q ∧ g'.nodes[i]? = some { n with position := q }

theorem placedAt_applyPositions {positions : Positions} (h : positions.keys = g.ids) :
    PlacedAt g positions (g.applyPositions positions) where
  same := g.sameButPlaces_applyPositions positions
  nodes := by
    intro i n hn
    have hid : n.id ∈ positions.keys := h ▸ List.mem_map_of_mem (List.mem_of_getElem? hn)
    obtain ⟨⟨_, q⟩, hentry, rfl⟩ := List.mem_map.1 hid
    have hq := OrderedMap.get?_eq_some_iff.2 hentry
    refine ⟨q, hq, ?_⟩
    rw [Graph.applyPositions, Graph.mapNodes, List.getElem?_map, hn, Option.map_some, hq]

/-- **Every graph is laid out.**  On every graph and with all parameters every algorithm comes to an
    end: no table is accessed where it has no entry, no number is taken off a smaller one, nothing
    is divided by zero, and no loop goes on without progress.  The force layout needs a rectangle
    that leaves room.  The positions belong to the nodes of the graph, each once, in order.

    A graph that is laid out with some settings is moved to the positions of the algorithm, and
    stays as it was otherwise. -/
theorem layout_total (algorithm : Algorithm) (g : Graph) (p : Params)
    (h : algorithm = .forceDirected → (Field.ofScene (.ofGraph g p)).bounds.Ordered) :
    ∃ positions, Checked.layout algorithm g p = .ok positions
      ∧ algorithm.layout g p = .ok positions
      ∧ positions.keys = g.ids ∧ positions.keys.Nodup
      ∧ ∀ settings : Settings, settings.params = p → settings.algorithmFor g = algorithm →
          ∃ g', settings.layOut g = .ok (algorithm, g') ∧ PlacedAt g positions g' := by
  obtain ⟨positions, hlayout, hkeys⟩ := exists_layout h
  refine ⟨positions, ?_, hlayout, hkeys, hkeys ▸ g.ids_nodup, ?_⟩
  · rw [Checked.layout_eq, hlayout]
    rfl
  · rintro settings rfl rfl
    refine ⟨g.applyPositions positions, ?_, placedAt_applyPositions hkeys⟩
    rw [Settings.layOut, hlayout]
    rfl

/-- Settings that ask for the force layout place two joined nodes. -/
theorem layout_total_joined :
    ∃ positions, Checked.layout .forceDirected joined {} = .ok positions
      ∧ positions.keys = ["a", "b"]
      ∧ ∃ g', ({ algorithm := some "force" } : Settings).layOut joined = .ok (.forceDirected, g')
          ∧ PlacedAt joined positions g' := by
  have hordered : (Field.ofScene (.ofGraph joined {})).bounds.Ordered := by decide +kernel
  obtain ⟨positions, hchecked, -, hkeys, -, hplaced⟩ :=
    layout_total .forceDirected joined {} fun _ => hordered
  exact ⟨positions, hchecked, hkeys,
    hplaced { algorithm := some "force" } rfl (by decide +kernel)⟩

end DotLayout.Layout
