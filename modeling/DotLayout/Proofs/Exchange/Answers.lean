import DotLayout.Exchange.Collaborator
import DotLayout.Proofs.Graph.Placement

/-! # What an answer does to a graph

    The entries of an answer are written one after the other, and each of them changes the node
    that it names.  So the whole answer changes each node by itself.

    * `validate_eq_ok_iff` : an answer passes if all of its entries have a node and are finite.
    * `foldl_applyTo` : all entries together turn a node `n` into `settle entries n`.
    * `settle_of_notMem` : a node that no entry names stays as it is.
    * `isFinite_settle` : finite entries keep a node finite. -/

namespace DotLayout.Exchange

variable {g : Graph} {entry : ResponseNode} {entries : List ResponseNode} {n : Node}

/-! ## The check -/

/-- An entry has no fault if its node is there and its numbers are finite. -/
theorem fault?_eq_none_iff :
    entry.fault? g = none ↔ entry.id ∈ g.ids ∧ entry.isFinite = true := by
  rw [ResponseNode.fault?, ← Graph.contains_iff]
  cases g.contains entry.id <;> cases entry.isFinite <;> simp

/-- Only an entry whose node is missing is said to name an unknown one. -/
theorem fault?_eq_unknownNode_iff {id : String} :
    entry.fault? g = some (.unknownNode id) ↔ entry.id = id ∧ id ∉ g.ids := by
  rw [ResponseNode.fault?, ← Graph.contains_iff]
  cases hknown : g.contains entry.id with
  | false =>
    show some (CollaboratorError.unknownNode entry.id) = some (.unknownNode id) ↔ _
    rw [Option.some.injEq, CollaboratorError.unknownNode.injEq]
    constructor
    · rintro rfl
      exact ⟨rfl, by simp [hknown]⟩
    · exact And.left
  | true =>
    constructor
    · intro h
      cases hfinite : entry.isFinite <;> simp [hfinite] at h
    · rintro ⟨rfl, hnot⟩
      exact absurd hknown hnot

/-- A response is refused for the fault of its first entry that has one. -/
theorem validate_eq_error_iff {r : Response} {e : CollaboratorError} :
    r.validate g = .error e ↔ r.nodes.findSome? (ResponseNode.fault? g) = some e := by
  rw [Response.validate]
  cases r.nodes.findSome? (ResponseNode.fault? g) <;> simp

/-- An answer passes the check if every entry has a node and is finite. -/
theorem validate_eq_ok_iff {r : Response} :
    r.validate g = .ok () ↔ ∀ entry ∈ r.nodes, entry.id ∈ g.ids ∧ entry.isFinite = true := by
  have hnone : r.validate g = .ok () ↔ r.nodes.findSome? (ResponseNode.fault? g) = none := by
    rw [Response.validate]
    cases r.nodes.findSome? (ResponseNode.fault? g) <;> simp
  rw [hnone, List.findSome?_eq_none_iff]
  simp only [fault?_eq_none_iff]

/-! ## Writing the entries -/

/-- What an entry makes of a node: the node that it names is moved, and resized when both of its
    sides are given. -/
def ResponseNode.place (entry : ResponseNode) (n : Node) : Node :=
  if n.id == entry.id then
    match entry.width, entry.height with
    | some width, some height =>
      { n with position := ⟨entry.x, entry.y⟩, size := ⟨width, height⟩ }
    | _, _ => { n with position := ⟨entry.x, entry.y⟩ }
  else n

/-- What entries make of a node, one after the other. -/
def settle (entries : List ResponseNode) (n : Node) : Node :=
  entries.foldl (fun n entry => entry.place n) n

theorem place_of_ne (h : n.id ≠ entry.id) : entry.place n = n := by
  rw [ResponseNode.place, if_neg fun heq => h (eq_of_beq heq)]

/-- An entry changes nothing of a node but its position and its size. -/
theorem exists_place_eq (entry : ResponseNode) (n : Node) :
    ∃ position size, entry.place n = { n with position := position, size := size } := by
  unfold ResponseNode.place
  split
  · split
    · exact ⟨_, _, rfl⟩
    · exact ⟨_, n.size, rfl⟩
  · exact ⟨n.position, n.size, rfl⟩

theorem id_place (entry : ResponseNode) (n : Node) : (entry.place n).id = n.id := by
  obtain ⟨position, size, hn⟩ := exists_place_eq entry n
  rw [hn]

/-- Nor do all entries together. -/
theorem exists_settle_eq (entries : List ResponseNode) (n : Node) :
    ∃ position size, settle entries n = { n with position := position, size := size } := by
  induction entries generalizing n with
  | nil => exact ⟨n.position, n.size, rfl⟩
  | cons entry entries ih =>
    show ∃ position size, settle entries (entry.place n) = _
    obtain ⟨_, _, hplace⟩ := exists_place_eq entry n
    obtain ⟨position, size, hrest⟩ := ih (entry.place n)
    exact ⟨position, size, by rw [hrest, hplace]⟩

theorem id_settle (entries : List ResponseNode) (n : Node) : (settle entries n).id = n.id := by
  obtain ⟨position, size, hn⟩ := exists_settle_eq entries n
  rw [hn]

/-- An entry changes the node that it names, and no other one. -/
theorem applyTo_eq (g : Graph) (entry : ResponseNode) :
    entry.applyTo g = g.mapNodes entry.place (id_place entry) := by
  rw [ResponseNode.applyTo, Graph.setPosition, Graph.modifyNode]
  cases hwidth : entry.width with
  | none =>
    dsimp only
    congr 1
    funext n
    rw [ResponseNode.place, hwidth]
  | some width =>
    cases hheight : entry.height with
    | none =>
      dsimp only
      congr 1
      funext n
      rw [ResponseNode.place, hwidth, hheight]
    | some height =>
      dsimp only
      rw [Graph.setSize, Graph.modifyNode, Graph.mapNodes_mapNodes]
      congr 1
      funext n
      by_cases hid : (n.id == entry.id) = true
      · rw [ResponseNode.place, hwidth, hheight, if_pos hid, if_pos hid, if_pos hid]
      · rw [ResponseNode.place, if_neg hid, if_neg hid, if_neg hid]

/-- The entries of an answer change each node by itself. -/
theorem foldl_applyTo (g : Graph) (entries : List ResponseNode) :
    entries.foldl ResponseNode.applyTo g = g.mapNodes (settle entries) (id_settle entries) := by
  induction entries generalizing g with
  | nil => exact (Graph.mapNodes_eq_self _ fun _ _ => rfl).symm
  | cons entry entries ih =>
    rw [List.foldl_cons, ih, applyTo_eq, Graph.mapNodes_mapNodes]
    rfl

/-- Entries change nothing of a graph but places and sizes. -/
theorem sameButPlaces_foldl_applyTo (g : Graph) (entries : List ResponseNode) :
    g.SameButPlaces (entries.foldl ResponseNode.applyTo g) := by
  rw [foldl_applyTo]
  exact Graph.sameButPlaces_mapNodes g _ (exists_settle_eq entries)

/-- A node that no entry names stays as it is. -/
theorem settle_of_notMem (h : n.id ∉ entries.map ResponseNode.id) : settle entries n = n := by
  induction entries with
  | nil => rfl
  | cons entry entries ih =>
    obtain ⟨hne, hrest⟩ : n.id ≠ entry.id ∧ n.id ∉ entries.map ResponseNode.id := by
      simpa using h
    show settle entries (entry.place n) = n
    rw [place_of_ne hne, ih hrest]

/-- An answer leaves the node alone that has an id which no entry names. -/
theorem node?_foldl_applyTo (g : Graph) {id : String} (h : id ∉ entries.map ResponseNode.id) :
    (entries.foldl ResponseNode.applyTo g).node? id = g.node? id := by
  rw [foldl_applyTo, Graph.node?_mapNodes]
  cases hnode : g.node? id with
  | none => rfl
  | some n =>
    have hn : n.id = id := Graph.id_of_node? hnode
    rw [Option.map_some, settle_of_notMem (hn ▸ h)]

/-! ## Finite nodes -/

end DotLayout.Exchange

namespace DotLayout

/-- Whether the place and the size of a node are given by finite numbers. -/
structure Node.IsFinite (n : Node) : Prop where
  position : n.position.isFinite = true
  width : n.size.width.isFinite = true
  height : n.size.height.isFinite = true

instance (n : Node) : Decidable n.IsFinite :=
  decidable_of_iff (n.position.isFinite = true ∧ n.size.width.isFinite = true ∧
      n.size.height.isFinite = true)
    ⟨fun ⟨hposition, hwidth, hheight⟩ => ⟨hposition, hwidth, hheight⟩,
      fun h => ⟨h.position, h.width, h.height⟩⟩

/-- Whether all places and sizes of a graph are given by finite numbers. -/
def Graph.IsFinite (g : Graph) : Prop := ∀ n ∈ g.nodes, n.IsFinite

instance (g : Graph) : Decidable g.IsFinite :=
  inferInstanceAs (Decidable (∀ n ∈ g.nodes, n.IsFinite))

end DotLayout

namespace DotLayout.Exchange

variable {g : Graph} {entry : ResponseNode} {entries : List ResponseNode} {n : Node}

/-- A finite entry keeps a node finite: whatever it stores was checked. -/
theorem isFinite_place (h : entry.isFinite = true) (hn : n.IsFinite) :
    (entry.place n).IsFinite := by
  simp only [ResponseNode.isFinite, Bool.and_eq_true] at h
  obtain ⟨⟨⟨hx, hy⟩, hwidth⟩, hheight⟩ := h
  have hposition : (Point.mk entry.x entry.y).isFinite = true := by
    rw [Point.isFinite, hx, hy]
    rfl
  unfold ResponseNode.place
  split
  · split
    · rename_i width height hw hh
      rw [hw] at hwidth
      rw [hh] at hheight
      exact ⟨hposition, hwidth, hheight⟩
    · exact ⟨hposition, hn.width, hn.height⟩
  · exact hn

/-- A finite node stays finite if all entries are. -/
theorem isFinite_settle (h : ∀ entry ∈ entries, entry.isFinite = true) (hn : n.IsFinite) :
    (settle entries n).IsFinite := by
  induction entries generalizing n with
  | nil => exact hn
  | cons entry entries ih =>
    have hentry : entry.isFinite = true := h entry List.mem_cons_self
    exact ih (fun e he => h e (List.mem_cons_of_mem entry he)) (isFinite_place hentry hn)

/-- A finite graph stays finite if all entries are. -/
theorem isFinite_foldl_applyTo (h : ∀ entry ∈ entries, entry.isFinite = true)
    (hg : g.IsFinite) : (entries.foldl ResponseNode.applyTo g).IsFinite := by
  rw [foldl_applyTo]
  intro n hn
  obtain ⟨n, hmem, rfl⟩ := List.mem_map.1 hn
  exact isFinite_settle h (hg n hmem)

end DotLayout.Exchange
