import DotLayout.Proofs.Exchange.Runs
import DotLayout.Proofs.Graph.GivenValues
import Mathlib.Data.Finset.Card

/-! # Last entries

    An answer may name a node again and again, now with a size, now with half of one, now without.
    Its position and its size then come from different entries.

    * `settle_eq` : a node has the last position that is given for it, and the last size that is
      given with both of its sides.
    * `length_named` : the nodes that an answer names are as many as the different ids in it.
    * `apply_last_entries` : so an accepted answer does just this to the nodes that it names, and
      nothing to the others; the count that comes with it is that of the entries. -/

namespace DotLayout.Exchange

open OrderedMap

variable {g : Graph} {n : Node} {r : Response}

/-! ## Positions and sizes apart -/

/-- The size that an entry gives, if it gives both sides. -/
def ResponseNode.size? (entry : ResponseNode) : Option Size :=
  match entry.width, entry.height with
  | some width, some height => some ⟨width, height⟩
  | _, _ => none

/-- The positions that entries give, by the ids of their nodes. -/
def placesOf (entries : List ResponseNode) : List (String × Point) :=
  entries.map fun entry => (entry.id, ⟨entry.x, entry.y⟩)

/-- The sizes that entries give, by the ids of their nodes. -/
def sizesOf (entries : List ResponseNode) : List (String × Size) :=
  entries.filterMap fun entry => entry.size?.map (entry.id, ·)

/-- An entry for a node moves it, and resizes it if it gives a size. -/
theorem place_eq (entry : ResponseNode) (n : Node) :
    entry.place n = { n with
      position := (lastGiven? n.id (placesOf [entry])).getD n.position
      size := (lastGiven? n.id (sizesOf [entry])).getD n.size } := by
  have hplaces : lastGiven? n.id (placesOf [entry])
      = if entry.id = n.id then some ⟨entry.x, entry.y⟩ else none :=
    lastGiven?_singleton ..
  have hsizes : lastGiven? n.id (sizesOf [entry])
      = if entry.id = n.id then entry.size? else none := by
    rw [sizesOf, List.filterMap_cons, List.filterMap_nil]
    cases entry.size? with
    | none => exact (ite_self _).symm
    | some size => exact lastGiven?_singleton ..
  rw [hplaces, hsizes]
  by_cases hid : n.id = entry.id
  · rw [if_pos hid.symm, if_pos hid.symm, ResponseNode.place, if_pos (beq_iff_eq.2 hid),
      ResponseNode.size?]
    cases entry.width with
    | none => rfl
    | some width => cases entry.height <;> rfl
  · rw [if_neg fun h => hid h.symm, if_neg fun h => hid h.symm, place_of_ne hid]
    rfl

/-- Entries leave a node at the last position and with the last size that they give for it. -/
theorem settle_eq (entries : List ResponseNode) (n : Node) :
    settle entries n = { n with
      position := (lastGiven? n.id (placesOf entries)).getD n.position
      size := (lastGiven? n.id (sizesOf entries)).getD n.size } := by
  induction entries using List.reverseRecOn with
  | nil => rfl
  | append_singleton entries entry ih =>
    have hstep : settle (entries ++ [entry]) n = entry.place (settle entries n) :=
      List.foldl_append
    have hplaces : placesOf (entries ++ [entry]) = placesOf entries ++ placesOf [entry] :=
      List.map_append
    have hsizes : sizesOf (entries ++ [entry]) = sizesOf entries ++ sizesOf [entry] :=
      List.filterMap_append
    rw [hstep, place_eq, ih, hplaces, hsizes, lastGiven?_append, lastGiven?_append]
    cases lastGiven? n.id (placesOf [entry]) <;> cases lastGiven? n.id (sizesOf [entry]) <;> rfl

/-! ## Whole answers -/

namespace Response

/-- The ids that an answer names, as often as it does. -/
def ids (r : Response) : List String := r.nodes.map ResponseNode.id

/-- The nodes of a graph that an answer names. -/
def named (r : Response) (g : Graph) : List Node := g.nodes.filter fun n => r.ids.contains n.id

/-- An answer is accepted if all of its entries have a node and are finite. -/
theorem apply_eq_ok_iff {after : Graph} {count : Nat} :
    r.apply g = .ok (after, count) ↔
      (∀ entry ∈ r.nodes, entry.id ∈ g.ids ∧ entry.isFinite = true) ∧
        after = r.nodes.foldl ResponseNode.applyTo g ∧ count = r.nodes.length := by
  rw [← validate_eq_ok_iff, apply]
  cases r.validate g with
  | error e => simp [bind, Except.bind]
  | ok => simp [bind, Except.bind, pure, Except.pure, eq_comm]

/-- The nodes that an answer names are as many as the different ids in it, if all of these have
    nodes. -/
theorem length_named (h : ∀ entry ∈ r.nodes, entry.id ∈ g.ids) :
    (r.named g).length = r.ids.toFinset.card := by
  have hnodup : ((r.named g).map Node.id).Nodup :=
    g.ids_nodup.sublist (List.filter_sublist.map Node.id)
  have hsame : ((r.named g).map Node.id).toFinset = r.ids.toFinset := by
    ext id
    simp only [List.mem_toFinset, List.mem_map, named, List.mem_filter, List.contains_iff_mem]
    constructor
    · rintro ⟨n, ⟨-, hn⟩, rfl⟩
      exact hn
    · intro hid
      obtain ⟨entry, hentry, rfl⟩ := List.mem_map.1 hid
      obtain ⟨n, hn, hnid⟩ := List.mem_map.1 (h entry hentry)
      exact ⟨n, ⟨hn, hnid ▸ hid⟩, hnid⟩
  rw [← hsame, List.toFinset_card_of_nodup hnodup, List.length_map]

/-- There are as many entries as different ids if no id comes up twice. -/
theorem length_nodes_eq_iff (r : Response) :
    r.nodes.length = r.ids.toFinset.card ↔ r.ids.Nodup := by
  have hlength : r.ids.length = r.nodes.length := List.length_map ..
  rw [← hlength]
  constructor
  · intro h
    rw [List.card_toFinset] at h
    exact List.dedup_eq_self.1 ((List.dedup_sublist r.ids).eq_of_length h.symm)
  · exact fun h => (List.toFinset_card_of_nodup h).symm

end Response

/-- **The last entries count.**  When an answer is applied to a graph, every node that it names is
    at the position of the last entry for it, and as large as the last entry for it says that gives
    both sides, or as large as before if there is none.  All other nodes are as they were, and so is
    everything else.  The nodes that are named are as many as the different ids in the answer; the
    count that is returned is that of the entries, which is the same if no id comes up twice. -/
theorem apply_last_entries {r : Response} {g after : Graph} {count : Nat}
    (h : r.apply g = .ok (after, count)) :
    (InPlace.apply r).run g = .ok count after ∧ g.SameButPlaces after ∧
      (∀ id ∈ r.ids, ∃ before n, g.node? id = some before ∧ after.node? id = some n ∧
        lastGiven? id (placesOf r.nodes) = some n.position ∧
        n.size = (lastGiven? id (sizesOf r.nodes)).getD before.size) ∧
      (∀ id, id ∉ r.ids → after.node? id = g.node? id) ∧
      (r.named g).length = r.ids.toFinset.card ∧
      count = r.nodes.length ∧ (count = (r.named g).length ↔ r.ids.Nodup) := by
  have hrun := InPlace.run_apply g r
  rw [h] at hrun
  obtain ⟨hvalid, rfl, rfl⟩ := Response.apply_eq_ok_iff.1 h
  have hids : ∀ entry ∈ r.nodes, entry.id ∈ g.ids := fun entry hentry => (hvalid entry hentry).1
  have hcard := Response.length_named hids
  refine ⟨hrun, sameButPlaces_foldl_applyTo g r.nodes, ?_, ?_, hcard, rfl, ?_⟩
  · intro id hid
    obtain ⟨entry, hentry, rfl⟩ := List.mem_map.1 hid
    obtain ⟨before, -, hbefore⟩ := Graph.exists_node?_of_mem (hids entry hentry)
    obtain ⟨place, hplace⟩ : ∃ place, lastGiven? entry.id (placesOf r.nodes) = some place := by
      refine exists_lastGiven? ?_
      rwa [placesOf, List.map_map]
    -- the node takes the last place and the last size that name it, in the order of the entries
    refine ⟨before, settle r.nodes before, hbefore, ?_, ?_, ?_⟩
    · rw [foldl_applyTo, Graph.node?_mapNodes, hbefore, Option.map_some]
    · rw [settle_eq, Graph.id_of_node? hbefore, hplace]
      rfl
    · rw [settle_eq, Graph.id_of_node? hbefore]
  · exact fun id hid => node?_foldl_applyTo g hid
  · -- every entry counts once, a node once however many entries name it
    rw [hcard]
    exact Response.length_nodes_eq_iff r

/-- An answer for two nodes that names one of them three times: whole, with one side, and without a
    size. -/
def patched : Response where
  nodes := [⟨"b", 1, 1, some 80, some 30⟩, ⟨"a", 2, 2, none, none⟩, ⟨"b", 3, 3, none, some 99⟩,
    ⟨"b", 5, 6, none, none⟩]
  edges := []

/-- The position comes from the last entry, the size from the first one, and two nodes make a count
    of four. -/
theorem apply_last_entries_patched :
    ∃ after n, patched.apply pair = .ok (after, 4) ∧ after.node? "b" = some n ∧
      n.position = ⟨5, 6⟩ ∧ n.size = ⟨80, 30⟩ ∧ (patched.named pair).length = 2 := by
  have happly : patched.apply pair = .ok (patched.nodes.foldl ResponseNode.applyTo pair, 4) := rfl
  obtain ⟨-, -, hnamed, -, hcard, -⟩ := apply_last_entries happly
  obtain ⟨before, n, -, hn, hplace, hsize⟩ := hnamed "b" (by decide)
  exact ⟨_, n, happly, hn, Option.some.inj hplace.symm, hsize, hcard⟩

/-- An answer that moves one node twice. -/
def movedTwice : Response := ⟨[⟨"a", 1, 2, none, none⟩, ⟨"a", 3, 4, none, none⟩], []⟩

/-- One node that is moved twice makes a count of two. -/
theorem moved_twice_counted_twice :
    ∃ after, movedTwice.apply pair = .ok (after, 2) ∧ movedTwice.ids.toFinset.card = 1 ∧
      (movedTwice.named pair).map Node.id = ["a"] :=
  ⟨_, rfl, by decide, by decide⟩

end DotLayout.Exchange
