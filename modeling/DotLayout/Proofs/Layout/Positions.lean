import DotLayout.Layout.Algorithm
import Mathlib.Data.List.Induction
import Mathlib.Data.List.Nodup

/-! # From graphs to scenes and from points to positions

    A layout numbers the nodes of a graph in order, works with the numbers, and gives every point
    back to the node that has its number.

    * `indexOf?_eq_some_iff` : the number of an id is its place among the ids.
    * `mem_arrows_ofGraph` : the arrows of a scene are the edges between different nodes.
    * `length_points` : every algorithm places every node.
    * `entries_layout` : the positions are the ids with their points, in order. -/

namespace DotLayout

namespace Graph

variable {g g' : Graph}

theorem length_ids (g : Graph) : g.ids.length = g.nodes.length := List.length_map ..

/-- The number of an id is the first place where it stands among the ids. -/
theorem indexOf?_eq (g : Graph) (id : String) : g.indexOf? id = g.ids.findIdx? (· == id) := by
  rw [indexOf?, ids, List.findIdx?_map]
  rfl

/-- Graphs with the same ids number them in the same way. -/
theorem indexOf?_congr (h : g.ids = g'.ids) : g.indexOf? = g'.indexOf? := by
  funext id
  rw [indexOf?_eq, indexOf?_eq, h]

/-- The number of an id is its place among the ids. -/
theorem indexOf?_eq_some_iff {id : String} {i : Nat} :
    g.indexOf? id = some i ↔ g.ids[i]? = some id := by
  rw [indexOf?_eq, List.findIdx?_eq_some_iff_getElem]
  constructor
  · rintro ⟨hi, hid, -⟩
    rw [List.getElem?_eq_getElem hi, eq_of_beq hid]
  · intro h
    obtain ⟨hi, hid⟩ := List.getElem?_eq_some_iff.1 h
    refine ⟨hi, beq_iff_eq.2 hid, ?_⟩
    intro j hj heq
    have hsame : g.ids[j] = g.ids[i] := (eq_of_beq heq).trans hid.symm
    exact Nat.ne_of_lt hj ((List.Nodup.getElem_inj_iff g.ids_nodup).1 hsame)

/-- The number of an id is below the number of nodes. -/
theorem lt_of_indexOf? {id : String} {i : Nat} (h : g.indexOf? id = some i) :
    i < g.nodes.length := by
  obtain ⟨hi, -⟩ := List.getElem?_eq_some_iff.1 (indexOf?_eq_some_iff.1 h)
  rwa [length_ids] at hi

/-- Different ids have different numbers. -/
theorem indexOf?_inj {id id' : String} {i : Nat} (h : g.indexOf? id = some i)
    (h' : g.indexOf? id' = some i) : id = id' :=
  Option.some.inj ((indexOf?_eq_some_iff.1 h).symm.trans (indexOf?_eq_some_iff.1 h'))

/-- The ids of the ends of the edges, in order. -/
def ends (g : Graph) : List (String × String) := g.edges.map fun e => (e.source, e.target)

/-- Whether an edge leads from one node to a different one. -/
def Leads (g : Graph) (i j : Nat) : Prop :=
  i ≠ j ∧ ∃ e ∈ g.edges, g.indexOf? e.source = some i ∧ g.indexOf? e.target = some j

theorem Leads.lt_left {i j : Nat} (h : g.Leads i j) : i < g.nodes.length := by
  obtain ⟨-, e, -, hsource, -⟩ := h
  exact lt_of_indexOf? hsource

theorem Leads.lt_right {i j : Nat} (h : g.Leads i j) : j < g.nodes.length := by
  obtain ⟨-, e, -, -, htarget⟩ := h
  exact lt_of_indexOf? htarget

/-- Whether an edge leads from one node to another one depends on the ids of its ends. -/
theorem leads_iff {i j : Nat} : g.Leads i j ↔
    i ≠ j ∧ ∃ e ∈ g.ends, g.indexOf? e.1 = some i ∧ g.indexOf? e.2 = some j := by
  simp only [Leads, ends, List.mem_map, exists_exists_and_eq_and]

/-- Which nodes are joined depends on nothing but the ids of the nodes and of the ends. -/
theorem leads_congr (hids : g.ids = g'.ids) (hends : ∀ e, e ∈ g.ends ↔ e ∈ g'.ends) {i j : Nat} :
    g.Leads i j ↔ g'.Leads i j := by
  rw [leads_iff, leads_iff, indexOf?_congr hids]
  simp only [hends]

end Graph

namespace Layout

open Numeric

variable {g : Graph} {p : Params} {s : Scene}

/-! ## The arrows of a scene -/

/-- An edge has an arrow if both of its ends are nodes and they differ. -/
theorem arrow?_eq_some_iff {e : Edge} {i j : Nat} :
    arrow? g e = some (i, j)
      ↔ g.indexOf? e.source = some i ∧ g.indexOf? e.target = some j ∧ i ≠ j := by
  simp only [arrow?, Option.bind_eq_bind, Option.bind_eq_some_iff]
  constructor
  · rintro ⟨source, hsource, target, htarget, h⟩
    split at h
    · exact nomatch h
    · rename_i hne
      obtain ⟨rfl, rfl⟩ := Prod.mk.inj (Option.some.inj h)
      exact ⟨hsource, htarget, hne⟩
  · rintro ⟨hsource, htarget, hne⟩
    exact ⟨i, hsource, j, htarget, if_neg hne⟩

/-- The arrows of a scene are the edges between different nodes. -/
theorem mem_arrows_ofGraph {i j : Nat} : (i, j) ∈ (Scene.ofGraph g p).arrows ↔ g.Leads i j := by
  simp only [Scene.ofGraph, List.mem_eraseDups, List.mem_filterMap, arrow?_eq_some_iff]
  constructor
  · rintro ⟨e, he, hsource, htarget, hne⟩
    exact ⟨hne, e, he, hsource, htarget⟩
  · rintro ⟨hne, e, he, hsource, htarget⟩
    exact ⟨e, he, hsource, htarget, hne⟩

/-- An element that comes last is kept if it is new. -/
theorem eraseDups_concat {α : Type} [BEq α] [LawfulBEq α] (l : List α) (a : α) :
    (l ++ [a]).eraseDups = if l.contains a then l.eraseDups else l.eraseDups ++ [a] := by
  rw [List.eraseDups_append]
  by_cases h : a ∈ l <;> simp [List.removeAll, List.eraseDups_cons, h]

/-- When duplicates are erased, no element is there twice. -/
theorem nodup_eraseDups {α : Type} [BEq α] [LawfulBEq α] (l : List α) : l.eraseDups.Nodup := by
  induction l using List.reverseRecOn with
  | nil => exact List.nodup_nil
  | append_singleton l a ih =>
    rw [eraseDups_concat]
    split
    · exact ih
    · rename_i hnew
      rw [← List.concat_eq_append]
      exact ih.concat fun hmem => hnew (List.contains_iff_mem.2 (List.mem_eraseDups.1 hmem))

/-- No arrow of a scene is there twice. -/
theorem arrows_nodup (g : Graph) (p : Params) : (Scene.ofGraph g p).arrows.Nodup :=
  nodup_eraseDups _

theorem count_ofGraph (g : Graph) (p : Params) : (Scene.ofGraph g p).count = g.nodes.length :=
  List.length_map ..

/-- The arrows of a graph depend on nothing of its edges but their ends. -/
theorem filterMap_arrow? (g : Graph) :
    g.edges.filterMap (arrow? g)
      = g.ends.filterMap fun e => arrow? g { id := "", source := e.1, target := e.2 } := by
  rw [Graph.ends, List.filterMap_map]
  rfl

/-- Graphs with the same ids make the same arrows of the same edges. -/
theorem arrow?_congr {g g' : Graph} (hids : g.ids = g'.ids) : arrow? g = arrow? g' := by
  funext e
  rw [arrow?, arrow?, Graph.indexOf?_congr hids]

/-- A scene depends on nothing but ids, sizes and the ends of edges. -/
theorem ofGraph_congr {g g' : Graph} (hids : g.ids = g'.ids)
    (hsizes : g.nodes.map Node.size = g'.nodes.map Node.size) (hends : g.ends = g'.ends) :
    Scene.ofGraph g = Scene.ofGraph g' := by
  have harrows : g.edges.filterMap (arrow? g) = g'.edges.filterMap (arrow? g') := by
    rw [filterMap_arrow?, filterMap_arrow?, hends, arrow?_congr hids]
  funext p
  rw [Scene.ofGraph, Scene.ofGraph, hsizes, harrows, Graph.indexOf?_congr hids]

/-! ## Every algorithm places every node -/

/-- A loop that never forgets what it has found. -/
theorem isSome_foldl {α β : Type} {f : Option β → α → Option β} (h : ∀ b a, (f (some b) a).isSome)
    (l : List α) (b : β) : (l.foldl f (some b)).isSome := by
  induction l generalizing b with
  | nil => rfl
  | cons a l ih =>
    obtain ⟨b', hb'⟩ := Option.isSome_iff_exists.1 (h b a)
    rw [List.foldl_cons, hb']
    exact ih b'

/-- Among some nodes there is one with the largest degree. -/
theorem isSome_busiest? (s : Scene) {nodes : List Nat} (h : nodes ≠ []) :
    (s.busiest? nodes).isSome := by
  cases nodes with
  | nil => exact absurd rfl h
  | cons i nodes =>
    refine isSome_foldl (fun b j => ?_) nodes i
    dsimp only
    split <;> rfl

/-- Only an empty scene has no hub. -/
theorem count_eq_zero_of_hub? (h : s.hub? = none) : s.count = 0 := by
  by_contra hne
  have hnodes : List.range s.count ≠ [] := by simpa using hne
  have hsome := isSome_busiest? s hnodes
  obtain ⟨-, hnone⟩ := Option.or_eq_none_iff.1 h
  simp [hnone] at hsome

/-- Applying a function that can fail to every element keeps the number of elements. -/
theorem length_mapM {ε α β : Type} {f : α → Except ε β} {l : List α} {l' : List β}
    (h : l.mapM f = .ok l') : l'.length = l.length := by
  induction l generalizing l' with
  | nil =>
    obtain rfl : [] = l' := by simpa [pure, Except.pure] using h
    rfl
  | cons a l ih =>
    rw [List.mapM_cons] at h
    cases hb : f a with
    | error e => simp [hb, bind, Except.bind] at h
    | ok b =>
      cases hrest : l.mapM f with
      | error e => simp [hb, hrest, bind, Except.bind] at h
      | ok rest =>
        obtain rfl : b :: rest = l' := by
          simpa [hb, hrest, bind, Except.bind, pure, Except.pure] using h
        simp [ih hrest]

/-- Running a simulation keeps the number of points. -/
theorem length_run {f : ForceDirected.Field} {steps : Nat} {points points' : List Point}
    (h : ForceDirected.run f steps points = .ok points') : points'.length = points.length := by
  induction steps generalizing points with
  | zero =>
    obtain rfl := Except.ok.inj h
    rfl
  | succ steps ih =>
    rw [ForceDirected.run_succ] at h
    cases hstep : ForceDirected.step f points with
    | error fault => simp [hstep, Except.bind] at h
    | ok moved =>
      have hlen := length_mapM hstep
      rw [List.length_zipIdx] at hlen
      rw [ih (by simpa [hstep, Except.bind] using h), hlen]

/-- Every algorithm places every node of a scene. -/
theorem length_points {algorithm : Algorithm} {points : List Point}
    (h : algorithm.points s = .ok points) : points.length = s.count := by
  cases algorithm with
  | circular =>
    obtain rfl := Except.ok.inj h
    unfold Circular.points
    split
    · rename_i hnone
      exact (count_eq_zero_of_hub? hnone).symm
    · simp
  | grid =>
    obtain rfl := Except.ok.inj h
    simp [Grid.points]
  | hierarchical =>
    obtain rfl := Except.ok.inj h
    simp [Hierarchical.points]
  | forceDirected =>
    rw [length_run h]
    simp [ForceDirected.startPoints]
  | radial =>
    obtain rfl := Except.ok.inj h
    unfold Radial.points
    split
    · rename_i hnone
      exact (count_eq_zero_of_hub? hnone).symm
    · simp

/-! ## Positions -/

/-- The positions of a layout are the ids with their points, in order. -/
theorem entries_layout {algorithm : Algorithm} {points : List Point}
    (h : algorithm.points (.ofGraph g p) = .ok points) :
    ∃ positions, algorithm.layout g p = .ok positions ∧ positions.entries = g.ids.zip points := by
  refine ⟨.ofList (g.ids.zip points), by rw [Algorithm.layout, h, Except.map], ?_⟩
  have hlen : g.ids.length ≤ points.length :=
    Nat.le_of_eq (by rw [length_points h, count_ofGraph, Graph.length_ids])
  exact OrderedMap.entries_ofList (by rw [List.map_fst_zip hlen]; exact g.ids_nodup)

/-- A layout fails exactly when its points cannot be computed. -/
theorem layout_eq_error_iff {algorithm : Algorithm} {fault : ClampFault} :
    algorithm.layout g p = .error fault ↔ algorithm.points (.ofGraph g p) = .error fault := by
  rw [Algorithm.layout]
  cases algorithm.points (.ofGraph g p) <;> simp [Except.map]

/-- Every node is at the point that has its number. -/
theorem get?_of_entries {positions : Positions} {points : List Point} {i : Nat} {n : Node}
    {point : Point} (h : positions.entries = g.ids.zip points) (hn : g.nodes[i]? = some n)
    (hpoint : points[i]? = some point) : positions.get? n.id = some point := by
  have hid : g.ids[i]? = some n.id := by simp [Graph.ids, hn]
  rw [OrderedMap.get?_eq_some_iff, h]
  exact List.mem_of_getElem? (by rw [List.getElem?_zip_eq_some]; exact ⟨hid, hpoint⟩)

/-- So there is a position for each of them. -/
theorem layout_of_points_ok {algorithm : Algorithm} {points : List Point}
    (h : algorithm.points (.ofGraph g p) = .ok points) :
    ∃ positions, algorithm.layout g p = .ok positions ∧ ∀ (i : Nat) n, g.nodes[i]? = some n →
      ∃ q, points[i]? = some q ∧ positions.get? n.id = some q := by
  obtain ⟨positions, hlayout, hentries⟩ := entries_layout h
  refine ⟨positions, hlayout, fun i n hn => ?_⟩
  have hlt : i < points.length := by
    rw [length_points h, count_ofGraph]
    exact (List.getElem?_eq_some_iff.1 hn).1
  have hq := List.getElem?_eq_getElem hlt
  exact ⟨_, hq, get?_of_entries hentries hn hq⟩

end Layout

end DotLayout
