import DotLayout.Proofs.Layout.RingSlots
import DotLayout.Proofs.Numeric.Counts
import DotLayout.Proofs.Numeric.Steps

/-! # Nested rings

    The radius of a ring is the one of its step, or the one that its nodes need if that is larger.
    The steps grow from ring to ring, but nothing makes an outer ring larger because the nodes of an
    inner one need room.

    * `counts_stepRadius` : the radii of the steps are whole numbers.
    * `nested_iff` : so a ring encloses an inner one exactly if it encloses the room that the nodes
      of the inner one need.
    * `rings_nested` says so of the rings on which the layout puts the nodes. -/

namespace DotLayout.Layout.Radial

open Numeric

/-- The radius of the step of a ring. -/
def stepRadius (s : Scene) (ring : Nat) : Float32 :=
  s.measures.rings.baseRadius + ofCount ring * s.measures.rings.radiusStep

/-- The radius at which the nodes of a ring are not too close to each other. -/
def crowdRadius (s : Scene) (hub ring : Nat) : Float32 :=
  ofCount (members s hub ring).length * s.spacing / tau

/-- The radius of a ring with its nodes. -/
def radiusOf (s : Scene) (hub ring : Nat) : Float32 :=
  ringRadius s ring (members s hub ring).length

theorem radiusOf_eq (s : Scene) (hub ring : Nat) :
    radiusOf s hub ring = larger (stepRadius s ring) (crowdRadius s hub ring) := rfl

section Radii

variable {s : Scene} {hub k k' : Nat}

/-- A whole turn is positive and finite, and the radius at which the rings begin is finite. -/
theorem turn_and_base : (0 < tau ∧ tau.isFinite = true) ∧ (60 : Float32).isFinite = true := by
  decide +kernel

/-- The step of a ring has the radius `60 + 200 * ring`, as long as this is a whole number that
    singles hold. -/
theorem counts_stepRadius (hrings : s.measures.rings = {}) (hk : 0 < k)
    (hlt : 60 + 200 * k < 2 ^ 23) : Counts (stepRadius s k) (60 + 200 * k) := by
  have hbase : Counts (60 : Float32) 60 := counts_ofCount (n := 60) (by decide) (by decide)
  have hstep : Counts (200 : Float32) 200 := counts_ofCount (n := 200) (by decide) (by decide)
  have hring : Counts (ofCount k) k := counts_ofCount (by omega) (by omega)
  rw [stepRadius, hrings, Nat.mul_comm 200]
  exact hbase.add (hring.mul hstep (by omega)) (by omega)

/-- The steps grow from ring to ring. -/
theorem stepRadius_less (hrings : s.measures.rings = {}) (hk : 0 < k) (h : k < k')
    (hlt : 60 + 200 * k' < 2 ^ 23) : stepRadius s k < stepRadius s k' :=
  (counts_stepRadius hrings hk (by omega)).less (counts_stepRadius hrings (by omega) hlt) (by omega)

theorem isNaN_stepRadius (hrings : s.measures.rings = {}) (hk : 0 < k) :
    (stepRadius s k).isNaN = false := by
  have hstep : 0 ≤ ofCount k * 200 :=
    nonneg_mul_of_pos (pos_ofCount (Nat.ne_of_gt hk)) (pos_ofCount (n := 200) (by decide))
  rw [stepRadius, hrings]
  exact (le_iff.1 (le_add turn_and_base.2 hstep)).1.2

/-- The space between nodes is not less than what is asked for. -/
theorem pos_spacing (h : s.measures.spacing = 180) : 0 < s.spacing := by
  have hasked : 0 < (180 : Float32) := pos_ofCount (n := 180) (by decide)
  rw [Scene.spacing, Measures.minSpacing, clearSpace, h]
  exact less_of_less_of_le hasked (le_larger_left _ (lt_iff.1 hasked).1.2)

theorem isNaN_crowdRadius (h : s.measures.spacing = 180) (hne : members s hub k ≠ []) :
    (crowdRadius s hub k).isNaN = false := by
  have hcount := pos_ofCount fun hzero => hne (List.length_eq_zero_iff.1 hzero)
  obtain ⟨hpos, hfinite⟩ := turn_and_base.1
  exact (nonneg_iff.1 (nonneg_div (nonneg_mul_of_pos hcount (pos_spacing h)) hpos hfinite)).1

/-- A ring encloses another one exactly if it encloses the step of that ring and the room that the
    nodes on it need. -/
theorem radiusOf_less_iff (hrings : s.measures.rings = {}) (hspacing : s.measures.spacing = 180)
    (hk : 0 < k) (hne : members s hub k ≠ []) :
    radiusOf s hub k < radiusOf s hub k'
      ↔ stepRadius s k < radiusOf s hub k' ∧ crowdRadius s hub k < radiusOf s hub k' := by
  rw [radiusOf_eq s hub k]
  exact larger_less_iff (isNaN_stepRadius hrings hk) (isNaN_crowdRadius hspacing hne)

/-- An outer ring encloses the steps of all inner rings, so it encloses an inner ring exactly if
    the nodes on that ring do not need more room. -/
theorem nested_iff (hrings : s.measures.rings = {}) (hspacing : s.measures.spacing = 180)
    (hk : 0 < k) (h : k < k') (hlt : 60 + 200 * k' < 2 ^ 23) (hne : members s hub k ≠ []) :
    radiusOf s hub k < radiusOf s hub k' ↔ crowdRadius s hub k < radiusOf s hub k' := by
  rw [radiusOf_less_iff hrings hspacing hk hne, and_iff_right]
  exact less_of_less_of_le (stepRadius_less hrings hk h hlt)
    (le_larger_left _ (isNaN_stepRadius hrings (Nat.zero_lt_of_lt h)))

end Radii

/-- **When rings are nested.**  The radial layout puts every node but the hub on the circle of its
    ring around the center.  With the settings for rings and the spacing that are there from the
    start, a ring with nodes on it is inside another one exactly if its step and the room that its
    nodes need are both inside.  For a ring further out it is the room alone that counts, unless its
    step is too large for a whole number in a single.  So the nodes that the hub does not lead to
    are outside the rings of the levels exactly if no ring of a level needs too much room. -/
theorem rings_nested (g : Graph) (p : Params) (h : g.nodes ≠ []) (hrings : p.rings = {})
    (hspacing : p.spacing = 180) :
    let s := Scene.ofGraph g p
    ∃ hub positions, g.IsHub p.anchor hub ∧ Algorithm.radial.layout g p = .ok positions ∧
      (∀ i n, g.nodes[i]? = some n → i ≠ hub → ∃ angle, positions.get? n.id =
        some (.polar p.center (radiusOf s hub (ringOf s hub i)) angle)) ∧
      ∀ k k', 0 < k → k < k' → members s hub k ≠ [] → members s hub k' ≠ [] →
        (radiusOf s hub k < radiusOf s hub k'
          ↔ stepRadius s k < radiusOf s hub k' ∧ crowdRadius s hub k < radiusOf s hub k') ∧
        (60 + 200 * k' < 2 ^ 23 → (radiusOf s hub k < radiusOf s hub k'
          ↔ crowdRadius s hub k < radiusOf s hub k')) := by
  intro s
  obtain ⟨hub, hhub⟩ := exists_hub p h
  have hishub := isHub_of_hub? hhub
  have hlt : hub < s.count := (count_ofGraph g p).symm ▸ hishub.lt
  obtain ⟨positions, hlayout, hentries⟩ :=
    entries_layout (show Algorithm.radial.points s = .ok (points s) from rfl)
  refine ⟨hub, positions, hishub, hlayout, ?_, ?_⟩
  · -- the ring alone decides the radius, and the slot only the angle
    intro i n hn hne
    have hi : i < s.count := by
      rw [count_ofGraph]
      exact (List.getElem?_eq_some_iff.1 hn).1
    have hpoint := get?_of_entries hentries hn (getElem?_points hhub hlt hi)
    rw [pointOf, if_neg hne] at hpoint
    exact ⟨_, hpoint⟩
  · intro k k' hk hkk' hmembers _
    exact ⟨radiusOf_less_iff hrings hspacing hk hmembers,
      fun hsmall => nested_iff hrings hspacing hk hkk' hsmall hmembers⟩

/-- A hub that leads to sixteen nodes, and a node apart. -/
def fan : Graph :=
  ((List.range 16).foldl (fun g i => g.connect "hub" (toString i) {} .curved)
    (Graph.empty true none)).ensureNode "apart"

/-- The sixteen nodes crowd the first ring around the hub, and the node apart has the second one,
    which does not enclose it. -/
theorem rings_fan :
    let s := Scene.ofGraph fan {}
    (fan.nodes.length = 18 ∧ s.hub? = some 0 ∧ ∀ i < 18, 0 < i → ¬ fan.degree 0 < fan.degree i) ∧
      members s 0 1 ≠ [] ∧ members s 0 2 ≠ [] ∧ ringOf s 0 17 = 2 ∧
      ¬ radiusOf s 0 1 < radiusOf s 0 2 := by
  decide +kernel

/-- The ring of the node apart is the second one, and its radius is not larger than that of the
    crowded first one. -/
theorem apart_inside_fan :
    ¬ ∀ (g : Graph) (p : Params), p.rings = {} → p.spacing = 180 →
      ∀ hub k k', (Scene.ofGraph g p).hub? = some hub → 0 < k → k < k' →
        members (.ofGraph g p) hub k ≠ [] → members (.ofGraph g p) hub k' ≠ [] →
          radiusOf (.ofGraph g p) hub k < radiusOf (.ofGraph g p) hub k' := by
  intro h
  obtain ⟨⟨-, hhub, -⟩, hfirst, hsecond, -, hcrowded⟩ := rings_fan
  exact hcrowded (h fan {} rfl rfl 0 1 2 hhub Nat.one_pos (by decide) hfirst hsecond)

/-- The node apart stands on the second ring, which does not enclose the room for the sixteen
    nodes. -/
theorem rings_nested_fan :
    (fan.nodes ≠ [] ∧ ({} : Params).rings = {} ∧ ({} : Params).spacing = 180) ∧
      (∃ positions, Algorithm.radial.layout fan {} = .ok positions ∧
        ∃ angle, positions.get? "apart" =
          some (.polar .origin (radiusOf (.ofGraph fan {}) 0 2) angle)) ∧
      ¬ crowdRadius (.ofGraph fan {}) 0 1 < radiusOf (.ofGraph fan {}) 0 2 := by
  obtain ⟨⟨hlength, -, hleast⟩, hfirst, hsecond, hring, hcrowded⟩ := rings_fan
  have hlast : 17 < fan.nodes.length := by omega
  have hne : fan.nodes ≠ [] := List.ne_nil_of_length_pos (Nat.zero_lt_of_lt hlast)
  refine ⟨⟨hne, rfl, rfl⟩, ?_⟩
  obtain ⟨hub, positions, hhub, hlayout, hpoints, hnested⟩ := rings_nested fan {} hne rfl rfl
  obtain rfl : hub = 0 := by
    rcases hhub with ⟨id, hid, -⟩ | ⟨-, hbusiest⟩
    · exact nomatch hid
    · by_contra hpos
      have hless := hbusiest.first 0 (Nat.pos_of_ne_zero hpos)
      exact hleast hub (hlength ▸ hbusiest.lt) (Nat.pos_of_ne_zero hpos) hless
  constructor
  · obtain ⟨angle, hangle⟩ := hpoints 17 (fan.nodes.get ⟨17, hlast⟩) rfl (by decide)
    rw [hring] at hangle
    exact ⟨positions, hlayout, angle, hangle⟩
  · have hiff := (hnested 1 2 Nat.one_pos (by decide) hfirst hsecond).2 (by decide)
    exact fun hcrowd => hcrowded (hiff.2 hcrowd)

end DotLayout.Layout.Radial
