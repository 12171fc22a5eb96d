import DotLayout.Routing.Resolver
import DotLayout.Proofs.Geometry.Points

/-! # Paths between rectangles

    A path joins its two anchors, however the rectangles lie: they may overlap, coincide or be so
    far away that their centers are infinite.  Rounding may make points of an orthogonal path equal
    that are different otherwise; leaving out what is repeated may then leave out a bend or even
    the end, but what stays in its place equals it.

    * `exists_facing` : a curve runs between opposite sides, which face each other.
    * `isChain_bends` : the lines of an orthogonal path are along the axes.
    * `head?_dropRepeats`, `exists_getLast?_dropRepeats`, `aligned_dropRepeats` : without repeated
      points it still starts and ends there and runs along the axes.
    * `resolve_joins` : what is true of any path that is resolved. -/

namespace DotLayout.Routing

open Numeric

variable {p q stop : Point} {points : List Point} {b source target : Bounds}

/-! ## Sides -/

namespace Side

variable {side : Side}

/-- The side on the other end of a rectangle. -/
def opposite : Side → Side
  | .top => .bottom
  | .right => .left
  | .bottom => .top
  | .left => .right

/-- Whether a way leads across a side and not back from it.  A way without a length leads across the
    bottom. -/
def Crossed : Side → Point → Prop
  | .top, way => way.y < 0
  | .right, way => 0 < way.x
  | .bottom, way => 0 ≤ way.y
  | .left, way => way.x < 0

/-- A side faces where a way leads to: its axis is the first one only if the way is longer along
    that axis, and the way leads across it, unless infinite centers leave no number to tell from. -/
structure Faces (side : Side) (way : Point) : Prop where
  axis : side.isHorizontal = true ↔ way.y.abs < way.x.abs
  crossed : way.y.isNaN = false → side.Crossed way

theorem isNumber_anchor (h : b.IsFinite) (side : Side) : (side.anchor b).IsNumber := by
  cases side with
  | top => exact ⟨h.isNumber_center.x, isNaN_of_isFinite h.minY⟩
  | right => exact ⟨isNaN_of_isFinite h.maxX, h.isNumber_center.y⟩
  | bottom => exact ⟨h.isNumber_center.x, isNaN_of_isFinite h.maxY⟩
  | left => exact ⟨isNaN_of_isFinite h.minX, h.isNumber_center.y⟩

theorem isFinite_anchor_x (h : b.IsFinite) (hside : side.isHorizontal = true) :
    (side.anchor b).x.isFinite = true := by
  cases side with
  | right => exact h.maxX
  | left => exact h.minX
  | top | bottom => exact nomatch hside

theorem isFinite_anchor_y (h : b.IsFinite) (hside : side.isHorizontal = false) :
    (side.anchor b).y.isFinite = true := by
  cases side with
  | top => exact h.minY
  | bottom => exact h.maxY
  | right | left => exact nomatch hside

end Side

/-- The sides that face each other are opposite ones. -/
theorem exists_facing (source target : Bounds) :
    ∃ side : Side, facingSides source target = (side, side.opposite) ∧
      side.Faces (target.center - source.center) := by
  rw [facingSides]
  generalize target.center - source.center = way
  by_cases hwide : way.y.abs < way.x.abs
  · simp only [if_pos hwide]
    by_cases hright : 0 < way.x
    · rw [if_pos hright]
      exact ⟨.right, rfl, ⟨fun _ => hwide, fun _ => rfl⟩, fun _ => hright⟩
    · rw [if_neg hright]
      exact ⟨.left, rfl, ⟨fun _ => hwide, fun _ => rfl⟩, fun _ => negative_of_abs_less hwide hright⟩
  · simp only [if_neg hwide]
    by_cases hdown : 0 ≤ way.y
    · rw [if_pos hdown]
      exact ⟨.bottom, rfl, ⟨nofun, fun h => absurd h hwide⟩, fun _ => hdown⟩
    · rw [if_neg hdown]
      exact ⟨.top, rfl, ⟨nofun, fun h => absurd h hwide⟩, fun h => negative_of_not_nonneg h hdown⟩

/-! ## Bends -/

/-- Two points lie on a line along an axis. -/
def Aligned (p q : Point) : Prop := (p.x == q.x) = true ∨ (p.y == q.y) = true

theorem Aligned.of_beq {z : Point} (hpq : (p == q) = true) (h : Aligned q z) : Aligned p z := by
  obtain ⟨hx, hy⟩ := Point.beq_iff.1 hpq
  exact h.imp (beq_trans hx) (beq_trans hy)

/-- A path has at most two bends between its ends. -/
theorem length_bends_le (leaves arrives : Bool) (start stop : Point) :
    (start :: bends leaves arrives start stop ++ [stop]).length ≤ 4 := by
  cases leaves <;> cases arrives <;> simp [bends]

/-- With its bends, a path between two anchors runs along the axes. -/
theorem isChain_bends (hsource : source.IsFinite) (htarget : target.IsFinite)
    (leaving arriving : Side) :
    (leaving.anchor source :: bends leaving.isHorizontal arriving.isHorizontal
      (leaving.anchor source) (arriving.anchor target) ++ [arriving.anchor target]).IsChain
        Aligned := by
  have hstart := Side.isNumber_anchor hsource leaving
  have hstop := Side.isNumber_anchor htarget arriving
  -- bends half way are between sides of the rectangles, not centers, so their middle is a number
  cases hleaving : leaving.isHorizontal <;> cases harriving : arriving.isHorizontal
  case false.false =>
    have hmiddle := Bounds.isNaN_middle (Side.isFinite_anchor_y hsource hleaving)
      (Side.isFinite_anchor_y htarget harriving)
    exact .cons_cons (.inl (beq_self_iff.2 hstart.x)) (.cons_cons (.inr (beq_self_iff.2 hmiddle))
      (.cons_cons (.inl (beq_self_iff.2 hstop.x)) (.singleton _)))
  case true.true =>
    have hmiddle := Bounds.isNaN_middle (Side.isFinite_anchor_x hsource hleaving)
      (Side.isFinite_anchor_x htarget harriving)
    exact .cons_cons (.inr (beq_self_iff.2 hstart.y)) (.cons_cons (.inl (beq_self_iff.2 hmiddle))
      (.cons_cons (.inr (beq_self_iff.2 hstop.y)) (.singleton _)))
  case false.true =>
    exact .cons_cons (.inl (beq_self_iff.2 hstart.x))
      (.cons_cons (.inr (beq_self_iff.2 hstop.y)) (.singleton _))
  case true.false =>
    exact .cons_cons (.inr (beq_self_iff.2 hstart.y))
      (.cons_cons (.inl (beq_self_iff.2 hstop.x)) (.singleton _))

/-! ## Repeated points -/

theorem head?_dropRepeats (points : List Point) : (dropRepeats points).head? = points.head? := by
  fun_induction dropRepeats points with
  | case1 p q rest hpq ih => exact ih
  | case2 p q rest hpq ih => rfl
  | case3 points h => rfl

theorem length_dropRepeats_le (points : List Point) :
    (dropRepeats points).length ≤ points.length := by
  fun_induction dropRepeats points with
  | case1 p q rest hpq ih => exact Nat.le_succ_of_le ih
  | case2 p q rest hpq ih => exact Nat.succ_le_succ ih
  | case3 points h => exact Nat.le_refl _

/-- No point equals the one before it. -/
theorem distinct_dropRepeats (points : List Point) :
    (dropRepeats points).IsChain fun p q => (p == q) = false := by
  fun_induction dropRepeats points with
  | case1 p q rest hpq ih => exact ih
  | case2 p q rest hpq ih =>
      refine List.isChain_cons.2 ⟨fun z hz => ?_, ih⟩
      rw [head?_dropRepeats] at hz
      obtain rfl := Option.some.inj hz
      exact Bool.eq_false_iff.2 hpq
  | case3 points h =>
      match points with
      | [] => exact .nil
      | [p] => exact .singleton p
      | p :: q :: rest => exact (h p q rest rfl).elim

/-- The point before a repeated one is in line with the point after it. -/
theorem aligned_dropRepeats (h : points.IsChain Aligned) :
    (dropRepeats points).IsChain Aligned := by
  fun_induction dropRepeats points with
  | case1 p q rest hpq ih =>
      obtain ⟨hnext, hrest⟩ := List.isChain_cons.1 (List.isChain_cons.1 h).2
      exact ih (List.isChain_cons.2 ⟨fun z hz => (hnext z hz).of_beq hpq, hrest⟩)
  | case2 p q rest hpq ih =>
      obtain ⟨hnext, hrest⟩ := List.isChain_cons.1 h
      refine List.isChain_cons.2 ⟨fun z hz => ?_, ih hrest⟩
      rw [head?_dropRepeats] at hz
      exact hnext z hz
  | case3 points => exact h

/-- The last point may be a repeated one, but then it equals the point that is last without it. -/
theorem exists_getLast?_dropRepeats (hlast : points.getLast? = some stop)
    (hstop : (stop == stop) = true) :
    ∃ q, (dropRepeats points).getLast? = some q ∧ (q == stop) = true := by
  fun_induction dropRepeats points with
  | case1 p q rest hpq ih =>
      match rest, ih, hlast with
      | [], _, rfl =>
          -- the end itself is left out, and the point before it is the last one
          refine ⟨p, ?_, hpq⟩
          rw [dropRepeats]
          · rfl
          · exact nofun
      | z :: rest, ih, hlast => exact ih hlast
  | case2 p q rest hpq ih =>
      obtain ⟨last, hget, hequal⟩ := ih hlast
      refine ⟨last, ?_, hequal⟩
      rw [List.getLast?_cons, hget, Option.getD_some]
  | case3 points => exact ⟨stop, hlast, hstop⟩

/-! ## Paths -/

/-- The points of an orthogonal path: few, different from one to the next, and joined by lines along
    the axes. -/
structure IsElbow (points : List Point) : Prop where
  nonempty : points ≠ []
  few : points.length ≤ 4
  distinct : points.IsChain fun p q => (p == q) = false
  aligned : points.IsChain Aligned

/-- Leaving out repeated points of a short path along the axes leaves an elbow. -/
theorem isElbow_dropRepeats (hne : points ≠ []) (hfew : points.length ≤ 4)
    (haligned : points.IsChain Aligned) : IsElbow (dropRepeats points) where
  nonempty := by
    intro hnil
    have hhead := head?_dropRepeats points
    rw [hnil] at hhead
    exact hne (List.head?_eq_none_iff.1 hhead.symm)
  few := (length_dropRepeats_le points).trans hfew
  distinct := distinct_dropRepeats points
  aligned := aligned_dropRepeats haligned

/-- There is a point, and it equals another one. -/
def Meets (found : Option Point) (p : Point) : Prop := ∃ q, found = some q ∧ (q == p) = true

/-- **Paths join their anchors.**  A path between two finite rectangles starts at the anchor of the
    first one and ends at that of the second one, for every kind of edge, every curvature and all
    ports.  A curve has its anchors on opposite sides that face each other.  An orthogonal path has
    them on the ports; it has one to four points, of which no two consecutive ones are equal and
    every two consecutive ones share a coordinate. -/
theorem resolve_joins (r : Resolver) {source target : Bounds} (hsource : source.IsFinite)
    (htarget : target.IsFinite) (kind : EdgeKind) :
    let way := r.resolve source target kind
    Meets way.path.start? way.source.point ∧ Meets way.path.stop? way.target.point ∧
      match kind with
      | .curved => ∃ side : Side, way.source = .on source side ∧
          way.target = .on target side.opposite ∧ side.Faces (target.center - source.center)
      | .orthogonal => way.source = .on source r.ports.source ∧
          way.target = .on target r.ports.target ∧
          ∃ points, way.path = .elbow points ∧ IsElbow points := by
  cases kind with
  | curved =>
      obtain ⟨side, hsides, hfaces⟩ := exists_facing source target
      have hstart := (Side.isNumber_anchor hsource side).beq_self
      have hstop := (Side.isNumber_anchor htarget side.opposite).beq_self
      simp only [Resolver.resolve, Resolver.resolveCurved, hsides]
      exact ⟨⟨_, rfl, hstart⟩, ⟨_, rfl, hstop⟩, side, rfl, rfl, hfaces⟩
  | orthogonal =>
      have hstart := (Side.isNumber_anchor hsource r.ports.source).beq_self
      have hstop := (Side.isNumber_anchor htarget r.ports.target).beq_self
      have helbow := isElbow_dropRepeats (List.cons_ne_nil _ _) (length_bends_le ..)
        (isChain_bends hsource htarget r.ports.source r.ports.target)
      exact ⟨⟨_, head?_dropRepeats _, hstart⟩,
        exists_getLast?_dropRepeats List.getLast?_concat hstop, rfl, rfl, _, rfl, helbow⟩

/-- A rectangle without an extent, between zeros of different signs. -/
def speck : Bounds := ⟨-0, 0, 0, -0⟩

/-- A rectangle so far away that its center is infinite. -/
def remote : Bounds := ⟨3e38, 0, 3.1e38, 10⟩

/-- Paths from a speck to itself and to a rectangle that is too far away. -/
theorem resolve_joins_remote :
    speck.IsFinite ∧ remote.IsFinite ∧
      (let joint := Resolver.resolve { ports := ⟨.right, .left⟩ } speck speck .orthogonal
       Meets joint.path.stop? joint.target.point ∧
        ∃ points, joint.path = .elbow points ∧ IsElbow points) ∧
      let curve := Resolver.resolve {} speck remote .curved
      Meets curve.path.start? curve.source.point ∧
        ∃ side : Side, curve.target = .on remote side.opposite ∧
          side.Faces (remote.center - speck.center) := by
  have hspeck : speck.IsFinite := by constructor <;> decide +kernel
  have hremote : remote.IsFinite := by constructor <;> decide +kernel
  obtain ⟨-, hstop, -, -, helbow⟩ :=
    resolve_joins { ports := ⟨.right, .left⟩ } hspeck hspeck .orthogonal
  obtain ⟨hstart, -, side, -, htarget, hfaces⟩ := resolve_joins {} hspeck hremote .curved
  exact ⟨hspeck, hremote, ⟨hstop, helbow⟩, hstart, side, htarget, hfaces⟩

end DotLayout.Routing
