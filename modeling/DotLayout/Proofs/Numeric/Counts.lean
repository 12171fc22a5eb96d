import DotLayout.Proofs.Numeric.Positive

/-! # Counts as singles

    A whole number below `2 ^ 24` has at most 24 digits, so it is a single, and sums and products
    that stay below this bound are not rounded.

    * `Counts` : a single is a whole number, exactly.
    * `counts_round` : rounding leaves whole numbers alone, wherever their digits stand; so
      `counts_ofCount`, `Counts.add` and `Counts.mul`.
    * `Counts.less` : such singles are in the order of the numbers.
    * `larger_less_iff` : the larger of two numbers is below a third one if both are. -/

namespace DotLayout.Numeric

open Float.Model UnpackedFloat

/-- A single is a positive whole number: the digits of the number, moved to the left until there
    are 24 of them. -/
def Counts (x : Float32) (n : Nat) : Prop :=
  ∃ (a : Nat) (h : 0 < n * 2 ^ a), (2 ^ 23 ≤ n * 2 ^ a ∧ n * 2 ^ a < 2 ^ 24) ∧
    x.toModel.unpack = .finite .positive (n * 2 ^ a) (-a) h

variable {x y z : Float32} {m n : Nat}

/-- A whole number of at most 24 digits is rounded to itself, also if zeros stand behind its
    digits. -/
theorem counts_round (hn : n ≠ 0) (hlt : n < 2 ^ 24) (a : Nat) :
    Counts (.ofModel (.pack (UnpackedFloat.round .binary32 .positive (n * 2 ^ a) (-a)))) n := by
  have hlog : n.log2 < 24 := (Nat.log2_lt hn).2 hlt
  have hshifted : (n * 2 ^ (23 - n.log2)).log2 = 23 := by
    rw [log2_mul_two_pow hn]
    omega
  have hne : n * 2 ^ (23 - n.log2) ≠ 0 := Nat.mul_ne_zero hn (Nat.ne_of_gt (Nat.two_pow_pos _))
  have hbounds := (Nat.log2_eq_iff hne).1 hshifted
  have hexponent : roundingExponent (n * 2 ^ a) (-a) = -(23 - n.log2 : Nat) := by
    have := roundingExponent_mul_two_pow hn a 0
    rw [Int.zero_sub] at this
    rw [this, roundingExponent]
    omega
  have hmantissa : roundedMantissa (n * 2 ^ a) (-a) = n * 2 ^ (23 - n.log2) := by
    rw [roundedMantissa, hexponent]
    rcases Nat.le_total a (23 - n.log2) with hle | hle
    · rw [show (-((23 - n.log2 : Nat) : Int) - -(a : Int)).toNat = 0 by omega, nearestEven_zero,
        Nat.mul_assoc, ← Nat.pow_add]
      congr 2
      omega
    · -- the digits that are cut off are zeros
      rw [show (-(a : Int) - -((23 - n.log2 : Nat) : Int)).toNat = 0 by omega, Nat.pow_zero,
        Nat.mul_one, show (-((23 - n.log2 : Nat) : Int) - -(a : Int)).toNat
          = a - (23 - n.log2) by omega]
      have hsplit : n * 2 ^ a = n * 2 ^ (23 - n.log2) * 2 ^ (a - (23 - n.log2)) := by
        rw [Nat.mul_assoc, ← Nat.pow_add, Nat.add_sub_cancel' hle]
      rw [hsplit, nearestEven, Nat.mul_mod_left, if_pos (by simp),
        Nat.mul_div_cancel _ (Nat.two_pow_pos _)]
  refine ⟨23 - n.log2, Nat.pos_of_ne_zero hne, hbounds, ?_⟩
  rw [unpack_ofModel, round_eq_ofParts (Nat.mul_ne_zero hn (Nat.ne_of_gt (Nat.two_pow_pos a))),
    hmantissa, hexponent, if_neg (Nat.ne_of_lt hbounds.2), ofParts, dif_neg hne,
    unpack_pack_finite ⟨hbounds.2, by omega, .inl hbounds.1⟩, if_pos (by omega)]

/-- Rounding starts with shifting to the left, if there are too few digits. -/
theorem roundWithAccuracy_eq_round {m : Nat} {e : Int} (h : e ≤ roundingExponent m e) (s : Sign) :
    UnpackedFloat.roundWithAccuracy .binary32 s m e .exact
      = UnpackedFloat.round .binary32 s m e := by
  rw [UnpackedFloat.round, targetExponent_totalExponent]
  dsimp only [decreaseExponent]
  rw [show (e - roundingExponent m e).toNat = 0 by omega, Nat.shiftLeft_zero, Int.natCast_zero,
    Int.sub_zero]

/-- No count is zero. -/
theorem Counts.ne_zero (h : Counts x n) : n ≠ 0 := by
  obtain ⟨a, hpos, -⟩ := h
  rintro rfl
  rw [Nat.zero_mul] at hpos
  exact Nat.lt_irrefl 0 hpos

/-- The product of two counts is a count, if it is not too large. -/
theorem Counts.mul (hx : Counts x m) (hy : Counts y n) (hlt : m * n < 2 ^ 24) :
    Counts (x * y) (m * n) := by
  have hm := hx.ne_zero
  have hn := hy.ne_zero
  have hmn : m * n ≠ 0 := Nat.mul_ne_zero hm hn
  obtain ⟨a, ha, hdigits, hxa⟩ := hx
  obtain ⟨b, hb, -, hyb⟩ := hy
  have hproduct : m * 2 ^ a * (n * 2 ^ b) = m * n * 2 ^ (a + b) := by
    rw [Nat.pow_add]
    ring
  -- the first factor alone has 24 digits
  have hlog : 23 ≤ (m * n).log2 + a := by
    have hlog : 23 ≤ m.log2 + a := by
      rw [← log2_mul_two_pow hm]
      exact (Nat.le_log2 (by omega)).2 hdigits.1
    have := log2_mono hm (Nat.le_mul_of_pos_right m (Nat.pos_of_ne_zero hn))
    omega
  have hround : x.toModel.unpack.mul .binary32 y.toModel.unpack
      = UnpackedFloat.round .binary32 .positive (m * n * 2 ^ (a + b)) (-(a + b : Nat)) := by
    rw [hxa, hyb, UnpackedFloat.mul, hproduct, ← Int.neg_add, ← Int.natCast_add]
    refine roundWithAccuracy_eq_round ?_ _
    have := roundingExponent_mul_two_pow hmn (a + b) 0
    rw [Int.zero_sub] at this
    rw [this, roundingExponent]
    omega
  show Counts (.ofModel (.pack (x.toModel.unpack.mul .binary32 y.toModel.unpack))) _
  rw [hround]
  exact counts_round hmn hlt _

/-- The sum of two counts is a count, if it is not too large. -/
theorem Counts.add (hx : Counts x m) (hy : Counts y n) (hlt : m + n < 2 ^ 24) :
    Counts (x + y) (m + n) := by
  have hm := hx.ne_zero
  obtain ⟨a, ha, -, hxa⟩ := hx
  obtain ⟨b, hb, -, hyb⟩ := hy
  have hround : x.toModel.unpack.add .binary32 y.toModel.unpack
      = UnpackedFloat.round .binary32 .positive ((m + n) * 2 ^ max a b) (-(max a b : Nat)) := by
    have hmin : min (-(a : Int)) (-b) = -(max a b : Nat) := by omega
    have hleft : (-(a : Int) - -(max a b : Nat)).toNat = max a b - a := by omega
    have hright : (-(b : Int) - -(max a b : Nat)).toNat = max a b - b := by omega
    have hsum : m * 2 ^ a * 2 ^ (max a b - a) + n * 2 ^ b * 2 ^ (max a b - b)
        = (m + n) * 2 ^ max a b := by
      rw [Nat.mul_assoc, Nat.mul_assoc, ← Nat.pow_add, ← Nat.pow_add,
        Nat.add_sub_cancel' (Nat.le_max_left a b), Nat.add_sub_cancel' (Nat.le_max_right a b),
        Nat.add_mul]
    have hpos : 0 < (m + n) * 2 ^ max a b := Nat.mul_pos (by omega) (Nat.two_pow_pos _)
    rw [hxa, hyb, UnpackedFloat.add]
    dsimp only [decreaseExponent, Sign.apply]
    rw [hmin, hleft, hright, Nat.shiftLeft_eq, Nat.shiftLeft_eq, ← Int.natCast_add, hsum,
      UnpackedFloat.normalize, compare_gt_iff_gt.2 (Int.natCast_pos.2 hpos)]
    rfl
  show Counts (.ofModel (.pack (x.toModel.unpack.add .binary32 y.toModel.unpack))) _
  rw [hround]
  exact counts_round (by omega) hlt _

/-- What is counted is a single. -/
theorem counts_ofCount (hn : n ≠ 0) (hlt : n < 2 ^ 23) : Counts (ofCount n) n := by
  have hcount : n.toUInt64.toNat = n := Nat.mod_eq_of_lt (by omega)
  have hwhole : Counts n.toUInt64.toFloat32 n := by
    show Counts (.ofModel (.pack (UnpackedFloat.ofUInt64 .binary32 n.toUInt64))) n
    rw [UnpackedFloat.ofUInt64, hcount, UnpackedFloat.ofNat, UnpackedFloat.ofInt,
      UnpackedFloat.normalize, compare_gt_iff_gt.2 (by omega : (n : Int) > 0)]
    have := counts_round hn (by omega) 0
    rwa [Nat.pow_zero, Nat.mul_one] at this
  have hone : Counts (Float32.ofBits 0x3F800000) 1 := ⟨23, by decide, by decide, unpack_one⟩
  show Counts (Float32.ofScientific n false 0) n
  rw [Float32.ofScientific, dif_pos ⟨hlt, by decide⟩]
  have := hwhole.mul hone (by omega)
  rwa [Nat.mul_one] at this

/-- Counts are in the order of the numbers. -/
theorem Counts.less (hx : Counts x m) (hy : Counts y n) (h : m < n) : x < y := by
  obtain ⟨a, ha, hdigits, hxa⟩ := hx
  obtain ⟨b, hb, hdigits', hyb⟩ := hy
  rw [lt_iff, isNaN_eq_false_iff, isNaN_eq_false_iff, rank, rank, hxa, hyb]
  refine ⟨⟨trivial, trivial⟩, ?_⟩
  show sizeRank (m * 2 ^ a) (-a) < sizeRank (n * 2 ^ b) (-b)
  rcases Nat.lt_trichotomy a b with hab | rfl | hab
  · -- a larger number has no more room to the right
    exfalso
    have hstep : n * 2 ^ (a + 1) ≤ n * 2 ^ b :=
      Nat.mul_le_mul_left n (Nat.pow_le_pow_right (by decide) hab)
    have hle : m * 2 ^ a ≤ n * 2 ^ a := Nat.mul_le_mul_right _ (Nat.le_of_lt h)
    rw [Nat.pow_succ, ← Nat.mul_assoc] at hstep
    omega
  · have := Nat.mul_lt_mul_of_pos_right h (Nat.two_pow_pos a)
    rw [sizeRank, sizeRank]
    omega
  · have hle : a ≤ 149 := by
      have hcanonical := canonical x
      rw [hxa] at hcanonical
      have := hcanonical.2.1
      omega
    exact sizeRank_lt_of_lt hdigits.2 (.inl hdigits'.1) (by omega) (by omega)

/-! ## The larger of two numbers -/

/-- The larger of two numbers is below a third one exactly if both of them are. -/
theorem larger_less_iff (hx : x.isNaN = false) (hy : y.isNaN = false) :
    larger x y < z ↔ x < z ∧ y < z := by
  rw [larger, if_neg (by rw [hx]; decide)]
  split
  · rename_i hlt
    rw [lt_iff] at hlt
    rw [lt_iff, lt_iff]
    exact ⟨fun h => ⟨⟨⟨hx, h.1.2⟩, Int.lt_trans hlt.2 h.2⟩, h⟩, And.right⟩
  · rename_i hle
    rw [lt_iff, and_iff_right ⟨hx, hy⟩] at hle
    rw [lt_iff, lt_iff]
    exact ⟨fun h => ⟨h, ⟨hy, h.1.2⟩, by omega⟩, And.left⟩

/-- The larger of two numbers is not less than the first one. -/
theorem le_larger_left (y : Float32) (hx : x.isNaN = false) : x ≤ larger x y := by
  rw [larger, if_neg (by rw [hx]; decide)]
  split
  · exact le_of_less ‹_›
  · rw [le_iff]
    exact ⟨⟨hx, hx⟩, Int.le_refl _⟩

/-- What is below a number is below every larger one. -/
theorem less_of_less_of_le (hxy : x < y) (hyz : y ≤ z) : x < z := by
  rw [lt_iff] at *
  rw [le_iff] at hyz
  exact ⟨⟨hxy.1.1, hyz.1.2⟩, Int.lt_of_lt_of_le hxy.2 hyz.2⟩

/-- The product of positive numbers is not negative, even if one of them is infinite. -/
theorem nonneg_mul_of_pos (hx : 0 < x) (hy : 0 < y) : 0 ≤ x * y := by
  have hsignedX := signed_of_pos hx
  have hsignedY := signed_of_pos hy
  refine nonneg_ofModel_pack (f := x.toModel.unpack.mul .binary32 y.toModel.unpack) (.inr ?_)
  cases hux : x.toModel.unpack with
  | notANumber => exact (hux ▸ hsignedX).elim
  | zero s => exact absurd hux (unpack_ne_zero_of_pos hx s)
  | infinity s =>
    obtain rfl : s = .positive := by rwa [hux] at hsignedX
    cases huy : y.toModel.unpack with
    | notANumber => exact (huy ▸ hsignedY).elim
    | zero s => exact absurd huy (unpack_ne_zero_of_pos hy s)
    | infinity s | finite s =>
      obtain rfl : s = .positive := by rwa [huy] at hsignedY
      rfl
  | finite s =>
    obtain rfl : s = .positive := by rwa [hux] at hsignedX
    cases huy : y.toModel.unpack with
    | notANumber => exact (huy ▸ hsignedY).elim
    | zero s => exact absurd huy (unpack_ne_zero_of_pos hy s)
    | infinity s =>
      obtain rfl : s = .positive := by rwa [huy] at hsignedY
      rfl
    | finite s =>
      obtain rfl : s = .positive := by rwa [huy] at hsignedY
      exact signed_roundWithAccuracy ..

end DotLayout.Numeric
