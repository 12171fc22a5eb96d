import DotLayout.Proofs.Numeric.Rounding

/-! # Which results are numbers

    Infinities of different signs have no sum, but a finite number can be added to any number, and
    any number can be divided by a finite positive one.

    * `isNaN_ofModel_pack` : packing keeps numbers, so `isNaN_add` and `isNaN_div`.
    * `beq_iff` : numbers are equal if their ranks are, so that only what is no number differs from
      itself.
    * `rank_abs` : a number without its sign has the rank without its sign, so
      `negative_of_abs_less`.
    * `clampBetween_of_le` : a number comes out between limits that are in order. -/

namespace DotLayout.Numeric

open Float.Model UnpackedFloat

variable {x y z low high : Float32}

/-! ## Sums and quotients -/

/-- Every number has a sign. -/
theorem exists_signed {f : UnpackedFloat} (h : IsNumber f) : ∃ s, Signed s f := by
  cases f with
  | notANumber => exact h.elim
  | infinity s | zero s | finite s => exact ⟨s, rfl⟩

/-- What is packed as a number is read back as one. -/
theorem isNaN_ofModel_pack {f : UnpackedFloat} (h : IsNumber f) :
    (Float32.ofModel (.pack f)).isNaN = false := by
  obtain ⟨s, hs⟩ := exists_signed h
  exact isNaN_eq_false_iff.2 (signed_unpack_pack hs).isNumber

/-- What is finite is a number. -/
theorem isNaN_of_isFinite (h : x.isFinite = true) : x.isNaN = false := by
  have hfinite : x.toModel.unpack.isFinite = true := h
  rw [isNaN_eq_false_iff]
  cases hx : x.toModel.unpack with
  | notANumber =>
    rw [hx] at hfinite
    exact nomatch hfinite
  | infinity s | zero s | finite s => trivial

/-- The sum of a number and a finite one is a number. -/
theorem isNaN_add (hx : x.isNaN = false) (hy : y.isFinite = true) : (x + y).isNaN = false := by
  have hfinite : y.toModel.unpack.isFinite = true := hy
  rw [isNaN_eq_false_iff] at hx
  show (Float32.ofModel (.pack (x.toModel.unpack.add .binary32 y.toModel.unpack))).isNaN = false
  refine isNaN_ofModel_pack ?_
  -- Only two opposite infinities have no sum, and `y` is finite.
  cases hux : x.toModel.unpack with
  | notANumber =>
    rw [hux] at hx
    exact hx.elim
  | infinity s =>
    cases huy : y.toModel.unpack with
    | notANumber | infinity =>
      rw [huy] at hfinite
      exact nomatch hfinite
    | zero | finite => trivial
  | zero s =>
    cases huy : y.toModel.unpack with
    | notANumber | infinity =>
      rw [huy] at hfinite
      exact nomatch hfinite
    | zero s' => cases s <;> cases s' <;> trivial
    | finite => trivial
  | finite s m e hm =>
    cases huy : y.toModel.unpack with
    | notANumber | infinity =>
      rw [huy] at hfinite
      exact nomatch hfinite
    | zero => trivial
    | finite => exact (packable_normalize ..).isNumber

/-- A number divided by a finite positive one is a number. -/
theorem isNaN_div (hx : x.isNaN = false) (hy : 0 < y) (hfinite : y.isFinite = true) :
    (x / y).isNaN = false := by
  obtain ⟨m, e, hm, huy⟩ := unpack_of_pos hy hfinite
  rw [isNaN_eq_false_iff] at hx
  show (Float32.ofModel (.pack (x.toModel.unpack.div .binary32 y.toModel.unpack))).isNaN = false
  refine isNaN_ofModel_pack ?_
  rw [huy]
  cases hux : x.toModel.unpack with
  | notANumber =>
    rw [hux] at hx
    exact hx.elim
  | infinity | zero => trivial
  | finite => exact (signed_roundWithAccuracy ..).isNumber

/-! ## Equal numbers -/

/-- Two values are equal if they are numbers with the same rank. -/
theorem beq_iff : (x == y) = true ↔ (x.isNaN = false ∧ y.isNaN = false) ∧ rank x = rank y := by
  show (x.toModel.unpack.compare y.toModel.unpack == some .eq) = true ↔ _
  by_cases h : x.isNaN = false ∧ y.isNaN = false
  · rw [compare_eq (canonical x) (canonical y) (isNaN_eq_false_iff.1 h.1)
      (isNaN_eq_false_iff.1 h.2), and_iff_right h, beq_iff_eq, Option.some_inj, compare_eq_iff_eq]
    rfl
  · rw [compare_eq_none h]
    exact ⟨nofun, fun h' => absurd h'.1 h⟩

/-- Only what is no number differs from itself. -/
theorem beq_self_iff : (x == x) = true ↔ x.isNaN = false := by
  rw [beq_iff, and_self, and_iff_left rfl]

/-- Equality as numbers is transitive. -/
theorem beq_trans (hxy : (x == y) = true) (hyz : (y == z) = true) : (x == z) = true := by
  rw [beq_iff] at *
  exact ⟨⟨hxy.1.1, hyz.1.2⟩, hxy.2.trans hyz.2⟩

/-! ## Numbers without their signs -/

/-- A single is read back as it was packed. -/
theorem unpack_pack_of_canonical {f : UnpackedFloat} (h : Canonical f) :
    UnpackedFloat.unpack .binary32 (UnpackedFloat.pack .binary32 f) = f := by
  cases f with
  | notANumber => rfl
  | infinity s => exact unpack_pack_infinity s
  | zero s => exact unpack_pack_zero s
  | finite s m e hm =>
    obtain ⟨hhigh, hlow, hfits, hdigits⟩ := h
    rw [unpack_pack_finite ⟨hhigh, hlow, hdigits⟩, if_pos hfits]

/-- A single without its sign is unpacked as the number without its sign. -/
theorem unpack_abs (x : Float32) : x.abs.toModel.unpack = x.toModel.unpack.abs := by
  have hcanonical := canonical x
  refine unpack_pack_of_canonical ?_
  cases hx : x.toModel.unpack with
  | finite => rwa [hx] at hcanonical
  | notANumber | infinity | zero => trivial

/-- A single without its sign is a number exactly if the single is. -/
theorem isNaN_abs (x : Float32) : x.abs.isNaN = x.isNaN := by
  show x.abs.toModel.unpack.isNaN = x.toModel.unpack.isNaN
  rw [unpack_abs]
  cases x.toModel.unpack <;> rfl

/-- A single without its sign has the rank without its sign. -/
theorem rank_abs (x : Float32) : rank x.abs = |rank x| := by
  have hcanonical := canonical x
  rw [rank, rank, unpack_abs]
  cases hx : x.toModel.unpack with
  | notANumber | zero => rfl
  | infinity s => cases s <;> rfl
  | finite s m e hm =>
    rw [hx] at hcanonical
    have hpos : 0 < sizeRank m e := sizeRank_pos hm hcanonical.2.1
    cases s with
    | positive => exact (abs_of_pos hpos).symm
    | negative => exact ((abs_neg _).trans (abs_of_pos hpos)).symm

/-- A single is negative if it is a number with a negative rank. -/
theorem negative_iff : x < 0 ↔ x.isNaN = false ∧ rank x < 0 := by
  rw [lt_iff, rank_zero, and_iff_left isNaN_zero]

/-- A number that is not at least zero is negative. -/
theorem negative_of_not_nonneg (hx : x.isNaN = false) (h : ¬ 0 ≤ x) : x < 0 := by
  rw [nonneg_iff, and_iff_right hx] at h
  exact negative_iff.2 ⟨hx, Int.not_le.1 h⟩

/-- A number that is larger than another one without their signs is negative if it is not
    positive. -/
theorem negative_of_abs_less (h : y.abs < x.abs) (hnot : ¬ 0 < x) : x < 0 := by
  obtain ⟨⟨-, hx⟩, hrank⟩ := lt_iff.1 h
  rw [isNaN_abs] at hx
  rw [rank_abs, rank_abs] at hrank
  rw [pos_iff, and_iff_right hx] at hnot
  have hne : rank x ≠ 0 := by
    intro hzero
    rw [hzero, abs_zero] at hrank
    exact absurd (abs_nonneg (rank y)) (Int.not_le.2 hrank)
  exact negative_iff.2 ⟨hx, lt_of_le_of_ne (Int.not_lt.1 hnot) hne⟩

/-! ## Limits -/

/-- Every number is at most itself. -/
theorem le_self (h : x.isNaN = false) : x ≤ x :=
  le_iff.2 ⟨⟨h, h⟩, Int.le_refl _⟩

/-- Of two numbers one is not above the other. -/
theorem le_of_not_less (hx : x.isNaN = false) (hy : y.isNaN = false) (h : ¬ x < y) : y ≤ x := by
  rw [lt_iff, and_iff_right ⟨hx, hy⟩] at h
  exact le_iff.2 ⟨⟨hy, hx⟩, Int.not_lt.1 h⟩

/-- Between limits that are in order every number finds a place. -/
theorem clampBetween_of_le (h : low ≤ high) (hx : x.isNaN = false) :
    ∃ v, clampBetween x low high = .ok v ∧ low ≤ v ∧ v ≤ high := by
  obtain ⟨⟨hlow, hhigh⟩, hrank⟩ := le_iff.1 h
  rw [clampBetween, if_pos h]
  by_cases hbelow : x < low
  · have hnot : ¬ high < low := by
      rw [lt_iff, and_iff_right ⟨hhigh, hlow⟩]
      exact Int.not_lt.2 hrank
    simp only [if_pos hbelow, if_neg hnot]
    exact ⟨low, rfl, le_self hlow, h⟩
  · simp only [if_neg hbelow]
    by_cases habove : high < x
    · rw [if_pos habove]
      exact ⟨high, rfl, h, le_self hhigh⟩
    · rw [if_neg habove]
      exact ⟨x, rfl, le_of_not_less hx hlow hbelow, le_of_not_less hhigh hx habove⟩

end DotLayout.Numeric
