import DotLayout.Proofs.Numeric.Middle

/-! # Zeros

    Zero times a finite number is a zero, and so is its half, but the sign may be either.  Neither
    zero changes the number that it is added to or taken away from, although it may turn the sign of
    the other zero.

    * `isZero_zero_mul`, `zero_mul_eq_notANumber` : what zero times a single is.
    * `beq_add_of_isZero`, `beq_sub_of_isZero` : zeros change no finite number.
    * `clampBetween_self` : a number that is between two limits stays as it is. -/

namespace DotLayout.Numeric

open Float.Model UnpackedFloat

variable {x y z low high : Float32}

/-- One of the two zeros, which are equal as numbers. -/
def IsZero (x : Float32) : Prop := x = 0 ∨ x = -0

/-- What is unpacked as a zero is a zero. -/
theorem isZero_of_unpack {s : Sign} (h : x.toModel.unpack = .zero s) : IsZero x := by
  have hx := ofModel_pack_unpack x
  rw [h] at hx
  cases s with
  | positive => exact .inl hx.symm
  | negative => exact .inr hx.symm

/-- A zero is unpacked as a zero of some sign. -/
theorem IsZero.exists_unpack (h : IsZero x) : ∃ s, x.toModel.unpack = .zero s := by
  rcases h with rfl | rfl
  · exact ⟨.positive, rfl⟩
  · exact ⟨.negative, rfl⟩

/-- The opposite of a zero is a zero. -/
theorem IsZero.neg (h : IsZero x) : IsZero (-x) := by
  rcases h with rfl | rfl
  · exact .inr rfl
  · exact .inl rfl

/-- Half of a zero is a zero. -/
theorem IsZero.half (h : IsZero x) : IsZero (x / 2) := by
  rcases h with rfl | rfl
  · exact .inl rfl
  · exact .inr rfl

theorem IsZero.isFinite (h : IsZero x) : x.isFinite = true := by
  rcases h with rfl | rfl <;> rfl

/-- Zero times a finite number is a zero. -/
theorem isZero_zero_mul (h : x.isFinite = true) : IsZero (0 * x) := by
  have hfinite : x.toModel.unpack.isFinite = true := h
  show IsZero (.ofModel (.pack ((UnpackedFloat.zero .positive).mul .binary32 x.toModel.unpack)))
  cases hx : x.toModel.unpack with
  | notANumber | infinity => exact nomatch hx ▸ hfinite
  | zero s | finite s => exact isZero_of_unpack ((unpack_ofModel _).trans (unpack_pack_zero _))

/-- Zero times anything else is no number. -/
theorem zero_mul_eq_notANumber (h : x.isFinite = false) : 0 * x = notANumber := by
  have hfinite : x.toModel.unpack.isFinite = false := h
  show Float32.ofModel (.pack ((UnpackedFloat.zero .positive).mul .binary32 x.toModel.unpack)) = _
  cases hx : x.toModel.unpack with
  | notANumber | infinity => rfl
  | zero | finite => exact nomatch hx ▸ hfinite

/-! ## Sums with zeros -/

/-- What equals a finite number is finite. -/
theorem isFinite_of_beq (h : (x == y) = true) (hy : y.isFinite = true) : x.isFinite = true := by
  obtain ⟨⟨hnumber, -⟩, hrank⟩ := beq_iff.1 h
  obtain ⟨-, hbounds⟩ := isFinite_iff.1 hy
  rw [isFinite_iff, hrank]
  exact ⟨hnumber, hbounds⟩

/-- A zero changes no finite number that it is added to. -/
theorem beq_add_of_isZero (hx : x.isFinite = true) (hz : IsZero z) : (x + z == x) = true := by
  obtain ⟨s, hs⟩ := hz.exists_unpack
  have hnumber := isNaN_of_isFinite hx
  have hrank := rank_add hx hz.isFinite
  obtain ⟨-, hlow, hhigh⟩ := isFinite_iff.1 hx
  have hself := roundedRank_inSteps (rounded_unpack x) hx
  rw [hs, show inSteps (.zero s) = 0 from rfl, Int.add_zero, hself, ← rank] at hrank
  rw [beq_iff]
  exact ⟨⟨isNaN_add hnumber hz.isFinite, hnumber⟩, by omega⟩

/-- A zero changes no finite number that it is taken away from. -/
theorem beq_sub_of_isZero (hx : x.isFinite = true) (hz : IsZero z) : (x - z == x) = true := by
  rw [sub_eq_add]
  exact beq_add_of_isZero hx hz.neg

/-- Neither do two zeros one after the other. -/
theorem beq_sub_add (hx : x.isFinite = true) (hy : IsZero y) (hz : IsZero z) :
    (x - y + z == x) = true := by
  have hsub := beq_sub_of_isZero hx hy
  exact beq_trans (beq_add_of_isZero (isFinite_of_beq hsub hx) hz) hsub

/-! ## Limits -/

/-- A number that equals one between two limits stays as it is. -/
theorem clampBetween_self (h : (x == y) = true) (hlow : low ≤ y) (hhigh : y ≤ high) :
    clampBetween x low high = .ok x := by
  obtain ⟨-, hrank⟩ := beq_iff.1 h
  rw [clampBetween, if_pos (trans_le hlow hhigh)]
  rw [le_iff] at hlow hhigh
  have hbelow : ¬ x < low := by
    rw [lt_iff]
    omega
  have habove : ¬ high < x := by
    rw [lt_iff]
    omega
  simp only [if_neg hbelow, if_neg habove]

end DotLayout.Numeric
