import DotLayout.Proofs.Numeric.Counts
import DotLayout.Proofs.Numeric.Steps

/-! # The middle of two singles

    The middle of two numbers is their sum, rounded, and then the half of it, rounded once more.
    Neither rounding leads out of the range between the numbers, however close together and however
    small they are.  Only the sum may be too large for a single.

    * `div_two` : a half is the number at one exponent less, rounded, so `rankOf_half`.
    * `exists_twice` : twice a number is a float that is rounded already.
    * `middle_between_iff`, `isFinite_middle_iff` : so the middle lies between the numbers, and is
      finite, exactly if their sum is finite.
    * `isFinite_add_of_le` : it is if none is larger than half of the largest single. -/

namespace DotLayout.Numeric

open Float.Model UnpackedFloat

variable {f g : UnpackedFloat} {m : Nat} {e : Int} {x y : Float32}

/-! ## Halves -/

theorem unpack_two : (2 : Float32).toModel.unpack = .finite .positive (2 ^ 23) (-22) (by decide) :=
  rfl

theorem round_mul_two_pow (hm : m ≠ 0) (s : Sign) (a : Nat) (e : Int) :
    UnpackedFloat.round .binary32 s (m * 2 ^ a) (e - a) = UnpackedFloat.round .binary32 s m e := by
  have hne : m * 2 ^ a ≠ 0 := Nat.mul_ne_zero hm (Nat.ne_of_gt (Nat.two_pow_pos a))
  rw [round_eq_ofParts hne, round_eq_ofParts hm, roundedMantissa_mul_two_pow hm,
    roundingExponent_mul_two_pow hm]

theorem divCore_two (m : Nat) (e : Int) {t : Int}
    (ht : min (e + 22) (max (m.log2 + e - 25) (-149)) = t) :
    divCore .binary32 m e (2 ^ 23) (-22)
      = (m * 2 ^ (e + 22 - t).toNat / 2 ^ 23, t,
          accuracyOfFraction (m * 2 ^ (e + 22 - t).toNat % 2 ^ 23) (2 ^ 23)) := by
  have hbits : (Format.binary32.mantissaBits : Int) = 24 := rfl
  have hmin : Format.binary32.minExponent = -149 := rfl
  have htarget : min (e - -22) (Format.binary32.targetExponent
      (totalExponent m e - totalExponent (2 ^ 23) (-22))) = t := by
    rw [Format.targetExponent, totalExponent, totalExponent, hbits, hmin, Nat.log2_two_pow, ← ht]
    omega
  rw [divCore, htarget, Nat.shiftLeft_eq, Int.sub_neg]

/-- At the smallest exponent nothing is shifted. -/
theorem shiftToTargetExponent_least (hm : m < 2 ^ 24) (accuracy : Accuracy) :
    shiftToTargetExponent .binary32 m (-149) accuracy
      = (ExtendedMantissa.ofMantissaAndAccuracy m accuracy, -149) := by
  have hlog := log2_le_of_lt hm
  have hexponent : roundingExponent m (-149) = -149 := by
    rw [roundingExponent]
    omega
  rw [shiftToTargetExponent, targetExponent_totalExponent, hexponent]
  rfl

/-- What is left of an odd number of the smallest steps is a tie. -/
theorem roundWithAccuracy_half (hm : m < 2 ^ 24) (s : Sign) :
    UnpackedFloat.roundWithAccuracy .binary32 s (m / 2) (-149)
      (accuracyOfFraction (m % 2 * 2 ^ 22) (2 ^ 23)) = ofParts s (nearestEven m 1) (-149) := by
  have hnearest : (ExtendedMantissa.ofMantissaAndAccuracy (m / 2)
      (accuracyOfFraction (m % 2 * 2 ^ 22) (2 ^ 23))).roundedMantissa = nearestEven m 1 := by
    rcases Nat.mod_two_eq_zero_or_one m with heven | hodd
    · rw [heven, nearestEven, Nat.pow_one, heven]
      rfl
    · rw [hodd, nearestEven, Nat.pow_one, hodd]
      rfl
  have hle := nearestEven_le m 1
  rw [roundWithAccuracy_eq_ofParts]
  dsimp only
  rw [shiftToTargetExponent_least (by omega)]
  dsimp only
  rw [hnearest, shiftToTargetExponent_least (by omega)]
  rfl

/-- Below the smallest exponent the last digit is cut off. -/
theorem round_below_least (hne : m ≠ 0) (hm : m < 2 ^ 24) (s : Sign) :
    UnpackedFloat.round .binary32 s m (-149 - 1) = ofParts s (nearestEven m 1) (-149) := by
  have hlog := log2_le_of_lt hm
  have hexponent : roundingExponent m (-149 - 1) = -149 := by
    rw [roundingExponent]
    omega
  have hmantissa : roundedMantissa m (-149 - 1) = nearestEven m 1 := by
    rw [roundedMantissa, hexponent]
    exact congrArg (nearestEven · 1) (Nat.mul_one m)
  have hle := nearestEven_le m 1
  rw [round_eq_ofParts hne, hmantissa, hexponent, if_neg (by omega)]

/-- Half a single is the number at one exponent less, rounded. -/
theorem div_two {s : Sign} {hm : 0 < m} (h : Canonical (.finite s m e hm)) :
    (UnpackedFloat.finite s m e hm).div .binary32 (2 : Float32).toModel.unpack
      = UnpackedFloat.round .binary32 s m (e - 1) := by
  obtain ⟨hhigh, hlow, -, hdigits⟩ := h
  have hne : m ≠ 0 := Nat.ne_of_gt hm
  have hsign : s / Sign.positive = s := by cases s <;> rfl
  have hlog := log2_le_of_lt hhigh
  rw [unpack_two, UnpackedFloat.div, hsign]
  rcases Int.lt_or_eq_of_le hlow with hlt | rfl
  · have hfull : m.log2 = 23 := log2_eq_of_le (hdigits.resolve_right (by omega)) hhigh
    -- one digit more, or none, is enough for the division to be exact
    obtain ⟨k, ht, hshift⟩ : ∃ k : Nat, min (e + 22) (max (m.log2 + e - 25) (-149)) = e - 1 - k ∧
        (e + 22 - (e - 1 - k)).toNat = k + 23 := by
      rcases Int.lt_or_le e (-147) with hsmall | hlarge
      · exact ⟨0, by omega, by omega⟩
      · exact ⟨1, by omega, by omega⟩
    have hexponent : e - 1 - k ≤ roundingExponent (m * 2 ^ k) (e - 1 - k) := by
      rw [roundingExponent_mul_two_pow hne, roundingExponent]
      omega
    rw [divCore_two m e ht, hshift, Nat.pow_add, ← Nat.mul_assoc,
      Nat.mul_div_cancel _ (Nat.two_pow_pos 23), Nat.mul_mod_left]
    exact (roundWithAccuracy_eq_round hexponent s).trans (round_mul_two_pow hne s k (e - 1))
  · -- at the smallest exponent there may be a remainder
    have hshift : m * 2 ^ ((-149 : Int) + 22 - -149).toNat = m * 2 ^ 22 := rfl
    have hdiv : m * 2 ^ 22 / 2 ^ 23 = m / 2 := Nat.mul_div_mul_right m 2 (by decide)
    have hmod : m * 2 ^ 22 % 2 ^ 23 = m % 2 * 2 ^ 22 := Nat.mul_mod_mul_right (2 ^ 22) m 2
    rw [divCore_two m (-149) (t := -149) (by omega)]
    dsimp only
    rw [hshift, hdiv, hmod, roundWithAccuracy_half hhigh, round_below_least hne hhigh]

/-- The half of a finite number is its steps at one exponent less, rounded. -/
theorem rankOf_half (h : Canonical f) (hfinite : f.isFinite = true) :
    Packable (f.div .binary32 (2 : Float32).toModel.unpack) ∧
      rankOf (f.div .binary32 (2 : Float32).toModel.unpack) = roundedRank (inSteps f) (-150) := by
  cases f with
  | notANumber | infinity => exact nomatch hfinite
  | zero s =>
    rw [unpack_two]
    exact ⟨⟨trivial, trivial⟩, (Int.zero_mul _).symm⟩
  | finite s m e hm =>
    have hne : m ≠ 0 := Nat.ne_of_gt hm
    have he := h.2.1
    have hexponent : (-150 : Int) = e - 1 - (e + 149).toNat := by omega
    rw [div_two h, inSteps, sizeInSteps, Int.natCast_mul, Int.natCast_pow, Nat.cast_ofNat,
      apply_mul, hexponent, roundedRank_mul_two_pow, roundedRank_apply hne]
    exact ⟨packable_round hne s _, (rankOf_round hne s _).2⟩

/-! ## Twice a number -/

theorem inSteps_eq_mul_two {s : Sign} {n : Nat} {e' : Int} {hm : 0 < m} {hn : 0 < n}
    (h : sizeInSteps n e' = sizeInSteps m e * 2) :
    inSteps (.finite s n e' hn) = inSteps (.finite s m e hm) * 2 := by
  rw [inSteps, inSteps, h, Int.natCast_mul, apply_mul]
  rfl

/-- Twice a single needs no rounding, but it may be too large for a single. -/
theorem exists_twice (h : Rounded f) (hfinite : f.isFinite = true) :
    ∃ g, Rounded g ∧ g.isFinite = true ∧ inSteps g = inSteps f * 2 := by
  cases f with
  | notANumber | infinity => exact nomatch hfinite
  | zero s => exact ⟨.zero s, trivial, rfl, rfl⟩
  | finite s m e hm =>
    obtain ⟨hhigh, he, hdigits⟩ := h
    by_cases hfull : 2 ^ 23 ≤ m
    · have hexponent : (e + 1 + 149).toNat = (e + 149).toNat + 1 := by omega
      refine ⟨.finite s m (e + 1) hm, ⟨hhigh, by omega, .inl hfull⟩, rfl, inSteps_eq_mul_two ?_⟩
      rw [sizeInSteps, sizeInSteps, hexponent, Nat.pow_succ, Nat.mul_assoc]
    · obtain rfl : e = -149 := hdigits.resolve_left hfull
      have hpos : 0 < m * 2 := by omega
      refine ⟨.finite s (m * 2) (-149) hpos, ⟨by omega, Int.le_refl _, .inr rfl⟩, rfl,
        inSteps_eq_mul_two ?_⟩
      rw [sizeInSteps, sizeInSteps, Nat.mul_right_comm]

/-- A rounded number of steps is on the same side of twice a single as before. -/
theorem twice_between (hf : Rounded f) (hff : f.isFinite = true) (hg : Rounded g)
    (hgf : g.isFinite = true) {n : Int} (hrank : rankOf g = roundedRank n (-149)) :
    (inSteps f * 2 ≤ n → inSteps f * 2 ≤ inSteps g) ∧
      (n ≤ inSteps f * 2 → inSteps g ≤ inSteps f * 2) := by
  obtain ⟨twice, hrounded, hfinite, hsteps⟩ := exists_twice hf hff
  have htwice := roundedRank_inSteps hrounded hfinite
  constructor
  · intro h
    rw [← hsteps, inSteps_le_iff hrounded hg hfinite hgf, ← htwice, hrank, hsteps]
    exact roundedRank_mono h _
  · intro h
    rw [← hsteps, inSteps_le_iff hg hrounded hgf hfinite, ← htwice, hrank, hsteps]
    exact roundedRank_mono h _

/-! ## Between two singles -/

/-- The rank of a sum is that of its steps, rounded, up to those of the infinities. -/
theorem rank_add (hx : x.isFinite = true) (hy : y.isFinite = true) :
    rank (x + y) = max (-topRank) (min topRank
      (roundedRank (inSteps x.toModel.unpack + inSteps y.toModel.unpack) (-149))) := by
  obtain ⟨hpackable, hrank⟩ := rankOf_add (canonical x) (canonical y) hx hy
  rw [← hrank]
  exact (rankOf_unpack_pack hpackable).2

/-- A single is half of twice itself. -/
theorem rank_eq_half (h : x.isFinite = true) :
    rank x = roundedRank (inSteps x.toModel.unpack * 2) (-150) := by
  have hself := roundedRank_inSteps (rounded_unpack x) h
  exact hself.symm.trans (roundedRank_mul_two_pow (inSteps x.toModel.unpack) 1 (-149)).symm

/-- The middle of two finite numbers lies between them, if their sum is finite. -/
theorem middle_between (hx : x.isFinite = true) (hy : y.isFinite = true) (hxy : x ≤ y)
    (hsum : (x + y).isFinite = true) : x ≤ (x + y) / 2 ∧ (x + y) / 2 ≤ y := by
  have hsteps : inSteps x.toModel.unpack ≤ inSteps y.toModel.unpack :=
    (inSteps_le_iff (rounded_unpack x) (rounded_unpack y) hx hy).2 (le_iff.1 hxy).2
  have hrank : rank (x + y)
      = roundedRank (inSteps x.toModel.unpack + inSteps y.toModel.unpack) (-149) := by
    obtain ⟨-, hlow, hhigh⟩ := isFinite_iff.1 hsum
    have := rank_add hx hy
    omega
  obtain ⟨hpackable, hmiddle⟩ := rankOf_half (canonical (x + y)) hsum
  constructor
  · refine le_ofModel_pack (isNaN_of_isFinite hx) hpackable ?_
    rw [hmiddle, rank_eq_half hx]
    refine roundedRank_mono ?_ _
    exact (twice_between (rounded_unpack x) hx (rounded_unpack (x + y)) hsum hrank).1 (by omega)
  · refine ofModel_pack_le_of_rank (isNaN_of_isFinite hy) hpackable ?_
    rw [hmiddle, rank_eq_half hy]
    refine roundedRank_mono ?_ _
    exact (twice_between (rounded_unpack y) hy (rounded_unpack (x + y)) hsum hrank).2 (by omega)

/-- Half of what is infinite is infinite. -/
theorem isFinite_of_half (hnumber : x.isNaN = false) (h : (x / 2).isFinite = true) :
    x.isFinite = true := by
  have hquotient : (UnpackedFloat.unpack .binary32 (UnpackedFloat.pack .binary32
      (x.toModel.unpack.div .binary32 (2 : Float32).toModel.unpack))).isFinite = true := h
  rw [isNaN_eq_false_iff] at hnumber
  show x.toModel.unpack.isFinite = true
  cases hx : x.toModel.unpack with
  | notANumber => exact (hx ▸ hnumber).elim
  | zero | finite => rfl
  | infinity s =>
    rw [hx, unpack_two, UnpackedFloat.div, unpack_pack_infinity] at hquotient
    exact nomatch hquotient

/-- The middle of two finite numbers is finite exactly if their sum is. -/
theorem isFinite_middle_iff (hx : x.isFinite = true) (hy : y.isFinite = true) (hxy : x ≤ y) :
    ((x + y) / 2).isFinite = true ↔ (x + y).isFinite = true := by
  constructor
  · intro h
    exact isFinite_of_half (isNaN_add (isNaN_of_isFinite hx) hy) h
  · intro h
    obtain ⟨hlow, hhigh⟩ := middle_between hx hy hxy h
    exact isFinite_of_between hx hy hlow hhigh

/-- It lies between them exactly then. -/
theorem middle_between_iff (hx : x.isFinite = true) (hy : y.isFinite = true) (hxy : x ≤ y) :
    x ≤ (x + y) / 2 ∧ (x + y) / 2 ≤ y ↔ (x + y).isFinite = true := by
  constructor
  · rintro ⟨hlow, hhigh⟩
    exact (isFinite_middle_iff hx hy hxy).1 (isFinite_of_between hx hy hlow hhigh)
  · exact middle_between hx hy hxy

/-! ## Sums that are not too large -/

/-- Half of the largest single. -/
def halfLargest : Float32 := .ofBits 0x7effffff

/-- The largest single. -/
def largest : UnpackedFloat := .finite .positive (2 ^ 24 - 1) 104 (by decide)

theorem unpack_halfLargest :
    halfLargest.toModel.unpack = .finite .positive (2 ^ 24 - 1) 103 (by decide) := rfl

theorem inSteps_neg (f : UnpackedFloat) : inSteps f.neg = -inSteps f := by
  cases f with
  | notANumber | infinity | zero => rfl
  | finite s m e hm => exact apply_neg s _

/-- A number that is not larger than another one without its sign has no more steps up or down. -/
theorem inSteps_between (hx : x.isFinite = true) (hy : y.isFinite = true) (h : x.abs ≤ y) :
    -inSteps y.toModel.unpack ≤ inSteps x.toModel.unpack ∧
      inSteps x.toModel.unpack ≤ inSteps y.toModel.unpack := by
  have hneg : y.toModel.unpack.neg.isFinite = true := by
    have hfinite : y.toModel.unpack.isFinite = true := hy
    cases hu : y.toModel.unpack with
    | notANumber | infinity => exact nomatch hu ▸ hfinite
    | zero | finite => rfl
  obtain ⟨hlow, hhigh⟩ := abs_le.1 (rank_abs x ▸ (le_iff.1 h).2)
  have hroundedNeg := rounded_of_canonical (canonical_neg (canonical y))
  rw [← inSteps_neg, inSteps_le_iff hroundedNeg (rounded_unpack x) hneg hx,
    inSteps_le_iff (rounded_unpack x) (rounded_unpack y) hx hy, rankOf_neg]
  exact ⟨hlow, hhigh⟩

/-- The sum of two numbers up to half of the largest single is finite. -/
theorem isFinite_add_of_le (hx : x.isFinite = true) (hy : y.isFinite = true)
    (hxh : x.abs ≤ halfLargest) (hyh : y.abs ≤ halfLargest) : (x + y).isFinite = true := by
  have hhalf : halfLargest.isFinite = true := by decide +kernel
  obtain ⟨hlowX, hhighX⟩ := inSteps_between hx hhalf hxh
  obtain ⟨hlowY, hhighY⟩ := inSteps_between hy hhalf hyh
  -- the steps of the sum are between those of the largest singles of both signs
  have hcanonical : Canonical largest := ⟨by decide, by decide, by decide, .inl (by decide)⟩
  have hlargest : inSteps largest = inSteps halfLargest.toModel.unpack * 2 := by
    rw [unpack_halfLargest]
    exact inSteps_eq_mul_two rfl
  have hbounds := rankOf_bounds hcanonical rfl
  have hself := roundedRank_inSteps (rounded_of_canonical hcanonical) rfl
  have hneg := roundedRank_inSteps (rounded_of_canonical (canonical_neg hcanonical)) rfl
  rw [inSteps_neg, rankOf_neg] at hneg
  have hup := roundedRank_mono
    (show inSteps x.toModel.unpack + inSteps y.toModel.unpack ≤ inSteps largest by omega) (-149)
  have hdown := roundedRank_mono
    (show -inSteps largest ≤ inSteps x.toModel.unpack + inSteps y.toModel.unpack by omega) (-149)
  have hrank := rank_add hx hy
  exact isFinite_iff.2 ⟨isNaN_add (isNaN_of_isFinite hx) hy, by omega, by omega⟩

end DotLayout.Numeric
