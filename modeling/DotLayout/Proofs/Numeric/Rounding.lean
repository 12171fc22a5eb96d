import DotLayout.Proofs.Numeric.Order

/-! # Rounding to singles

    The sum and the difference of two singles are whole numbers of steps of a common size, rounded
    once.  The rank of the result is a function of that whole number, and it never falls when the
    number grows.

    * `nearestEven` : rounding to a whole number, which is what the residual bits are for
      (`roundedMantissa_shiftRight`).
    * `roundedSize` : the rank of a rounded size; `rankOf_round` says so, and `roundedSize_mono`
      that it is monotone.
    * `roundedRank_mono` : so are the ranks of rounded sums. -/

namespace DotLayout.Numeric

open Float.Model UnpackedFloat

/-! ## Rounding to whole numbers -/

/-- The whole number nearest to `m / 2 ^ k`, ties going to the even neighbour. -/
def nearestEven (m k : Nat) : Nat :=
  if 2 * (m % 2 ^ k) < 2 ^ k then m / 2 ^ k
  else if 2 * (m % 2 ^ k) = 2 ^ k then m / 2 ^ k + m / 2 ^ k % 2
  else m / 2 ^ k + 1

/-- Rounding to the nearest never goes below the whole part. -/
theorem div_le_nearestEven (m k : Nat) : m / 2 ^ k ≤ nearestEven m k := by
  rw [nearestEven]
  split
  · exact Nat.le_refl _
  split <;> omega

/-- Rounding to the nearest adds one to the whole part at most. -/
theorem nearestEven_le (m k : Nat) : nearestEven m k ≤ m / 2 ^ k + 1 := by
  rw [nearestEven]
  split
  · omega
  split <;> omega

/-- Where no digit is dropped, nothing is rounded. -/
theorem nearestEven_zero (m : Nat) : nearestEven m 0 = m := by
  rw [nearestEven, Nat.pow_zero, Nat.mod_one, Nat.div_one, if_pos (by decide)]

/-- Rounding to the nearest keeps the order. -/
theorem nearestEven_mono {m n : Nat} (h : m ≤ n) (k : Nat) : nearestEven m k ≤ nearestEven n k := by
  have hdiv : m / 2 ^ k ≤ n / 2 ^ k := Nat.div_le_div_right h
  rcases Nat.lt_or_eq_of_le hdiv with hlt | heq
  · have := nearestEven_le m k
    have := div_le_nearestEven n k
    omega
  · have hmod : m % 2 ^ k ≤ n % 2 ^ k := by
      have hm := Nat.div_add_mod m (2 ^ k)
      have hn := Nat.div_add_mod n (2 ^ k)
      rw [heq] at hm
      omega
    rw [nearestEven, nearestEven, heq]
    split <;> split <;> (try split) <;> (try split) <;> omega

/-- What is left of a mantissa after shifting it, with the residual bits. -/
theorem shiftRight_succ (m k : Nat) :
    (⟨m, false, false⟩ : ExtendedMantissa) >>> (k + 1)
      = ⟨m / 2 ^ (k + 1), m / 2 ^ k % 2 != 0, m % 2 ^ k != 0⟩ := by
  induction k with
  | zero =>
    show ExtendedMantissa.shiftRightOne ⟨m, false, false⟩ = _
    rw [ExtendedMantissa.shiftRightOne, Nat.pow_zero, Nat.mod_one, Nat.div_one, Nat.zero_add,
      Nat.pow_one]
    rfl
  | succ k ih =>
    show ExtendedMantissa.shiftRightOne ((⟨m, false, false⟩ : ExtendedMantissa) >>> (k + 1)) = _
    have hdiv : m / 2 ^ (k + 1) / 2 = m / 2 ^ (k + 2) := by
      rw [Nat.div_div_eq_div_mul, ← Nat.pow_succ]
    have hmod : m % 2 ^ (k + 1) = m % 2 ^ k + 2 ^ k * (m / 2 ^ k % 2) := by
      rw [Nat.pow_succ, Nat.mod_mul]
    -- The bits below the round bit are all zero when it and the earlier ones are.
    have hsticky : (m / 2 ^ k % 2 != 0 || m % 2 ^ k != 0) = (m % 2 ^ (k + 1) != 0) := by
      have hpow := Nat.two_pow_pos k
      rcases Nat.mod_two_eq_zero_or_one (m / 2 ^ k) with hbit | hbit
      · rw [hmod, hbit, Nat.mul_zero, Nat.add_zero]
        rfl
      · have hne : m % 2 ^ k + 2 ^ k * 1 ≠ 0 := by omega
        rw [hmod, hbit, bne_iff_ne.2 hne]
        rfl
    rw [ih, ExtendedMantissa.shiftRightOne, hdiv, hsticky]

/-- Dropping digits and rounding gives the nearest number, and the even one of two. -/
theorem roundedMantissa_shiftRight (m k : Nat) :
    ((⟨m, false, false⟩ : ExtendedMantissa) >>> k).roundedMantissa = nearestEven m k := by
  cases k with
  | zero => rw [nearestEven_zero]; rfl
  | succ k =>
    have hpow : 2 ^ (k + 1) = 2 * 2 ^ k := Nat.pow_succ'
    have hmod : m % 2 ^ (k + 1) = m % 2 ^ k + 2 ^ k * (m / 2 ^ k % 2) := by
      rw [Nat.pow_succ, Nat.mod_mul]
    have hlt : m % 2 ^ k < 2 ^ k := Nat.mod_lt m (Nat.two_pow_pos k)
    rw [shiftRight_succ, nearestEven]
    rcases Nat.mod_two_eq_zero_or_one (m / 2 ^ k) with hbit | hbit
    · rw [hbit, Nat.mul_zero] at hmod
      rw [hbit, if_pos (by omega)]
      by_cases hrest : m % 2 ^ k = 0
      · rw [hrest]; rfl
      · rw [bne_iff_ne.2 hrest]; rfl
    · rw [hbit, Nat.mul_one] at hmod
      rw [hbit, if_neg (by omega)]
      by_cases hrest : m % 2 ^ k = 0
      · rw [hrest, if_pos (by omega)]; rfl
      · rw [bne_iff_ne.2 hrest, if_neg (by omega)]; rfl

/-! ## Rounding sizes -/

/-- The exponent at which the size `m · 2 ^ e` is rounded. -/
def roundingExponent (m : Nat) (e : Int) : Int := max (m.log2 + e - 23) (-149)

/-- The size `m · 2 ^ e`, rounded to a whole number at the exponent for it. -/
def roundedMantissa (m : Nat) (e : Int) : Nat :=
  nearestEven (m * 2 ^ (e - roundingExponent m e).toNat) (roundingExponent m e - e).toNat

/-- No number is rounded to a digit below the last one of the smallest single. -/
theorem le_roundingExponent (m : Nat) (e : Int) : -149 ≤ roundingExponent m e :=
  Int.le_max_right ..

/-- The exponent that a size is rounded to is the target of its leading digit. -/
theorem targetExponent_totalExponent (m : Nat) (e : Int) :
    Format.binary32.targetExponent (totalExponent m e) = roundingExponent m e := by
  have hbits : (Format.binary32.mantissaBits : Int) = 24 := rfl
  have hmin : Format.binary32.minExponent = -149 := rfl
  rw [Format.targetExponent, totalExponent, roundingExponent, hbits, hmin]
  omega

/-- A power of two moves the leading digit by its exponent. -/
theorem log2_mul_two_pow {m : Nat} (hm : m ≠ 0) (a : Nat) : (m * 2 ^ a).log2 = m.log2 + a := by
  induction a with
  | zero => rw [Nat.pow_zero, Nat.mul_one, Nat.add_zero]
  | succ a ih =>
    have hpos : m * 2 ^ a ≠ 0 := Nat.mul_ne_zero hm (Nat.ne_of_gt (Nat.two_pow_pos a))
    rw [Nat.pow_succ, ← Nat.mul_assoc, Nat.mul_comm _ 2, Nat.log2_two_mul hpos, ih, Nat.add_assoc]

/-- A number of at most 24 digits has its leading digit in place 23 or below. -/
theorem log2_le_of_lt {m : Nat} (h : m < 2 ^ 24) : m.log2 ≤ 23 := by
  by_cases hzero : m = 0
  · rw [hzero]
    decide
  · exact Nat.le_of_lt_succ ((Nat.log2_lt hzero).2 h)

/-- More digits at a smaller exponent ask for the same rounding. -/
theorem roundingExponent_mul_two_pow {m : Nat} (hm : m ≠ 0) (a : Nat) (e : Int) :
    roundingExponent (m * 2 ^ a) (e - a) = roundingExponent m e := by
  rw [roundingExponent, roundingExponent, log2_mul_two_pow hm]
  omega

/-- A rounded number has at most 24 digits, or it is the next power of two. -/
theorem roundedMantissa_le {m : Nat} (e : Int) (hm : m ≠ 0) : roundedMantissa m e ≤ 2 ^ 24 := by
  rw [roundedMantissa]
  have hexponent : (m.log2 : Int) + e - 23 ≤ roundingExponent m e := Int.le_max_left ..
  generalize roundingExponent m e = t at *
  have hdigits : m * 2 ^ (e - t).toNat < 2 ^ (t - e).toNat * 2 ^ 24 := by
    rw [← Nat.pow_add, ← Nat.log2_lt (Nat.mul_ne_zero hm (Nat.ne_of_gt (Nat.two_pow_pos _))),
      log2_mul_two_pow hm]
    omega
  exact Nat.le_trans (nearestEven_le ..) (Nat.div_lt_of_lt_mul hdigits)

/-- A rounded size has all 24 digits unless it is at the least exponent. -/
theorem le_roundedMantissa {m : Nat} {e : Int} (hm : m ≠ 0) (h : -149 < roundingExponent m e) :
    2 ^ 23 ≤ roundedMantissa m e := by
  rw [roundedMantissa]
  have hexponent : roundingExponent m e = m.log2 + e - 23 := by
    rw [roundingExponent] at h ⊢
    omega
  generalize roundingExponent m e = t at *
  have hdigits : 2 ^ 23 * 2 ^ (t - e).toNat ≤ m * 2 ^ (e - t).toNat := by
    rw [← Nat.pow_add, ← Nat.le_log2 (Nat.mul_ne_zero hm (Nat.ne_of_gt (Nat.two_pow_pos _))),
      log2_mul_two_pow hm]
    omega
  exact Nat.le_trans ((Nat.le_div_iff_mul_le (Nat.two_pow_pos _)).2 hdigits)
    (div_le_nearestEven ..)

/-- The rank of the size `m · 2 ^ e` after rounding. -/
def roundedSize (m : Nat) (e : Int) : Int := sizeRank (roundedMantissa m e) (roundingExponent m e)

theorem log2_mono {m n : Nat} (hm : m ≠ 0) (h : m ≤ n) : m.log2 ≤ n.log2 :=
  (Nat.le_log2 (by omega)).2 (Nat.le_trans (Nat.log2_self_le hm) h)

/-- A larger size is not rounded to a smaller one. -/
theorem roundedSize_mono {m n : Nat} (hm : m ≠ 0) (h : m ≤ n) (e : Int) :
    roundedSize m e ≤ roundedSize n e := by
  have hn : n ≠ 0 := by omega
  have hexponent : roundingExponent m e ≤ roundingExponent n e := by
    have := log2_mono hm h
    rw [roundingExponent, roundingExponent]
    omega
  rcases Int.lt_or_eq_of_le hexponent with hlt | heq
  · have hlow := le_roundedMantissa hn (Int.lt_of_le_of_lt (le_roundingExponent m e) hlt)
    have hhigh := roundedMantissa_le e hm
    rw [roundedSize, roundedSize, sizeRank, sizeRank]
    omega
  · have hmantissa : roundedMantissa m e ≤ roundedMantissa n e := by
      rw [roundedMantissa, roundedMantissa, heq]
      exact nearestEven_mono (Nat.mul_le_mul_right _ h) _
    rw [roundedSize, roundedSize, sizeRank, sizeRank, heq]
    omega

/-- A rounded size is not negative. -/
theorem roundedSize_nonneg (m : Nat) (e : Int) : 0 ≤ roundedSize m e := by
  have := le_roundingExponent m e
  rw [roundedSize, sizeRank]
  omega

/-- What is known exactly is shifted as far as the exponent that it is rounded to. -/
theorem shiftToTargetExponent_exact (m : Nat) (e : Int) :
    shiftToTargetExponent .binary32 m e .exact
      = ((⟨m, false, false⟩ : ExtendedMantissa) >>> (roundingExponent m e - e).toNat,
          e + (roundingExponent m e - e).toNat) := by
  rw [shiftToTargetExponent, targetExponent_totalExponent]
  rfl

/-- The number of a size, which may be zero. -/
def ofParts (s : Sign) (m : Nat) (e : Int) : UnpackedFloat :=
  if h : m = 0 then .zero s else .finite s m e (Nat.pos_of_ne_zero h)

/-- Rounding goes on with the digits that are left after the first shift. -/
theorem roundWithAccuracy_eq_ofParts (s : Sign) (m : Nat) (e : Int) (accuracy : Accuracy) :
    UnpackedFloat.roundWithAccuracy .binary32 s m e accuracy
      = let once := shiftToTargetExponent .binary32 m e accuracy
        let twice := shiftToTargetExponent .binary32 once.1.roundedMantissa once.2 .exact
        ofParts s twice.1.mantissa twice.2 := rfl

/-- The first shift leaves the rounded mantissa, and the second one only moves a twenty-fifth digit
    out of it. -/
theorem round_eq_ofParts {m : Nat} (hm : m ≠ 0) (s : Sign) (e : Int) :
    UnpackedFloat.round .binary32 s m e
      = if roundedMantissa m e = 2 ^ 24 then ofParts s (2 ^ 23) (roundingExponent m e + 1)
        else ofParts s (roundedMantissa m e) (roundingExponent m e) := by
  have hhigh := roundedMantissa_le e hm
  have hexponent := le_roundingExponent m e
  have hshift : (roundingExponent m e - (e - (e - roundingExponent m e).toNat)).toNat
      = (roundingExponent m e - e).toNat := by omega
  have hback : e - (e - roundingExponent m e).toNat + (roundingExponent m e - e).toNat
      = roundingExponent m e := by omega
  rw [UnpackedFloat.round, targetExponent_totalExponent]
  simp only [decreaseExponent, Nat.shiftLeft_eq, roundWithAccuracy_eq_ofParts,
    shiftToTargetExponent_exact, roundingExponent_mul_two_pow hm]
  rw [hshift, hback, roundedMantissa_shiftRight, ← roundedMantissa]
  split
  · -- the carry makes one digit more, so a second rounding drops a zero
    rename_i hfull
    have hagain : roundingExponent (roundedMantissa m e) (roundingExponent m e)
        = roundingExponent m e + 1 := by
      rw [hfull, roundingExponent, Nat.log2_two_pow]
      omega
    rw [hagain, show (roundingExponent m e + 1 - roundingExponent m e).toNat = 1 by omega, hfull]
    rfl
  · -- the digits fit already, and the second rounding does nothing
    rename_i hfull
    have hagain : roundingExponent (roundedMantissa m e) (roundingExponent m e)
        ≤ roundingExponent m e := by
      have hlog : (roundedMantissa m e).log2 ≤ 23 := log2_le_of_lt (by omega)
      rw [roundingExponent]
      omega
    rw [Int.toNat_of_nonpos (by omega), Int.natCast_zero, Int.add_zero]
    rfl

/-- A number that is made of a sign, digits and an exponent has the rank of its size with that
    sign. -/
theorem rankOf_ofParts (s : Sign) {m : Nat} {e : Int} (h : m = 0 → sizeRank m e = 0) :
    rankOf (ofParts s m e) = s.apply (sizeRank m e) := by
  rw [ofParts]
  split
  · rename_i hzero
    rw [h hzero]
    cases s <;> rfl
  · rfl

/-- A number with enough digits, or with the smallest exponent, is a rounded one. -/
theorem rounded_ofParts (s : Sign) {m : Nat} {e : Int} (hm : m < 2 ^ 24) (he : -149 ≤ e)
    (h : 2 ^ 23 ≤ m ∨ e = -149) : Rounded (ofParts s m e) := by
  rw [ofParts]
  split
  · trivial
  · exact ⟨hm, he, h⟩

/-- A size that is no zero is rounded to the rank that `roundedSize` gives. -/
theorem rankOf_round {m : Nat} (hm : m ≠ 0) (s : Sign) (e : Int) :
    Rounded (UnpackedFloat.round .binary32 s m e)
      ∧ rankOf (UnpackedFloat.round .binary32 s m e) = s.apply (roundedSize m e) := by
  have hlow := @le_roundedMantissa m e hm
  have hhigh := roundedMantissa_le e hm
  have hexponent := le_roundingExponent m e
  rw [round_eq_ofParts hm, roundedSize]
  split
  · rename_i hfull
    refine ⟨rounded_ofParts s (by decide) (by omega) (Or.inl (Nat.le_refl _)), ?_⟩
    have hsize : sizeRank (2 ^ 23) (roundingExponent m e + 1)
        = sizeRank (2 ^ 24) (roundingExponent m e) := by
      rw [sizeRank, sizeRank]
      omega
    rw [rankOf_ofParts s fun h => absurd h (by decide), hfull, hsize]
  · refine ⟨rounded_ofParts s (by omega) hexponent (by omega), rankOf_ofParts s fun hzero => ?_⟩
    rw [sizeRank]
    omega

/-! ## Packing what is rounded -/

/-- A rounded number, which may still be too large for a single. -/
structure Packable (f : UnpackedFloat) : Prop where
  rounded : Rounded f
  isNumber : IsNumber f

/-- Packing keeps ranks, up to that of infinity. -/
theorem rankOf_unpack_pack {f : UnpackedFloat} (h : Packable f) :
    IsNumber (UnpackedFloat.unpack .binary32 (UnpackedFloat.pack .binary32 f))
      ∧ rankOf (UnpackedFloat.unpack .binary32 (UnpackedFloat.pack .binary32 f))
        = max (-topRank) (min topRank (rankOf f)) := by
  have htop : 0 < topRank := by decide
  cases f with
  | notANumber => exact h.isNumber.elim
  | infinity s =>
    rw [unpack_pack_infinity]
    refine ⟨trivial, ?_⟩
    cases s <;> decide
  | zero s =>
    rw [unpack_pack_zero]
    exact ⟨trivial, rfl⟩
  | finite s m e hm =>
    rw [unpack_pack_finite h.rounded]
    have hpos := sizeRank_pos hm h.rounded.2.1
    split
    · rename_i hfits
      have hlt := sizeRank_lt_topRank h.rounded.1 hfits
      refine ⟨trivial, ?_⟩
      rw [rankOf]
      cases s <;> simp only [Sign.apply] <;> omega
    · rename_i hlarge
      have hle : topRank ≤ sizeRank m e := by
        have := h.rounded.2.2
        rw [topRank, sizeRank]
        omega
      refine ⟨trivial, ?_⟩
      rw [rankOf, rankOf]
      cases s <;> simp only [Sign.apply] <;> omega

/-! ## Sums and differences -/

/-- The rank of the number `n · 2 ^ e` after rounding. -/
def roundedRank (n : Int) (e : Int) : Int := n.sign * roundedSize n.natAbs e

/-- A larger number is not rounded to a smaller one. -/
theorem roundedRank_mono {m n : Int} (h : m ≤ n) (e : Int) : roundedRank m e ≤ roundedRank n e := by
  have hm := roundedSize_nonneg m.natAbs e
  have hn := roundedSize_nonneg n.natAbs e
  rw [roundedRank, roundedRank]
  rcases Int.lt_trichotomy m 0 with hneg | rfl | hpos
  · rcases Int.lt_trichotomy n 0 with hneg' | rfl | hpos'
    · have := roundedSize_mono (m := n.natAbs) (n := m.natAbs) (by omega) (by omega) e
      rw [Int.sign_eq_neg_one_of_neg hneg, Int.sign_eq_neg_one_of_neg hneg']
      omega
    · rw [Int.sign_eq_neg_one_of_neg hneg, Int.sign_zero]
      omega
    · rw [Int.sign_eq_neg_one_of_neg hneg, Int.sign_eq_one_of_pos hpos']
      omega
  · rcases Int.lt_or_eq_of_le h with hpos' | rfl
    · rw [Int.sign_zero, Int.sign_eq_one_of_pos hpos']
      omega
    · exact Int.le_refl _
  · have := roundedSize_mono (m := m.natAbs) (n := n.natAbs) (by omega) (by omega) e
    rw [Int.sign_eq_one_of_pos hpos, Int.sign_eq_one_of_pos (by omega)]
    omega

/-- A rounded number can be packed. -/
theorem packable_round {m : Nat} (hm : m ≠ 0) (s : Sign) (e : Int) :
    Packable (UnpackedFloat.round .binary32 s m e) := by
  refine ⟨(rankOf_round hm s e).1, ?_⟩
  rw [round_eq_ofParts hm]
  split <;> rw [ofParts] <;> split <;> trivial

/-- A whole number of steps, once rounded, can be packed. -/
theorem packable_normalize (n : Int) (e : Int) (s : Sign) :
    Packable (UnpackedFloat.normalize .binary32 n e s) := by
  rw [UnpackedFloat.normalize]
  split
  · rename_i h
    have := compare_lt_iff_lt.1 h
    exact packable_round (by omega) ..
  · exact ⟨trivial, trivial⟩
  · rename_i h
    have := compare_gt_iff_gt.1 h
    exact packable_round (by omega) ..

/-- A whole number of steps has its rounded rank. -/
theorem rankOf_normalize (n : Int) (e : Int) (s : Sign) :
    rankOf (UnpackedFloat.normalize .binary32 n e s) = roundedRank n e := by
  rw [UnpackedFloat.normalize, roundedRank]
  split
  · rename_i h
    have hneg := compare_lt_iff_lt.1 h
    rw [(rankOf_round (by omega) ..).2, Int.sign_eq_neg_one_of_neg hneg,
      show (-n).toNat = n.natAbs by omega, Sign.apply]
    omega
  · rename_i h
    rw [compare_eq_iff_eq.1 h, Int.sign_zero, Int.zero_mul]
    rfl
  · rename_i h
    have hpos := compare_gt_iff_gt.1 h
    rw [(rankOf_round (by omega) ..).2, Int.sign_eq_one_of_pos hpos,
      show n.toNat = n.natAbs by omega, Sign.apply]
    omega

/-- What is unpacked from a single can be packed again. -/
theorem packable_of_canonical {f : UnpackedFloat} (h : Canonical f) (hn : IsNumber f) :
    Packable f := by
  cases f with
  | finite s m e hm => exact ⟨⟨h.1, h.2.1, h.2.2.2⟩, hn⟩
  | _ => exact ⟨trivial, hn⟩

/-- What is packed is in the order of the ranks. -/
theorem ofModel_pack_le {f g : UnpackedFloat} (hf : Packable f) (hg : Packable g)
    (h : rankOf f ≤ rankOf g) : Float32.ofModel (.pack f) ≤ Float32.ofModel (.pack g) := by
  obtain ⟨hnf, hrf⟩ := rankOf_unpack_pack hf
  obtain ⟨hng, hrg⟩ := rankOf_unpack_pack hg
  rw [le_iff, isNaN_eq_false_iff, isNaN_eq_false_iff, rank, rank, unpack_ofModel, unpack_ofModel,
    hrf, hrg]
  exact ⟨⟨hnf, hng⟩, by omega⟩

end DotLayout.Numeric
