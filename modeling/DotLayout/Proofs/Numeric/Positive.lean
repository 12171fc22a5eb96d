import DotLayout.Proofs.Numeric.Rounding

/-! # Positive singles

    Rounding never takes a positive number to zero if its last digit is not below that of the
    smallest single.  This is so for square roots of singles and for whole numbers.

    * `positive_roundWithAccuracy` : rounding keeps numbers positive, and `pos_ofModel_pack` that
      packing does.
    * `pos_ceilCount_sqrt` : so a square with something in it has at least one column. -/

namespace DotLayout.Numeric

open Float.Model UnpackedFloat

/-- A positive number with at most 24 digits, none below the last digit of the smallest single. -/
def Positive : UnpackedFloat → Prop
  | .infinity sign => sign = .positive
  | .finite sign mantissa exponent _ => sign = .positive ∧ mantissa < 2 ^ 24 ∧ -149 ≤ exponent
  | _ => False

/-- Dropping some of the last digits divides the number that the others stand for. -/
theorem mantissa_shiftRight (em : ExtendedMantissa) (k : Nat) :
    (em >>> k).mantissa = em.mantissa / 2 ^ k := by
  induction k with
  | zero => rw [Nat.pow_zero, Nat.div_one]; rfl
  | succ k ih =>
    show (em >>> k).mantissa / 2 = _
    rw [ih, Nat.div_div_eq_div_mul, ← Nat.pow_succ]

/-- Rounding to a whole number adds one at most. -/
theorem roundedMantissa_bounds (em : ExtendedMantissa) :
    em.mantissa ≤ em.roundedMantissa ∧ em.roundedMantissa ≤ em.mantissa + 1 := by
  obtain ⟨m, r, s⟩ := em
  have hbit : m % 2 < 2 := Nat.mod_lt m (by decide)
  cases r <;> cases s <;>
    simp only [ExtendedMantissa.roundedMantissa, ExtendedMantissa.accuracy,
      Accuracy.roundToNearestEven] <;> omega

theorem mantissa_ofMantissaAndAccuracy (m : Nat) (accuracy : Accuracy) :
    (ExtendedMantissa.ofMantissaAndAccuracy m accuracy).mantissa = m := by
  rcases accuracy with _ | (_ | _ | _) <;> rfl

/-- A shift to the exponent for a size keeps one to 24 digits, if the first digit is not below the
    last one of the smallest single. -/
theorem shiftToTargetExponent_bounds {m : Nat} {e : Int} (hm : m ≠ 0) (he : -149 ≤ m.log2 + e)
    (accuracy : Accuracy) :
    let shifted := shiftToTargetExponent .binary32 m e accuracy
    0 < shifted.1.mantissa ∧ shifted.1.mantissa < 2 ^ 24 ∧ -149 ≤ shifted.2 := by
  have hexponent : roundingExponent m e = max (m.log2 + e - 23) (-149) := rfl
  have hlow := Nat.log2_self_le hm
  have hhigh := @Nat.lt_log2_self m
  dsimp only
  rw [shiftToTargetExponent, targetExponent_totalExponent, shiftToExponent]
  dsimp only
  rw [mantissa_shiftRight, mantissa_ofMantissaAndAccuracy]
  generalize roundingExponent m e = t at *
  refine ⟨Nat.div_pos (Nat.le_trans ?_ hlow) (Nat.two_pow_pos _), Nat.div_lt_of_lt_mul ?_, ?_⟩
  · exact Nat.pow_le_pow_right (by decide) (by omega)
  · rw [← Nat.pow_add]
    exact Nat.lt_of_lt_of_le hhigh (Nat.pow_le_pow_right (by decide) (by omega))
  · omega

/-- Rounding what is positive and not too small gives a positive number. -/
theorem positive_roundWithAccuracy {m : Nat} {e : Int} (hm : m ≠ 0) (he : -149 ≤ m.log2 + e)
    (accuracy : Accuracy) :
    Positive (UnpackedFloat.roundWithAccuracy .binary32 .positive m e accuracy) := by
  obtain ⟨hpos, hlt, hexponent⟩ := shiftToTargetExponent_bounds hm he accuracy
  rw [roundWithAccuracy_eq_ofParts]
  generalize shiftToTargetExponent .binary32 m e accuracy = once at *
  obtain ⟨hlow, -⟩ := roundedMantissa_bounds once.1
  obtain ⟨hpos', hlt', hexponent'⟩ :=
    shiftToTargetExponent_bounds (m := once.1.roundedMantissa) (e := once.2) (by omega) (by omega)
      .exact
  dsimp only
  rw [ofParts, dif_neg (Nat.ne_of_gt hpos')]
  exact ⟨rfl, hlt', hexponent'⟩

/-- Rounding a positive number that is known exactly gives a positive number. -/
theorem positive_round {m : Nat} {e : Int} (hm : m ≠ 0) (he : -149 ≤ m.log2 + e) :
    Positive (UnpackedFloat.round .binary32 .positive m e) := by
  rw [UnpackedFloat.round]
  dsimp only [decreaseExponent]
  rw [Nat.shiftLeft_eq]
  refine positive_roundWithAccuracy (Nat.mul_ne_zero hm (Nat.ne_of_gt (Nat.two_pow_pos _))) ?_ _
  rw [log2_mul_two_pow hm]
  omega

/-! ## Positive singles -/

variable {x : Float32}

/-- A single above zero is positive when it is unpacked. -/
theorem positive_of_pos (h : 0 < x) : Positive x.toModel.unpack := by
  have hsigned := signed_of_pos h
  have hcanonical := canonical x
  cases hx : x.toModel.unpack with
  | notANumber =>
    rw [hx] at hsigned
    exact hsigned
  | zero s => exact absurd hx (unpack_ne_zero_of_pos h s)
  | infinity s =>
    rw [hx] at hsigned
    exact hsigned
  | finite s m e hm =>
    rw [hx] at hsigned hcanonical
    exact ⟨hsigned, hcanonical.1, hcanonical.2.1⟩

/-- A single with the positive sign is positive if it is no zero. -/
theorem pos_of_signed (h : Signed .positive x.toModel.unpack)
    (hne : ∀ s, x.toModel.unpack ≠ .zero s) : 0 < x := by
  rw [pos_iff, rank]
  refine ⟨isNaN_eq_false_iff.2 h.isNumber, ?_⟩
  have hcanonical := canonical x
  cases hx : x.toModel.unpack with
  | notANumber =>
    rw [hx] at h
    exact h.elim
  | zero s => exact absurd hx (hne s)
  | infinity s =>
    rw [hx] at h
    obtain rfl : s = .positive := h
    decide
  | finite s m e hm =>
    rw [hx] at h hcanonical
    obtain rfl : s = .positive := h
    exact sizeRank_pos hm hcanonical.2.1

/-- What is packed from digits that are not all zero is not read back as zero. -/
theorem unpack_packComponents_ne_zero {e : BitVec 8} {m : BitVec 23} (h : e = 0#8 → m ≠ 0#23)
    (s s' : Sign) :
    UnpackedFloat.unpack .binary32 (packComponents .binary32 s e m) ≠ .zero s' := by
  rw [unpack_packComponents]
  split
  · split <;> nofun
  split
  · rename_i hzero
    rw [dif_neg (h hzero)]
    nofun
  · nofun

/-- Packing keeps what is positive. -/
theorem pos_ofModel_pack {f : UnpackedFloat} (h : Positive f) : 0 < Float32.ofModel (.pack f) := by
  have hsigned : Signed .positive f := by
    cases f with
    | finite s m e hm => exact h.1
    | infinity s => exact h
    | zero s => exact h.elim
    | notANumber => exact h.elim
  -- The packed float is not zero, as its exponent field or its digits are not.
  refine pos_of_signed (signed_unpack_pack hsigned) fun s' => ?_
  rw [unpack_ofModel]
  cases f with
  | notANumber => exact h.elim
  | zero s => exact h.elim
  | infinity s =>
    rw [unpack_pack_infinity]
    nofun
  | finite s m e hm =>
    obtain ⟨-, hlt, he⟩ := h
    rw [UnpackedFloat.pack]
    simp only [biasedExponent_eq]
    split
    · -- too large: infinity, whose exponent field is all ones
      exact unpack_packComponents_ne_zero (fun h => absurd h (by decide)) s s'
    rename_i hfits
    change ¬ 2 ^ 8 ≤ _ at hfits
    split
    · -- all digits are used: the exponent field is positive
      refine unpack_packComponents_ne_zero (fun hfield => ?_) s s'
      have := congrArg BitVec.toNat hfield
      rw [BitVec.toNat_ofNat] at this
      change _ % 256 = 0 at this
      omega
    · -- fewer digits: the digits themselves are not zero
      rename_i hdigits
      refine unpack_packComponents_ne_zero (fun _ hfield => ?_) s s'
      have hlog : m.log2 ≠ 23 := hdigits ∘ congrArg (· + 1)
      have hshort : m.log2 < 24 := (Nat.log2_lt (Nat.ne_of_gt hm)).2 hlt
      have hsmall : m < 2 ^ 23 := (Nat.log2_lt (Nat.ne_of_gt hm)).1 (by omega)
      have := congrArg BitVec.toNat hfield
      rw [BitVec.toNat_ofNat] at this
      change m % 2 ^ 23 = 0 at this
      omega

/-- The square root of a positive single is positive. -/
theorem pos_sqrt (h : 0 < x) : 0 < Float32.sqrt x := by
  refine pos_ofModel_pack ?_
  have hpositive := positive_of_pos h
  cases hx : x.toModel.unpack with
  | notANumber =>
    rw [hx] at hpositive
    exact hpositive.elim
  | zero s =>
    rw [hx] at hpositive
    exact hpositive.elim
  | infinity s =>
    rw [hx] at hpositive
    obtain rfl : s = .positive := hpositive
    rfl
  | finite s m e hm =>
    rw [hx] at hpositive
    obtain ⟨rfl, -, he⟩ := hpositive
    have hroot : ∀ a, Nat.sqrt (m <<< a) ≠ 0 := fun a => by
      rw [Nat.shiftLeft_eq]
      exact Nat.ne_of_gt (Nat.sqrt_pos.2 (Nat.mul_pos hm (Nat.two_pow_pos a)))
    have hhalf : -149 ≤ e / 2 := by omega
    refine positive_roundWithAccuracy (hroot _) (Int.le_trans ?_
      (Int.le_add_of_nonneg_left (Int.natCast_nonneg _))) _
    exact Int.le_min.2 ⟨hhalf, Int.le_max_right ..⟩

/-- The single one, as it is written down in a table of powers of ten. -/
theorem unpack_one :
    (Float32.ofBits 0x3F800000).toModel.unpack = .finite .positive (2 ^ 23) (-23) (by decide) :=
  unpack_packComponents .positive 127#8 0#23

/-- A positive single times one is positive. -/
theorem pos_mul_one (h : 0 < x) : 0 < x * Float32.ofBits 0x3F800000 := by
  have hpositive := positive_of_pos h
  have hproduct : Positive
      (x.toModel.unpack.mul .binary32 (.finite .positive (2 ^ 23) (-23) (by decide))) := by
    cases hx : x.toModel.unpack with
    | notANumber =>
      rw [hx] at hpositive
      exact hpositive
    | zero s =>
      rw [hx] at hpositive
      exact hpositive.elim
    | infinity s =>
      rw [hx] at hpositive
      obtain rfl : s = .positive := hpositive
      rfl
    | finite s m e hm =>
      rw [hx] at hpositive
      obtain ⟨rfl, -, he⟩ := hpositive
      refine positive_roundWithAccuracy (by omega) ?_ _
      rw [log2_mul_two_pow (by omega)]
      omega
  rw [← unpack_one] at hproduct
  exact pos_ofModel_pack hproduct

/-- A count of one or more is rounded to a positive number. -/
theorem positive_ofNat {n : Nat} (hn : n ≠ 0) : Positive (UnpackedFloat.ofNat .binary32 n) := by
  have hcompare : compare (n : Int) 0 = .gt := compare_gt_iff_gt.2 (by omega)
  rw [UnpackedFloat.ofNat, UnpackedFloat.ofInt, UnpackedFloat.normalize, hcompare]
  dsimp only
  rw [Int.toNat_natCast]
  exact positive_round hn (by omega)

/-- A positive whole number in scientific form is rounded to a positive number. -/
theorem positive_ofScientific {n : Nat} (hn : n ≠ 0) :
    Positive (UnpackedFloat.ofScientific .binary32 n 0) := by
  have hbits : Format.binary32.mantissaBits = 24 := rfl
  have hpow : (0 : Int) ≤ 2 ^ Format.binary32.exponentBits := by decide
  rw [UnpackedFloat.ofScientific, dif_neg hn, if_neg (by omega), if_neg (by omega),
    if_pos (Int.le_refl 0), UnpackedFloat.mul, hbits, Nat.shiftLeft_eq, Int.toNat_zero,
    Nat.pow_zero, Nat.mul_one]
  refine positive_roundWithAccuracy (Nat.mul_ne_zero hn (Nat.ne_of_gt (Nat.two_pow_pos 24))) ?_ _
  rw [log2_mul_two_pow hn]
  omega

/-- No number of things but none counts as zero. -/
theorem pos_ofCount {n : Nat} (hn : n ≠ 0) : 0 < ofCount n := by
  show 0 < Float32.ofScientific n false 0
  rw [Float32.ofScientific]
  split
  · rename_i hsmall
    have hcount : n.toUInt64.toNat = n := Nat.mod_eq_of_lt (by omega)
    refine pos_mul_one (pos_ofModel_pack ?_)
    rw [UnpackedFloat.ofUInt64, hcount]
    exact positive_ofNat hn
  · exact pos_ofModel_pack (positive_ofScientific hn)

theorem ofCount_zero : ofCount 0 = 0 := by decide +kernel

/-- Rounded up, a positive number is no zero. -/
theorem pos_ceilCount (h : 0 < x) : 0 < ceilCount x := by
  rw [ceilCount]
  split
  · exact Nat.succ_pos _
  · rename_i hle
    refine Nat.pos_of_ne_zero fun hwhole => hle ?_
    rw [hwhole, ofCount_zero]
    exact h

/-- The square root of a positive count, rounded up, is positive. -/
theorem pos_ceilCount_sqrt {n : Nat} (hn : n ≠ 0) : 0 < ceilCount (Float32.sqrt (ofCount n)) :=
  pos_ceilCount (pos_sqrt (pos_ofCount hn))

end DotLayout.Numeric
