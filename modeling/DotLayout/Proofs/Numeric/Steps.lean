import DotLayout.Proofs.Numeric.Numbers

/-! # Singles in steps

    Every finite single is a whole number of steps of the smallest one, which is `2 ^ -149`.  A sum
    or a difference adds these whole numbers and rounds once.

    * `roundedRank_mul_two_pow` : rounding depends on a value alone, not on how it is written.
    * `roundedRank_inSteps` : a single is its own rounding.
    * `inSteps_le_iff` : singles are in the order of their steps.
    * `rankOf_add` : the rank of a sum is that of the rounded sum of the steps.
    * `le_add` and `sub_le` : so adding what is not negative never leads below a number, and taking
      it away never above. -/

namespace DotLayout.Numeric

open Float.Model UnpackedFloat

variable {f g : UnpackedFloat} {m n : Nat} {e : Int} {s : Sign} {x y c h : Float32}

/-- What is in canonical form is rounded. -/
theorem rounded_of_canonical (h : Canonical f) : Rounded f := by
  cases f with
  | finite s m e hm => exact ⟨h.1, h.2.1, h.2.2.2⟩
  | notANumber | infinity | zero => trivial

/-! ## Rounding depends on the value alone -/

/-- Dropping digits that are all zero changes nothing when the number is rounded. -/
theorem nearestEven_mul_two_pow (m k a : Nat) :
    nearestEven (m * 2 ^ a) (k + a) = nearestEven m k := by
  have hpos := Nat.two_pow_pos a
  have hdiv : m * 2 ^ a / 2 ^ (k + a) = m / 2 ^ k := by
    rw [Nat.pow_add, Nat.mul_div_mul_right _ _ hpos]
  have hmod : m * 2 ^ a % 2 ^ (k + a) = m % 2 ^ k * 2 ^ a := by
    rw [Nat.pow_add, Nat.mul_mod_mul_right]
  have hlt : 2 * (m % 2 ^ k * 2 ^ a) < 2 ^ (k + a) ↔ 2 * (m % 2 ^ k) < 2 ^ k := by
    rw [Nat.pow_add, ← Nat.mul_assoc, Nat.mul_lt_mul_right hpos]
  have heq : 2 * (m % 2 ^ k * 2 ^ a) = 2 ^ (k + a) ↔ 2 * (m % 2 ^ k) = 2 ^ k := by
    rw [Nat.pow_add, ← Nat.mul_assoc, Nat.mul_left_inj (Nat.ne_of_gt hpos)]
  simp only [nearestEven, hdiv, hmod, hlt, heq]

/-- Zeros behind the last digit do not change the rounded digits. -/
theorem roundedMantissa_mul_two_pow (hm : m ≠ 0) (a : Nat) (e : Int) :
    roundedMantissa (m * 2 ^ a) (e - a) = roundedMantissa m e := by
  rw [roundedMantissa, roundedMantissa, roundingExponent_mul_two_pow hm]
  generalize roundingExponent m e = t
  -- the digits are shifted by as much more to both sides
  obtain ⟨k, hleft, hright⟩ : ∃ k, a + (e - a - t).toNat = (e - t).toNat + k ∧
      (t - (e - a)).toNat = (t - e).toNat + k :=
    ⟨(t - (e - a)).toNat - (t - e).toNat, by omega, by omega⟩
  rw [Nat.mul_assoc, ← Nat.pow_add, hleft, hright, Nat.pow_add, ← Nat.mul_assoc,
    nearestEven_mul_two_pow]

theorem roundedSize_mul_two_pow (hm : m ≠ 0) (a : Nat) (e : Int) :
    roundedSize (m * 2 ^ a) (e - a) = roundedSize m e := by
  rw [roundedSize, roundedSize, roundedMantissa_mul_two_pow hm, roundingExponent_mul_two_pow hm]

/-- Zeros behind the last digit do not change the rounded rank. -/
theorem roundedRank_mul_two_pow (n : Int) (a : Nat) (e : Int) :
    roundedRank (n * 2 ^ a) (e - a) = roundedRank n e := by
  by_cases hn : n = 0
  · rw [hn, Int.zero_mul, roundedRank, roundedRank, Int.sign_zero, Int.zero_mul, Int.zero_mul]
  · have hsign : (2 ^ a : Int).sign = 1 := Int.sign_eq_one_of_pos (by positivity)
    have hsize : (2 ^ a : Int).natAbs = 2 ^ a := by rw [Int.natAbs_pow]; rfl
    rw [roundedRank, Int.sign_mul, hsign, Int.mul_one, Int.natAbs_mul, hsize,
      roundedSize_mul_two_pow (Int.natAbs_ne_zero.2 hn), roundedRank]

/-! ## Values -/

/-- The size `mantissa · 2 ^ exponent` in steps of the smallest single. -/
def sizeInSteps (mantissa : Nat) (exponent : Int) : Nat := mantissa * 2 ^ (exponent + 149).toNat

/-- The value of a float in steps of the smallest single. -/
def inSteps : UnpackedFloat → Int
  | .finite sign mantissa exponent _ => sign.apply (sizeInSteps mantissa exponent)
  | _ => 0

theorem sizeInSteps_pos (hm : 0 < m) (e : Int) : 0 < sizeInSteps m e :=
  Nat.mul_pos hm (Nat.two_pow_pos _)

/-- A size is rounded the same when it is counted in the smallest steps. -/
theorem roundedSize_sizeInSteps (hm : m ≠ 0) (he : -149 ≤ e) :
    roundedSize (sizeInSteps m e) (-149) = roundedSize m e := by
  have hexponent : (-149 : Int) = e - (e + 149).toNat := by omega
  rw [sizeInSteps, hexponent, roundedSize_mul_two_pow hm]

/-- Rounding goes by the size and keeps the sign. -/
theorem roundedRank_apply (hm : m ≠ 0) (s : Sign) (e : Int) :
    roundedRank (s.apply m) e = s.apply (roundedSize m e) := by
  have hpos : (m : Int).sign = 1 := Int.sign_eq_one_of_pos (by omega)
  cases s with
  | positive =>
    show (m : Int).sign * roundedSize m e = roundedSize m e
    rw [hpos, Int.one_mul]
  | negative =>
    show (-(m : Int)).sign * roundedSize (-(m : Int)).natAbs e = -roundedSize m e
    rw [Int.sign_neg, hpos, Int.natAbs_neg, Int.natAbs_natCast, Int.neg_one_mul]

/-- What is rounded already is its own rounding. -/
theorem roundedSize_of_rounded {hm : 0 < m} (h : Rounded (.finite s m e hm)) :
    roundedSize m e = sizeRank m e := by
  obtain ⟨hhigh, he, hlow⟩ := h
  have hexponent : roundingExponent m e = e := by
    rcases hlow with hdigits | rfl
    · rw [roundingExponent, log2_eq_of_le hdigits hhigh]
      omega
    · have := (Nat.log2_lt (Nat.ne_of_gt hm)).2 hhigh
      rw [roundingExponent]
      omega
  rw [roundedSize, roundedMantissa, hexponent, Int.sub_self, Int.toNat_zero, Nat.pow_zero,
    Nat.mul_one, nearestEven_zero]

/-- The rank of a float is that of its value. -/
theorem roundedRank_inSteps (h : Rounded f) (hfinite : f.isFinite = true) :
    roundedRank (inSteps f) (-149) = rankOf f := by
  cases f with
  | notANumber | infinity => exact nomatch hfinite
  | zero s => exact Int.zero_mul _
  | finite s m e hm =>
    rw [inSteps, roundedRank_apply (Nat.ne_of_gt (sizeInSteps_pos hm e)),
      roundedSize_sizeInSteps (Nat.ne_of_gt hm) h.2.1, roundedSize_of_rounded h]
    rfl

/-! ## The order of values -/

/-- Sizes of lower ranks have fewer steps. -/
theorem size_le_of_sizeRank_le {e' : Int} {hm : 0 < m} {hn : 0 < n} {s' : Sign}
    (hf : Rounded (.finite s m e hm)) (hg : Rounded (.finite s' n e' hn))
    (h : sizeRank m e ≤ sizeRank n e') : sizeInSteps m e ≤ sizeInSteps n e' := by
  obtain ⟨hm, he, hme⟩ := hf
  obtain ⟨hn, he', hne⟩ := hg
  rcases Int.lt_trichotomy e e' with hlt | rfl | hlt
  · have hdigits : 2 ^ 23 ≤ n := hne.resolve_right (by omega)
    calc sizeInSteps m e ≤ 2 ^ 24 * 2 ^ (e + 149).toNat :=
          Nat.mul_le_mul_right _ (Nat.le_of_lt hm)
      _ = 2 ^ 23 * 2 ^ ((e + 149).toNat + 1) := by ring
      _ ≤ sizeInSteps n e' :=
          Nat.mul_le_mul hdigits (Nat.pow_le_pow_right (by decide) (by omega))
  · rw [sizeRank, sizeRank] at h
    exact Nat.mul_le_mul_right _ (by omega)
  · have := sizeRank_lt_of_lt hn hme he' hlt
    omega

/-- Floats are in the order of their values. -/
theorem inSteps_le_iff (hf : Rounded f) (hg : Rounded g) (hff : f.isFinite = true)
    (hgf : g.isFinite = true) : inSteps f ≤ inSteps g ↔ rankOf f ≤ rankOf g := by
  constructor
  · intro h
    rw [← roundedRank_inSteps hf hff, ← roundedRank_inSteps hg hgf]
    exact roundedRank_mono h _
  · intro h
    -- the other direction compares signs first, then sizes
    cases f with
    | notANumber | infinity => exact nomatch hff
    | zero s =>
      cases g with
      | notANumber | infinity => exact nomatch hgf
      | zero s' => exact Int.le_refl 0
      | finite s' n e' hn =>
        have hpos := sizeRank_pos hn hg.2.1
        cases s' with
        | negative => exact absurd h (by simp only [rankOf, Sign.apply]; omega)
        | positive => exact Int.natCast_nonneg (sizeInSteps n e')
    | finite s m e hm =>
      have hpos := sizeRank_pos hm hf.2.1
      have hsize := sizeInSteps_pos hm e
      cases g with
      | notANumber | infinity => exact nomatch hgf
      | zero s' =>
        cases s with
        | negative => exact Int.neg_nonpos_of_nonneg (Int.natCast_nonneg (sizeInSteps m e))
        | positive => exact absurd h (by simp only [rankOf, Sign.apply]; omega)
      | finite s' n e' hn =>
        have hpos' := sizeRank_pos hn hg.2.1
        have hsize' := sizeInSteps_pos hn e'
        have hup := size_le_of_sizeRank_le hf hg
        have hdown := size_le_of_sizeRank_le hg hf
        cases s <;> cases s' <;> simp only [inSteps, rankOf, Sign.apply] at h ⊢ <;> omega

/-! ## Sums -/

/-- A sign can be applied before or after a multiplication. -/
theorem apply_mul (s : Sign) (a b : Int) : s.apply (a * b) = s.apply a * b := by
  cases s with
  | positive => rfl
  | negative => exact (Int.neg_mul ..).symm

/-- Digits that are moved to a smaller exponent are worth the same. -/
theorem sizeInSteps_eq_shift {t : Int} (ht : -149 ≤ t) (hle : t ≤ e) (m : Nat) :
    sizeInSteps m e = (m <<< (e - t).toNat) * 2 ^ (t + 149).toNat := by
  rw [sizeInSteps, Nat.shiftLeft_eq, Nat.mul_assoc, ← Nat.pow_add]
  congr 2
  omega

/-- A sum adds the steps and rounds once. -/
theorem rankOf_add (hf : Canonical f) (hg : Canonical g) (hff : f.isFinite = true)
    (hgf : g.isFinite = true) : Packable (f.add .binary32 g) ∧
      rankOf (f.add .binary32 g) = roundedRank (inSteps f + inSteps g) (-149) := by
  have hpf := packable_of_canonical hf
  have hpg := packable_of_canonical hg
  cases f with
  | notANumber | infinity => exact nomatch hff
  -- adding zero gives the other float, which is rounded already
  | zero s =>
    cases g with
    | notANumber | infinity => exact nomatch hgf
    | zero s' => cases s <;> cases s' <;> exact ⟨⟨trivial, trivial⟩, rfl⟩
    | finite s' n e' hn =>
      refine ⟨hpg trivial, ?_⟩
      rw [show inSteps (.zero s) = 0 from rfl, Int.zero_add,
        roundedRank_inSteps (hpg trivial).rounded rfl]
      rfl
  | finite s m e hm =>
    cases g with
    | notANumber | infinity => exact nomatch hgf
    | zero s' =>
      refine ⟨hpf trivial, ?_⟩
      rw [show inSteps (.zero s') = 0 from rfl, Int.add_zero,
        roundedRank_inSteps (hpf trivial).rounded rfl]
      rfl
    -- Both sizes are counted in the smaller exponent, and rounding does not see the common factor.
    | finite s' n e' hn =>
      refine ⟨packable_normalize .., ?_⟩
      have ht : -149 ≤ min e e' := Int.le_min.2 ⟨hf.2.1, hg.2.1⟩
      have hexponent : (-149 : Int) = min e e' - (min e e' + 149).toNat := by omega
      rw [inSteps, inSteps, sizeInSteps_eq_shift ht (Int.min_le_left ..),
        sizeInSteps_eq_shift ht (Int.min_le_right ..), Int.natCast_mul, Int.natCast_mul, apply_mul,
        apply_mul, ← Int.add_mul, hexponent, Int.natCast_pow, Nat.cast_ofNat,
        roundedRank_mul_two_pow]
      exact rankOf_normalize ..

/-- Finite numbers, zeros among them, are closer to zero than what is infinite. -/
theorem rankOf_bounds (hf : Canonical f) (hff : f.isFinite = true) :
    -topRank < rankOf f ∧ rankOf f < topRank := by
  cases f with
  | notANumber | infinity => exact nomatch hff
  | zero s =>
    show -topRank < 0 ∧ 0 < topRank
    decide
  | finite => exact rankOf_finite_bounds hf

/-- Adding what is not negative never leads down, and adding what is not positive never up. -/
theorem add_moves (hf : Canonical f) (hg : Canonical g) (hff : f.isFinite = true)
    (hnumber : IsNumber g) : Packable (f.add .binary32 g) ∧
      (0 ≤ rankOf g → rankOf f ≤ rankOf (f.add .binary32 g)) ∧
        (rankOf g ≤ 0 → rankOf (f.add .binary32 g) ≤ rankOf f) := by
  -- Counted in steps a sum is a sum, so adding something nonnegative cannot go down.
  by_cases hgf : g.isFinite = true
  · have hzero := inSteps_le_iff (f := .zero .positive) trivial (rounded_of_canonical hg) rfl hgf
    have hzero' := inSteps_le_iff (g := .zero .positive) (rounded_of_canonical hg) trivial hgf rfl
    obtain ⟨hpackable, hrank⟩ := rankOf_add hf hg hff hgf
    rw [hrank, ← roundedRank_inSteps (rounded_of_canonical hf) hff]
    refine ⟨hpackable, fun h => roundedRank_mono ?_ _, fun h => roundedRank_mono ?_ _⟩
    · have : 0 ≤ inSteps g := hzero.2 h
      omega
    · have : inSteps g ≤ 0 := hzero'.2 h
      omega
  · obtain ⟨s, rfl⟩ : ∃ s, g = .infinity s := by
      cases g with
      | infinity s => exact ⟨s, rfl⟩
      | notANumber => exact hnumber.elim
      | zero | finite => exact absurd rfl hgf
    -- an infinity swallows the finite float, and every finite rank lies between the two
    have hbounds := rankOf_bounds hf hff
    have hsum : f.add .binary32 (.infinity s) = .infinity s := by
      cases f with
      | notANumber | infinity => exact nomatch hff
      | zero | finite => rfl
    rw [hsum]
    refine ⟨⟨trivial, trivial⟩, ?_⟩
    cases s with
    | negative => exact ⟨fun h => absurd h (by decide), fun _ => Int.le_of_lt hbounds.1⟩
    | positive => exact ⟨fun _ => Int.le_of_lt hbounds.2, fun h => absurd h (by decide)⟩

/-- The opposite sign gives the opposite number. -/
theorem apply_neg (s : Sign) (a : Int) : (-s).apply a = -s.apply a := by
  cases s with
  | negative => exact (Int.neg_neg a).symm
  | positive => rfl

/-- A difference is a sum with the sign turned around. -/
theorem sub_eq_add_neg (f g : UnpackedFloat) : f.sub .binary32 g = f.add .binary32 g.neg := by
  cases f with
  | notANumber => rfl
  | infinity s =>
    cases g with
    | notANumber | zero | finite => rfl
    | infinity s' => cases s <;> cases s' <;> rfl
  | zero s =>
    cases g with
    | notANumber | infinity | finite => rfl
    | zero s' => cases s <;> cases s' <;> rfl
  | finite s m e hm =>
    cases g with
    | notANumber | infinity | zero => rfl
    | finite s' n e' hn =>
      rw [UnpackedFloat.sub, UnpackedFloat.neg, UnpackedFloat.add]
      simp only [apply_neg, Int.sub_eq_add_neg]

/-- The opposite number has the opposite rank. -/
theorem rankOf_neg (f : UnpackedFloat) : rankOf f.neg = -rankOf f := by
  cases f with
  | notANumber | zero => rfl
  | infinity s | finite s => exact apply_neg s _

/-- The opposite of a canonical number is canonical. -/
theorem canonical_neg (h : Canonical f) : Canonical f.neg := by
  cases f with
  | notANumber | zero | infinity => trivial
  | finite => exact h

/-- The opposite of a number is a number. -/
theorem isNumber_neg (h : IsNumber f) : IsNumber f.neg := by
  cases f with
  | notANumber => exact h
  | zero | infinity | finite => trivial

/-! ## Singles -/

/-- A single is packed again as it was. -/
theorem ofModel_pack_unpack (x : Float32) : Float32.ofModel (.pack x.toModel.unpack) = x :=
  Float32.ofBits_toBits x

theorem rounded_unpack (x : Float32) : Rounded x.toModel.unpack :=
  rounded_of_canonical (canonical x)

theorem packable_unpack (h : x.isNaN = false) : Packable x.toModel.unpack :=
  packable_of_canonical (canonical x) (isNaN_eq_false_iff.1 h)

/-- A single is at most a packed number if its rank is. -/
theorem le_ofModel_pack (hx : x.isNaN = false) (hf : Packable f) (h : rank x ≤ rankOf f) :
    x ≤ Float32.ofModel (.pack f) := by
  have := ofModel_pack_le (packable_unpack hx) hf h
  rwa [ofModel_pack_unpack] at this

/-- A packed number is at most a single if its rank is. -/
theorem ofModel_pack_le_of_rank (hx : x.isNaN = false) (hf : Packable f) (h : rankOf f ≤ rank x) :
    Float32.ofModel (.pack f) ≤ x := by
  have := ofModel_pack_le hf (packable_unpack hx) h
  rwa [ofModel_pack_unpack] at this

/-- A number is finite if its rank is between those of the infinities. -/
theorem isFinite_iff :
    x.isFinite = true ↔ x.isNaN = false ∧ -topRank < rank x ∧ rank x < topRank := by
  constructor
  · intro h
    exact ⟨isNaN_of_isFinite h, rankOf_bounds (canonical x) h⟩
  · rintro ⟨hnumber, hlow, hhigh⟩
    rw [isNaN_eq_false_iff] at hnumber
    show x.toModel.unpack.isFinite = true
    rw [rank] at hlow hhigh
    cases hx : x.toModel.unpack with
    | notANumber => exact (hx ▸ hnumber).elim
    | zero | finite => rfl
    | infinity s =>
      rw [hx] at hlow hhigh
      cases s with
      | negative => exact absurd hlow (Int.lt_irrefl _)
      | positive => exact absurd hhigh (Int.lt_irrefl _)

/-- What lies between finite numbers is finite. -/
theorem isFinite_of_between (hx : x.isFinite = true) (hy : y.isFinite = true) (hlow : x ≤ c)
    (hhigh : c ≤ y) : c.isFinite = true := by
  obtain ⟨-, hx, -⟩ := isFinite_iff.1 hx
  obtain ⟨-, -, hy⟩ := isFinite_iff.1 hy
  obtain ⟨⟨-, hnumber⟩, hlow⟩ := le_iff.1 hlow
  obtain ⟨-, hhigh⟩ := le_iff.1 hhigh
  exact isFinite_iff.2 ⟨hnumber, Int.lt_of_lt_of_le hx hlow, Int.lt_of_le_of_lt hhigh hy⟩

/-- What is not negative leads up from a finite number, if it leads anywhere. -/
theorem le_add (hc : c.isFinite = true) (hh : 0 ≤ h) : c ≤ c + h := by
  obtain ⟨hnumber, hrank⟩ := nonneg_iff.1 hh
  obtain ⟨hpackable, hup, -⟩ :=
    add_moves (canonical c) (canonical h) hc (isNaN_eq_false_iff.1 hnumber)
  exact le_ofModel_pack (isNaN_of_isFinite hc) hpackable (hup hrank)

/-- A difference of singles is a sum with the sign turned around. -/
theorem sub_eq_add (x y : Float32) : x - y = x + -y := by
  have hneg : (-y).toModel.unpack = y.toModel.unpack.neg :=
    unpack_pack_of_canonical (canonical_neg (canonical y))
  show Float32.ofModel (.pack (x.toModel.unpack.sub .binary32 y.toModel.unpack))
    = .ofModel (.pack (x.toModel.unpack.add .binary32 (-y).toModel.unpack))
  rw [sub_eq_add_neg, hneg]

/-- Taken away, it leads down. -/
theorem sub_le (hc : c.isFinite = true) (hh : 0 ≤ h) : c - h ≤ c := by
  obtain ⟨hnumber, hrank⟩ := nonneg_iff.1 hh
  obtain ⟨hpackable, -, hdown⟩ := add_moves (canonical c) (canonical_neg (canonical h)) hc
    (isNumber_neg (isNaN_eq_false_iff.1 hnumber))
  have hneg : rankOf h.toModel.unpack.neg ≤ 0 := by
    rw [rankOf_neg]
    exact Int.neg_nonpos_of_nonneg hrank
  rw [← sub_eq_add_neg] at hpackable hdown
  exact ofModel_pack_le_of_rank (isNaN_of_isFinite hc) hpackable (hdown hneg)

end DotLayout.Numeric
