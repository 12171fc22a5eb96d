import DotLayout.Proofs.Numeric.Packing

/-! # The order of singles

    The rank of a single is the place of its size among all sizes, with its sign: both zeros have
    rank zero, and the next larger single has the next larger rank.

    * `compare_eq` : numbers compare as their ranks, so that `le_iff` and `lt_iff` turn the order of
      singles into an order of integers.
    * `nonneg_iff` : what is not negative, and `nonneg_of_keeps` for the operations that keep it. -/

namespace DotLayout.Numeric

open Float.Model UnpackedFloat

/-- The rank of an infinite single. -/
def topRank : Int := 255 * 2 ^ 23

/-- The rank of the size `mantissa · 2 ^ exponent`. -/
def sizeRank (mantissa : Nat) (exponent : Int) : Int := (exponent + 149) * 2 ^ 23 + mantissa

/-- The rank of a number; what is no number has none. -/
def rankOf : UnpackedFloat → Int
  | .zero _ => 0
  | .finite sign mantissa exponent _ => sign.apply (sizeRank mantissa exponent)
  | .infinity sign => sign.apply topRank
  | .notANumber => 0

/-- Whether a float is a number, infinite or not. -/
def IsNumber : UnpackedFloat → Prop
  | .notANumber => False
  | _ => True

/-- A number that is not zero has a rank above that of zero. -/
theorem sizeRank_pos {mantissa : Nat} {exponent : Int} (hm : 0 < mantissa) (he : -149 ≤ exponent) :
    0 < sizeRank mantissa exponent := by
  rw [sizeRank]
  omega

/-- A finite number has a rank below that of infinity. -/
theorem sizeRank_lt_topRank {mantissa : Nat} {exponent : Int} (hm : mantissa < 2 ^ 24)
    (he : exponent ≤ 104) : sizeRank mantissa exponent < topRank := by
  rw [sizeRank, topRank]
  omega

/-- A larger exponent makes a larger size. -/
theorem sizeRank_lt_of_lt {m n : Nat} {e f : Int} (hm : m < 2 ^ 24) (hf : 2 ^ 23 ≤ n ∨ f = -149)
    (he : -149 ≤ e) (h : e < f) : sizeRank m e < sizeRank n f := by
  rw [sizeRank, sizeRank]
  omega

/-- Sizes compare by exponent and then by mantissa. -/
theorem compare_sizeRank {m n : Nat} {e f : Int} (hm : m < 2 ^ 24) (hn : n < 2 ^ 24)
    (he : -149 ≤ e) (hf : -149 ≤ f) (hme : 2 ^ 23 ≤ m ∨ e = -149) (hnf : 2 ^ 23 ≤ n ∨ f = -149) :
    (compare e f).then (compare m n) = compare (sizeRank m e) (sizeRank n f) := by
  rcases Int.lt_trichotomy e f with h | rfl | h
  · rw [compare_lt_iff_lt.2 h, compare_lt_iff_lt.2 (sizeRank_lt_of_lt hm hnf he h)]
    rfl
  · have hcancel : compare (sizeRank m e) (sizeRank n e) = compare m n := by
      rcases Nat.lt_trichotomy m n with h | rfl | h
      · rw [compare_lt_iff_lt.2 h, compare_lt_iff_lt, sizeRank, sizeRank]
        omega
      · rw [compare_eq_iff_eq.2 rfl, compare_eq_iff_eq.2 rfl]
      · rw [compare_gt_iff_gt.2 h, compare_gt_iff_gt, sizeRank, sizeRank]
        omega
    rw [hcancel, compare_eq_iff_eq.2 (rfl : e = e)]
    rfl
  · rw [compare_gt_iff_gt.2 h, compare_gt_iff_gt.2 (sizeRank_lt_of_lt hn hme hf h)]
    rfl

/-- Changing both signs turns a comparison around. -/
theorem compare_neg (a b : Int) : compare (-a) (-b) = (compare a b).swap := by
  rcases Int.lt_trichotomy a b with h | rfl | h
  · rw [compare_lt_iff_lt.2 h, compare_gt_iff_gt.2 (by omega)]
    rfl
  · rw [compare_eq_iff_eq.2 rfl, compare_eq_iff_eq.2 rfl]
    rfl
  · rw [compare_gt_iff_gt.2 h, compare_lt_iff_lt.2 (by omega)]
    rfl

theorem some_lt_eq_compare {a b : Int} (h : a < b) : some .lt = some (compare a b) :=
  congrArg some (compare_lt_iff_lt.2 h).symm

theorem some_gt_eq_compare {a b : Int} (h : b < a) : some .gt = some (compare a b) :=
  congrArg some (compare_gt_iff_gt.2 h).symm

/-- Finite numbers are closer to zero than what is infinite. -/
theorem rankOf_finite_bounds {s : Sign} {m : Nat} {e : Int} {hm : 0 < m}
    (h : Canonical (.finite s m e hm)) :
    -topRank < rankOf (.finite s m e hm) ∧ rankOf (.finite s m e hm) < topRank := by
  have hpos := sizeRank_pos hm h.2.1
  have hlt := sizeRank_lt_topRank h.1 h.2.2.1
  cases s <;> simp only [rankOf, Sign.apply] <;> omega

/-- Finite numbers in canonical form compare as their ranks. -/
theorem compare_finite {s s' : Sign} {m n : Nat} {e f : Int} {hm : 0 < m} {hn : 0 < n}
    (hx : Canonical (.finite s m e hm)) (hy : Canonical (.finite s' n f hn)) :
    UnpackedFloat.compare (.finite s m e hm) (.finite s' n f hn)
      = some (compare (rankOf (.finite s m e hm)) (rankOf (.finite s' n f hn))) := by
  have hpos := sizeRank_pos hm hx.2.1
  have hpos' := sizeRank_pos hn hy.2.1
  have sizes := compare_sizeRank hx.1 hy.1 hx.2.1 hy.2.1 hx.2.2.2 hy.2.2.2
  cases s <;> cases s'
  · show some ((compare e f).then (compare m n)).swap = some (compare (-_) (-_))
    rw [sizes, compare_neg]
  · exact some_lt_eq_compare (show -sizeRank m e < sizeRank n f by omega)
  · exact some_gt_eq_compare (show -sizeRank n f < sizeRank m e by omega)
  · exact congrArg some sizes

/-- Numbers compare as their ranks. -/
theorem compare_eq {x y : UnpackedFloat} (hx : Canonical x) (hy : Canonical y) (hnx : IsNumber x)
    (hny : IsNumber y) : x.compare y = some (compare (rankOf x) (rankOf y)) := by
  cases x with
  | notANumber => exact hnx.elim
  | infinity s =>
    cases y with
    | notANumber => exact hny.elim
    | infinity s' => cases s <;> cases s' <;> rfl
    | zero s' => cases s <;> rfl
    -- a finite rank is strictly between the two infinite ones
    | finite s' n f hn =>
      obtain ⟨hlow, hhigh⟩ := rankOf_finite_bounds hy
      cases s with
      | negative => exact some_lt_eq_compare hlow
      | positive => exact some_gt_eq_compare hhigh
  | zero s =>
    cases y with
    | notANumber => exact hny.elim
    | infinity s' => cases s' <;> rfl
    | zero s' => rfl
    | finite s' n f hn =>
      have hpos := sizeRank_pos hn hy.2.1
      cases s' with
      | negative => exact some_gt_eq_compare (Int.neg_neg_of_pos hpos)
      | positive => exact some_lt_eq_compare hpos
  | finite s m e hm =>
    cases y with
    | notANumber => exact hny.elim
    | infinity s' =>
      obtain ⟨hlow, hhigh⟩ := rankOf_finite_bounds hx
      cases s' with
      -- the sign of the finite float plays no part
      | negative =>
        have h : (UnpackedFloat.finite s m e hm).compare (.infinity .negative) = some .gt := by
          cases s <;> rfl
        exact h.trans (some_gt_eq_compare hlow)
      | positive =>
        have h : (UnpackedFloat.finite s m e hm).compare (.infinity .positive) = some .lt := by
          cases s <;> rfl
        exact h.trans (some_lt_eq_compare hhigh)
    | zero s' =>
      have hpos := sizeRank_pos hm hx.2.1
      cases s with
      | negative => exact some_lt_eq_compare (Int.neg_neg_of_pos hpos)
      | positive => exact some_gt_eq_compare hpos
    | finite s' n f hn => exact compare_finite hx hy

/-! ## Singles -/

variable {x y z : Float32}

/-- The place of the size of a single among all sizes, with its sign. -/
def rank (x : Float32) : Int := rankOf x.toModel.unpack

theorem canonical (x : Float32) : Canonical x.toModel.unpack := canonical_unpack _

theorem isNaN_eq_false_iff : x.isNaN = false ↔ IsNumber x.toModel.unpack := by
  show x.toModel.unpack.isNaN = false ↔ _
  cases x.toModel.unpack <;> simp [UnpackedFloat.isNaN, IsNumber]

/-- What is no number compares with nothing. -/
theorem compare_eq_none (h : ¬ (x.isNaN = false ∧ y.isNaN = false)) :
    x.toModel.unpack.compare y.toModel.unpack = none := by
  rw [isNaN_eq_false_iff, isNaN_eq_false_iff] at h
  cases hx : x.toModel.unpack with
  | notANumber => rfl
  | infinity s =>
    cases hy : y.toModel.unpack with
    | notANumber => rfl
    | infinity _ | zero _ | finite _ _ _ _ => simp [hx, hy, IsNumber] at h
  | zero s =>
    cases hy : y.toModel.unpack with
    | notANumber => rfl
    | infinity _ | zero _ | finite _ _ _ _ => simp [hx, hy, IsNumber] at h
  | finite s m e hm =>
    cases hy : y.toModel.unpack with
    | notANumber => rfl
    | infinity _ | zero _ | finite _ _ _ _ => simp [hx, hy, IsNumber] at h

/-- One single is at most another one if they compare so. -/
theorem le_iff_compare :
    x ≤ y ↔ (x.toModel.unpack.compare y.toModel.unpack).any (·.isLE) = true :=
  decide_eq_true_iff

/-- One single is below another one if they compare so. -/
theorem lt_iff_compare :
    x < y ↔ (x.toModel.unpack.compare y.toModel.unpack == some .lt) = true :=
  decide_eq_true_iff

/-- Numbers are in the order of their ranks, and what is no number is in no order. -/
theorem le_iff : x ≤ y ↔ (x.isNaN = false ∧ y.isNaN = false) ∧ rank x ≤ rank y := by
  rw [le_iff_compare]
  by_cases h : x.isNaN = false ∧ y.isNaN = false
  · rw [compare_eq (canonical x) (canonical y) (isNaN_eq_false_iff.1 h.1)
      (isNaN_eq_false_iff.1 h.2), Option.any_some, Int.isLE_compare, and_iff_right h]
    rfl
  · rw [compare_eq_none h]
    exact ⟨nofun, fun h' => absurd h'.1 h⟩

/-- One single is below another one if both are numbers and their ranks are in that order. -/
theorem lt_iff : x < y ↔ (x.isNaN = false ∧ y.isNaN = false) ∧ rank x < rank y := by
  rw [lt_iff_compare]
  by_cases h : x.isNaN = false ∧ y.isNaN = false
  · rw [compare_eq (canonical x) (canonical y) (isNaN_eq_false_iff.1 h.1)
      (isNaN_eq_false_iff.1 h.2), and_iff_right h, beq_iff_eq, Option.some_inj, compare_lt_iff_lt]
    rfl
  · rw [compare_eq_none h]
    exact ⟨nofun, fun h' => absurd h'.1 h⟩

/-- The larger of two singles is a number if the second one is. -/
theorem isNaN_larger (h : y.isNaN = false) : (larger x y).isNaN = false := by
  rw [larger]
  split
  · exact h
  split
  · exact h
  · rename_i hx _
    exact eq_false_of_ne_true hx

/-- The larger of two values is not less than the second one, if that is a number. -/
theorem le_larger (h : y.isNaN = false) : y ≤ larger x y := by
  rw [le_iff, and_iff_right ⟨h, isNaN_larger h⟩, larger]
  split
  · exact Int.le_refl _
  split
  · exact Int.le_refl _
  · rename_i hx hlt
    rw [lt_iff, and_iff_right ⟨eq_false_of_ne_true hx, h⟩] at hlt
    exact Int.not_lt.1 hlt

/-- The order of singles is transitive. -/
theorem trans_le (hxy : x ≤ y) (hyz : y ≤ z) : x ≤ z := by
  rw [le_iff] at *
  exact ⟨⟨hxy.1.1, hyz.1.2⟩, Int.le_trans hxy.2 hyz.2⟩

/-- What is below another single is at most that single. -/
theorem le_of_less (h : x < y) : x ≤ y := by
  rw [lt_iff] at h
  rw [le_iff]
  exact ⟨h.1, Int.le_of_lt h.2⟩

/-! ## Signs -/

/-- Whether a float is a number with a sign. -/
def Signed (s : Sign) : UnpackedFloat → Prop
  | .zero s' | .infinity s' | .finite s' .. => s' = s
  | .notANumber => False

/-- What has a sign is a number. -/
theorem Signed.isNumber {s : Sign} {f : UnpackedFloat} (h : Signed s f) : IsNumber f := by
  cases f with
  | notANumber => exact h
  | _ => trivial

/-- Packing keeps signs, also of a number that is not rounded. -/
theorem signed_unpack_pack {s : Sign} {f : UnpackedFloat} (h : Signed s f) :
    Signed s (UnpackedFloat.unpack .binary32 (UnpackedFloat.pack .binary32 f)) := by
  -- Only the exponent of ones with a digit set is no number, and only there the sign is lost.
  have parts : ∀ (e : BitVec 8) (m : BitVec 23), (e = -1#8 → m = 0#23) →
      Signed s (UnpackedFloat.unpack .binary32 (packComponents .binary32 s e m)) := by
    intro e m hinfinite
    rw [unpack_packComponents]
    split
    · rename_i hones
      rw [if_pos (hinfinite hones)]
      rfl
    · split
      · split <;> rfl
      · rfl
  cases f with
  | notANumber => exact h.elim
  | infinity s' =>
    obtain rfl : s' = s := h
    exact parts (-1#8) 0#23 fun _ => rfl
  | zero s' =>
    obtain rfl : s' = s := h
    exact parts 0#8 0#23 fun _ => rfl
  | finite s' m e hm =>
    obtain rfl : s' = s := h
    rw [UnpackedFloat.pack]
    dsimp only
    split
    · exact parts (-1#8) 0#23 fun _ => rfl
    · rename_i hfits
      split
      · -- the exponent of a float that fits is below that of ones
        refine parts _ _ fun hones => ?_
        have hfield := congrArg BitVec.toNat hones
        have hall : (-1#8).toNat = 255 := rfl
        have hbits : 2 ^ Format.binary32.exponentBits = 256 := rfl
        rw [hall] at hfield
        change _ % 256 = 255 at hfield
        omega
      · exact parts 0#8 _ fun h => nomatch h

theorem rank_zero : rank 0 = 0 := by decide +kernel

theorem isNaN_zero : (0 : Float32).isNaN = false := by decide +kernel

/-- A single is not negative if it is a number whose rank is not negative. -/
theorem nonneg_iff : 0 ≤ x ↔ x.isNaN = false ∧ 0 ≤ rank x := by
  rw [le_iff, rank_zero, and_iff_right isNaN_zero]

/-- A number with a positive sign is not negative. -/
theorem nonneg_of_signed (h : Signed .positive x.toModel.unpack) : 0 ≤ x := by
  rw [nonneg_iff]
  refine ⟨isNaN_eq_false_iff.2 h.isNumber, ?_⟩
  have hcanonical := canonical x
  rw [rank]
  cases hx : x.toModel.unpack with
  | notANumber => exact Int.le_refl 0
  | zero s => exact Int.le_refl 0
  | infinity s =>
    obtain rfl : s = .positive := by rwa [hx] at h
    decide
  | finite s m e hm =>
    obtain rfl : s = .positive := by rwa [hx] at h
    rw [hx] at hcanonical
    exact Int.le_of_lt (sizeRank_pos hm hcanonical.2.1)

/-- A number that is not less than zero is a zero or has the positive sign. -/
theorem zero_or_signed_of_nonneg (h : 0 ≤ x) :
    (∃ s, x.toModel.unpack = .zero s) ∨ Signed .positive x.toModel.unpack := by
  obtain ⟨hnumber, hrank⟩ := nonneg_iff.1 h
  rw [isNaN_eq_false_iff] at hnumber
  have hcanonical := canonical x
  rw [rank] at hrank
  cases hx : x.toModel.unpack with
  | notANumber => rw [hx] at hnumber; exact hnumber.elim
  | zero s => exact Or.inl ⟨s, rfl⟩
  | infinity s =>
    rw [hx] at hrank
    cases s with
    | negative => exact absurd hrank (by decide)
    | positive => exact Or.inr rfl
  | finite s m e hm =>
    rw [hx] at hrank hcanonical
    cases s with
    | negative =>
      have hpos := sizeRank_pos hm hcanonical.2.1
      have hneg : 0 ≤ -sizeRank m e := hrank
      omega
    | positive => exact Or.inr rfl

/-- A single is positive if it is a number with a positive rank. -/
theorem pos_iff : 0 < x ↔ x.isNaN = false ∧ 0 < rank x := by
  rw [lt_iff, rank_zero, and_iff_right isNaN_zero]

/-- A positive single is not unpacked as a zero. -/
theorem unpack_ne_zero_of_pos (h : 0 < x) (s : Sign) : x.toModel.unpack ≠ .zero s := by
  intro hzero
  have hrank := (pos_iff.1 h).2
  rw [rank, hzero] at hrank
  exact Int.lt_irrefl 0 hrank

/-- A positive number has the positive sign. -/
theorem signed_of_pos (h : 0 < x) : Signed .positive x.toModel.unpack :=
  (zero_or_signed_of_nonneg (le_of_less h)).resolve_left fun ⟨s, hzero⟩ =>
    unpack_ne_zero_of_pos h s hzero

/-- A positive finite single has digits and an exponent. -/
theorem unpack_of_pos (h : 0 < x) (hfinite : x.isFinite = true) :
    ∃ m e hm, x.toModel.unpack = .finite .positive m e hm := by
  have hsigned := signed_of_pos h
  cases hx : x.toModel.unpack with
  | notANumber =>
    rw [hx] at hsigned
    exact hsigned.elim
  | zero s => exact absurd hx (unpack_ne_zero_of_pos h s)
  | infinity s =>
    have hinfinite : x.toModel.unpack.isFinite = true := hfinite
    rw [hx] at hinfinite
    exact nomatch hinfinite
  | finite s m e hm =>
    rw [hx] at hsigned
    obtain rfl : s = .positive := hsigned
    exact ⟨m, e, hm, rfl⟩

/-- Rounding keeps the sign. -/
theorem signed_roundWithAccuracy (s : Sign) (m : Nat) (e : Int) (accuracy : Accuracy) :
    Signed s (UnpackedFloat.roundWithAccuracy .binary32 s m e accuracy) := by
  rw [UnpackedFloat.roundWithAccuracy]
  dsimp only
  split <;> rfl

/-- A packed float is not negative if it is a zero or has the positive sign. -/
theorem nonneg_ofModel_pack {f : UnpackedFloat} (h : (∃ s, f = .zero s) ∨ Signed .positive f) :
    0 ≤ Float32.ofModel (.pack f) := by
  rcases h with ⟨s, rfl⟩ | h
  · have hzero : (Float32.ofModel (.pack (.zero s))).toModel.unpack = .zero s :=
      unpack_pack_zero s
    rw [nonneg_iff, isNaN_eq_false_iff, rank, hzero]
    exact ⟨trivial, Int.le_refl 0⟩
  · exact nonneg_of_signed (signed_unpack_pack h)

/-- An operation that keeps zeros and the positive sign keeps what is not negative. -/
theorem nonneg_of_keeps (op : UnpackedFloat → UnpackedFloat)
    (hzero : ∀ s, ∃ s', op (.zero s) = .zero s')
    (hinfinity : Signed .positive (op (.infinity .positive)))
    (hfinite : ∀ m e hm, Signed .positive (op (.finite .positive m e hm))) (hx : 0 ≤ x) :
    0 ≤ Float32.ofModel (.pack (op x.toModel.unpack)) := by
  refine nonneg_ofModel_pack ?_
  rcases zero_or_signed_of_nonneg hx with ⟨s, hzeroX⟩ | hsigned
  · rw [hzeroX]
    exact Or.inl (hzero s)
  · cases hunpack : x.toModel.unpack with
    | notANumber =>
      rw [hunpack] at hsigned
      exact hsigned.elim
    | zero s => exact Or.inl (hzero s)
    | infinity s =>
      rw [hunpack] at hsigned
      obtain rfl : s = .positive := hsigned
      exact Or.inr hinfinity
    | finite s m e hm =>
      rw [hunpack] at hsigned
      obtain rfl : s = .positive := hsigned
      exact Or.inr (hfinite m e hm)

/-- Multiplying by a positive number keeps what is not negative. -/
theorem nonneg_mul (hx : 0 ≤ x) (hy : 0 < y) (hfinite : y.isFinite = true) : 0 ≤ x * y := by
  obtain ⟨m, e, hm, hunpack⟩ := unpack_of_pos hy hfinite
  refine nonneg_of_keeps (UnpackedFloat.mul .binary32 · y.toModel.unpack) ?_ ?_ ?_ hx
  all_goals rw [hunpack]
  · exact fun s => ⟨_, rfl⟩
  · rfl
  · exact fun n f hn => signed_roundWithAccuracy ..

/-- Dividing by a positive number keeps what is not negative. -/
theorem nonneg_div (hx : 0 ≤ x) (hy : 0 < y) (hfinite : y.isFinite = true) : 0 ≤ x / y := by
  obtain ⟨m, e, hm, hunpack⟩ := unpack_of_pos hy hfinite
  refine nonneg_of_keeps (UnpackedFloat.div .binary32 · y.toModel.unpack) ?_ ?_ ?_ hx
  all_goals rw [hunpack]
  · exact fun s => ⟨_, rfl⟩
  · rfl
  · exact fun n f hn => signed_roundWithAccuracy ..

end DotLayout.Numeric
