import DotLayout.Numeric.Rounding
import Mathlib

/-! # Packed singles

    A single is packed into a sign, an exponent and the digits after the leading one.

    * `Canonical` : the form in which a single is unpacked; `canonical_unpack` says that it always
      is.
    * `unpack_packComponents` : what is read back from given parts.
    * `unpack_pack_finite` : a rounded number is read back as it was packed, unless it is too large
      for a single and becomes infinite. -/

namespace DotLayout.Numeric

open Float.Model UnpackedFloat

/-- A finite number has at most 24 digits, and fewer only at the smallest exponent. -/
def Canonical : UnpackedFloat → Prop
  | .finite _ mantissa exponent _ =>
    mantissa < 2 ^ 24 ∧ -149 ≤ exponent ∧ exponent ≤ 104 ∧ (2 ^ 23 ≤ mantissa ∨ exponent = -149)
  | _ => True

/-- A hidden leading digit in front of a fraction. -/
theorem toNat_leading (fraction : BitVec 23) :
    (1#1 ++ fraction).toNat = 2 ^ 23 + fraction.toNat := by
  rw [BitVec.toNat_append, ← Nat.shiftLeft_add_eq_or_of_lt fraction.isLt]
  rfl

/-- Every single is unpacked into its canonical form. -/
theorem canonical_unpack (b : BitVec 32) : Canonical (UnpackedFloat.unpack .binary32 b) := by
  have hfraction : (@unpackMantissa .binary32 b).toNat < 2 ^ 23 := BitVec.isLt _
  have hexponent : (@unpackExponent .binary32 b).toNat < 2 ^ 8 := BitVec.isLt _
  have hbias : (Format.binary32.exponentBias : Int)
      + (Format.binary32.mantissaBitsWithoutImplicit : Nat) = 150 := rfl
  rw [UnpackedFloat.unpack]
  split
  · split <;> trivial
  · rename_i hones
    have hlt : (@unpackExponent .binary32 b).toNat ≠ 255 := fun h => hones (BitVec.eq_of_toNat_eq h)
    split
    · rename_i hzero
      have hnil : (@unpackExponent .binary32 b).toNat = 0 := congrArg BitVec.toNat hzero
      split
      · trivial
      · exact ⟨by omega, by omega, by omega, Or.inr (by omega)⟩
    · rename_i hzero
      have hpos : (@unpackExponent .binary32 b).toNat ≠ 0 := fun h =>
        hzero (BitVec.eq_of_toNat_eq h)
      have hleading := toNat_leading (@unpackMantissa .binary32 b)
      exact ⟨by omega, by omega, by omega, Or.inl (by omega)⟩

/-- The sign that was packed is read back. -/
theorem ofBitVec_unpackSign {spec : Format} (s : Sign) (e : BitVec spec.exponentBits)
    (m : BitVec spec.mantissaBitsWithoutImplicit) :
    Sign.ofBitVec (unpackSign (packComponents spec s e m)) = s := by
  have hsign : unpackSign (packComponents spec s e m) = s.toBitVec := by
    ext i hi
    obtain rfl : i = 0 := by omega
    simp [unpackSign, packComponents, BitVec.getLsbD_append, BitVec.getElem_append]
  rw [hsign]
  cases s <;> rfl

/-- What is read back from the parts of a packed number. -/
theorem unpack_packComponents (s : Sign) (e : BitVec 8) (m : BitVec 23) :
    UnpackedFloat.unpack .binary32 (packComponents .binary32 s e m)
      = if e = -1#8 then if m = 0#23 then .infinity s else .notANumber
        else if e = 0#8 then
          if h : m = 0#23 then .zero s
          else .finite s m.toNat (-149) (Nat.pos_of_ne_zero fun h' => h (BitVec.eq_of_toNat_eq h'))
        else .finite s (2 ^ 23 + m.toNat) (e.toNat - 150) (by omega) := by
  rw [UnpackedFloat.unpack]
  simp only [unpackMantissa_packComponents, unpackExponent_packComponents,
    ofBitVec_unpackSign, toNat_leading]
  by_cases hzero : e = 0#8
  · subst hzero
    rfl
  · rw [if_neg hzero, if_neg hzero]
    rfl

/-- A single that is made of packed parts is unpacked from these parts. -/
theorem unpack_ofModel (f : UnpackedFloat) :
    (Float32.ofModel (.pack f)).toModel.unpack
      = UnpackedFloat.unpack .binary32 (UnpackedFloat.pack .binary32 f) := rfl

theorem unpack_pack_zero (s : Sign) :
    UnpackedFloat.unpack .binary32 (UnpackedFloat.pack .binary32 (.zero s)) = .zero s :=
  unpack_packComponents s 0#8 0#23

theorem unpack_pack_infinity (s : Sign) :
    UnpackedFloat.unpack .binary32 (UnpackedFloat.pack .binary32 (.infinity s)) = .infinity s :=
  unpack_packComponents s (-1#8) 0#23

/-- A finite number of at most 24 digits, and fewer only at the smallest exponent.  It may still be
    too large for a single. -/
def Rounded : UnpackedFloat → Prop
  | .finite _ mantissa exponent _ =>
    mantissa < 2 ^ 24 ∧ -149 ≤ exponent ∧ (2 ^ 23 ≤ mantissa ∨ exponent = -149)
  | _ => True

/-- The exponent that is stored is shifted so that no exponent is negative. -/
theorem biasedExponent_eq (e : Int) :
    (e + Format.binary32.exponentBias + (23 : Nat)).toNat = (e + 150).toNat := by
  have hbias : (Format.binary32.exponentBias : Int) = 127 := rfl
  omega

/-- A number of 24 digits has its leading digit in place 23. -/
theorem log2_eq_of_le {m : Nat} (hlow : 2 ^ 23 ≤ m) (hhigh : m < 2 ^ 24) : m.log2 = 23 :=
  (Nat.log2_eq_iff (by omega)).2 ⟨hlow, hhigh⟩

/-- A number that fits into a single is read back as it was packed, and a larger one as infinity. -/
theorem unpack_pack_finite {s : Sign} {m : Nat} {e : Int} {hm : 0 < m}
    (h : Rounded (.finite s m e hm)) :
    UnpackedFloat.unpack .binary32 (UnpackedFloat.pack .binary32 (.finite s m e hm))
      = if e ≤ 104 then .finite s m e hm else .infinity s := by
  obtain ⟨hhigh, he, hlow⟩ := h
  rw [UnpackedFloat.pack]
  simp only [biasedExponent_eq]
  by_cases hfits : e ≤ 104
  · rw [if_neg (by show ¬ 2 ^ 8 ≤ _; omega), if_pos hfits]
    -- with 24 digits the exponent field is neither zero nor all ones, with fewer it is zero
    by_cases hnormal : 2 ^ 23 ≤ m
    · have hexponent : (BitVec.ofNat 8 (e + 150).toNat).toNat = (e + 150).toNat :=
        Nat.mod_eq_of_lt (by omega)
      have hones : BitVec.ofNat 8 (e + 150).toNat ≠ -1#8 := fun h => by
        have := hexponent.symm.trans (congrArg BitVec.toNat h)
        have hall : (-1#8).toNat = 255 := rfl
        omega
      have hzero : BitVec.ofNat 8 (e + 150).toNat ≠ 0#8 := fun h => by
        have := hexponent.symm.trans (congrArg BitVec.toNat h)
        have hnil : (0#8).toNat = 0 := rfl
        omega
      have hmantissa : 2 ^ 23 + (BitVec.ofNat 23 m).toNat = m := by
        rw [BitVec.toNat_ofNat]
        omega
      have hback : ((e + 150).toNat : Int) - 150 = e := by omega
      rw [if_pos (by rw [log2_eq_of_le hnormal hhigh]; rfl), unpack_packComponents, if_neg hones,
        if_neg hzero]
      simp only [hmantissa, hexponent, hback]
    · obtain rfl := hlow.resolve_left hnormal
      have hlog : ¬ m.log2 + 1 = Format.binary32.mantissaBits := by
        have := (Nat.log2_lt (Nat.ne_of_gt hm)).2 (Nat.lt_of_not_le hnormal)
        show ¬ m.log2 + 1 = 24
        omega
      have hmantissa : (BitVec.ofNat 23 m).toNat = m := Nat.mod_eq_of_lt (by omega)
      have hne : BitVec.ofNat 23 m ≠ 0#23 := fun h => by
        have := hmantissa.symm.trans (congrArg BitVec.toNat h)
        have hnil : (0#23).toNat = 0 := rfl
        omega
      rw [if_neg hlog, unpack_packComponents, if_neg (by decide), if_pos rfl, dif_neg hne]
      simp only [hmantissa]
  · -- an exponent that does not fit
    rw [if_pos (by show 2 ^ 8 ≤ _; omega), if_neg hfits, packedInfinity]
    exact unpack_pack_infinity s

end DotLayout.Numeric
