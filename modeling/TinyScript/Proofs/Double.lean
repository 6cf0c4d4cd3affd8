import TinyScript.Proofs.Decimal

namespace TinyScript

namespace Double

open Float.Model Float.Model.UnpackedFloat

theorem leading_toNat (m : BitVec 52) : (1#1 ++ m).toNat = 2 ^ 52 + m.toNat := by
  rw [BitVec.toNat_append, ← Nat.shiftLeft_add_eq_or_of_lt m.isLt]
  rfl

-- The number of a sign, an exponent and a mantissa. The mantissa has a leading 1 unless the exponent is 0.
def unpacked (s : Sign) (e : BitVec 11) (m : BitVec 52) : UnpackedFloat :=
  if e = 0#11 then
    if none : m = 0#52 then .zero s
    else .finite s m.toNat (-1074) (by simpa [BitVec.toNat_pos, BitVec.pos_iff_ne_zero])
  else .finite s (1#1 ++ m).toNat (e.toNat - 1075) (by rw [leading_toNat]; omega)

theorem unpacked_neg (s : Sign) (e : BitVec 11) (m : BitVec 52) : (unpacked s e m).neg = unpacked (-s) e m := by
  unfold unpacked
  by_cases zero : e = 0#11
  · rw [if_pos zero, if_pos zero]
    by_cases none : m = 0#52
    · rw [dif_pos none, dif_pos none]
      rfl
    · rw [dif_neg none, dif_neg none]
      rfl
  · rw [if_neg zero, if_neg zero]
    rfl

theorem pack_finite (s : Sign) (m : Nat) (e : Int) (some : 0 < m) :
    UnpackedFloat.pack .binary64 (.finite s m e some) =
      if 2 ^ 11 ≤ (e + 1023 + 52).toNat + 1 then packedInfinity .binary64 s
      else if m.log2 + 1 = 53 then
        packComponents .binary64 s (BitVec.ofNat 11 (e + 1023 + 52).toNat) (BitVec.ofNat 52 m)
      else packComponents .binary64 s 0#11 (BitVec.ofNat 52 m) :=
  rfl

theorem pack_unpacked (s : Sign) (e : BitVec 11) (m : BitVec 52) (finite : e ≠ -1#11) :
    UnpackedFloat.pack .binary64 (unpacked s e m) = packComponents .binary64 s e m := by
  have room : m.toNat < 2 ^ 52 := m.isLt
  have small : e.toNat < 2047 := by
    have last : e.toNat ≠ 2047 := fun same => finite (BitVec.eq_of_toNat_eq same)
    have := e.isLt
    omega
  unfold unpacked
  by_cases zero : e = 0#11
  · subst zero
    by_cases none : m = 0#52
    · subst none
      rfl
    · have positive : m.toNat ≠ 0 := fun zero => none (BitVec.eq_of_toNat_eq zero)
      have short : m.toNat.log2 < 52 := (Nat.log2_lt positive).2 room
      rw [if_pos rfl, dif_neg none, pack_finite, if_neg (by decide), if_neg (by omega), BitVec.ofNat_toNat,
        BitVec.setWidth_eq]
  · have positive : e.toNat ≠ 0 := fun none => zero (BitVec.eq_of_toNat_eq none)
    have long : (2 ^ 52 + m.toNat).log2 = 52 := by
      rw [Nat.log2_eq_iff (by omega)]
      omega
    have exponent : BitVec.ofNat 11 ((e.toNat : Int) - 1075 + 1023 + 52).toNat = e := by
      apply BitVec.eq_of_toNat_eq
      rw [BitVec.toNat_ofNat]
      omega
    have mantissa : BitVec.ofNat 52 (2 ^ 52 + m.toNat) = m := by
      apply BitVec.eq_of_toNat_eq
      rw [BitVec.toNat_ofNat]
      omega
    rw [if_neg zero, pack_finite, if_neg (by omega), leading_toNat, long, if_pos rfl, mantissa, exponent]

theorem packComponents_toNat (s : Sign) (e : BitVec 11) (m : BitVec 52) :
    (packComponents .binary64 s e m).toNat = s.toBitVec.toNat * 2 ^ 63 + e.toNat * 2 ^ 52 + m.toNat := by
  unfold packComponents
  rw [BitVec.toNat_append, ← Nat.shiftLeft_add_eq_or_of_lt (BitVec.isLt _), BitVec.toNat_append,
    ← Nat.shiftLeft_add_eq_or_of_lt (BitVec.isLt _), Nat.shiftLeft_eq, Nat.shiftLeft_eq]
  omega

theorem mantissa_toNat (b : BitVec 64) : (@unpackMantissa .binary64 b).toNat = b.toNat % 2 ^ 52 := by
  show (b.extractLsb 51 0).toNat = _
  simp

theorem exponent_toNat (b : BitVec 64) : (@unpackExponent .binary64 b).toNat = b.toNat / 2 ^ 52 % 2 ^ 11 := by
  show (b.extractLsb 62 52).toNat = _
  simp [Nat.shiftRight_eq_div_pow]

theorem sign_toNat (b : BitVec 64) : (@unpackSign .binary64 b).toNat = b.toNat / 2 ^ 63 % 2 := by
  show (b.extractLsb 63 63).toNat = _
  simp [Nat.shiftRight_eq_div_pow]

theorem rank_lt (bits : UInt64) : rank bits < 2 ^ 63 := Nat.mod_lt _ (by decide)

-- The sign of a pattern, which stands in front of the rank.
def sign (bits : UInt64) : Sign := if isNegative bits then .negative else .positive

theorem sign_rank (bits : UInt64) : (sign bits).toBitVec.toNat * 2 ^ 63 + rank bits = bits.toNat := by
  have room : bits.toNat < 2 ^ 64 := bits.toNat_lt
  have rank_eq : rank bits = bits.toNat % 2 ^ 63 := rfl
  have negative : isNegative bits = decide (2 ^ 63 ≤ bits.toNat) := rfl
  rw [sign, negative, rank_eq]
  by_cases large : 2 ^ 63 ≤ bits.toNat
  · rw [decide_eq_true large]
    show 1 * 2 ^ 63 + _ = _
    omega
  · rw [decide_eq_false large]
    show 0 * 2 ^ 63 + _ = _
    omega

theorem sign_eq (bits : UInt64) : Sign.ofBitVec (@unpackSign .binary64 bits.toBitVec) = sign bits := by
  have first : (@unpackSign .binary64 bits.toBitVec).toNat = bits.toNat / 2 ^ 63 % 2 := sign_toNat bits.toBitVec
  have whole := sign_rank bits
  have small := rank_lt bits
  have same : @unpackSign .binary64 bits.toBitVec = (sign bits).toBitVec := by
    apply BitVec.eq_of_toNat_eq
    have := (sign bits).toBitVec.isLt
    omega
  rw [same]
  cases sign bits <;> rfl

section

variable {bits : UInt64} (finite : rank bits < infinite)
include finite

theorem exponent_finite : @unpackExponent .binary64 bits.toBitVec ≠ -1#11 := by
  intro last
  have exponent : 2047 = bits.toNat / 2 ^ 52 % 2 ^ 11 := by
    have := exponent_toNat bits.toBitVec
    rwa [last] at this
  have finite : bits.toNat % 2 ^ 63 < 2047 * 2 ^ 52 := finite
  omega

theorem unpack_eq : UnpackedFloat.unpack .binary64 bits.toBitVec =
    unpacked (sign bits) (@unpackExponent .binary64 bits.toBitVec) (@unpackMantissa .binary64 bits.toBitVec) := by
  unfold UnpackedFloat.unpack unpacked
  dsimp only
  rw [if_neg (exponent_finite finite), sign_eq]
  by_cases zero : @unpackExponent .binary64 bits.toBitVec = 0#11
  · rw [if_pos zero, if_pos zero]
    by_cases none : @unpackMantissa .binary64 bits.toBitVec = 0#52
    · rw [dif_pos none, dif_pos none]
    · rw [dif_neg none, dif_neg none, zero]
      rfl
  · rw [if_neg zero, if_neg zero]
    rfl

theorem pack_toNat (s : Sign) : (UnpackedFloat.pack .binary64 (unpacked s
      (@unpackExponent .binary64 bits.toBitVec) (@unpackMantissa .binary64 bits.toBitVec))).toNat =
    s.toBitVec.toNat * 2 ^ 63 + rank bits := by
  rw [pack_unpacked _ _ _ (exponent_finite finite), packComponents_toNat, exponent_toNat, mantissa_toNat]
  have parts : bits.toNat / 2 ^ 52 % 2 ^ 11 * 2 ^ 52 + bits.toNat % 2 ^ 52 = bits.toNat % 2 ^ 63 := by omega
  rw [Nat.add_assoc]
  exact congrArg _ parts

theorem toBits_ofBits : (Float.ofBits bits).toBits = bits := by
  apply UInt64.toNat.inj
  show (UnpackedFloat.pack .binary64 (UnpackedFloat.unpack .binary64 bits.toBitVec)).toNat = _
  rw [unpack_eq finite, pack_toNat finite]
  exact sign_rank bits

end

theorem toBits_injective {x y : Float} (same : x.toBits = y.toBits) : x = y := by
  obtain ⟨⟨a, _⟩⟩ := x
  obtain ⟨⟨b, _⟩⟩ := y
  cases same
  rfl

theorem ofBits_toBits {x : Float} (finite : rank x.toBits < infinite) : Float.ofBits x.toBits = x :=
  toBits_injective (toBits_ofBits finite)

theorem neg_toBits {x : Float} (finite : rank x.toBits < infinite) :
    (-x).toBits.toNat = (if isNegative x.toBits then 0 else 2 ^ 63) + rank x.toBits := by
  show (UnpackedFloat.pack .binary64 (UnpackedFloat.unpack .binary64 x.toBits.toBitVec).neg).toNat = _
  rw [unpack_eq finite, unpacked_neg, pack_toNat finite, sign]
  split <;> rfl

theorem ofRank_rank (positive : isNegative bits = false) : ofRank (rank bits) = bits := by
  have whole := sign_rank bits
  rw [sign, positive] at whole
  apply UInt64.toNat.inj
  rw [ofRank_toNat (rank_lt bits), ← whole]
  exact (Nat.zero_add _).symm

section

variable {x : Float} (finite : rank x.toBits < infinite) (negative : isNegative x.toBits = true)
include finite negative

theorem ofRank_rank_neg : ofRank (rank x.toBits) = (-x).toBits := by
  apply UInt64.toNat.inj
  rw [ofRank_toNat (rank_lt _), neg_toBits finite, if_pos negative, Nat.zero_add]

theorem neg_ofRank : -Float.ofBits (ofRank (rank x.toBits)) = x := by
  have small := rank_lt x.toBits
  have magnitude : rank (ofRank (rank x.toBits)) < infinite := by rwa [rank_ofRank small]
  have kept := toBits_ofBits magnitude
  have whole := sign_rank x.toBits
  rw [sign, if_pos negative] at whole
  apply toBits_injective
  apply UInt64.toNat.inj
  rw [neg_toBits (by rwa [kept]), kept, isNegative_ofRank small, rank_ofRank small, ← whole]
  rfl

end

end Double

end TinyScript
