import AliasScript.Proofs.Number.Arithmetic
import AliasScript.Proofs.Number.Truncated

/-!
# Operations that never round

A value that is that of a number is found exactly (`Scaled.value?_toFloat`). What is left of a
number without its fraction, and what is left over by a division of numbers, is always such a value.
So the fractions, the remainders and the words of doubles are those of their exact values
(`Arithmetic.cutsExactly_doubles`), and doubles differ from exact numbers in what is added,
subtracted, multiplied and divided only.
-/

namespace AliasScript

/-! ### Bits -/

namespace Number

open Float.Model (Format)
open Float.Model.UnpackedFloat

section Bits

variable (b : BitVec Format.binary64.numBits)

/-- The exponent of a float is read from eleven of its bits. -/
theorem toNat_unpackExponent : (unpackExponent b).toNat = b.toNat >>> 52 % 1 <<< 11 := by
  rw [unpackExponent, BitVec.toNat_cast, BitVec.extractLsb_toNat]
  rfl

/-- The bits of a number are its sign, its exponent and its fraction in a row. -/
theorem append_fields : unpackSign b ++ unpackExponent b ++ unpackMantissa b = b := by
  show b.extractLsb' 63 1 ++ b.extractLsb' 52 11 ++ b.extractLsb' 0 52 = b
  rw [BitVec.extractLsb'_append_extractLsb'_eq_extractLsb' (by decide)]
  exact BitVec.extractLsb'_append_extractLsb'

/-- The sign that a bit says is written as that bit. -/
theorem packComponents_ofBitVec (sign : BitVec 1) (e : BitVec 11) (f : BitVec 52) :
    packComponents .binary64 (.ofBitVec sign) e f = sign ++ e ++ f := by
  have hsign : ∀ sign : BitVec 1, (Sign.ofBitVec sign).toBitVec = sign := by decide
  rw [packComponents, hsign]

/-- A subnormal float is packed from its bits. -/
theorem pack_subnormal (sign : Sign) {e : BitVec 11} {f : BitVec 52} (he : e = 0#11)
    (hpos : 0 < f.toNat) :
    pack .binary64 (.finite sign f.toNat (e.toNat - (1023 + 52) + 1) hpos) =
      packComponents .binary64 sign e f := by
  subst he
  have hlog : f.toNat.log2 + 1 ≠ 53 := by
    have := (Nat.log2_lt hpos.ne').2 f.isLt
    omega
  have hf : BitVec.ofNat 52 f.toNat = f := by rw [BitVec.ofNat_toNat, BitVec.setWidth_eq]
  exact (if_neg hlog).trans (congrArg (packComponents .binary64 sign 0#11) hf)

/-- A normal float is packed from its bits, with the leading one left out. -/
theorem pack_normal (sign : Sign) {e : BitVec 11} {f : BitVec 52} (he : e.toNat < 2047)
    (hpos : 0 < (1#1 ++ f).toNat) :
    pack .binary64 (.finite sign (1#1 ++ f).toNat (e.toNat - (1023 + 52)) hpos) =
      packComponents .binary64 sign e f := by
  have htoNat : (1#1 ++ f).toNat = 2 ^ 52 + f.toNat := by
    rw [BitVec.toNat_append, Nat.or_comm]
    exact (Nat.or_two_pow_eq_add_of_lt f.isLt).trans (Nat.add_comm _ _)
  have hlog : (1#1 ++ f).toNat.log2 = 52 := by
    have := f.isLt
    rw [htoNat, Nat.log2_eq_iff (by omega)]
    omega
  have hexponent : ((e.toNat : ℤ) - (1023 + 52) + 1023 + 52).toNat = e.toNat := by omega
  have hle : ¬ 2048 ≤ ((e.toNat : ℤ) - (1023 + 52) + 1023 + 52).toNat + 1 := by omega
  have he' : BitVec.ofNat 11 ((e.toNat : ℤ) - (1023 + 52) + 1023 + 52).toNat = e := by
    rw [hexponent, BitVec.ofNat_toNat, BitVec.setWidth_eq]
  have hf : BitVec.ofNat 52 (1#1 ++ f).toNat = f := by
    rw [htoNat]
    refine BitVec.eq_of_toNat_eq ?_
    rw [BitVec.toNat_ofNat, Nat.add_mod_left, Nat.mod_eq_of_lt f.isLt]
  refine (if_neg hle).trans ((if_pos (congrArg (· + 1) hlog)).trans ?_)
  exact congrArg₂ (packComponents .binary64 sign) he' hf

/-- **The bits of a finite number survive.** -/
theorem pack_unpack (hfinite : (unpackExponent b).toNat ≠ 2047) :
    pack .binary64 (unpack .binary64 b) = b := by
  have hexponent : unpackExponent b ≠ -1#11 := fun h ↦ hfinite (by rw [h]; rfl)
  have hlt : (unpackExponent b).toNat < 2048 := (unpackExponent b).isLt
  have hb := (packComponents_ofBitVec _ _ _).trans (append_fields b)
  refine (congrArg (pack .binary64) (if_neg hexponent)).trans ?_
  by_cases hzero : unpackExponent b = 0#11
  · refine (congrArg (pack .binary64) (if_pos hzero)).trans ?_
    by_cases hnone : unpackMantissa b = 0#52
    · refine (congrArg (pack .binary64) (dif_pos hnone)).trans ?_
      rw [hzero, hnone] at hb
      exact hb
    · refine (congrArg (pack .binary64) (dif_neg hnone)).trans ?_
      exact (pack_subnormal _ hzero _).trans hb
  · refine (congrArg (pack .binary64) (if_neg hzero)).trans ?_
    exact (pack_normal _ (by omega) _).trans hb

end Bits

/-- Bits that are not those of an infinity or a NaN are those of the float that they make. -/
theorem toBits_ofBits {b : UInt64} (hfinite : b.toNat >>> 52 % 1 <<< 11 ≠ 2047) :
    (Float.ofBits b).toBits = b := by
  refine UInt64.toBitVec_inj.1 (pack_unpack b.toBitVec ?_)
  rw [toNat_unpackExponent]
  exact hfinite

/-- The bits of a finite number, read as its sign, its exponent and its fraction. -/
theorem parts_ofBits (negative : Bool) {e f : ℕ} (he : e < 2047) (hf : f < 1 <<< 52) :
    parts (Float.ofBits (UInt64.ofNat ((if negative then 1 <<< 63 else 0) + (e <<< 52 + f)))) =
      .finite (if e = 0 then ⟨negative, f, -1074⟩ else ⟨negative, 1 <<< 52 + f, e - 1075⟩) := by
  obtain ⟨sign, hsign⟩ : ∃ sign, (if negative then 1 <<< 63 else 0) = sign := ⟨_, rfl⟩
  have hcases : sign = 0 ∧ negative = false ∨ sign = 1 <<< 63 ∧ negative = true := by
    cases negative <;> simp [← hsign]
  rw [hsign]
  obtain ⟨b, hb⟩ : ∃ b, sign + (e <<< 52 + f) = b := ⟨_, rfl⟩
  have hsize : b < 2 ^ 64 := by omega
  have hexponent : b >>> 52 % 1 <<< 11 = e := by
    show b >>> 52 % 2 ^ 11 = e
    omega
  have hfraction : b % 1 <<< 52 = f := by
    show b % 2 ^ 52 = f
    omega
  have hnegative : decide (1 <<< 63 ≤ b) = negative := by
    rcases hcases with ⟨hzero, rfl⟩ | ⟨hone, rfl⟩
    · exact decide_eq_false (by omega)
    · exact decide_eq_true (by omega)
  have htoNat : (UInt64.ofNat b).toNat = b := UInt64.toNat_ofNat_of_lt hsize
  have hbits : (Float.ofBits (UInt64.ofNat b)).toBits = UInt64.ofNat b :=
    toBits_ofBits (by rw [htoNat, hexponent]; omega)
  rw [hb, parts, hbits, htoNat]
  simp only [hexponent, hfraction, hnegative, if_neg he.ne]
  split <;> rfl

end Number

/-! ### Places -/

/-- A power of two is split into an integer and another power. -/
theorem two_zpow_add (e : ℤ) (k : ℕ) : (2 : ℚ) ^ (e + k) = (2 ^ k : ℕ) * 2 ^ e := by
  rw [zpow_add₀ two_ne_zero, zpow_natCast, mul_comm]
  push_cast
  rfl

namespace Scaled

variable (s : Scaled)

/-- The value is that of a number. -/
def Fits : Prop :=
  ∃ (m : ℕ) (e : ℤ), m < 2 ^ 53 ∧ -1074 ≤ e ∧ e ≤ 971 ∧ s.magnitude = m * 2 ^ e

/-- The exponent that the number with this value has. -/
def place : ℤ :=
  max (-1074) (s.exponent + (s.significand.log2 : ℤ) - 52)

/-- The significand that the number with this value has. -/
def placed : ℕ :=
  if s.place ≤ s.exponent then s.significandAt s.place
  else s.significand >>> (s.place - s.exponent).toNat

/-- The bits of the float that a value is rounded to, by its placed significand. -/
theorem toFloat_eq (hs : s.significand ≠ 0) :
    s.toFloat = Float.ofBits (UInt64.ofNat ((if s.negative then 1 <<< 63 else 0) +
      if s.placed < 1 <<< 52 then s.placed
      else (s.place + 1075).toNat <<< 52 + (s.placed - 1 <<< 52))) :=
  if_neg hs

variable {s}

/-- The magnitude lies between two powers of two. -/
theorem magnitude_bounds (hs : s.significand ≠ 0) :
    (2 : ℚ) ^ (s.exponent + s.significand.log2) ≤ s.magnitude ∧
      s.magnitude < 2 ^ (s.exponent + (s.significand.log2 + 1 : ℕ)) := by
  have hpos : (0 : ℚ) < 2 ^ s.exponent := by positivity
  rw [two_zpow_add, two_zpow_add, magnitude]
  exact ⟨mul_le_mul_of_nonneg_right (Nat.cast_le.2 (Nat.log2_self_le hs)) hpos.le,
    mul_lt_mul_of_pos_right (Nat.cast_lt.2 Nat.lt_log2_self) hpos⟩

/-- A value that is a short significand at some place has its own place no further up. -/
theorem place_le (hs : s.significand ≠ 0) {m : ℕ} {e : ℤ} (hm : m < 2 ^ 53) (he : -1074 ≤ e)
    (hvalue : s.magnitude = m * 2 ^ e) : s.place ≤ e := by
  have hlt : (2 : ℚ) ^ (s.exponent + s.significand.log2) < 2 ^ (e + (53 : ℕ)) := by
    refine (magnitude_bounds hs).1.trans_lt ?_
    rw [hvalue, two_zpow_add]
    exact mul_lt_mul_of_pos_right (Nat.cast_lt.2 hm) (by positivity)
  rw [zpow_lt_zpow_iff_right₀ one_lt_two] at hlt
  unfold place
  omega

/-- At a place below its exponent the significand is exact. -/
theorem significandAt_mul {e : ℤ} (he : e ≤ s.exponent) :
    (s.significandAt e : ℚ) * 2 ^ e = s.magnitude := by
  obtain ⟨k, hk⟩ := Int.le.dest he
  have htoNat : (s.exponent - e).toNat = k := by omega
  rw [magnitude, ← hk, two_zpow_add, significandAt, htoNat, Nat.shiftLeft_eq, Nat.cast_mul,
    mul_assoc]

/-- **A value that is that of a number is placed exactly.** -/
theorem placed_mul (hs : s.significand ≠ 0) (h : s.Fits) :
    (s.placed : ℚ) * 2 ^ s.place = s.magnitude := by
  obtain ⟨m, e, hm, hlow, -, hvalue⟩ := h
  obtain ⟨k, hk⟩ := Int.le.dest (place_le hs hm hlow hvalue)
  unfold placed
  split
  · next hle => exact significandAt_mul hle
  · next hlt =>
    -- The bits that are shifted out are zero.
    obtain ⟨d, hd⟩ := Int.le.dest (Int.not_le.1 hlt).le
    have htoNat : (s.place - s.exponent).toNat = d := by omega
    rw [← hk, two_zpow_add, ← mul_assoc, ← Nat.cast_mul] at hvalue
    have hsignificand : s.significand = m * 2 ^ k * 2 ^ d := by
      have hpos : (0 : ℚ) < 2 ^ s.exponent := by positivity
      rw [← hd, two_zpow_add, ← mul_assoc, ← Nat.cast_mul] at hvalue
      exact_mod_cast mul_right_cancel₀ hpos.ne' hvalue
    rw [hvalue, htoNat, Nat.shiftRight_eq_div_pow, hsignificand,
      Nat.mul_div_cancel _ (Nat.two_pow_pos d)]

/-- What fits has a placed significand of at most 53 bits. -/
theorem placed_lt (hs : s.significand ≠ 0) (h : s.Fits) : s.placed < 2 ^ 53 := by
  have hlt : (s.placed : ℚ) * 2 ^ s.place < (2 ^ 53 : ℕ) * 2 ^ s.place := by
    rw [placed_mul hs h, ← two_zpow_add]
    refine (magnitude_bounds hs).2.trans_le (zpow_le_zpow_right₀ one_le_two ?_)
    unfold place
    omega
  exact Nat.cast_lt.1 (lt_of_mul_lt_mul_right hlt (by positivity))

/-- A placed significand has all of its 53 bits, unless it is at the lowest place. -/
theorem le_placed (hs : s.significand ≠ 0) (h : s.Fits) (hplace : s.place ≠ -1074) :
    2 ^ 52 ≤ s.placed := by
  have hle : ((2 ^ 52 : ℕ) : ℚ) * 2 ^ s.place ≤ s.placed * 2 ^ s.place := by
    rw [placed_mul hs h, ← two_zpow_add]
    refine (zpow_le_zpow_right₀ one_le_two ?_).trans (magnitude_bounds hs).1
    unfold place at *
    omega
  exact Nat.cast_le.1 (le_of_mul_le_mul_right hle (by positivity))

/-- **What fits is not rounded**: the parts of the float are the ones that it is made of. -/
theorem parts_toFloat (hs : s.significand ≠ 0) (h : s.Fits) :
    Number.parts s.toFloat = .finite ⟨s.negative, s.placed, s.place⟩ := by
  have hlt := placed_lt hs h
  have hle := le_placed hs h
  have hlow : -1074 ≤ s.place := le_max_left _ _
  have hhigh : s.place ≤ 971 := by
    obtain ⟨m, e, hm, he, hhigh, hvalue⟩ := h
    exact (place_le hs hm he hvalue).trans hhigh
  rw [s.toFloat_eq hs]
  by_cases hsmall : s.placed < 1 <<< 52
  · have hplace : s.place = -1074 := by
      by_contra hplace
      exact absurd hsmall (hle hplace).not_gt
    have hparts := Number.parts_ofBits s.negative (e := 0) (by decide) hsmall
    rw [Nat.zero_shiftLeft, Nat.zero_add, if_pos rfl] at hparts
    rw [if_pos hsmall, hparts, hplace]
  · have hbit : 1 <<< 52 = 2 ^ 52 := rfl
    have hexponent : (s.place + 1075).toNat ≠ 0 := by omega
    have hplace : ((s.place + 1075).toNat : ℤ) - 1075 = s.place := by omega
    rw [if_neg hsmall, Number.parts_ofBits s.negative (by omega) (by omega), if_neg hexponent,
      hplace, Nat.add_sub_of_le (Nat.not_lt.1 hsmall)]

/-- **A value that is that of a number is found exactly.** -/
theorem value?_toFloat (h : s.Fits) : Number.value? s.toFloat = some s.value := by
  by_cases hs : s.significand = 0
  · have hparts : Number.parts s.toFloat = .finite ⟨s.negative, 0, -1074⟩ :=
      (congrArg Number.parts (if_pos hs)).trans
        (Number.parts_ofBits s.negative (e := 0) (f := 0) (by decide) (by decide))
    rw [Number.value?, hparts]
    simp [value, magnitude, hs]
  · rw [Number.value?, parts_toFloat hs h]
    show some (if s.negative then -((s.placed : ℚ) * 2 ^ s.place) else s.placed * 2 ^ s.place) = _
    rw [placed_mul hs h]
    rfl

end Scaled

/-! ### Operations -/

namespace Number

variable {x y : Float} {s : Scaled} {p q : ℚ}

/-- The parts of a float are bounded by its format. -/
theorem bounds_of_parts (h : parts x = .finite s) :
    s.significand < 2 ^ 53 ∧ -1074 ≤ s.exponent ∧ s.exponent ≤ 971 := by
  have hfraction := Nat.mod_lt x.toBits.toNat (show 0 < 1 <<< 52 by decide)
  have hexponent := Nat.mod_lt (x.toBits.toNat >>> 52) (show 0 < 1 <<< 11 by decide)
  unfold parts at h
  simp only [Nat.reduceShiftLeft] at *
  split at h
  · split at h <;> cases h
  · split at h <;> cases h <;> dsimp only <;> omega

/-- A float with a value has parts with that value. -/
theorem exists_parts (h : value? x = some q) : ∃ s, parts x = .finite s ∧ s.value = q := by
  unfold value? at h
  split at h
  · next s hs => exact ⟨s, hs, Option.some.inj h⟩
  · cases h

/-- The whole part of a value is the floor of its magnitude, with the sign. -/
theorem whole_value (s : Scaled) :
    Arithmetic.whole s.value = if s.negative then -(s.floor : ℤ) else s.floor := by
  rw [Scaled.value, s.floor_eq]
  split
  · rw [Arithmetic.whole_neg, Arithmetic.whole_of_nonneg s.magnitude_nonneg]
  · rw [Arithmetic.whole_of_nonneg s.magnitude_nonneg]

/-- A remainder has the sign of what is divided. -/
theorem exact_remainder_value (a b : Scaled) :
    Arithmetic.exact.remainder a.value b.value =
      if a.negative then -Arithmetic.exact.remainder a.magnitude b.magnitude
      else Arithmetic.exact.remainder a.magnitude b.magnitude := by
  have hdivisor : ∀ p, Arithmetic.exact.remainder p b.value =
      Arithmetic.exact.remainder p b.magnitude := by
    intro p
    unfold Scaled.value
    split
    · exact Arithmetic.exact_remainder_neg_right p b.magnitude
    · rfl
  rw [hdivisor, Scaled.value]
  split
  · exact Arithmetic.exact_remainder_neg_left a.magnitude b.magnitude
  · rfl

/-- **Dropping a fraction never rounds.** -/
theorem value?_trunc (hx : value? x = some q) :
    value? (trunc x) = some (Arithmetic.exact.trunc q) := by
  obtain ⟨s, hs, rfl⟩ := exists_parts hx
  obtain ⟨hsignificand, hlow, hhigh⟩ := bounds_of_parts hs
  have hfits : (⟨s.negative, s.floor, 0⟩ : Scaled).Fits := by
    by_cases hexponent : 0 ≤ s.exponent
    · refine ⟨s.significand, s.exponent, hsignificand, hlow, hhigh, ?_⟩
      show (s.floor : ℚ) * 2 ^ (0 : ℤ) = s.magnitude
      rw [zpow_zero, mul_one, s.floor_eq, Scaled.magnitude_of_nonneg hexponent, Nat.floor_natCast]
    · refine ⟨s.floor, 0, ?_, by decide, by decide, rfl⟩
      rw [Scaled.floor, if_neg hexponent]
      exact (Nat.shiftRight_le _ _).trans_lt hsignificand
  rw [trunc, hs]
  refine (Scaled.value?_toFloat hfits).trans ?_
  show _ = some ((Arithmetic.whole s.value : ℤ) : ℚ)
  rw [whole_value]
  simp only [Scaled.value, Scaled.magnitude]
  split <;> simp

/-- **A remainder never rounds.** -/
theorem value?_remainder (hx : value? x = some p) (hy : value? y = some q) (hq : q ≠ 0) :
    value? (remainder x y) = some (Arithmetic.exact.remainder p q) := by
  obtain ⟨a, ha, rfl⟩ := exists_parts hx
  obtain ⟨b, hb, rfl⟩ := exists_parts hy
  obtain ⟨hdividend, halow, hahigh⟩ := bounds_of_parts ha
  obtain ⟨hdivisor, hblow, hbhigh⟩ := bounds_of_parts hb
  have hzero : b.significand ≠ 0 := by
    intro hzero
    exact hq (by simp [Scaled.value, Scaled.magnitude, hzero])
  -- Both are multiples of one power of two, and one of them keeps its significand.
  obtain ⟨e, he⟩ : ∃ e, min a.exponent b.exponent = e := ⟨_, rfl⟩
  have hmod : a.significandAt e % b.significandAt e < 2 ^ 53 := by
    rcases le_total a.exponent b.exponent with hle | hle
    · have hleft : a.significandAt e = a.significand := by
        simp [Scaled.significandAt, ← he, hle]
      exact (Nat.mod_le _ _).trans_lt (hleft ▸ hdividend)
    · have hright : b.significandAt e = b.significand := by
        simp [Scaled.significandAt, ← he, hle]
      rw [hright]
      exact (Nat.mod_lt _ (Nat.pos_of_ne_zero hzero)).trans hdivisor
  have hfits : (⟨a.negative, a.significandAt e % b.significandAt e, e⟩ : Scaled).Fits :=
    ⟨_, e, hmod, by omega, by omega, rfl⟩
  have hremainder := Arithmetic.exact_remainder_mul (a.significandAt e) (b.significandAt e)
    (zpow_ne_zero e (two_ne_zero' ℚ))
  rw [Scaled.significandAt_mul (by omega), Scaled.significandAt_mul (by omega)] at hremainder
  rw [remainder, ha, hb]
  dsimp only
  rw [if_neg hzero, he, Scaled.value?_toFloat hfits]
  refine congrArg some ?_
  rw [exact_remainder_value, hremainder]
  rfl

/-- **A word is read without rounding.** -/
theorem word_eq (hx : value? x = some q) : word x = Arithmetic.exact.word q := by
  obtain ⟨s, hs, rfl⟩ := exists_parts hx
  have hmin : Int32.minValue.toInt ≤ 0 := by decide
  have hmax : 0 ≤ Int32.maxValue.toInt := by decide
  rw [word, hs]
  show _ = max Int32.minValue.toInt (min Int32.maxValue.toInt (Arithmetic.whole s.value))
  rw [whole_value]
  dsimp only
  split <;> omega

end Number

namespace Arithmetic

/-- **Fractions, remainders and words are exact**: those of numbers that have a value are those of
the value. -/
structure CutsExactly {α : Type} (A : Arithmetic α) (value? : α → Option ℚ) : Prop where
  trunc : ∀ {x q}, value? x = some q → value? (A.trunc x) = some (exact.trunc q)
  remainder : ∀ {x y p q}, value? x = some p → value? y = some q → q ≠ 0 →
    value? (A.remainder x y) = some (exact.remainder p q)
  word : ∀ {x q}, value? x = some q → A.word x = exact.word q

/-- Floats cut exactly: the whole part and the remainder are not rounded. -/
theorem cutsExactly_doubles : doubles.CutsExactly Number.value? :=
  ⟨Number.value?_trunc, Number.value?_remainder, Number.word_eq⟩

end Arithmetic

end AliasScript
