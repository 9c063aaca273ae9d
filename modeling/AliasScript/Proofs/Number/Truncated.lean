import AliasScript.Number.Binary
import Mathlib.Algebra.Order.Floor.Semifield
import Mathlib.Algebra.Order.Field.Power
import Mathlib.Data.Rat.Floor

/-!
# Positions and removals

The exact value of a finite number is a rational (`Number.value?`), and what a number names in a
sequence is said by that value alone. A position is the value with its fraction dropped, so it has
to lie above minus one and below the length (`Number.position?_eq_some_iff`). A removal is the value
with its fraction dropped as well, but the value itself has to lie between zero and the length
(`Number.removal?_eq_some_iff`). Infinite values and the value that is no number have neither.
-/

namespace AliasScript

namespace Scaled

variable (s : Scaled)

/-- The value without its sign. -/
def magnitude : ℚ :=
  s.significand * 2 ^ s.exponent

/-- The value. -/
def value : ℚ :=
  if s.negative then -s.magnitude else s.magnitude

theorem magnitude_nonneg : 0 ≤ s.magnitude := by
  unfold magnitude
  positivity

theorem magnitude_eq_zero_iff : s.magnitude = 0 ↔ s.significand = 0 := by
  rw [magnitude, mul_eq_zero_iff_right (zpow_ne_zero _ two_ne_zero), Nat.cast_eq_zero]

variable {s}

theorem magnitude_of_nonneg (h : 0 ≤ s.exponent) :
    s.magnitude = (s.significand * 2 ^ s.exponent.toNat : ℕ) := by
  unfold magnitude
  conv_lhs => rw [← Int.toNat_of_nonneg h, zpow_natCast]
  push_cast
  rfl

theorem magnitude_of_neg (h : ¬ 0 ≤ s.exponent) :
    s.magnitude = (s.significand : ℚ) / (2 ^ (-s.exponent).toNat : ℕ) := by
  have hexponent : s.exponent = -((-s.exponent).toNat : ℤ) := by omega
  unfold magnitude
  conv_lhs => rw [hexponent, zpow_neg, zpow_natCast, ← div_eq_mul_inv]
  push_cast
  rfl

variable (s)

/-- **The fraction is dropped.** -/
theorem floor_eq : s.floor = ⌊s.magnitude⌋₊ := by
  unfold floor
  split
  · next h => rw [magnitude_of_nonneg h, Nat.floor_natCast, Nat.shiftLeft_eq]
  · next h =>
    rw [magnitude_of_neg h, Nat.floor_div_natCast, Nat.floor_natCast, Nat.shiftRight_eq_div_pow]

theorem ceil_le_iff (n : ℕ) : s.ceil ≤ n ↔ s.magnitude ≤ n := by
  unfold ceil
  split
  · next h => rw [magnitude_of_nonneg h, Nat.cast_le, Nat.shiftLeft_eq]
  · next h =>
    have hpos : 0 < 2 ^ (-s.exponent).toNat := Nat.two_pow_pos _
    rw [magnitude_of_neg h, div_le_iff₀ (by exact_mod_cast hpos), ← Nat.cast_mul, Nat.cast_le,
      Nat.shiftRight_eq_div_pow, Nat.shiftLeft_eq, Nat.one_mul,
      Nat.div_le_iff_le_mul_add_pred hpos, Nat.mul_comm n]
    omega

end Scaled

namespace Number

/-- The exact value of a number, if it is finite. -/
def value? (x : Float) : Option ℚ :=
  match parts x with
  | .finite s => some s.value
  | _ => none

/-- The number with its fraction dropped is a natural number. What lies between minus one and zero
is cut to zero. -/
def CutsTo (x : Float) (i : ℕ) : Prop :=
  ∃ q, value? x = some q ∧ -1 < q ∧ ⌊q⌋₊ = i

variable {x : Float} {n i : ℕ}

/-- **A position is a number with its fraction dropped.** -/
theorem position?_eq_some_iff : position? x n = some i ↔ CutsTo x i ∧ i < n := by
  unfold position? CutsTo value?
  cases parts x with
  | nan | infinite negative => simp
  | finite s =>
    have hs := s.magnitude_nonneg
    simp only [s.floor_eq, Option.some.injEq, exists_eq_left', Scaled.value]
    cases s.negative with
    | false =>
      have habove : -1 < s.magnitude := by linarith
      simp only [Bool.false_eq_true, false_and, if_false, habove, true_and]
      grind
    | true =>
      have hbelow : -1 < -s.magnitude ↔ ⌊s.magnitude⌋₊ = 0 := by
        rw [Nat.floor_eq_zero, neg_lt_neg_iff]
      have hcut : ⌊-s.magnitude⌋₊ = 0 := Nat.floor_of_nonpos (neg_nonpos.2 hs)
      simp only [if_true, true_and, hbelow, hcut]
      grind

theorem position?_eq_none_iff : position? x n = none ↔ ∀ i < n, ¬ CutsTo x i := by
  rw [Option.eq_none_iff_forall_ne_some]
  exact forall_congr' fun i ↦ by
    rw [Ne, position?_eq_some_iff, not_and]
    exact ⟨fun h hi hx ↦ h hx hi, fun h hx hi ↦ h hi hx⟩

/-- **A removal is a value from zero to the length**, with its fraction dropped. -/
theorem removal?_eq_some_iff :
    removal? x n = some i ↔ ∃ q, value? x = some q ∧ 0 ≤ q ∧ q ≤ n ∧ ⌊q⌋₊ = i := by
  unfold removal? value?
  cases parts x with
  | nan | infinite negative => simp
  | finite s =>
    have hs := s.magnitude_nonneg
    simp only [s.floor_eq, s.ceil_le_iff, Option.some.injEq, exists_eq_left', Scaled.value]
    cases s.negative with
    | false =>
      simp only [Bool.false_eq_true, false_and, if_false, hs, true_and]
      grind
    | true =>
      -- Of the values with a sign zero alone is not below zero.
      have hzero : 0 ≤ -s.magnitude ↔ s.significand = 0 := by
        rw [neg_nonneg, ← s.magnitude_eq_zero_iff]
        exact ⟨fun h ↦ le_antisymm h hs, le_of_eq⟩
      simp only [if_true, true_and, hzero]
      split
      · next hpos => simp [hpos.ne']
      · next hpos =>
        have hsig : s.significand = 0 := Nat.eq_zero_of_not_pos hpos
        have hmag := s.magnitude_eq_zero_iff.2 hsig
        simp [hsig, hmag]

theorem removal?_eq_none_iff :
    removal? x n = none ↔ ∀ q, value? x = some q → ¬ (0 ≤ q ∧ q ≤ n) := by
  rw [Option.eq_none_iff_forall_ne_some]
  constructor
  · intro h q hq hbetween
    exact h _ (removal?_eq_some_iff.2 ⟨q, hq, hbetween.1, hbetween.2, rfl⟩)
  · intro h i hi
    obtain ⟨q, hq, hzero, hsize, -⟩ := removal?_eq_some_iff.1 hi
    exact h q hq ⟨hzero, hsize⟩

/-- No more is removed than there is. -/
theorem removal?_le (h : removal? x n = some i) : i ≤ n := by
  obtain ⟨q, -, -, hq, rfl⟩ := removal?_eq_some_iff.1 h
  exact Nat.floor_le_of_le hq

end Number

end AliasScript
