import AliasScript.Number.Binary
import Mathlib.Algebra.Order.Floor.Semifield
import Mathlib.Data.Rat.Floor

/-!
# Arithmetic

What a program computes with numbers, as a record of operations: with doubles, which may be rounded
(`Arithmetic.doubles`), and with rationals, which never are (`Arithmetic.exact`). An algorithm that
takes its operations from such a record has one definition and two meanings.

On integers the exact operations are those of the integers: dropping the fraction of a quotient is
division toward zero (`Arithmetic.whole_div`), a remainder has the sign of the dividend
(`Arithmetic.exact_remainder`), and shifting a word by nothing leaves it as it is
(`Arithmetic.exact_shiftRight_zero`).
-/

namespace AliasScript

/-- The operations that a program has for numbers. -/
structure Arithmetic (α : Type) where
  /-- The number that an integer is. -/
  ofInt : ℤ → α
  add : α → α → α
  sub : α → α → α
  mul : α → α → α
  div : α → α → α
  /-- The remainder of a division toward zero. -/
  remainder : α → α → α
  /-- The number without its fraction. -/
  trunc : α → α
  /-- The 32-bit word nearest to the number without its fraction. -/
  word : α → ℤ

namespace Arithmetic

/-- Shifts a word to the right. -/
def shiftRight {α : Type} (A : Arithmetic α) (value amount : α) : α :=
  A.ofInt (Number.shiftRight (A.word value) (A.word amount))

/-- The numbers of the language. -/
def doubles : Arithmetic Float where
  ofInt := Float.ofInt
  add := (· + ·)
  sub := (· - ·)
  mul := (· * ·)
  div := (· / ·)
  remainder := Number.remainder
  trunc := Number.trunc
  word := Number.word

/-- A rational without its fraction. -/
def whole (q : ℚ) : ℤ :=
  if 0 ≤ q then ⌊q⌋ else ⌈q⌉

/-- Numbers that are never rounded. -/
def exact : Arithmetic ℚ where
  ofInt := Int.cast
  add := (· + ·)
  sub := (· - ·)
  mul := (· * ·)
  div := (· / ·)
  remainder x y := x - y * whole (x / y)
  trunc q := whole q
  word q := max Int32.minValue.toInt (min Int32.maxValue.toInt (whole q))

/-! ### Exact operations -/

theorem whole_of_nonneg {q : ℚ} (hq : 0 ≤ q) : whole q = ⌊q⌋₊ := by
  rw [whole, if_pos hq, Int.natCast_floor_eq_floor hq]

theorem whole_natCast_div (a d : ℕ) : whole ((a : ℚ) / d) = (a / d : ℕ) := by
  rw [whole_of_nonneg (by positivity), Nat.floor_div_eq_div]

theorem whole_neg (q : ℚ) : whole (-q) = -whole q := by
  unfold whole
  rcases lt_trichotomy q 0 with hq | rfl | hq
  · rw [if_pos (neg_nonneg.2 hq.le), if_neg hq.not_ge, Int.floor_neg]
  · simp
  · rw [if_neg (neg_lt_zero.2 hq).not_ge, if_pos hq.le, Int.ceil_neg]

theorem exact_remainder_neg_left (p q : ℚ) :
    exact.remainder (-p) q = -exact.remainder p q := by
  show -p - q * whole (-p / q) = -(p - q * whole (p / q))
  rw [neg_div, whole_neg, Int.cast_neg]
  ring

theorem exact_remainder_neg_right (p q : ℚ) : exact.remainder p (-q) = exact.remainder p q := by
  show p - -q * whole (p / -q) = p - q * whole (p / q)
  rw [div_neg, whole_neg, Int.cast_neg]
  ring

/-- A remainder of multiples is a multiple. -/
theorem exact_remainder_mul (a b : ℕ) {c : ℚ} (hc : c ≠ 0) :
    exact.remainder (a * c) (b * c) = (a % b : ℕ) * c := by
  have hwhole : whole (a * c / (b * c)) = (a / b : ℕ) := by
    rw [mul_div_mul_right _ _ hc, whole_natCast_div]
  have hsplit : (b * (a / b : ℕ) + (a % b : ℕ) : ℚ) = a := by exact_mod_cast Nat.div_add_mod a b
  show a * c - b * c * ((whole (a * c / (b * c)) : ℤ) : ℚ) = _
  rw [hwhole, Int.cast_natCast, ← hsplit]
  ring

/-! ### Exact operations on integers -/

theorem whole_intCast (a : ℤ) : whole (a : ℚ) = a := by
  unfold whole
  split <;> simp

/-- **Dropping the fraction of a quotient is division toward zero.** -/
theorem whole_div (a : ℤ) (d : ℕ) : whole ((a : ℚ) / d) = a.tdiv d := by
  obtain ⟨n, rfl | rfl⟩ := a.eq_nat_or_neg
  · rw [Int.cast_natCast, whole_natCast_div, Int.natCast_ediv,
      Int.tdiv_eq_ediv_of_nonneg (by omega)]
  · rw [Int.cast_neg, Int.cast_natCast, neg_div, whole_neg, whole_natCast_div, Int.neg_tdiv,
      Int.natCast_ediv, Int.tdiv_eq_ediv_of_nonneg (by omega)]

/-- **A remainder of integers has the sign of the dividend.** -/
theorem exact_remainder (a : ℤ) (d : ℕ) :
    exact.remainder a (exact.ofInt d) = (a.tmod d : ℤ) := by
  show (a : ℚ) - ((d : ℤ) : ℚ) * whole ((a : ℚ) / ((d : ℤ) : ℚ)) = _
  rw [Int.cast_natCast, whole_div, Int.tmod_def]
  push_cast
  rfl

/-- A word that is shifted by nothing stays as it is. -/
theorem exact_shiftRight_zero {a : ℤ} (hlow : Int32.minValue.toInt ≤ a)
    (hhigh : a ≤ Int32.maxValue.toInt) : exact.shiftRight a (exact.ofInt 0) = (a : ℚ) := by
  have hword : exact.word (a : ℚ) = a := by
    show max _ (min _ (whole (a : ℚ))) = a
    rw [whole_intCast, min_eq_right hhigh, max_eq_right hlow]
  have hzero : exact.word (exact.ofInt 0) = 0 := by
    show max _ (min _ (whole ((0 : ℤ) : ℚ))) = (0 : ℤ)
    rw [whole_intCast]
    decide
  rw [shiftRight, hword, hzero]
  show ((Int.fdiv a 1 : ℤ) : ℚ) = a
  rw [Int.fdiv_one]

end Arithmetic

end AliasScript
