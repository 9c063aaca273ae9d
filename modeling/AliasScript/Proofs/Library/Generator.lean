import AliasScript.Proofs.Number.Arithmetic
import Mathlib.Algebra.Order.Ring.Int

/-!
# The generator of random numbers

A linear congruential generator, over any arithmetic: what the requests to it answer, and the seed
that they leave behind (`Generator.answer`).

With exact numbers every seed that is drawn lies between minus the modulus and the modulus
(`Generator.nextInt_lt`), and it is not negative if the seed before was not: the remainder goes with
the sign of the dividend. A number from a range comes out above the upper end never, and below the
lower end exactly if the seed that it was drawn with is far enough below zero
(`Generator.inRange_exact`).
-/

namespace AliasScript

/-- What can be asked of the generator. -/
inductive RandomRequest (α : Type) where
  /-- Starts from a number. -/
  | seed (number : α)
  | random
  | inRange (min max : α)

/-- The request draws a number. -/
def RandomRequest.IsDraw {α : Type} : RandomRequest α → Prop
  | seed _ => False
  | random | inRange _ _ => True

namespace Generator

variable {α : Type} (A : Arithmetic α)

/-- The seed after the next draw. -/
def next (z : α) : α :=
  A.remainder (A.add (A.mul (A.ofInt 1103515245) z) (A.ofInt 12345)) (A.ofInt 2147483648)

/-- The number that a seed stands for. -/
def shown (z : α) : α :=
  A.shiftRight z (A.ofInt 0)

/-- The number that a seed stands for in a range. -/
def placed (min max z : α) : α :=
  let width := A.add (A.sub max min) (A.ofInt 1)
  A.add min (A.trunc (A.div (A.mul width (shown A z)) (A.ofInt 2147483648)))

/-- The answer to a request, if there is one, and the new seed. -/
def answer : RandomRequest α → α → Option α × α
  | .seed number, _ => (none, number)
  | .random, z => (some (shown A (next A z)), next A z)
  | .inRange min max, z => (some (placed A min max (next A z)), next A z)

/-- The answers to requests one after the other. -/
def answers : List (RandomRequest α) → α → List (Option α)
  | [], _ => []
  | q :: rest, z => (answer A q z).1 :: answers rest (answer A q z).2

/-- The seed after some requests. -/
def after (requests : List (RandomRequest α)) (z : α) : α :=
  requests.foldl (fun z q ↦ (answer A q z).2) z

/-! ### Exact draws -/

theorem answer_snd_of_isDraw {q : RandomRequest α} (hq : q.IsDraw) (z : α) :
    (answer A q z).2 = next A z := by
  cases q with
  | seed number => cases hq
  | random | inRange min max => rfl

/-- The modulus. -/
abbrev modulus : ℕ := 2147483648

/-- The seed after the next draw, as an integer. -/
def nextInt (z : ℤ) : ℤ :=
  (1103515245 * z + 12345).tmod modulus

theorem next_exact (z : ℤ) : next .exact (z : ℚ) = nextInt z := by
  rw [nextInt, ← Arithmetic.exact_remainder]
  show Arithmetic.exact.remainder ((1103515245 : ℤ) * z + (12345 : ℤ)) _ = _
  push_cast
  rfl

/-- **A drawn seed is smaller than the modulus, on either side of zero.** -/
theorem nextInt_lt (z : ℤ) : -(modulus : ℤ) < nextInt z ∧ nextInt z < modulus := by
  have h1 := Int.lt_tmod_of_pos (1103515245 * z + 12345) (b := (modulus : ℤ)) (by decide)
  have h2 := Int.tmod_lt_of_pos (1103515245 * z + 12345) (b := (modulus : ℤ)) (by decide)
  exact ⟨h1, h2⟩

theorem nextInt_nonneg {z : ℤ} (hz : 0 ≤ z) : 0 ≤ nextInt z :=
  Int.tmod_nonneg _ (by omega)

theorem shown_exact {z : ℤ} (hlow : -(modulus : ℤ) < z) (hhigh : z < modulus) :
    shown .exact (z : ℚ) = z := by
  have hmin : Int32.minValue.toInt = -(modulus : ℤ) := by decide
  have hmax : Int32.maxValue.toInt = modulus - 1 := by decide
  exact Arithmetic.exact_shiftRight_zero (by omega) (by omega)

theorem placed_exact (min max : ℤ) {z : ℤ} (hlow : -(modulus : ℤ) < z) (hhigh : z < modulus) :
    placed .exact (min : ℚ) max z = (min + ((max - min + 1) * z).tdiv modulus : ℤ) := by
  have hquotient := Arithmetic.whole_div ((max - min + 1) * z) modulus
  unfold placed
  rw [shown_exact hlow hhigh, Int.cast_add, ← hquotient]
  show (min : ℚ) + (Arithmetic.whole ((max - min + (1 : ℤ)) * z / (2147483648 : ℤ)) : ℚ) = _
  push_cast
  rfl

theorem answer_inRange_exact (min max z : ℤ) :
    answer .exact (.inRange min max) (z : ℚ) =
      (some ↑(min + ((max - min + 1) * nextInt z).tdiv modulus), ↑(nextInt z)) := by
  obtain ⟨hlow, hhigh⟩ := nextInt_lt z
  rw [answer, next_exact, placed_exact min max hlow hhigh]

/-- A number over the modulus without its fraction, in terms of the rounded quotient. -/
theorem tdiv_modulus (a : ℤ) :
    a.tdiv modulus = if 0 ≤ a then a / modulus else -(-a / modulus) := by
  split
  · next ha => exact Int.tdiv_eq_ediv_of_nonneg ha
  · next ha => rw [← Int.tdiv_eq_ediv_of_nonneg (by omega), Int.neg_tdiv, neg_neg]

/-- **A part of a width is smaller than the width**, and it is not negative exactly if the product
lies above minus the modulus. -/
theorem tdiv_modulus_bounds {width z : ℤ} (hwidth : 0 < width) (hlow : -(modulus : ℤ) < z)
    (hhigh : z < modulus) :
    -width < (width * z).tdiv modulus ∧ (width * z).tdiv modulus < width ∧
      (0 ≤ (width * z).tdiv modulus ↔ -(modulus : ℤ) < width * z) := by
  have habove : width * -(modulus : ℤ) < width * z := mul_lt_mul_of_pos_left hlow hwidth
  have hbelow : width * z < width * modulus := mul_lt_mul_of_pos_left hhigh hwidth
  rw [tdiv_modulus]
  generalize width * z = a at *
  push_cast at *
  split <;> omega

/-- The seeds that draws come to. -/
theorem after_exact {draws : List (RandomRequest ℚ)} (hdraws : ∀ q ∈ draws, q.IsDraw) (s : ℤ) :
    after .exact draws (s : ℚ) = (nextInt^[draws.length] s : ℤ) := by
  induction draws generalizing s with
  | nil => rfl
  | cons q rest ih =>
    have hq := answer_snd_of_isDraw .exact (hdraws q (by simp)) (s : ℚ)
    rw [next_exact] at hq
    rw [after, List.foldl_cons, hq]
    exact ih (fun q hq ↦ hdraws q (List.mem_cons_of_mem _ hq)) (nextInt s)

theorem iterate_nextInt_nonneg {s : ℤ} (hs : 0 ≤ s) (n : ℕ) : 0 ≤ nextInt^[n] s := by
  induction n with
  | zero => exact hs
  | succ n ih =>
    rw [Function.iterate_succ_apply']
    exact nextInt_nonneg ih

/-- **Where an exact draw from a range lies**, after a seed and any draws: never above the range, at
most as far below it as the range is wide, and inside of it exactly if the product of its width with
the new seed lies above minus the modulus. That is so for every seed that is not negative. -/
theorem inRange_exact (s : ℤ) {draws : List (RandomRequest ℚ)} (hdraws : ∀ q ∈ draws, q.IsDraw)
    {min max : ℤ} (hle : min ≤ max) (z₀ : ℚ) :
    ∃ z r : ℤ,
      answer .exact (.inRange min max) (after .exact (.seed s :: draws) z₀) = (some ↑r, ↑z) ∧
        2 * min - max ≤ r ∧ r ≤ max ∧ (min ≤ r ↔ -(modulus : ℤ) < (max - min + 1) * z) ∧
        (0 ≤ s → min ≤ r) := by
  have hseed : after .exact (.seed s :: draws) z₀ = (nextInt^[draws.length] s : ℤ) :=
    after_exact hdraws s
  have hsign : 0 ≤ s → 0 ≤ nextInt (nextInt^[draws.length] s) :=
    fun hs ↦ nextInt_nonneg (iterate_nextInt_nonneg hs draws.length)
  have hwidth : 0 < max - min + 1 := by omega
  obtain ⟨hlow, hhigh⟩ := nextInt_lt (nextInt^[draws.length] s)
  obtain ⟨habove, hbelow, hiff⟩ := tdiv_modulus_bounds hwidth hlow hhigh
  have hmin : ∀ part : ℤ, min ≤ min + part ↔ 0 ≤ part := fun part ↦ by omega
  refine ⟨_, _, hseed ▸ answer_inRange_exact min max _, by omega, by omega,
    (hmin _).trans hiff, fun hs ↦ ?_⟩
  have hproduct := mul_nonneg hwidth.le (hsign hs)
  exact (hmin _).2 (hiff.2 (by omega))

end Generator

end AliasScript
