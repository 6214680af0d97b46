import Mathlib.Data.Nat.Log
import Mathlib.Tactic.Positivity

/-!
# FlagPlane.Double

**Integers as JavaScript numbers.** A number is a double, whose significand has 53 bits: an integer
is held as it is up to `2 ^ 53`, and past that it is rounded to the nearest multiple of a power of
two, to the even one of two that are as near.
-/

namespace FlagPlane

/-- The double next to a natural number. -/
def roundDouble (n : Nat) : Nat :=
  let unit := 2 ^ (n.log2 - 52)
  let below := n / unit
  let rest := n % unit
  if unit < 2 * rest ∨ unit = 2 * rest ∧ below % 2 = 1 then (below + 1) * unit else below * unit

/-- An integer as a JavaScript number. -/
def jsNumber (n : Int) : Int :=
  if n < 0 then -roundDouble n.natAbs else roundDouble n.natAbs

/-- All integers in this range are numbers. -/
def ExactInt (n : Int) : Prop := -2 ^ 53 ≤ n ∧ n ≤ 2 ^ 53

instance (n : Int) : Decidable (ExactInt n) := inferInstanceAs (Decidable (_ ∧ _))

/-- What a double holds is not rounded. -/
theorem roundDouble_mul_pow {m : Nat} (h : m ≤ 2 ^ 53) (e : Nat) :
    roundDouble (m * 2 ^ e) = m * 2 ^ e := by
  obtain rfl | hm := Nat.eq_zero_or_pos m
  · simp [roundDouble]
  have hne : m * 2 ^ e ≠ 0 := Nat.mul_ne_zero hm.ne' (by positivity)
  have hdvd : 2 ^ ((m * 2 ^ e).log2 - 52) ∣ m * 2 ^ e := by
    by_cases hle : (m * 2 ^ e).log2 - 52 ≤ e
    · exact (Nat.pow_dvd_pow 2 hle).mul_left m
    · -- only `2 ^ 53` itself has one bit more
      have hlog : 2 ^ (53 + e) ≤ m * 2 ^ e := (Nat.le_log2 hne).mp (by omega)
      obtain rfl : m = 2 ^ 53 := by
        refine le_antisymm h (Nat.le_of_mul_le_mul_right ?_ (Nat.two_pow_pos e))
        rwa [← Nat.pow_add]
      rw [← Nat.pow_add, Nat.log2_two_pow]
      exact Nat.pow_dvd_pow 2 (by omega)
  rw [roundDouble]
  rw [Nat.mod_eq_zero_of_dvd hdvd, if_neg (by simp), Nat.div_mul_cancel hdvd]

theorem jsNumber_of_exact {n : Int} (h : ExactInt n) : jsNumber n = n := by
  obtain ⟨hlow, hhigh⟩ := h
  have hround : roundDouble n.natAbs = n.natAbs := by
    have hle : n.natAbs ≤ 2 ^ 53 := by omega
    simpa using roundDouble_mul_pow hle 0
  rw [jsNumber, hround]
  split <;> omega

/-- Halfway between two numbers, to the even one. -/
example : jsNumber (2 ^ 53 + 1) = 2 ^ 53 ∧ jsNumber (2 ^ 53 + 3) = 2 ^ 53 + 4 := by decide

end FlagPlane
