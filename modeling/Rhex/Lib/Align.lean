import Mathlib

/-!
# Alignment

`up a n` is the least multiple of `a` that is not below `n`. Programs write it with a mask, when
`a` is a power of two; `and_mask` is the step between the two.
-/

namespace Align

/-- Round `n` up to a multiple of `a`. -/
def up (a n : Nat) : Nat := (n + (a - 1)) / a * a

theorem le_up {a : Nat} (ha : 0 < a) (n : Nat) : n ≤ up a n := by
  have hdiv := Nat.div_add_mod (n + (a - 1)) a
  have hmod := Nat.mod_lt (n + (a - 1)) ha
  rw [Nat.mul_comm] at hdiv
  rw [up]
  omega

theorem up_le (a n : Nat) : up a n ≤ n + (a - 1) :=
  Nat.div_mul_le_self _ _

theorem dvd_up (a n : Nat) : a ∣ up a n := Dvd.intro_left _ rfl

theorem up_of_dvd {a n : Nat} (ha : 0 < a) (h : a ∣ n) : up a n = n := by
  obtain ⟨k, rfl⟩ := h
  rw [up, Nat.mul_add_div ha, Nat.div_eq_of_lt (by omega), Nat.add_zero, Nat.mul_comm]

/-- The padding by the remainder. -/
theorem up_eq_add_pad {a : Nat} (ha : 0 < a) (n : Nat) :
    up a n = if n % a ≠ 0 then n + (a - n % a) else n := by
  by_cases hmod : n % a = 0
  · rw [if_neg (not_not.mpr hmod), up_of_dvd ha (Nat.dvd_of_mod_eq_zero hmod)]
  · rw [if_pos hmod]
    have hlt := Nat.mod_lt n ha
    have hdiv := Nat.div_add_mod n a
    have hsum : n + (a - 1) = (n / a + 1) * a + (n % a - 1) := by
      rw [Nat.add_mul, Nat.mul_comm (n / a)]
      omega
    have hquot : ((n / a + 1) * a + (n % a - 1)) / a = n / a + 1 := by
      have hrest : (n % a - 1) / a = 0 := Nat.div_eq_of_lt (by omega)
      rw [Nat.mul_comm, Nat.mul_add_div ha, hrest, Nat.add_zero]
    rw [up, hsum, hquot, Nat.add_mul, Nat.mul_comm (n / a)]
    omega

/-- Clearing the low `k` bits of a word of `w` bits rounds it down. -/
theorem and_mask {w k x : Nat} (hk : k ≤ w) (hx : x < 2 ^ w) :
    x &&& (2 ^ w - 2 ^ k) = x / 2 ^ k * 2 ^ k := by
  have hmask : 2 ^ w - 2 ^ k = (2 ^ (w - k) - 1) * 2 ^ k := by
    rw [Nat.sub_mul, Nat.one_mul, ← Nat.pow_add, Nat.sub_add_cancel hk]
  apply Nat.eq_of_testBit_eq
  intro i
  rw [Nat.testBit_and, hmask, Nat.testBit_mul_two_pow, Nat.testBit_mul_two_pow,
    Nat.testBit_two_pow_sub_one, Nat.testBit_div_two_pow]
  by_cases hi : k ≤ i
  · rw [Nat.sub_add_cancel hi]
    by_cases hw : i < w
    · simp [hi, show i - k < w - k by omega]
    · have hzero : x.testBit i = false :=
        Nat.testBit_lt_two_pow (hx.trans_le (Nat.pow_le_pow_right (by decide) (by omega)))
      simp [hzero]
  · simp [hi]

end Align
