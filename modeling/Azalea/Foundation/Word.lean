import Mathlib.Tactic
import Mathlib.Data.Nat.Bitwise

namespace Word

def clearLow (k n : ℕ) : ℕ := n / 2 ^ k * 2 ^ k

theorem clearLow_le (k n : ℕ) : clearLow k n ≤ n := Nat.div_mul_le_self n _

theorem clearLow_dvd (k n : ℕ) : 2 ^ k ∣ clearLow k n := Nat.dvd_mul_left _ _

theorem clearLow_of_dvd {k n : ℕ} (h : 2 ^ k ∣ n) : clearLow k n = n := Nat.div_mul_cancel h

theorem or_div {k b f : ℕ} (h : f < 2 ^ k) : (b ||| f) / 2 ^ k = b / 2 ^ k := by
  rw [Nat.or_div_two_pow, Nat.div_eq_of_lt h, Nat.or_zero]

theorem clearLow_or {k b f : ℕ} (h : f < 2 ^ k) : clearLow k (b ||| f) = clearLow k b := by
  rw [clearLow, or_div h, clearLow]

theorem and_mask_shift (v k n : ℕ) : (v &&& (2 ^ n - 1) <<< k) >>> k = v / 2 ^ k % 2 ^ n := by
  rw [Nat.shiftRight_and_distrib, Nat.shiftLeft_shiftRight, Nat.and_two_pow_sub_one_eq_mod,
    Nat.shiftRight_eq_div_pow]

theorem testBit_of_dvd {k n i : ℕ} (h : 2 ^ k ∣ n) (hi : i < k) : n.testBit i = false := by
  obtain ⟨m, rfl⟩ := h
  rw [Nat.mul_comm, Nat.testBit_mul_two_pow]
  simp [Nat.not_le_of_lt hi]

end Word
