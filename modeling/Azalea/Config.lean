import Mathlib.Tactic

namespace Azalea

abbrev BYTE := BitVec 8

abbrev QWORD := BitVec 64

@[simp] def wordSize : ℕ := 2 ^ 64

@[simp] def pageMinSize : ℕ := 4 * 1024

@[simp] def configKernelSize : ℕ := 0x40000000

@[simp] def configHighHalfLimit : ℕ := 0xFFFF800000000000

@[simp] def configPageOffset : ℕ := 0xFFFF8000C0000000

@[simp] def configSharedMemory : ℕ := 0xFFFF800000000000

@[simp] def maxProcessorCount : ℕ := 288

@[simp] def configNumThread : ℕ := 32767

@[simp] def maxThreadId : ℕ := maxProcessorCount + configNumThread

@[simp] def enomem : ℤ := 12

def va (gMemoryStart p : ℕ) : ℕ := (p + configPageOffset + (wordSize - gMemoryStart)) % wordSize

def pa (gMemoryStart v : ℕ) : ℕ := (v + (wordSize - configPageOffset) + gMemoryStart) % wordSize

def toInt (n : ℕ) : ℤ := (BitVec.ofNat 32 n).toInt

def intToQword (i : ℤ) : ℕ := (BitVec.ofInt 64 i).toNat

theorem toInt_of_lt {n : ℕ} (h : n < 2 ^ 31) : toInt n = n := by
  rw [toInt, BitVec.toInt_eq_toNat_cond, BitVec.toNat_ofNat]
  rw [Nat.mod_eq_of_lt (by omega), if_pos (by omega)]

theorem intToQword_of_nat {n : ℕ} (h : n < 2 ^ 64) : intToQword n = n := by
  rw [intToQword, BitVec.ofInt_natCast, BitVec.toNat_ofNat, Nat.mod_eq_of_lt h]

end Azalea
