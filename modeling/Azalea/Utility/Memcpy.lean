import Azalea.Config
import Azalea.Foundation.Bytes

namespace Azalea

open Bytes (Within Apart move)

def copyQwords (mem : Bytes.Mem 64) (destination source : QWORD) : ℕ → Bytes.Mem 64
  | 0 => mem
  | i + 1 =>
    let mem := copyQwords mem destination source i
    Bytes.store mem (destination + .ofNat 64 (8 * i)) 8 (Bytes.load mem (source + .ofNat 64 (8 * i)) 8)

def copyChars (mem : Bytes.Mem 64) (destination source : QWORD) (remainByte : ℕ) : ℕ → Bytes.Mem 64
  | 0 => mem
  | i + 1 =>
    let mem := copyChars mem destination source remainByte i
    Bytes.store mem (destination + .ofNat 64 (remainByte + i)) 1
      (Bytes.load mem (source + .ofNat 64 (remainByte + i)) 1)

def lkMemcpy (mem : Bytes.Mem 64) (destination source : QWORD) (size : ℤ) : Bytes.Mem 64 :=
  let i := (size.tdiv 8).toNat
  copyChars (copyQwords mem destination source i) destination source (8 * i) (size.tmod 8).toNat

variable {mem : Bytes.Mem 64} {destination source : QWORD} {n i : ℕ}

theorem copyQwords_eq (h : Apart source (8 * n) destination (8 * n)) (hn : 8 * n ≤ 2 ^ 64) :
    copyQwords mem destination source n = move mem destination source (8 * n) := by
  induction n with
  | zero => exact (Bytes.move_zero ..).symm
  | succ n ih =>
    rw [copyQwords, ih (h.mono (by omega) (by omega)) (by omega), Bytes.store_load,
      Bytes.move_append (n := 8 * n) (k := 8) h hn]
    rfl

theorem copyChars_eq (h : Apart source (n + i) destination (n + i)) (hn : n + i ≤ 2 ^ 64) :
    copyChars (move mem destination source n) destination source n i = move mem destination source (n + i) := by
  induction i with
  | zero => rfl
  | succ i ih =>
    rw [copyChars, ih (h.mono (by omega) (by omega)) (by omega), Bytes.store_load,
      Bytes.move_append (n := n + i) (k := 1) h hn]
    rfl

theorem toNat_tdiv_eight (n : ℕ) : ((n : ℤ).tdiv 8).toNat = n / 8 := by
  rw [← Nat.cast_ofNat, ← Int.ofNat_tdiv, Int.toNat_natCast]

theorem toNat_tmod_eight (n : ℕ) : ((n : ℤ).tmod 8).toNat = n % 8 := by
  rw [← Nat.cast_ofNat, ← Int.ofNat_tmod, Int.toNat_natCast]

theorem lkMemcpy_eq (h : Apart source n destination n) (hn : n ≤ 2 ^ 64) :
    lkMemcpy mem destination source n = move mem destination source n := by
  have hsum : 8 * (n / 8) + n % 8 = n := Nat.div_add_mod n 8
  rw [lkMemcpy, toNat_tdiv_eight, toNat_tmod_eight, copyQwords_eq (h.mono (by omega) (by omega)) (by omega),
    copyChars_eq (by rwa [hsum]) (by rwa [hsum]), hsum]

end Azalea
