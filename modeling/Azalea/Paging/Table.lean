import Azalea.Config
import Azalea.Foundation.Word

namespace Azalea
open Word

abbrev Mem := ℕ → ℕ

@[simp] def pageFlagsP : ℕ := 0x1

@[simp] def pageFlagsRW : ℕ := 0x2

@[simp] def pageFlagsUS : ℕ := 0x4

@[simp] def pageFlagsPCD : ℕ := 0x10

@[simp] def pageFlagsPS : ℕ := 0x80

@[simp] def pageFlagsDefault : ℕ := pageFlagsP ||| pageFlagsRW

@[simp] def pageFlagsNocache : ℕ := pageFlagsP ||| pageFlagsRW ||| pageFlagsPCD

@[simp] def pageMaxEntryCount : ℕ := 512

@[simp] def pageSize4K : ℕ := 0x1000

@[simp] def pageSize2M : ℕ := 0x200000

@[simp] def pageSize1G : ℕ := 0x40000000

def configKernelPagetableAddress (gMemoryStart : ℕ) : ℕ := 0x200000 + gMemoryStart

def sharedMemoryPa (gSharedMemory v : ℕ) : ℕ :=
  (v + (wordSize - configSharedMemory) + gSharedMemory) % wordSize

def getPaHighHalf (gMemoryStart gSharedMemory v : ℕ) : ℕ :=
  if v < configPageOffset then sharedMemoryPa gSharedMemory v else pa gMemoryStart v

def slot (table index : ℕ) : ℕ := table + 8 * index

def present (entry : ℕ) : Bool := entry.testBit 0

def large (entry : ℕ) : Bool := entry.testBit 7

def pml4Index (v : ℕ) : ℕ := (v &&& 0xff8000000000) >>> 39

def pdptIndex (v : ℕ) : ℕ := (v &&& 0x007fc0000000) >>> 30

def pdeIndex (v : ℕ) : ℕ := (v &&& 0x00003fe00000) >>> 21

def pteIndex (v : ℕ) : ℕ := (v &&& 0x0000001ff000) >>> 12

theorem pml4Index_eq (v : ℕ) : pml4Index v = v / 2 ^ 39 % 512 := and_mask_shift v 39 9

theorem pdptIndex_eq (v : ℕ) : pdptIndex v = v / 2 ^ 30 % 512 := and_mask_shift v 30 9

theorem pdeIndex_eq (v : ℕ) : pdeIndex v = v / 2 ^ 21 % 512 := and_mask_shift v 21 9

theorem pteIndex_eq (v : ℕ) : pteIndex v = v / 2 ^ 12 % 512 := and_mask_shift v 12 9

def walkPt (mem : Mem) (pt v : ℕ) : Option ℕ :=
  let entry := mem (slot pt (v / 2 ^ 12 % 512))
  if present entry = false then none else some (clearLow 12 entry + v % 2 ^ 12)

def walkPd (mem : Mem) (pd v : ℕ) : Option ℕ :=
  let entry := mem (slot pd (v / 2 ^ 21 % 512))
  if present entry = false then none
  else if large entry = true then some (clearLow 21 entry + v % 2 ^ 21)
  else walkPt mem (clearLow 12 entry) v

def walkPdpt (mem : Mem) (pdpt v : ℕ) : Option ℕ :=
  let entry := mem (slot pdpt (v / 2 ^ 30 % 512))
  if present entry = false then none
  else if large entry = true then some (clearLow 30 entry + v % 2 ^ 30)
  else walkPd mem (clearLow 12 entry) v

def walk (mem : Mem) (cr3 v : ℕ) : Option ℕ :=
  let entry := mem (slot cr3 (v / 2 ^ 39 % 512))
  if present entry = false then none else walkPdpt mem (clearLow 12 entry) v

def setPageEntryData (mem : Mem) (entry baseAddress flags : ℕ) : Mem :=
  Function.update mem entry (baseAddress ||| flags)

def fill (table step flags : ℕ) : ℕ → Mem → ℕ → ℕ → Mem × ℕ
  | 0, mem, _, mappingAddress => (mem, mappingAddress)
  | count + 1, mem, i, mappingAddress =>
    fill table step flags count (setPageEntryData mem (slot table i) mappingAddress flags) (i + 1)
      ((mappingAddress + step) % wordSize)

theorem slot_inj {table i j : ℕ} : slot table i = slot table j ↔ i = j := by
  unfold slot
  omega

theorem fill_other {table step flags count : ℕ} {mem : Mem} {i m a : ℕ}
    (h : ∀ j, i ≤ j → j < i + count → a ≠ slot table j) :
    (fill table step flags count mem i m).1 a = mem a := by
  induction count generalizing mem i m with
  | zero => rfl
  | succ count ih =>
    rw [fill, ih fun j hj hlt => h j (by omega) (by omega)]
    exact Function.update_of_ne (h i le_rfl (by omega)) _ _

theorem add_step {m step i j : ℕ} (h : i < j) : m + step + (j - (i + 1)) * step = m + (j - i) * step := by
  rw [show j - i = j - (i + 1) + 1 by omega, Nat.add_mul]
  omega

theorem fill_slot {table step flags count : ℕ} {mem : Mem} {i m j : ℕ} (hi : i ≤ j)
    (hj : j < i + count) (hm : m < wordSize) :
    (fill table step flags count mem i m).1 (slot table j) =
      (m + (j - i) * step) % wordSize ||| flags := by
  induction count generalizing mem i m with
  | zero => omega
  | succ count ih =>
    rw [fill]
    rcases hi.lt_or_eq with hlt | rfl
    · rw [ih hlt (by omega) (Nat.mod_lt _ (by decide)), Nat.mod_add_mod, add_step hlt]
    · rw [fill_other fun k hk _ => by rw [ne_eq, slot_inj]; omega]
      rw [setPageEntryData, Function.update_self, Nat.sub_self, Nat.zero_mul, Nat.add_zero,
        Nat.mod_eq_of_lt hm]

theorem fill_address (table step flags count : ℕ) (mem : Mem) (i : ℕ) {m : ℕ} (hm : m < wordSize) :
    (fill table step flags count mem i m).2 = (m + count * step) % wordSize := by
  induction count generalizing mem i m with
  | zero => rw [fill, Nat.zero_mul, Nat.add_zero, Nat.mod_eq_of_lt hm]
  | succ count ih =>
    rw [fill, ih _ _ (Nat.mod_lt _ (by decide)), Nat.mod_add_mod, Nat.add_mul, Nat.one_mul,
      Nat.add_assoc, Nat.add_comm step]

theorem fill_outside {table step flags count : ℕ} {mem : Mem} {i m a : ℕ}
    (h : a < slot table i ∨ slot table (i + count) ≤ a) :
    (fill table step flags count mem i m).1 a = mem a := by
  refine fill_other fun j hj hlt he => ?_
  unfold slot at h he
  omega

theorem set_self (mem : Mem) (entry base flags : ℕ) :
    setPageEntryData mem entry base flags entry = base ||| flags :=
  Function.update_self entry _ mem

theorem set_other {mem : Mem} {entry base flags a : ℕ} (h : a ≠ entry) :
    setPageEntryData mem entry base flags a = mem a :=
  Function.update_of_ne h _ _

theorem present_or {b f : ℕ} (h : f.testBit 0 = true) : present (b ||| f) = true := by
  rw [present, Nat.testBit_or, h, Bool.or_true]

theorem large_or {b f : ℕ} (h : f.testBit 7 = true) : large (b ||| f) = true := by
  rw [large, Nat.testBit_or, h, Bool.or_true]

theorem not_large_or {b f : ℕ} (hb : 2 ^ 12 ∣ b) (h : f.testBit 7 = false) : large (b ||| f) = false := by
  rw [large, Nat.testBit_or, h, testBit_of_dvd hb (by decide), Bool.or_false]

section Levels
variable {mem : Mem} {table b f v : ℕ}

theorem clearLow_entry {k : ℕ} (hb : 2 ^ k ∣ b) (hf : f < 2 ^ k) : clearLow k (b ||| f) = b := by
  rw [clearLow_or hf, clearLow_of_dvd hb]

theorem walk_table (h : mem (slot table (v / 2 ^ 39 % 512)) = b ||| f) (hb : 2 ^ 12 ∣ b)
    (hf : f < 2 ^ 12) (hp : f.testBit 0 = true) : walk mem table v = walkPdpt mem b v := by
  simp only [walk, h, present_or hp, clearLow_entry hb hf]
  rfl

theorem walkPdpt_table (h : mem (slot table (v / 2 ^ 30 % 512)) = b ||| f) (hb : 2 ^ 12 ∣ b)
    (hf : f < 2 ^ 12) (hp : f.testBit 0 = true) (hl : f.testBit 7 = false) :
    walkPdpt mem table v = walkPd mem b v := by
  simp only [walkPdpt, h, present_or hp, not_large_or hb hl, clearLow_entry hb hf]
  rfl

theorem walkPdpt_page (h : mem (slot table (v / 2 ^ 30 % 512)) = b ||| f)
    (hf : f < 2 ^ 30) (hp : f.testBit 0 = true) (hl : f.testBit 7 = true) :
    walkPdpt mem table v = some (clearLow 30 b + v % 2 ^ 30) := by
  simp only [walkPdpt, h, present_or hp, large_or hl, clearLow_or hf]
  rfl

theorem walkPd_page (h : mem (slot table (v / 2 ^ 21 % 512)) = b ||| f)
    (hf : f < 2 ^ 21) (hp : f.testBit 0 = true) (hl : f.testBit 7 = true) :
    walkPd mem table v = some (clearLow 21 b + v % 2 ^ 21) := by
  simp only [walkPd, h, present_or hp, large_or hl, clearLow_or hf]
  rfl

end Levels

end Azalea
