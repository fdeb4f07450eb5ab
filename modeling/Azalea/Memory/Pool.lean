import Azalea.Memory.Heap

namespace Azalea
open Dyadic

theorem toInt_eq (n : ℕ) :
    toInt n = if n % 2 ^ 32 < 2 ^ 31 then ((n % 2 ^ 32 : ℕ) : ℤ)
      else ((n % 2 ^ 32 : ℕ) : ℤ) - 2 ^ 32 := by
  rw [toInt, BitVec.toInt_eq_toNat_cond, BitVec.toNat_ofNat]
  split_ifs <;> omega

theorem intToQword_toInt (n : ℕ) :
    intToQword (toInt n) =
      if n % 2 ^ 32 < 2 ^ 31 then n % 2 ^ 32 else 2 ^ 64 - 2 ^ 32 + n % 2 ^ 32 := by
  rw [intToQword, BitVec.toNat_ofInt, toInt_eq]
  split_ifs with h
  · omega
  · omega

theorem intToQword_toInt_of_lt {n : ℕ} (h : n < 2 ^ 31) : intToQword (toInt n) = n := by
  rw [intToQword_toInt, if_pos (by omega), Nat.mod_eq_of_lt (by omega)]

theorem toNat_toInt_sub {n b : ℕ} (hn : n < 2 ^ 31) (hb : b ≤ 2 ^ 31) :
    (toInt (n + (2 ^ 64 - b))).toNat = n - b := by
  rw [toInt_eq]
  split_ifs <;> omega

namespace MM

theorem initBitmap_test (prior : Bitmap.Bytes) {n k : ℕ} (hk : k / 8 < (n + 7) / 8) :
    Bitmap.test (initBitmap prior n).bitmap k = decide (n % 2 = 1 ∧ k + 1 = n) := by
  rw [Bitmap.test_eq]
  simp only [initBitmap]
  by_cases h1 : k / 8 < n / 8
  · rw [if_pos h1, BitVec.getLsbD_zero]
    symm
    rw [decide_eq_false_iff_not]
    omega
  · rw [if_neg h1, if_pos (by omega)]
    by_cases h2 : n % 8 % 2 = 1
    · have hmask : 1#8 <<< (n % 8 - 1) = Bitmap.mask (n - 1) := by
        rw [Bitmap.mask, show (n - 1) % 8 = n % 8 - 1 by omega]
      rw [if_pos h2, hmask, Bitmap.mask_bit, decide_eq_decide]
      omega
    · rw [if_neg h2, BitVec.getLsbD_zero]
      symm
      rw [decide_eq_false_iff_not]
      omega

theorem initBitmap_count (prior : Bitmap.Bytes) (n : ℕ) :
    (initBitmap prior n).bitmapCount = Bitmap.size (initBitmap prior n).bitmap n := by
  have hzero : Bitmap.size (fun _ => 0#8) n = 0 := by
    by_contra hne
    obtain ⟨k, -, hk⟩ := (Bitmap.size_pos_iff _ _).mp (Nat.pos_of_ne_zero hne)
    simp [Bitmap.test_eq] at hk
  have hclear : ∀ k, Bitmap.test (fun _ => 0#8) k = false := fun k => by simp [Bitmap.test_eq]
  by_cases hodd : n % 2 = 1
  · have hsame : Bitmap.size (initBitmap prior n).bitmap n =
        Bitmap.size (Bitmap.insert (fun _ => 0#8) (n - 1)) n := by
      refine Bitmap.size_congr fun k hk => ?_
      rw [initBitmap_test prior (by omega), Bitmap.test_insert, hclear, Bool.or_false, decide_eq_decide]
      omega
    rw [hsame, Bitmap.size_insert (by omega) (hclear _), hzero]
    exact if_pos (by omega)
  · have hsame : Bitmap.size (initBitmap prior n).bitmap n = Bitmap.size (fun _ => 0#8) n := by
      refine Bitmap.size_congr fun k hk => ?_
      rw [initBitmap_test prior (by omega), hclear, decide_eq_false_iff_not]
      omega
    rw [hsame, hzero]
    exact if_neg (by omega)

section Init
variable (prior : ℕ → BITMAP) (priorIndex : ℤ → BYTE)

@[simp] theorem initPool_smallestBlock (n start stop : ℕ) :
    (initPool prior priorIndex n start stop).smallestBlock = n := rfl

@[simp] theorem initPool_startAddr (n start stop : ℕ) :
    (initPool prior priorIndex n start stop).startAddr = start := rfl

@[simp] theorem initPool_endAddr (n start stop : ℕ) :
    (initPool prior priorIndex n start stop).endAddr = stop := rfl

theorem initPool_bitmap {n l : ℕ} (start stop : ℕ) (hl : 2 ^ l ≤ n) :
    (initPool prior priorIndex n start stop).bitmap l = initBitmap (prior l).bitmap (n >>> l) :=
  if_pos ((lt_levelCount_iff n l).mpr hl)

theorem initPool_freeBlocks (n start stop : ℕ) :
    (initPool prior priorIndex n start stop).freeBlocks = tail n := by
  ext ⟨l, k⟩
  change (Block.mk l k).stop ≤ n ∧ Bitmap.test _ k = true ↔ _
  rw [Block.stop_le_iff]
  simp only [tail, Set.mem_ofPred_eq]
  constructor
  · rintro ⟨hk, ht⟩
    have hpow : 2 ^ l ≤ n := Block.pow_level_le ((Block.stop_le_iff ⟨l, k⟩ n).mpr hk)
    rw [initPool_bitmap prior priorIndex start stop hpow, Nat.shiftRight_eq_div_pow,
      initBitmap_test _ (by omega), decide_eq_true_eq] at ht
    exact ⟨ht.2, ht.1⟩
  · rintro ⟨hk, hodd⟩
    have hlt : k < n / 2 ^ l := by omega
    have hpow : 2 ^ l ≤ n := Block.pow_level_le ((Block.stop_le_iff ⟨l, k⟩ n).mpr hlt)
    refine ⟨hlt, ?_⟩
    rw [initPool_bitmap prior priorIndex start stop hpow, Nat.shiftRight_eq_div_pow,
      initBitmap_test _ (by omega), decide_eq_true_eq]
    exact ⟨hodd, hk⟩

theorem initPool_coherent {n : ℕ} (start stop : ℕ) (hn : n < 2 ^ 31) :
    Coherent (initPool prior priorIndex n start stop) ∅ := by
  refine ⟨rfl, hn, ?_, fun b _ => Set.notMem_empty b, ?_, ?_⟩
  · rw [initPool_freeBlocks, Set.union_empty]
    exact tiling_tail n
  · intro l hl hodd
    change n >>> l % 2 = 1 at hodd
    change Bitmap.test _ (n >>> l) = false
    rw [initPool_bitmap prior priorIndex start stop ((lt_levelCount_iff n l).mp hl),
      initBitmap_test _ (by omega), decide_eq_false_iff_not]
    omega
  · intro l hl
    rw [initPool_bitmap prior priorIndex start stop ((lt_levelCount_iff n l).mp hl)]
    exact initBitmap_count _ _

theorem initPool_valid {n start stop : ℕ} (hn : n < 2 ^ 31) (hs : 0 < start)
    (hroom : start + 2 * (4096 * n) < wordSize) (hfit : start ≤ stop → start + 4096 * n ≤ stop) :
    (Heap.mk (initPool prior priorIndex n start stop) []).Valid := by
  refine ⟨?_, by simp, by simp, by simp, ?_, rfl, hs, hroom, hfit, by simp⟩
  · refine (initPool_coherent prior priorIndex start stop hn).congr fun b => ?_
    simp [Heap.blocks]
  · intro p hp _
    exact if_pos ⟨by omega, by exact_mod_cast hp⟩

theorem bitmapSize_lt (size : ℕ) : bitmapSize size < 2 ^ 20 := by
  simp only [bitmapSize, pageMinSize]
  omega

theorem initArea_valid {freeMemStart freeMemEnd : ℕ} (hlow : 2 ^ 32 ≤ freeMemStart)
    (hhigh : freeMemStart + 2 ^ 46 < 2 ^ 64) (he : freeMemEnd < 2 ^ 64)
    (hN : 0 < (initArea prior priorIndex freeMemStart freeMemEnd).smallestBlock) :
    (Heap.mk (initArea prior priorIndex freeMemStart freeMemEnd) []).Valid := by
  have hb := bitmapSize_lt ((freeMemEnd + (wordSize - freeMemStart)) % wordSize)
  rw [initArea, initPool] at hN
  rw [initArea]
  generalize bitmapSize ((freeMemEnd + (wordSize - freeMemStart)) % wordSize) = x at hb hN ⊢
  simp only [wordSize, pageMinSize, toInt_eq] at hN
  simp only [wordSize, pageMinSize]
  rw [intToQword_toInt, toInt_eq]
  refine initPool_valid prior priorIndex ?_ ?_ ?_ ?_
  · split_ifs <;> omega
  · split_ifs <;> omega
  · simp only [wordSize]
    split_ifs <;> omega
  · split_ifs at hN ⊢ <;> omega

theorem levelBytes_sum_le {q : ℕ} (hq : q < 2 ^ 28) :
    ((List.range (levelCount q)).map fun i => 16 + ((q >>> i) + 7) / 8).sum ≤ 28 * (17 + q / 8) := by
  have hlevels : levelCount q ≤ 28 := by
    by_contra hgt
    have := (lt_levelCount_iff q 28).mp (by omega)
    omega
  have hterm : ∀ x ∈ (List.range (levelCount q)).map fun i => 16 + ((q >>> i) + 7) / 8,
      x ≤ 17 + q / 8 := by
    intro x hx
    obtain ⟨i, -, rfl⟩ := List.mem_map.mp hx
    have : q >>> i ≤ q := by rw [Nat.shiftRight_eq_div_pow]; exact Nat.div_le_self _ _
    omega
  have hsum := List.sum_le_card_nsmul _ _ hterm
  rw [List.length_map, List.length_range, smul_eq_mul] at hsum
  exact hsum.trans (Nat.mul_le_mul_right (17 + q / 8) hlevels)

theorem bitmapSize_le {size : ℕ} (hs : size ≤ 508 * 2 ^ 30) : bitmapSize size ≤ 2 ^ 18 := by
  rw [bitmapSize, pageMinSize]
  generalize hq : size / (4 * 1024) = q
  have hsum := @levelBytes_sum_le q (by omega)
  omega

theorem va_kernel_bounds {gMemoryStart : ℕ} (hs : gMemoryStart < wordSize) :
    2 ^ 32 ≤ va gMemoryStart (gMemoryStart + configKernelSize) ∧
      va gMemoryStart (gMemoryStart + configKernelSize) + 2 ^ 46 < 2 ^ 64 := by
  simp only [va, configKernelSize, configPageOffset, wordSize] at hs ⊢
  omega

theorem freeMemInit_maxLevel {gMemoryStart gMemoryEnd : ℕ}
    (hN : (freeMemInit prior priorIndex gMemoryStart gMemoryEnd).smallestBlock = 0) :
    (freeMemInit prior priorIndex gMemoryStart gMemoryEnd).maxLevel = 0 := by
  change levelCount (freeMemInit prior priorIndex gMemoryStart gMemoryEnd).smallestBlock = 0
  rw [hN]
  rfl

section Memory
variable {gMemoryStart gMemoryEnd : ℕ} (hend : gMemoryEnd < 2 ^ 64)
  (hlow : gMemoryStart + 2 ^ 30 ≤ gMemoryEnd) (hsize : gMemoryEnd - gMemoryStart ≤ 509 * 2 ^ 30)
include hend hlow hsize

theorem freeMemInit_eq : ∃ bitmap, bitmap = (bitmapSize (gMemoryEnd - gMemoryStart - 2 ^ 30) + (512 - 1)) / 512 * 512 ∧
    bitmap ≤ 2 ^ 18 ∧ freeMemInit prior priorIndex gMemoryStart gMemoryEnd =
      initPool prior priorIndex ((gMemoryEnd - gMemoryStart - 2 ^ 30) / 4096 - bitmap)
        (configPageOffset + 2 ^ 30 + bitmap * 4096) (configPageOffset + (gMemoryEnd - gMemoryStart)) := by
  have h1 : va gMemoryStart (gMemoryStart + configKernelSize) = configPageOffset + 2 ^ 30 := by
    simp only [va, configKernelSize, configPageOffset, wordSize]
    omega
  have h2 : va gMemoryStart gMemoryEnd = configPageOffset + (gMemoryEnd - gMemoryStart) := by
    simp only [va, configPageOffset, wordSize]
    omega
  have h3 : (configPageOffset + (gMemoryEnd - gMemoryStart) +
      (wordSize - (configPageOffset + 2 ^ 30))) % wordSize =
      gMemoryEnd - gMemoryStart - 2 ^ 30 := by
    simp only [configPageOffset, wordSize]
    omega
  have hb := @bitmapSize_le (gMemoryEnd - gMemoryStart - 2 ^ 30) (by omega)
  have hsmall : configPageOffset + 2 ^ 40 < 2 ^ 64 := by decide
  refine ⟨_, rfl, by omega, ?_⟩
  rw [freeMemInit, initArea, h1, h2, h3, wordSize, pageMinSize]
  rw [intToQword_toInt_of_lt (by omega), toNat_toInt_sub (by omega) (by omega)]
  generalize configPageOffset = offset at hsmall ⊢
  rw [Nat.mod_eq_of_lt (by omega)]

theorem freeMemInit_valid :
    (Heap.mk (freeMemInit prior priorIndex gMemoryStart gMemoryEnd) []).Valid := by
  obtain ⟨bitmap, -, hb, he⟩ := freeMemInit_eq prior priorIndex hend hlow hsize
  rw [he]
  have hsmall : configPageOffset + 2 ^ 46 < wordSize := by decide
  generalize configPageOffset = offset at hsmall ⊢
  refine initPool_valid prior priorIndex ?_ ?_ ?_ ?_
  all_goals omega

theorem freeMemInit_bounds :
    configPageOffset + 2 ^ 30 ≤ (freeMemInit prior priorIndex gMemoryStart gMemoryEnd).startAddr ∧
      4096 ∣ (freeMemInit prior priorIndex gMemoryStart gMemoryEnd).startAddr ∧
      (0 < (freeMemInit prior priorIndex gMemoryStart gMemoryEnd).smallestBlock →
        gMemoryStart + ((freeMemInit prior priorIndex gMemoryStart gMemoryEnd).startAddr +
          4096 * (freeMemInit prior priorIndex gMemoryStart gMemoryEnd).smallestBlock) ≤
          configPageOffset + wordSize) ∧
      (0 < (freeMemInit prior priorIndex gMemoryStart gMemoryEnd).smallestBlock →
        (freeMemInit prior priorIndex gMemoryStart gMemoryEnd).startAddr ≤
          (freeMemInit prior priorIndex gMemoryStart gMemoryEnd).endAddr) := by
  obtain ⟨bitmap, -, hb, he⟩ := freeMemInit_eq prior priorIndex hend hlow hsize
  rw [he, initPool_startAddr, initPool_smallestBlock, initPool_endAddr]
  have hoff : 4096 ∣ configPageOffset := by decide
  simp only [wordSize]
  generalize configPageOffset = offset at hoff ⊢
  omega

end Memory

end Init
end MM

namespace Heap

structure Sound (h : Heap) : Prop where
  partition : Tiling (h.mm.freeBlocks ∪ h.blocks) h.mm.smallestBlock
  separate : ∀ b ∈ h.mm.freeBlocks, b ∉ h.blocks
  disjoint : h.handed.Pairwise fun x y =>
    x.address + x.size ≤ y.address ∨ y.address + y.size ≤ x.address
  pages : ∀ x ∈ h.handed, x.size = pageMinSize * 2 ^ (x.block h.mm.startAddr).level ∧
    x.address = h.mm.startAddr + pageMinSize * (x.block h.mm.startAddr).first
  inside : ∀ x ∈ h.handed, h.mm.startAddr ≤ x.address ∧ x.address + x.size ≤ h.mm.endAddr
  aligned : ∀ x ∈ h.handed, x.size ∣ x.address - h.mm.startAddr
  enough : ∀ x ∈ h.handed, x.request ≤ x.size
  counts : ∀ l < h.mm.maxLevel, (h.mm.bitmap l).bitmapCount =
    Bitmap.size (h.mm.bitmap l).bitmap (h.mm.smallestBlock >>> l)
  head : ∀ x ∈ h.handed, h.mm.blockIndex (h.mm.page x.address : ℤ) =
    BitVec.ofNat 8 (x.block h.mm.startAddr).level ∧ (x.block h.mm.startAddr).level < 0xFF
  rest : ∀ p < h.mm.smallestBlock, (∀ x ∈ h.handed, h.mm.page x.address ≠ p) →
    h.mm.blockIndex (p : ℤ) = 0xFF#8
  used : h.mm.usedSize = (h.handed.map Handed.size).sum
  refused : ∀ address, h.mm.InPool address →
    (∀ x ∈ h.handed, h.mm.page x.address ≠ h.mm.page address) →
    h.mm.azFree address = (h.mm, false)

theorem Valid.disjoint {h : Heap} (v : h.Valid) : h.handed.Pairwise fun x y =>
    x.address + x.size ≤ y.address ∨ y.address + y.size ≤ x.address := by
  have hne := List.pairwise_map.mp v.nodup
  exact hne.imp_of_mem fun {x y} hx hy hxy => v.apart hx hy hxy

theorem Valid.sound {h : Heap} (v : h.Valid) : h.Sound where
  partition := v.coherent.tiling
  separate := v.coherent.apart
  disjoint := v.disjoint
  pages := fun x hx => ⟨(v.fit x hx).size, (v.fit x hx).address⟩
  inside := by
    intro x hx
    have hfit := v.fit x hx
    have hstop := v.block_inside hx
    have hend := v.fits (v.placed (List.ne_nil_of_mem hx))
    rw [Block.stop_eq] at hstop
    rw [hfit.size, hfit.address]
    omega
  aligned := by
    intro x hx
    have hfit := v.fit x hx
    rw [hfit.address, Nat.add_sub_cancel_left, hfit.size, Block.first]
    exact Nat.mul_dvd_mul_left _ (Nat.dvd_mul_left _ _)
  enough := fun x hx => (v.fit x hx).request
  counts := v.coherent.counts
  head := by
    intro x hx
    rw [v.page_eq hx]
    exact ⟨v.head x hx, (v.fit x hx).level.trans_lt (by decide)⟩
  rest := fun p hp hnone => v.rest p hp fun x hx => v.page_eq hx ▸ hnone x hx
  used := v.used
  refused := fun _ => v.free_unassigned

theorem freeMemInit_run_sound (prior : ℕ → BITMAP) (priorIndex : ℤ → BYTE)
    (gMemoryStart gMemoryEnd : ℕ) (hs : gMemoryStart < wordSize)
    (hN : 0 < (MM.freeMemInit prior priorIndex gMemoryStart gMemoryEnd).smallestBlock) {h : Heap}
    (hr : Run ⟨MM.freeMemInit prior priorIndex gMemoryStart gMemoryEnd, []⟩ h) : h.Sound := by
  obtain ⟨hlow, hhigh⟩ := MM.va_kernel_bounds hs
  have hend : va gMemoryStart gMemoryEnd < 2 ^ 64 := Nat.mod_lt _ (by decide)
  exact Valid.sound (Valid.run (MM.initArea_valid prior priorIndex hlow hhigh hend hN) hr)

def boot : Heap :=
  ⟨MM.freeMemInit (fun _ => ⟨fun _ => 0#8, 0⟩) (fun _ => 0#8) 0x140000000 0x240000000, []⟩

theorem boot_free_alloc_sound :
    ((boot.call (.free 0xFFFF800100200000)).call (.alloc 5000)).Sound := by
  have hfree : boot.Legal (.free 0xFFFF800100200000) :=
    ⟨by decide +kernel, by decide +kernel⟩
  have hrun : Run boot ((boot.call (.free 0xFFFF800100200000)).call (.alloc 5000)) :=
    (Relation.ReflTransGen.single ⟨_, hfree, rfl⟩).tail ⟨_, Nat.le_of_ble_eq_true rfl, rfl⟩
  exact freeMemInit_run_sound _ _ 0x140000000 0x240000000 (by decide) (by decide +kernel) hrun

end Heap
end Azalea
