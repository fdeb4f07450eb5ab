import Azalea.Memory.Pool

namespace Azalea
namespace MM
variable {mm : MM} {freeMemStart i j n : ℕ}

def levelBytes (blockCount : ℕ) : ℕ := blockCount / 8 + if blockCount % 8 ≠ 0 then 1 else 0

def curBitmap (mm : MM) (freeMemStart : ℕ) : ℕ → ℕ
  | 0 => freeMemStart + mm.smallestBlock + 16 * mm.maxLevel
  | j + 1 => curBitmap mm freeMemStart j + levelBytes (mm.smallestBlock >>> j)

def InLevel (mm : MM) (freeMemStart j address : ℕ) : Prop :=
  mm.curBitmap freeMemStart j ≤ address ∧ address < mm.curBitmap freeMemStart (j + 1)

def wordBytes (maxCount i : ℕ) : List ℕ := if 0 < (maxCount - i) / 64 then (List.range 8).map (i / 8 + ·) else []

def scanBytes (bitmap : Bitmap.Bytes) (maxCount : ℕ) : ℕ → ℕ → List ℕ
  | 0, _ => []
  | fuel + 1, i =>
    if i < maxCount then
      if 0 < (maxCount - i) / 64 ∧ Bitmap.wordIsZero bitmap (i / 8) = true then
        wordBytes maxCount i ++ scanBytes bitmap maxCount fuel (i + 64)
      else if Bitmap.test bitmap i = true then wordBytes maxCount i ++ [i / 8]
      else wordBytes maxCount i ++ (i / 8) :: scanBytes bitmap maxCount fuel (i + 1)
    else []

def findFreeBlockBytes (mm : MM) (blockListIndex : ℕ) : List ℕ :=
  if (mm.bitmap blockListIndex).bitmapCount = 0 then []
  else
    let maxCount := mm.smallestBlock >>> blockListIndex
    scanBytes (mm.bitmap blockListIndex).bitmap maxCount maxCount 0

def scanSkips (bitmap : Bitmap.Bytes) (maxCount : ℕ) : ℕ → ℕ → List ℕ
  | 0, _ => []
  | fuel + 1, i =>
    if i < maxCount then
      if 0 < (maxCount - i) / 64 ∧ Bitmap.wordIsZero bitmap (i / 8) = true then
        i :: scanSkips bitmap maxCount fuel (i + 64)
      else if Bitmap.test bitmap i = true then []
      else scanSkips bitmap maxCount fuel (i + 1)
    else []

def findFreeBlockSkips (mm : MM) (blockListIndex : ℕ) : List ℕ :=
  if (mm.bitmap blockListIndex).bitmapCount = 0 then []
  else
    let maxCount := mm.smallestBlock >>> blockListIndex
    scanSkips (mm.bitmap blockListIndex).bitmap maxCount maxCount 0

structure Reserved (mm : MM) (freeMemStart : ℕ) : Prop where
  stop : mm.curBitmap freeMemStart mm.maxLevel ≤ mm.startAddr
  pages : mm.startAddr + mm.smallestBlock * pageMinSize = mm.endAddr
  apart : ∀ i j, i < j → mm.curBitmap freeMemStart (i + 1) ≤ mm.curBitmap freeMemStart j
  flags : ∀ j, ∀ offset < mm.smallestBlock >>> j,
    mm.InLevel freeMemStart j (mm.curBitmap freeMemStart j + offset / 8) ∧
      mm.InLevel freeMemStart j (mm.curBitmap freeMemStart j + buddyOf offset / 8)
  words : ∀ bitmap j, ∀ byte ∈ ({ mm with bitmap := bitmap } : MM).findFreeBlockBytes j,
    mm.InLevel freeMemStart j (mm.curBitmap freeMemStart j + byte)

theorem levelBytes_eq (blockCount : ℕ) : levelBytes blockCount = (blockCount + 7) / 8 := by
  unfold levelBytes
  split_ifs <;> omega

theorem curBitmap_mono (h : i ≤ j) : mm.curBitmap freeMemStart i ≤ mm.curBitmap freeMemStart j := by
  induction h with
  | refl => exact le_rfl
  | step _ ih => exact ih.trans (Nat.le_add_right _ _)

theorem inLevel_of_lt {byte : ℕ} (h : byte < levelBytes (mm.smallestBlock >>> j)) :
    mm.InLevel freeMemStart j (mm.curBitmap freeMemStart j + byte) :=
  ⟨Nat.le_add_right _ _, Nat.add_lt_add_left h _⟩

theorem buddyOf_div (offset : ℕ) : buddyOf offset / 8 = offset / 8 := by
  unfold buddyOf
  split_ifs <;> omega

theorem wordBytes_lt {maxCount byte : ℕ} (h : byte ∈ wordBytes maxCount i) : byte < levelBytes maxCount := by
  unfold wordBytes at h
  rw [levelBytes_eq]
  split_ifs at h with hword
  · obtain ⟨b, hb, rfl⟩ := List.mem_map.mp h
    have := List.mem_range.mp hb
    omega
  · cases h

theorem flagByte_lt {maxCount : ℕ} (h : i < maxCount) : i / 8 < levelBytes maxCount := by
  rw [levelBytes_eq]
  omega

theorem scanBytes_lt (bitmap : Bitmap.Bytes) (maxCount fuel i : ℕ) :
    ∀ byte ∈ scanBytes bitmap maxCount fuel i, byte < levelBytes maxCount := by
  induction fuel generalizing i with
  | zero =>
    intro byte hb
    cases hb
  | succ fuel ih =>
    intro byte hb
    rw [scanBytes] at hb
    split_ifs at hb with hi hskip ht
    · rcases List.mem_append.mp hb with hb | hb
      · exact wordBytes_lt hb
      · exact ih _ byte hb
    · rcases List.mem_append.mp hb with hb | hb
      · exact wordBytes_lt hb
      · rw [List.mem_singleton.mp hb]
        exact flagByte_lt hi
    · rcases List.mem_append.mp hb with hb | hb
      · exact wordBytes_lt hb
      · rcases List.mem_cons.mp hb with rfl | hb
        · exact flagByte_lt hi
        · exact ih _ byte hb
    · cases hb

theorem findFreeBlockBytes_lt {l byte : ℕ} (h : byte ∈ mm.findFreeBlockBytes l) :
    byte < levelBytes (mm.smallestBlock >>> l) := by
  unfold findFreeBlockBytes at h
  split_ifs at h
  · cases h
  · exact scanBytes_lt _ _ _ _ byte h

theorem scanSkips_clear (bitmap : Bitmap.Bytes) (maxCount fuel i : ℕ) (h : Scanned bitmap maxCount i) :
    ∀ j ∈ scanSkips bitmap maxCount fuel i,
      j + 64 ≤ maxCount ∧ ∀ k, j ≤ k → k < j + 64 → Bitmap.test bitmap k = false := by
  induction fuel generalizing i with
  | zero =>
    intro j hj
    cases hj
  | succ fuel ih =>
    intro j hj
    rw [scanSkips] at hj
    split_ifs at hj with hi hskip ht
    · rcases List.mem_cons.mp hj with rfl | hj
      · exact ⟨by omega, (h.window hskip.1 hskip.2).2⟩
      · exact ih _ (h.skip hskip.1 hskip.2) j hj
    · cases hj
    · exact ih _ (h.next hskip ht) j hj
    · cases hj

theorem findFreeBlock_eq_scan {l : ℕ}
    (hcount : (mm.bitmap l).bitmapCount = Bitmap.size (mm.bitmap l).bitmap (mm.smallestBlock >>> l)) :
    mm.findFreeBlock l = (List.range (mm.smallestBlock >>> l)).find? (Bitmap.test (mm.bitmap l).bitmap) ∧
      Bitmap.IsFirst (mm.bitmap l).bitmap (mm.smallestBlock >>> l) (mm.findFreeBlock l) ∧
      (∀ i ∈ mm.findFreeBlockSkips l, i + 64 ≤ mm.smallestBlock >>> l ∧
        ∀ k, i ≤ k → k < i + 64 → Bitmap.test (mm.bitmap l).bitmap k = false) ∧
      ∀ byte ∈ mm.findFreeBlockBytes l, byte < (mm.smallestBlock >>> l + 7) / 8 := by
  have hfirst := findFreeBlock_isFirst_of_count hcount
  refine ⟨hfirst.eq_find, hfirst, fun i hi => ?_, fun byte hb => ?_⟩
  · unfold findFreeBlockSkips at hi
    split_ifs at hi
    · cases hi
    · exact scanSkips_clear _ _ _ 0 (Scanned.start _ _) i hi
  · rw [← levelBytes_eq]
    exact findFreeBlockBytes_lt hb

theorem one_bit_eq_scan :
    let mm : MM := ⟨1, 77, 0, 0, 0, fun _ => 0#8, fun _ => ⟨Bitmap.insert (fun _ => 0#8) 70, 1⟩⟩
    mm.findFreeBlock 0 = some 70 ∧ mm.findFreeBlockSkips 0 = [0] ∧
      mm.findFreeBlock 0 = (List.range 77).find? (Bitmap.test (mm.bitmap 0).bitmap) := by
  refine ⟨by decide +kernel, by decide +kernel, (findFreeBlock_eq_scan ?_).1⟩
  decide +kernel

def metadataBytes (n : ℕ) : ℕ := n + ((List.range (levelCount n)).map fun i => 16 + ((n >>> i) + 7) / 8).sum

theorem curBitmap_eq (mm : MM) (freeMemStart j : ℕ) : mm.curBitmap freeMemStart j =
    freeMemStart + mm.smallestBlock + 16 * mm.maxLevel +
      ((List.range j).map fun i => ((mm.smallestBlock >>> i) + 7) / 8).sum := by
  induction j with
  | zero => rfl
  | succ j ih =>
    rw [curBitmap, ih, levelBytes_eq, List.range_succ, List.map_append, List.sum_append, List.map_singleton,
      List.sum_singleton, Nat.add_assoc]

theorem curBitmap_maxLevel (hl : mm.maxLevel = levelCount mm.smallestBlock) :
    mm.curBitmap freeMemStart mm.maxLevel = freeMemStart + metadataBytes mm.smallestBlock := by
  rw [curBitmap_eq, metadataBytes, List.sum_map_add, List.map_const', List.sum_replicate, List.length_range, ← hl,
    smul_eq_mul]
  omega

theorem levelCount_mono {n m : ℕ} (h : n ≤ m) : levelCount n ≤ levelCount m := by
  by_contra hlt
  have h1 := (lt_levelCount_iff n (levelCount m)).mp (by omega)
  exact absurd ((lt_levelCount_iff m _).mpr (h1.trans h)) (lt_irrefl _)

theorem metadataBytes_mono {n m : ℕ} (h : n ≤ m) : metadataBytes n ≤ metadataBytes m := by
  have hterm : ((List.range (levelCount n)).map fun i => 16 + ((n >>> i) + 7) / 8).sum ≤
      ((List.range (levelCount n)).map fun i => 16 + ((m >>> i) + 7) / 8).sum := by
    refine List.sum_le_sum fun i _ => ?_
    have : n >>> i ≤ m >>> i := by
      rw [Nat.shiftRight_eq_div_pow, Nat.shiftRight_eq_div_pow]
      exact Nat.div_le_div_right h
    omega
  have hlevels := ((List.range_sublist.mpr (levelCount_mono h)).map fun i => 16 + ((m >>> i) + 7) / 8).sum_le_sum
    fun _ _ => Nat.zero_le _
  unfold metadataBytes
  omega

theorem bitmapSize_eq {size : ℕ} (hs : size ≤ 508 * 2 ^ 30) :
    bitmapSize size = (metadataBytes (size / 4096) + 4095) / 4096 := by
  rw [bitmapSize, metadataBytes, pageMinSize]
  rw [show 4 * 1024 = 4096 from rfl]
  generalize hq : size / 4096 = q
  have hsum := @levelBytes_sum_le q (by omega)
  omega

theorem freeMemInit_reserved (prior : ℕ → BITMAP) (priorIndex : ℤ → BYTE) {gMemoryStart gigabytes : ℕ}
    (h1 : 1 ≤ gigabytes) (h508 : gigabytes ≤ 508)
    (hend : gMemoryStart + configKernelSize + gigabytes * 2 ^ 30 < wordSize) :
    (freeMemInit prior priorIndex gMemoryStart (gMemoryStart + configKernelSize + gigabytes * 2 ^ 30)).Reserved
      (va gMemoryStart (gMemoryStart + configKernelSize)) := by
  have hkernel : configKernelSize = 2 ^ 30 := by decide
  have hva : va gMemoryStart (gMemoryStart + configKernelSize) = configPageOffset + 2 ^ 30 := by
    simp only [va, configKernelSize, configPageOffset, wordSize] at hend ⊢
    omega
  rw [hva, hkernel]
  rw [hkernel, wordSize] at hend
  have hlow : gMemoryStart + 2 ^ 30 ≤ gMemoryStart + 2 ^ 30 + gigabytes * 2 ^ 30 := Nat.le_add_right _ _
  obtain ⟨bitmap, hbitmap, hle, heq⟩ := freeMemInit_eq prior priorIndex hend hlow (by omega)
  have hsub : gMemoryStart + 2 ^ 30 + gigabytes * 2 ^ 30 - gMemoryStart - 2 ^ 30 = gigabytes * 2 ^ 30 := by omega
  rw [hsub] at hbitmap heq
  rw [bitmapSize_eq (by omega)] at hbitmap
  rw [heq]
  generalize hN : gigabytes * 2 ^ 30 / 4096 - bitmap = N
  have hmono : metadataBytes N ≤ metadataBytes (gigabytes * 2 ^ 30 / 4096) := metadataBytes_mono (by omega)
  have hsum := @levelBytes_sum_le (gigabytes * 2 ^ 30 / 4096) (by omega)
  refine ⟨?_, ?_, fun i j hij => curBitmap_mono hij, fun j offset ho => ?_, fun bits j byte hb => ?_⟩
  · rw [curBitmap_maxLevel rfl]
    simp only [initPool_smallestBlock, initPool_startAddr]
    omega
  · simp only [initPool_smallestBlock, initPool_startAddr, initPool_endAddr, pageMinSize]
    unfold metadataBytes at hbitmap
    omega
  · rw [buddyOf_div]
    exact ⟨inLevel_of_lt (flagByte_lt ho), inLevel_of_lt (flagByte_lt ho)⟩
  · have hlt := findFreeBlockBytes_lt hb
    exact inLevel_of_lt hlt

theorem four_gigabytes_reserved :
    (freeMemInit (fun _ => ⟨fun _ => 0#8, 0⟩) (fun _ => 0#8) 0x140000000
      (0x140000000 + configKernelSize + 4 * 2 ^ 30)).Reserved (va 0x140000000 (0x140000000 + configKernelSize)) :=
  freeMemInit_reserved _ _ (by decide) (by decide) (by decide)

end MM
end Azalea
