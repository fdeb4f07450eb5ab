import Azalea.Memory.Canonical

namespace Azalea
namespace MM
open Dyadic

variable {mm : MM} {used : Set Block} {size : ℕ}

theorem pageShl_nineteen : pageShl 19 = wordSize - 2 ^ 31 := by decide

theorem pageShl_zero {i : ℕ} (h : 20 ≤ i) : pageShl i = 0 := by
  have hshift : 4096#32 <<< i = 0#32 := by
    apply BitVec.eq_of_toNat_eq
    obtain ⟨k, rfl⟩ := Nat.exists_eq_add_of_le h
    simp only [BitVec.toNat_shiftLeft, BitVec.toNat_ofNat, Nat.shiftLeft_eq, pow_add]
    omega
  rw [pageShl, hshift]
  rfl

def Least (maxLevel size i : ℕ) : Prop := i < maxLevel ∧ size ≤ 4096 * 2 ^ i ∧ ∀ j < i, 4096 * 2 ^ j < size

structure SizesSound (mm : MM) (size : ℕ) : Prop where
  aligned : (∃ i, Least mm.maxLevel size i ∧ mm.alignBuddyBlock size = 4096 * 2 ^ i ∧
      mm.blockListIndex (mm.alignBuddyBlock size) = some i) ∨
    (∀ i < mm.maxLevel, 4096 * 2 ^ i < size) ∧ mm.alignBuddyBlock size = 0
  capacity : mm.startAddr + mm.usedSize + mm.alignBuddyBlock size < wordSize
  offset : ∀ {mm' blOffset}, mm.alignBuddyBlock size ≠ 0 →
    mm.allocBuddyBlock (mm.alignBuddyBlock size) = (mm', some blOffset) → mm.alignBuddyBlock size * blOffset < wordSize
  recovered : ∀ {mm' address}, mm.azAlloc size = (mm', address) → address ≠ 0 →
    pageShl (mm'.blockIndex (toInt ((address - mm.startAddr) / pageMinSize))).toNat = mm.alignBuddyBlock size

def Fits (mm : MM) (size : ℕ) : Prop := mm.maxLevel ≤ 19 ∨ size ≤ 2 ^ 30 ∨ wordSize - 2 ^ 31 < size

theorem alignBuddyBlock_least (hs : mm.maxLevel ≤ 19 ∨ size ≤ 2 ^ 30) :
    (∃ i ≤ 18, Least mm.maxLevel size i ∧ mm.alignBuddyBlock size = 4096 * 2 ^ i ∧
      mm.blockListIndex (mm.alignBuddyBlock size) = some i) ∨
    (∀ i < mm.maxLevel, 4096 * 2 ^ i < size) ∧ mm.alignBuddyBlock size = 0 := by
  rcases mm.alignBuddyBlock_cases hs with ⟨h0, hnone⟩ | ⟨i, hi, h18, ha, hfit, hmin⟩
  · exact .inr ⟨hnone, h0⟩
  · refine .inl ⟨i, h18, ⟨hi, ?_, fun j hj => ?_⟩, ?_, ?_⟩
    · rw [← pageShl_eq h18]
      exact hfit
    · rw [← pageShl_eq (by omega)]
      exact hmin j hj
    · rw [ha, pageShl_eq h18]
    · rw [ha]
      exact blockListIndex_pageShl hi h18

theorem alignBuddyBlock_high (hl : 19 < mm.maxLevel) (hs : 2 ^ 30 < size) :
    mm.alignBuddyBlock size = if size ≤ wordSize - 2 ^ 31 then wordSize - 2 ^ 31 else 0 := by
  have hlow : ∀ i ≤ 18, pageShl i < size := by
    intro i h18
    rw [pageShl_eq h18]
    have hpow : 2 ^ i ≤ 2 ^ 18 := Nat.pow_le_pow_right Nat.two_pos h18
    omega
  rw [alignBuddyBlock]
  split_ifs with hfit
  · have hfind : (List.range mm.maxLevel).find? (fun i => decide (size ≤ pageShl i)) = some 19 := by
      rw [List.find?_range_eq_some]
      refine ⟨by simpa [pageShl_nineteen] using hfit, by simpa using hl, fun j hj => ?_⟩
      simpa using hlow j (by omega)
    rw [hfind]
    exact pageShl_nineteen
  · have hfind : (List.range mm.maxLevel).find? (fun i => decide (size ≤ pageShl i)) = none := by
      rw [List.find?_eq_none]
      intro i _
      rcases Nat.lt_trichotomy i 19 with h | rfl | h
      · simpa using hlow i (by omega)
      · simpa [pageShl_nineteen] using hfit
      · simp only [pageShl_zero h]
        simp
        omega
    rw [hfind]

theorem alignBuddyBlock_top (hl : 19 < mm.maxLevel) (hs : wordSize - 2 ^ 31 < size) : mm.alignBuddyBlock size = 0 := by
  rw [alignBuddyBlock_high hl (lt_trans (by decide) hs), if_neg (Nat.not_le_of_lt hs)]

theorem azAlloc_unaligned (h0 : mm.alignBuddyBlock size = 0) : mm.azAlloc size = (mm, 0) := by
  rw [azAlloc]
  exact if_pos h0

def arrayOffset (mm : MM) (address : ℕ) : ℤ := toInt ((address + (wordSize - mm.startAddr)) % wordSize / pageMinSize)

def aliasPage (mm : MM) (address : ℕ) : ℕ := (address + (wordSize - mm.startAddr)) % wordSize / pageMinSize % 2 ^ 32

theorem arrayOffset_alias {address : ℕ} (hN : mm.smallestBlock < 2 ^ 31) (h : mm.aliasPage address < mm.smallestBlock) :
    mm.arrayOffset address = (mm.aliasPage address : ℤ) := by
  rw [arrayOffset, toInt_eq]
  exact if_pos (h.trans hN)

theorem aliasPage_lt {address : ℕ} (hlow : 0 ≤ mm.arrayOffset address)
    (hhigh : mm.arrayOffset address < mm.smallestBlock) : mm.aliasPage address < mm.smallestBlock := by
  rw [arrayOffset, toInt_eq] at hlow hhigh
  rw [aliasPage]
  split_ifs at hlow hhigh <;> omega

theorem azFree_unassigned_alias {address : ℕ} (hff : mm.blockIndex (mm.arrayOffset address) = 0xFF#8) :
    mm.azFree address = (mm, false) := by
  rw [azFree]
  split_ifs with h0
  · rfl
  · exact if_pos hff

theorem azFree_assigned_alias {address l : ℕ} (h0 : address ≠ 0) (h18 : l ≤ 18)
    (hidx : mm.blockIndex (mm.arrayOffset address) = BitVec.ofNat 8 l) : (mm.azFree address).2 = true := by
  have hne : BitVec.ofNat 8 l ≠ 0xFF#8 := by interval_cases l <;> decide
  have hl : (BitVec.ofNat 8 l).toNat = l := by
    rw [BitVec.toNat_ofNat, Nat.mod_eq_of_lt (by omega)]
  have hsize : pageShl l ≠ 0 := by
    rw [pageShl_eq h18]
    positivity
  unfold arrayOffset at hidx
  rw [azFree, if_neg h0]
  dsimp only
  rw [hidx, if_neg hne, hl, if_neg hsize]
  rfl

end MM

namespace Heap
open Dyadic MM

variable {h h' : Heap} {size address : ℕ}

theorem Valid.block_le (v : h.Valid) {i : ℕ} (hi : i < h.mm.maxLevel) : 2 ^ i ≤ h.mm.smallestBlock := by
  rw [v.coherent.levels] at hi
  exact (lt_levelCount_iff _ _).mp hi

theorem Valid.recovers (v : h.Valid) (hs : h.mm.maxLevel ≤ 19 ∨ size ≤ 2 ^ 30) {mm' : MM}
    (hcall : h.mm.azAlloc size = (mm', address)) (hne : address ≠ 0) :
    pageShl (mm'.blockIndex (toInt ((address - h.mm.startAddr) / pageMinSize))).toNat = h.mm.alignBuddyBlock size := by
  have hspec := azAlloc_spec v.coherent hs
  rw [hcall] at hspec
  cases hspec with
  | refused _ => exact absurd rfl hne
  | granted mm₁ b hcoh hframe hnot h18 ha hfit hroom =>
    have hin : b.first < h.mm.smallestBlock := first_lt_smallest (by
      have := hcoh.inside (Or.inr rfl : b ∈ h.blocks ∪ {b})
      obtain ⟨bitmap, rfl⟩ := hframe.exists_bitmap
      exact this)
    have hr := v.room
    have hsmall := v.coherent.small
    have hpage : ((4096 * b.first + h.mm.startAddr) % wordSize - h.mm.startAddr) / pageMinSize = b.first := by
      simp only [wordSize, pageMinSize] at hr ⊢
      omega
    have hlevel : (BitVec.ofNat 8 b.level).toNat = b.level := by
      rw [BitVec.toNat_ofNat, Nat.mod_eq_of_lt (by omega)]
    rw [hpage, toInt_of_lt (by omega), MM.record]
    dsimp only
    rw [Function.update_self, hlevel, pageShl_eq h18, ha]

theorem Valid.sizesSound (v : h.Valid) (hs : h.mm.maxLevel ≤ 19 ∨ size ≤ 2 ^ 30) : h.mm.SizesSound size := by
  have hroom := v.room
  have hused := v.used_le
  constructor
  · rcases alignBuddyBlock_least hs with ⟨i, -, hi⟩ | hnone
    · exact .inl ⟨i, hi⟩
    · exact .inr hnone
  · rcases alignBuddyBlock_least hs with ⟨i, -, hi, ha, -⟩ | ⟨-, h0⟩
    · have hle := v.block_le hi.1
      rw [ha]
      omega
    · rw [h0]
      omega
  · intro mm' blOffset hne hgrant
    rcases alignBuddyBlock_least hs with ⟨i, h18, hi, ha, -⟩ | ⟨-, h0⟩
    · have hg := allocBuddyBlock_grant v.coherent hi.1 h18
      rw [pageShl_eq h18, ← ha, hgrant] at hg
      cases hg with
      | granted mm' off hcoh hframe hnot =>
        obtain ⟨bitmap, rfl⟩ := hframe.exists_bitmap
        have hin : (Block.mk i blOffset).first < h.mm.smallestBlock := first_lt_smallest (hcoh.inside (Or.inr rfl))
        rw [ha, blockSize_mul]
        omega
    · exact absurd h0 hne
  · intro mm' address hcall hne
    exact v.recovers hs hcall hne

theorem Valid.sizesSound_top (v : h.Valid) (hl : 19 < h.mm.maxLevel) (hs : wordSize - 2 ^ 31 < size) :
    h.mm.SizesSound size := by
  have h0 := alignBuddyBlock_top hl hs
  have hroom := v.room
  have hused := v.used_le
  have hsmall := v.coherent.small
  constructor
  · refine .inr ⟨fun i hi => ?_, h0⟩
    have hle := v.block_le hi
    simp only [wordSize] at hs
    omega
  · rw [h0]
    omega
  · intro mm' blOffset hne
    exact absurd h0 hne
  · intro mm' address hcall hne
    rw [azAlloc_unaligned h0] at hcall
    exact absurd (congrArg Prod.snd hcall).symm hne

theorem Valid.sizesSound_iff (v : h.Valid) : h.mm.SizesSound size ↔ h.mm.Fits size := by
  constructor
  · intro hsound
    by_contra hfits
    obtain ⟨hl, hlow, hhigh⟩ : 19 < h.mm.maxLevel ∧ 2 ^ 30 < size ∧ size ≤ wordSize - 2 ^ 31 := by
      unfold Fits at hfits
      omega
    have ha := alignBuddyBlock_high hl hlow
    rw [if_pos hhigh] at ha
    have hsmall := v.coherent.small
    rcases hsound.aligned with ⟨i, hi, he, -⟩ | ⟨-, he⟩
    · have hle := v.block_le hi.1
      rw [ha] at he
      simp only [wordSize] at he
      omega
    · rw [ha] at he
      exact absurd he (by decide)
  · intro hfits
    by_cases hl : h.mm.maxLevel ≤ 19
    · exact v.sizesSound (.inl hl)
    · rcases hfits with hl' | hs | hs
      · exact absurd hl' hl
      · exact v.sizesSound (.inr hs)
      · exact v.sizesSound_top (Nat.lt_of_not_le hl) hs

structure Rejects (h : Heap) (address : ℕ) : Prop where
  consulted : address ≠ 0 → 0 ≤ h.mm.arrayOffset address ∧ h.mm.arrayOffset address < h.mm.smallestBlock
  rejected : ¬ (h.mm.InPool address ∧ ∃ x ∈ h.handed, h.mm.page x.address = h.mm.page address) →
    h.mm.azFree address = (h.mm, false)

def Safe (h : Heap) (address : ℕ) : Prop :=
  address = 0 ∨ h.mm.aliasPage address < h.mm.smallestBlock ∧
    (h.mm.InPool address ∨ ∀ x ∈ h.handed, h.mm.page x.address ≠ h.mm.aliasPage address)

theorem Valid.free_alias (v : h.Valid) (hlt : h.mm.aliasPage address < h.mm.smallestBlock)
    (hnone : ∀ x ∈ h.handed, h.mm.page x.address ≠ h.mm.aliasPage address) : h.mm.azFree address = (h.mm, false) := by
  apply azFree_unassigned_alias
  rw [arrayOffset_alias v.coherent.small hlt]
  exact v.rest _ hlt fun x hx => v.page_eq hx ▸ hnone x hx

theorem Valid.rejects_iff (v : h.Valid) : h.Rejects address ↔ h.Safe address := by
  have hroom := v.room
  have hsmall := v.coherent.small
  constructor
  · intro hrej
    rcases eq_or_ne address 0 with h0 | h0
    · exact .inl h0
    obtain ⟨hlow, hhigh⟩ := hrej.consulted h0
    have hlt := aliasPage_lt hlow hhigh
    refine .inr ⟨hlt, ?_⟩
    by_contra hforeign
    obtain ⟨hout, hhead⟩ := not_or.mp hforeign
    push Not at hhead
    obtain ⟨x, hx, hpage⟩ := hhead
    have htrue : (h.mm.azFree address).2 = true := by
      apply azFree_assigned_alias h0 (v.fit x hx).level
      rw [arrayOffset_alias hsmall hlt, ← hpage, v.page_eq hx]
      exact v.head x hx
    rw [hrej.rejected fun hin => hout hin.1] at htrue
    cases htrue
  · rintro (rfl | ⟨hlt, hcase⟩)
    · refine ⟨fun h0 => absurd rfl h0, fun _ => ?_⟩
      rw [azFree]
      exact if_pos rfl
    constructor
    · intro _
      rw [arrayOffset_alias hsmall hlt]
      exact ⟨Int.natCast_nonneg _, by exact_mod_cast hlt⟩
    · intro hhead
      rcases hcase with hin | hnone
      · exact v.free_unassigned hin fun x hx he => hhead ⟨hin, x, hx, he⟩
      · exact v.free_alias hlt hnone

def Careful (h : Heap) : Call → Prop
  | .alloc size => h.mm.Fits size
  | .free address => h.Safe address

def CarefulStep (h h' : Heap) : Prop := ∃ c, h.Careful c ∧ h' = h.call c

theorem Valid.carefulStep (v : h.Valid) (hs : h.CarefulStep h') : h'.Valid := by
  obtain ⟨c, hc, rfl⟩ := hs
  cases c with
  | alloc size =>
    by_cases hl : h.mm.maxLevel ≤ 19
    · exact v.alloc (.inl hl)
    rcases hc with hl' | hsize | hsize
    · exact absurd hl' hl
    · exact v.alloc (.inr hsize)
    · rw [call, azAlloc_unaligned (alignBuddyBlock_top (Nat.lt_of_not_le hl) hsize)]
      simpa using v
  | free address =>
    rcases hc with rfl | ⟨hlt, hin | hnone⟩
    · rw [call, show h.mm.azFree 0 = (h.mm, false) by rw [azFree]; exact if_pos rfl]
      simpa using v
    · exact v.free hin
    · rw [call, v.free_alias hlt hnone]
      simpa using v

theorem Valid.carefulRun (v : h.Valid) (hr : Relation.ReflTransGen CarefulStep h h') : h'.Valid := by
  induction hr with
  | refl => exact v
  | tail _ hs ih => exact ih.carefulStep hs

theorem freeMemInit_run_sizes_iff (prior : ℕ → BITMAP) (priorIndex : ℤ → BYTE) {gMemoryStart gMemoryEnd : ℕ}
    (hend : gMemoryEnd < 2 ^ 64) (hlow : gMemoryStart + 2 ^ 30 ≤ gMemoryEnd)
    (hsize : gMemoryEnd - gMemoryStart ≤ 508 * 2 ^ 30)
    (hr : Relation.ReflTransGen CarefulStep ⟨freeMemInit prior priorIndex gMemoryStart gMemoryEnd, []⟩ h) (size : ℕ) :
    h.mm.SizesSound size ↔ h.mm.Fits size :=
  ((freeMemInit_valid prior priorIndex hend hlow (by omega)).carefulRun hr).sizesSound_iff

theorem boot_page_sizesSound : boot.mm.SizesSound 5000 :=
  (freeMemInit_run_sizes_iff (fun _ => ⟨fun _ => 0#8, 0⟩) (fun _ => 0#8)
    (show 0x240000000 < 2 ^ 64 by decide) (show 0x140000000 + 2 ^ 30 ≤ 0x240000000 by decide) (by decide) .refl 5000).2
    (.inr (.inl (by decide)))

theorem boot_gigabyte_wraps : boot.mm.alignBuddyBlock (2 ^ 30 + 1) = 0xFFFFFFFF80000000 ∧
    ¬ boot.mm.SizesSound (2 ^ 30 + 1) := by
  have hl : boot.mm.maxLevel = 20 := by decide +kernel
  have ha := alignBuddyBlock_high (show 19 < boot.mm.maxLevel by rw [hl]; decide) (show 2 ^ 30 < 2 ^ 30 + 1 by decide)
  rw [if_pos (by decide)] at ha
  refine ⟨ha.trans (by decide), fun hsound => ?_⟩
  have hv : boot.Valid := freeMemInit_valid _ _ (by decide) (by decide) (by decide)
  rcases hv.sizesSound_iff.1 hsound with h | h | h
  · rw [hl] at h
    exact absurd h (by decide)
  · exact absurd h (by decide)
  · exact absurd h (by decide)

theorem rejects_of_no_blocks {mm : MM} (hN : mm.smallestBlock = 0) :
    (⟨mm, []⟩ : Heap).Rejects address ↔ (⟨mm, []⟩ : Heap).Safe address := by
  constructor
  · intro hrej
    rcases eq_or_ne address 0 with h0 | h0
    · exact .inl h0
    · obtain ⟨hlow, hhigh⟩ := hrej.consulted h0
      change mm.arrayOffset address < (mm.smallestBlock : ℤ) at hhigh
      rw [hN] at hhigh
      exact absurd hhigh (not_lt.mpr hlow)
  · rintro (rfl | ⟨hlt, -⟩)
    · refine ⟨fun h0 => absurd rfl h0, fun _ => ?_⟩
      rw [azFree]
      exact if_pos rfl
    · change mm.aliasPage address < mm.smallestBlock at hlt
      rw [hN] at hlt
      exact absurd hlt (Nat.not_lt_zero _)

theorem carefulRun_of_no_blocks {mm : MM} (hl : mm.maxLevel = 0) (hN : mm.smallestBlock = 0)
    (hr : Relation.ReflTransGen CarefulStep ⟨mm, []⟩ h) : h = ⟨mm, []⟩ := by
  induction hr with
  | refl => rfl
  | tail _ hs ih =>
    obtain ⟨e, hcareful, rfl⟩ := hs
    subst ih
    cases e with
    | alloc size =>
      have halign : mm.alignBuddyBlock size = 0 := by
        rw [alignBuddyBlock, hl]
        rfl
      rw [call, azAlloc_unaligned halign]
      rfl
    | free address =>
      rcases hcareful with rfl | ⟨hlt, -⟩
      · rw [call, show mm.azFree 0 = (mm, false) by rw [azFree]; exact if_pos rfl]
        rfl
      · change mm.aliasPage address < mm.smallestBlock at hlt
        rw [hN] at hlt
        exact absurd hlt (Nat.not_lt_zero _)

theorem freeMemInit_run_rejects_iff (prior : ℕ → BITMAP) (priorIndex : ℤ → BYTE) (gMemoryStart gMemoryEnd : ℕ)
    (hs : gMemoryStart < wordSize)
    (hr : Relation.ReflTransGen CarefulStep ⟨freeMemInit prior priorIndex gMemoryStart gMemoryEnd, []⟩ h)
    (address : ℕ) : h.Rejects address ↔ h.Safe address := by
  rcases Nat.eq_zero_or_pos (freeMemInit prior priorIndex gMemoryStart gMemoryEnd).smallestBlock with hN | hN
  · obtain rfl := carefulRun_of_no_blocks (freeMemInit_maxLevel prior priorIndex hN) hN hr
    exact rejects_of_no_blocks hN
  · obtain ⟨hlow, hhigh⟩ := va_kernel_bounds hs
    have hend : va gMemoryStart gMemoryEnd < 2 ^ 64 := Nat.mod_lt _ (by decide)
    exact Valid.rejects_iff (Valid.carefulRun (initArea_valid prior priorIndex hlow hhigh hend hN) hr)

theorem tiny_interior_rejects : tiny.Rejects 0xFFFF800100201000 := by
  refine (freeMemInit_run_rejects_iff _ _ 0x140000000 0x180400000 (by decide) .refl _).2 (.inr ⟨?_, .inr ?_⟩)
  · decide +kernel
  · intro x hx
    cases hx

theorem tiny_foreign_released :
    ((tiny.call (.alloc 5000)).mm.azFree 0xFFFF900100200000).2 = true ∧
      ¬ (tiny.call (.alloc 5000)).Rejects 0xFFFF900100200000 ∧
      tiny.mm.arrayOffset 0x1000 = -1049087 ∧ ¬ tiny.Rejects 0x1000 := by
  have htrue : ((tiny.call (.alloc 5000)).mm.azFree 0xFFFF900100200000).2 = true := by decide +kernel
  have hout : ¬ (tiny.call (.alloc 5000)).mm.InPool 0xFFFF900100200000 := by
    rintro ⟨-, hhigh⟩
    exact absurd hhigh (by decide +kernel)
  have hneg : tiny.mm.arrayOffset 0x1000 = -1049087 := by decide +kernel
  refine ⟨htrue, fun hrej => ?_, hneg, fun hrej => ?_⟩
  · rw [hrej.rejected fun hin => hout hin.1] at htrue
    cases htrue
  · have hlow := (hrej.consulted (by decide)).1
    rw [hneg] at hlow
    exact absurd hlow (by decide)

end Heap
end Azalea
