import Azalea.Memory.Loops

namespace Azalea
namespace MM
open Dyadic

variable {mm : MM} {used : Set Block}

theorem pageShl_eq {i : ℕ} (h : i ≤ 18) : pageShl i = 4096 * 2 ^ i := by
  interval_cases i <;> decide

theorem pageShl_lt {i j : ℕ} (hij : j < i) (hi : i ≤ 18) : pageShl j < pageShl i := by
  rw [pageShl_eq hi, pageShl_eq (by omega)]
  exact Nat.mul_lt_mul_of_pos_left (Nat.pow_lt_pow_right (by decide) hij) (by decide)

theorem blockListIndex_pageShl {l : ℕ} (hl : l < mm.maxLevel) (h18 : l ≤ 18) :
    mm.blockListIndex (pageShl l) = some l := by
  rw [blockListIndex, List.find?_range_eq_some]
  refine ⟨by simp, by simpa using hl, fun j hj => ?_⟩
  have := pageShl_lt hj h18
  simpa using this

theorem alignBuddyBlock_cases (mm : MM) {size : ℕ} (hs : mm.maxLevel ≤ 19 ∨ size ≤ 2 ^ 30) :
    (mm.alignBuddyBlock size = 0 ∧ ∀ i < mm.maxLevel, 4096 * 2 ^ i < size) ∨ ∃ l < mm.maxLevel, l ≤ 18 ∧
      mm.alignBuddyBlock size = pageShl l ∧ size ≤ pageShl l ∧
      ∀ j < l, pageShl j < size := by
  rw [alignBuddyBlock]
  cases hf : (List.range mm.maxLevel).find? (fun i => decide (size ≤ pageShl i)) with
  | none =>
    have hall : ∀ i < mm.maxLevel, pageShl i < size := by
      intro i hi
      simpa using List.find?_eq_none.mp hf i (List.mem_range.mpr hi)
    refine Or.inl ⟨rfl, fun i hi => ?_⟩
    have h18 : i ≤ 18 := by
      by_contra hgt
      have htop := hall 18 (by omega)
      rw [pageShl_eq le_rfl] at htop
      omega
    rw [← pageShl_eq h18]
    exact hall i hi
  | some l =>
    rw [List.find?_range_eq_some] at hf
    obtain ⟨hfit, hl, hmin⟩ := hf
    have hmin' : ∀ j < l, pageShl j < size := fun j hj => by simpa using hmin j hj
    have hl' : l < mm.maxLevel := by simpa using hl
    refine Or.inr ⟨l, hl', ?_, rfl, by simpa using hfit, hmin'⟩
    by_contra hgt
    have := hmin' 18 (by omega)
    rw [pageShl_eq le_rfl] at this
    omega

theorem alignBuddyBlock_page (mm : MM) (hl : 0 < mm.maxLevel) : mm.alignBuddyBlock 4096 = 4096 := by
  have hfind : (List.range mm.maxLevel).find? (fun i => decide (4096 ≤ pageShl i)) = some 0 := by
    rw [List.find?_range_eq_some]
    exact ⟨by decide, by simpa using hl, fun j hj => absurd hj (Nat.not_lt_zero j)⟩
  rw [alignBuddyBlock, hfind]
  decide

theorem splitBlock_offset (mm : MM) (bl n off : ℕ) : (splitBlock mm bl n off).2 = off * 2 ^ n := by
  induction n generalizing mm off with
  | zero => simp [splitBlock]
  | succ n ih => rw [splitBlock, ih, pow_succ, Nat.mul_assoc, Nat.mul_comm 2]

inductive Grant (mm : MM) (used : Set Block) (l : ℕ) : MM × Option ℕ → Prop
  | refused : (∀ b ∈ mm.freeBlocks, b.level < l) → Grant mm used l (mm, none)
  | granted (mm' : MM) (off : ℕ) : Coherent mm' (used ∪ {⟨l, off⟩}) → Frame mm mm' →
      (⟨l, off⟩ : Block) ∉ used → Grant mm used l (mm', some off)

theorem split_notMem (h : Coherent mm used) {l n off : ℕ}
    (hfree : (⟨l + n, off⟩ : Block) ∈ mm.freeBlocks) :
    (⟨l, off * 2 ^ n⟩ : Block) ∉ used := by
  intro hu
  have hp := (Block.mk l (off * 2 ^ n)).has_first
  have hq : (Block.mk (l + n) off).Has (Block.mk l (off * 2 ^ n)).first := by
    simp only [Block.Has, Block.first, pow_add]
    rw [← Nat.div_div_eq_div_mul, Nat.mul_div_cancel _ (Nat.two_pow_pos l),
      Nat.mul_div_cancel _ (Nat.two_pow_pos n)]
  have he := h.tiling.unique _ (Or.inl hfree) _ (Or.inr hu) _ hq hp
  exact h.apart _ hfree (he ▸ hu)

theorem allocBuddyBlock_grant (h : Coherent mm used) {l : ℕ} (hl : l < mm.maxLevel)
    (h18 : l ≤ 18) : Grant mm used l (mm.allocBuddyBlock (pageShl l)) := by
  rw [allocBuddyBlock, blockListIndex_pageShl hl h18]
  dsimp only
  cases hf : (List.range' l (mm.maxLevel - l)).findSome? (fun i => (mm.findFreeBlock i).map (i, ·)) with
  | none =>
    refine Grant.refused fun b hb => ?_
    by_contra hge
    have hlev := h.level_lt hb.1
    have hnone := List.findSome?_eq_none_iff.mp hf b.level
      (by rw [List.mem_range'_1]; omega)
    have hfirst := findFreeBlock_isFirst h hlev
    rw [Option.map_eq_none_iff.mp hnone] at hfirst
    have hclear := hfirst b.offset (Coherent.offset_lt hb.1)
    have hset := hb.2
    rw [getBitmapFlag, hclear] at hset
    contradiction
  | some r =>
    obtain ⟨i, off⟩ := r
    obtain ⟨j, hj, hr⟩ := List.exists_of_findSome?_eq_some hf
    obtain ⟨k, hk, he⟩ := Option.map_eq_some_iff.mp hr
    obtain ⟨rfl, rfl⟩ := Prod.mk.injEq .. ▸ he
    rw [List.mem_range'_1] at hj
    have hfree := findFreeBlock_mem h (by omega) hk
    obtain ⟨n, rfl⟩ := Nat.exists_eq_add_of_le hj.1
    dsimp only
    rw [Nat.add_sub_cancel_left]
    have hcoh := splitBlock_spec l n k (h.take hfree) (by simp)
    have hnot := split_notMem h hfree
    refine Grant.granted _ _ (hcoh.congr fun c => ?_)
      ((setBitmapFlag_frame _ _ _ _).trans (splitBlock_frame _ _ _ _)) ?_
    · have hne : c ∈ used → c ≠ ⟨l + n, k⟩ := fun hc he => h.apart _ hfree (he ▸ hc)
      simp only [Set.mem_union, Set.mem_sdiff, Set.mem_singleton_iff]
      tauto
    · rw [splitBlock_offset]
      exact hnot

theorem first_lt_smallest {b : Block} (hb : b.stop ≤ mm.smallestBlock) :
    b.first < mm.smallestBlock :=
  b.first_lt_stop.trans_le hb

theorem blockSize_mul (l off : ℕ) : 4096 * 2 ^ l * off = 4096 * (Block.mk l off).first := by
  rw [Block.first, Nat.mul_assoc, Nat.mul_comm (2 ^ l)]

def record (mm : MM) (page : ℕ) (entry : BYTE) (usedSize : ℕ) : MM :=
  { mm with blockIndex := Function.update mm.blockIndex (page : ℤ) entry, usedSize := usedSize }

theorem Coherent.record (h : Coherent mm used) (page : ℕ) (entry : BYTE) (usedSize : ℕ) :
    Coherent (mm.record page entry usedSize) used :=
  ⟨h.levels, h.small, h.tiling, h.apart, h.spare, h.counts⟩

def Refuses (mm : MM) (size : ℕ) : Prop :=
  mm.alignBuddyBlock size = 0 ∨
    mm.endAddr < (mm.startAddr + mm.usedSize + mm.alignBuddyBlock size) % wordSize ∨
    ∃ l, mm.alignBuddyBlock size = 4096 * 2 ^ l ∧ ∀ b ∈ mm.freeBlocks, b.level < l

inductive Alloc (mm : MM) (used : Set Block) (size : ℕ) : MM × ℕ → Prop
  | refused : mm.Refuses size → Alloc mm used size (mm, 0)
  | granted (mm' : MM) (b : Block) : Coherent mm' (used ∪ {b}) → Frame mm mm' → b ∉ used →
      b.level ≤ 18 → mm.alignBuddyBlock size = 4096 * 2 ^ b.level → size ≤ 4096 * 2 ^ b.level →
      (mm.startAddr + mm.usedSize + 4096 * 2 ^ b.level) % wordSize ≤ mm.endAddr →
      Alloc mm used size
        (mm'.record b.first (BitVec.ofNat 8 b.level) ((mm.usedSize + 4096 * 2 ^ b.level) % wordSize),
          (4096 * b.first + mm.startAddr) % wordSize)

theorem azAlloc_spec (h : Coherent mm used) {size : ℕ} (hs : mm.maxLevel ≤ 19 ∨ size ≤ 2 ^ 30) :
    Alloc mm used size (mm.azAlloc size) := by
  rw [azAlloc]
  dsimp only
  rcases mm.alignBuddyBlock_cases hs with ⟨h0, -⟩ | ⟨l, hl, h18, ha, hfit, -⟩
  · rw [if_pos h0]
    exact Alloc.refused (.inl h0)
  · have hpos : pageShl l ≠ 0 := by rw [pageShl_eq h18]; positivity
    rw [ha, if_neg hpos]
    split_ifs with hroom
    · exact Alloc.refused (.inr (.inl (by rwa [ha])))
    · have hg := allocBuddyBlock_grant h hl h18
      generalize mm.allocBuddyBlock (pageShl l) = r at hg
      cases hg with
      | refused hnone => exact Alloc.refused (.inr (.inr ⟨l, ha.trans (pageShl_eq h18), hnone⟩))
      | granted mm' off hcoh hframe hnot =>
        have hin := first_lt_smallest (hcoh.inside (Or.inr rfl))
        have hsmall := hcoh.small
        have hlt : 4096 * (Block.mk l off).first < 2 ^ 64 := by omega
        obtain ⟨bitmap, rfl⟩ := hframe.exists_bitmap
        have hidx : ({ mm with bitmap := bitmap } : MM).blockListIndex (pageShl l) = some l :=
          blockListIndex_pageShl hl h18
        have hpage : toInt ((4096 * (Block.mk l off).first) % 2 ^ 64 / 4096) =
            ((Block.mk l off).first : ℤ) := by
          rw [Nat.mod_eq_of_lt hlt, Nat.mul_div_cancel_left _ (by decide), toInt_of_lt (by omega)]
        dsimp only
        rw [hidx, pageShl_eq h18, blockSize_mul]
        rw [pageShl_eq h18] at hroom hfit ha
        have hg := Alloc.granted _ ⟨l, off⟩ hcoh hframe hnot h18 ha hfit (by simpa using hroom)
        simp only [wordSize, pageMinSize] at hg ⊢
        rw [show 4 * 1024 = 4096 from rfl, hpage, Nat.mod_eq_of_lt hlt]
        exact hg

structure SamePool (mm mm' : MM) : Prop where
  maxLevel : mm'.maxLevel = mm.maxLevel
  smallestBlock : mm'.smallestBlock = mm.smallestBlock
  startAddr : mm'.startAddr = mm.startAddr
  endAddr : mm'.endAddr = mm.endAddr

theorem Frame.samePool {mm mm' : MM} (h : Frame mm mm') : SamePool mm mm' := by
  obtain ⟨bitmap, rfl⟩ := h.exists_bitmap
  exact ⟨rfl, rfl, rfl, rfl⟩

theorem allocBuddyBlock_frame (mm : MM) (alignedSize : ℕ) :
    Frame mm (mm.allocBuddyBlock alignedSize).1 := by
  rw [allocBuddyBlock]
  split
  · exact Frame.refl mm
  · split
    · exact Frame.refl mm
    · exact (setBitmapFlag_frame _ _ _ _).trans (splitBlock_frame _ _ _ _)

theorem azAlloc_samePool (mm : MM) (size : ℕ) : SamePool mm (mm.azAlloc size).1 := by
  have hframe := (allocBuddyBlock_frame mm (mm.alignBuddyBlock size)).samePool
  rw [azAlloc]
  dsimp only
  split_ifs
  · exact ⟨rfl, rfl, rfl, rfl⟩
  · exact ⟨rfl, rfl, rfl, rfl⟩
  · split <;> rename_i he <;> rw [he] at hframe
    · exact hframe
    · exact ⟨hframe.maxLevel, hframe.smallestBlock, hframe.startAddr, hframe.endAddr⟩

theorem azFree_samePool (mm : MM) (address : ℕ) : SamePool mm (mm.azFree address).1 := by
  rw [azFree]
  dsimp only
  split_ifs
  · exact ⟨rfl, rfl, rfl, rfl⟩
  · exact ⟨rfl, rfl, rfl, rfl⟩
  · exact ⟨rfl, rfl, rfl, rfl⟩
  · simp only [freeBuddyBlock]
    exact ⟨(mergeBlock_frame _ _ _ _).samePool.maxLevel, (mergeBlock_frame _ _ _ _).samePool.smallestBlock,
      (mergeBlock_frame _ _ _ _).samePool.startAddr, (mergeBlock_frame _ _ _ _).samePool.endAddr⟩

theorem azFree_unassigned {page address : ℕ} (hpos : 0 < mm.startAddr)
    (hw : mm.startAddr < wordSize) (hlow : mm.startAddr ≤ address)
    (hpage : (address - mm.startAddr) / 4096 = page) (hp : page < 2 ^ 31)
    (hff : mm.blockIndex (page : ℤ) = 0xFF#8) : mm.azFree address = (mm, false) := by
  have hrel : (address + (2 ^ 64 - mm.startAddr)) % 2 ^ 64 = address - mm.startAddr := by
    simp only [wordSize] at hw
    omega
  rw [azFree, if_neg (by omega)]
  simp only [wordSize, pageMinSize, hrel]
  rw [show 4 * 1024 = 4096 from rfl, hpage, toInt_of_lt hp, if_pos hff]

inductive Free (mm : MM) (used : Set Block) (b : Block) : MM × Bool → Prop
  | released (mm' : MM) : Coherent mm' (used \ {b}) → Frame mm mm' →
      Free mm used b (mm'.record b.first 0xFF#8
        ((mm.usedSize + (wordSize - 4096 * 2 ^ b.level)) % wordSize), true)

theorem azFree_eq {b : Block} {address : ℕ} (hin : b.first < 2 ^ 31) (h18 : b.level ≤ 18) (hpos : 0 < mm.startAddr)
    (hw : mm.startAddr < wordSize) (hlow : mm.startAddr ≤ address)
    (hpage : (address - mm.startAddr) / 4096 = b.first)
    (hidx : mm.blockIndex (b.first : ℤ) = BitVec.ofNat 8 b.level) :
    mm.azFree address =
      ({ mergeBlock (mm.record b.first 0xFF#8 mm.usedSize) (mm.maxLevel - b.level) b.level b.offset with
          usedSize := ((mergeBlock (mm.record b.first 0xFF#8 mm.usedSize) (mm.maxLevel - b.level) b.level
            b.offset).usedSize + (wordSize - 4096 * 2 ^ b.level)) % wordSize }, true) := by
  obtain ⟨l, off⟩ := b
  dsimp only at h18 hidx
  have hrel : (address + (2 ^ 64 - mm.startAddr)) % 2 ^ 64 = address - mm.startAddr := by
    simp only [wordSize] at hw
    omega
  have hne : BitVec.ofNat 8 l ≠ 0xFF#8 := by interval_cases l <;> decide
  have hl : (BitVec.ofNat 8 l).toNat = l := by
    rw [BitVec.toNat_ofNat, Nat.mod_eq_of_lt (by omega)]
  have hoff : (address - mm.startAddr) / (4096 * 2 ^ l) % 2 ^ 32 = off := by
    have hle : off ≤ (Block.mk l off).first := Nat.le_mul_of_pos_right off (Nat.two_pow_pos l)
    rw [← Nat.div_div_eq_div_mul, hpage, (Block.mk l off).has_first]
    exact Nat.mod_eq_of_lt (hle.trans_lt (hin.trans (by decide)))
  have hsz : 4096 * 2 ^ l ≠ 0 := by positivity
  rw [azFree, if_neg (by omega)]
  simp only [wordSize, pageMinSize, hrel]
  rw [show 4 * 1024 = 4096 from rfl, hpage, toInt_of_lt (by omega), hidx, if_neg hne, hl,
    pageShl_eq h18, if_neg hsz, hoff]
  rfl

theorem azFree_assigned (h : Coherent mm used) {b : Block} {address : ℕ} (hb : b ∈ used)
    (h18 : b.level ≤ 18) (hpos : 0 < mm.startAddr)
    (hw : mm.startAddr < wordSize) (hlow : mm.startAddr ≤ address)
    (hpage : (address - mm.startAddr) / 4096 = b.first)
    (hidx : mm.blockIndex (b.first : ℤ) = BitVec.ofNat 8 b.level) :
    Free mm used b (mm.azFree address) := by
  have hin := first_lt_smallest (h.inside hb)
  have hsmall := h.small
  rw [azFree_eq (by omega) h18 hpos hw hlow hpage hidx]
  have h1 := h.record b.first 0xFF#8 mm.usedSize
  have hcoh := mergeBlock_spec (mm.maxLevel - b.level) b.level b.offset h1 hb (by change mm.maxLevel ≤ _; omega)
  obtain ⟨bitmap, he⟩ := (mergeBlock_frame (mm.record b.first 0xFF#8 mm.usedSize)
    (mm.maxLevel - b.level) b.level b.offset).exists_bitmap
  rw [he] at hcoh ⊢
  have hcoh' : Coherent { mm with bitmap := bitmap } (used \ {b}) :=
    ⟨hcoh.levels, hcoh.small, hcoh.tiling, hcoh.apart, hcoh.spare, hcoh.counts⟩
  exact Free.released _ hcoh' rfl

end MM
end Azalea
