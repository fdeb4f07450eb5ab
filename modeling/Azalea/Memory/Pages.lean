import Azalea.Memory.Calls

namespace Azalea
namespace MM
open Dyadic

variable {mm : MM} {used : Set Block}

theorem splitBlock_bottom (mm : MM) (bl n off k : ℕ) :
    (splitBlock mm bl (n + 1) off).1.getBitmapFlag bl k =
      if k = off * 2 ^ (n + 1) + 1 then true
      else if k = off * 2 ^ (n + 1) then false else mm.getBitmapFlag bl k := by
  induction n generalizing mm off with
  | zero => simp only [splitBlock, getBitmapFlag_set, Nat.add_zero, true_and, Nat.zero_add, pow_one]
  | succ n ih =>
    have hpow : off * 2 * 2 ^ (n + 1) = off * 2 ^ (n + 1 + 1) := by
      rw [Nat.mul_assoc, Nat.mul_comm 2, ← pow_succ]
    rw [splitBlock, ih, hpow]
    simp only [getBitmapFlag_set]
    rw [if_neg (by omega : ¬ (bl = bl + (n + 1) ∧ k = off * 2 + 1)),
      if_neg (by omega : ¬ (bl = bl + (n + 1) ∧ k = off * 2))]

theorem blockListIndex_page (hl : 0 < mm.maxLevel) : mm.blockListIndex 4096 = some 0 :=
  blockListIndex_pageShl hl (Nat.zero_le 18)

theorem allocBuddyBlock_free (hl : 0 < mm.maxLevel) {k : ℕ} (hf : mm.findFreeBlock 0 = some k) :
    mm.allocBuddyBlock 4096 = (mm.setBitmapFlag 0 k false, some k) := by
  obtain ⟨n, hn⟩ := Nat.exists_eq_succ_of_ne_zero hl.ne'
  rw [allocBuddyBlock, blockListIndex_page hl, hn]
  simp only [Nat.sub_zero, Nat.succ_eq_add_one, List.range'_succ, List.findSome?_cons, hf, Option.map_some]
  rfl

theorem allocBuddyBlock_split (h : Coherent mm used) (hl : 0 < mm.maxLevel) (hf : mm.findFreeBlock 0 = none)
    {k : ℕ} {mm' : MM} (ha : mm.allocBuddyBlock 4096 = (mm', some k)) :
    k + 1 < mm.smallestBlock ∧ ∀ j, mm'.getBitmapFlag 0 j =
      if j = k + 1 then true else if j = k then false else mm.getBitmapFlag 0 j := by
  rw [allocBuddyBlock, blockListIndex_page hl] at ha
  dsimp only at ha
  split at ha
  · rw [Prod.mk.injEq] at ha
    exact absurd ha.2 (Option.some_ne_none k).symm
  rename_i i off hfind
  obtain ⟨l, hmem, hr⟩ := List.exists_of_findSome?_eq_some hfind
  obtain ⟨o, ho, he⟩ := Option.map_eq_some_iff.mp hr
  obtain ⟨rfl, rfl⟩ := Prod.mk.injEq .. ▸ he
  rw [List.mem_range'_1] at hmem
  have hl0 : l ≠ 0 := by
    rintro rfl
    rw [hf] at ho
    exact absurd ho (Option.some_ne_none o).symm
  obtain ⟨n, rfl⟩ := Nat.exists_eq_add_of_lt (Nat.pos_of_ne_zero hl0)
  rw [Nat.zero_add] at *
  rw [Prod.mk.injEq, Option.some.injEq, splitBlock_offset, Nat.sub_zero] at ha
  obtain ⟨rfl, rfl⟩ := ha
  constructor
  · have hstop : (o + 1) * 2 ^ (n + 1) ≤ mm.smallestBlock := (findFreeBlock_mem h (by omega) ho).1
    have hpow : 2 ≤ 2 ^ (n + 1) := Nat.le_self_pow n.succ_ne_zero 2
    rw [Nat.add_mul, Nat.one_mul] at hstop
    omega
  · intro j
    rw [splitBlock_bottom, getBitmapFlag_set, if_neg (by omega : ¬ (0 = n + 1 ∧ j = o))]

theorem azAlloc_page_eq (hl : 0 < mm.maxLevel) {mm' : MM} {k : ℕ}
    (ha : mm.allocBuddyBlock 4096 = (mm', some k))
    (hroom : (mm.startAddr + mm.usedSize + 4096) % wordSize ≤ mm.endAddr) :
    (mm.azAlloc 4096).2 = (4096 * k % wordSize + mm.startAddr) % wordSize ∧
      (mm.azAlloc 4096).1.bitmap = mm'.bitmap := by
  have hstart : mm'.startAddr = mm.startAddr := by
    have := (allocBuddyBlock_frame mm 4096).samePool.startAddr
    rwa [ha] at this
  rw [azAlloc, alignBuddyBlock_page mm hl]
  dsimp only
  rw [if_neg (by decide), if_neg (Nat.not_lt.mpr hroom), ha]
  dsimp only
  exact ⟨by rw [hstart], rfl⟩

theorem findFreeBlock_congr {mm mm' : MM} {l : ℕ} (hb : mm'.bitmap = mm.bitmap)
    (hN : mm'.smallestBlock = mm.smallestBlock) : mm'.findFreeBlock l = mm.findFreeBlock l := by
  rw [findFreeBlock, findFreeBlock, hb, hN]

theorem azAlloc_page_twice (h : Coherent mm used) (hf : mm.findFreeBlock 0 = none)
    (hword : mm.startAddr + 4096 * mm.smallestBlock ≤ wordSize)
    (hroom : (mm.startAddr + mm.usedSize + 4096) % wordSize ≤ mm.endAddr)
    (hroom' : (mm.startAddr + (mm.azAlloc 4096).1.usedSize + 4096) % wordSize ≤ mm.endAddr)
    (hne : (mm.azAlloc 4096).2 ≠ 0) :
    ((mm.azAlloc 4096).1.azAlloc 4096).2 = (mm.azAlloc 4096).2 + 4096 := by
  have hl : 0 < mm.maxLevel := by
    by_contra h0
    refine hne ?_
    rw [azAlloc, alignBuddyBlock, show mm.maxLevel = 0 by omega]
    rfl
  have hgrant := allocBuddyBlock_grant h hl (Nat.zero_le 18)
  cases ha : mm.allocBuddyBlock 4096 with
  | mk mm' off =>
  cases off with
  | none =>
    refine absurd ?_ hne
    rw [azAlloc, alignBuddyBlock_page mm hl]
    dsimp only
    rw [if_neg (by decide), if_neg (Nat.not_lt.mpr hroom), ha]
  | some k =>
    change Grant mm used 0 (mm.allocBuddyBlock 4096) at hgrant
    rw [ha] at hgrant
    obtain ⟨hk, hflag⟩ := allocBuddyBlock_split h hl hf ha
    obtain ⟨haddr, hbitmap⟩ := azAlloc_page_eq hl ha hroom
    have hsame := azAlloc_samePool mm 4096
    have hlev : mm'.maxLevel = mm.maxLevel ∧ mm'.smallestBlock = mm.smallestBlock := by
      have := (allocBuddyBlock_frame mm 4096).samePool
      rw [ha] at this
      exact ⟨this.maxLevel, this.smallestBlock⟩
    have hfree : mm'.findFreeBlock 0 = some (k + 1) := by
      cases hgrant with
      | granted _ _ hcoh _ _ =>
        have hfirst := findFreeBlock_isFirst hcoh (l := 0) (by omega)
        have hclear := findFreeBlock_isFirst h hl
        rw [hf] at hclear
        rw [hlev.2] at hfirst
        change Bitmap.IsFirst _ mm.smallestBlock _ at hfirst
        change ∀ j < mm.smallestBlock, mm.getBitmapFlag 0 j = false at hclear
        cases hr : mm'.findFreeBlock 0 with
        | none =>
          rw [hr] at hfirst
          have hset := hflag (k + 1)
          rw [if_pos rfl, getBitmapFlag, hfirst (k + 1) hk] at hset
          exact absurd hset (by decide)
        | some j =>
          rw [hr] at hfirst
          obtain ⟨hj, hset, -⟩ := hfirst
          have hj' := hflag j
          rw [getBitmapFlag, hset, hclear j hj] at hj'
          split_ifs at hj' with he
          rw [he]
    have hfree' : (mm.azAlloc 4096).1.findFreeBlock 0 = some (k + 1) :=
      (findFreeBlock_congr hbitmap (hsame.smallestBlock.trans hlev.2.symm)).trans hfree
    have hnext := allocBuddyBlock_free (by rw [hsame.maxLevel]; exact hl) hfree'
    rw [(azAlloc_page_eq (by rw [hsame.maxLevel]; exact hl) hnext
      (by rw [hsame.startAddr, hsame.endAddr]; exact hroom')).1, haddr, hsame.startAddr]
    simp only [wordSize] at *
    omega

end MM
end Azalea
