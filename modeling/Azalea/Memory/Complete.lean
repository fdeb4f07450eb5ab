import Azalea.Memory.Limits

namespace Azalea
open Dyadic

namespace MM
variable {mm mm' : MM} {used : Set Block} {size l off : ℕ}

def halves (r l : ℕ) (b : Block) : Set Block :=
  {c | ∃ j, l ≤ j ∧ j < b.level ∧ c = ⟨j, b.offset * 2 ^ (b.level - j) + r⟩}

def Lowest (mm : MM) (l : ℕ) (b : Block) : Prop :=
  b ∈ mm.freeBlocks ∧ l ≤ b.level ∧
    ∀ c ∈ mm.freeBlocks, l ≤ c.level → b.level < c.level ∨ (b.level = c.level ∧ b.offset ≤ c.offset)

structure Complete (mm : MM) (size : ℕ) : Prop where
  null_iff : (mm.azAlloc size).2 = 0 ↔ mm.alignBuddyBlock size = 0 ∨
    ∃ l, mm.blockListIndex (mm.alignBuddyBlock size) = some l ∧ ∀ b ∈ mm.freeBlocks, b.level < l
  capacity : mm.alignBuddyBlock size ≠ 0 → ∀ l, mm.blockListIndex (mm.alignBuddyBlock size) = some l →
    ∀ b ∈ mm.freeBlocks, l ≤ b.level →
      (mm.startAddr + mm.usedSize + mm.alignBuddyBlock size) % wordSize ≤ mm.endAddr
  atomic : (mm.azAlloc size).2 = 0 → (mm.azAlloc size).1 = mm
  taken : (mm.azAlloc size).2 ≠ 0 → ∃ l b, mm.blockListIndex (mm.alignBuddyBlock size) = some l ∧ mm.Lowest l b ∧
    (mm.azAlloc size).2 = mm.startAddr + pageMinSize * b.first ∧
    (mm.azAlloc size).1.freeBlocks = mm.freeBlocks \ {b} ∪ halves 1 l b

theorem mem_halves_succ (r l n off : ℕ) (c : Block) :
    c ∈ halves r l ⟨l + (n + 1), off⟩ ↔ c = ⟨l + n, off * 2 + r⟩ ∨ c ∈ halves r l ⟨l + n, off * 2⟩ := by
  have hpow : ∀ j, j < l + n → off * 2 ^ (l + (n + 1) - j) = off * 2 * 2 ^ (l + n - j) := by
    intro j hj
    rw [show l + (n + 1) - j = l + n - j + 1 by omega, pow_succ, Nat.mul_assoc, Nat.mul_comm 2]
  constructor
  · rintro ⟨j, hlow, hhigh, rfl⟩
    dsimp only at hhigh ⊢
    rcases Nat.lt_or_ge j (l + n) with hj | hj
    · exact .inr ⟨j, hlow, hj, by rw [hpow j hj]⟩
    · obtain rfl : j = l + n := by omega
      rw [show l + (n + 1) - (l + n) = 1 by omega, pow_one]
      exact .inl rfl
  · rintro (rfl | ⟨j, hlow, hj, rfl⟩)
    · refine ⟨l + n, by omega, by dsimp only; omega, ?_⟩
      rw [show l + (n + 1) - (l + n) = 1 by omega, pow_one]
    · exact ⟨j, hlow, by dsimp only at hj ⊢; omega, by rw [hpow j hj]⟩

theorem level_lt_of_mem_halves {r : ℕ} {b c : Block} (h : c ∈ halves r l b) : c.level < b.level := by
  obtain ⟨j, -, hj, rfl⟩ := h
  exact hj

theorem splitBlock_freeBlocks (bl n off : ℕ) (hb : (Block.mk (bl + n) off).stop ≤ mm.smallestBlock) (c : Block) :
    c ∈ (splitBlock mm bl n off).1.freeBlocks ↔
      c ∈ halves 1 bl ⟨bl + n, off⟩ ∨ (c ∈ mm.freeBlocks ∧ c ∉ halves 0 bl ⟨bl + n, off⟩) := by
  induction n generalizing mm off with
  | zero =>
    have hnone : ∀ r, c ∉ halves r bl ⟨bl + 0, off⟩ := by
      rintro r ⟨j, hlow, hhigh, -⟩
      dsimp only at hhigh
      omega
    simp only [splitBlock, hnone, false_or, not_false_eq_true, and_true]
  | succ n ih =>
    have hhalf : ∀ r ≤ 1, (Block.mk (bl + n) (off * 2 + r)).stop ≤ mm.smallestBlock := by
      intro r hr
      rw [Block.stop_le_iff] at hb ⊢
      dsimp only at hb ⊢
      rw [← Nat.add_assoc, pow_succ, ← Nat.div_div_eq_div_mul] at hb
      omega
    have hleft := hhalf 0 (by decide)
    have hright := hhalf 1 (by decide)
    rw [Nat.add_zero] at hleft
    rw [splitBlock, ih (off * 2) (by simpa using hleft), mem_freeBlocks_set _ _ _ (by simpa using hright),
      mem_freeBlocks_set _ _ _ hleft, mem_halves_succ, mem_halves_succ, Nat.add_zero]
    by_cases hl : c = ⟨bl + n, off * 2⟩
    · subst hl
      have hne : (⟨bl + n, off * 2⟩ : Block) ≠ ⟨bl + n, off * 2 + 1⟩ := by simp
      simp [hne]
    · by_cases hr : c = ⟨bl + n, off * 2 + 1⟩
      · subst hr
        have hlevel : (⟨bl + n, off * 2 + 1⟩ : Block) ∉ halves 0 bl ⟨bl + n, off * 2⟩ :=
          fun hm => absurd (level_lt_of_mem_halves hm) (lt_irrefl _)
        simp [hlevel]
      · simp [hl, hr]

theorem findSome?_range' {α : Type*} {f : ℕ → Option α} {n : ℕ} {a : α}
    (h : (List.range' l n).findSome? f = some a) :
    ∃ i, l ≤ i ∧ i < l + n ∧ f i = some a ∧ ∀ j, l ≤ j → j < i → f j = none := by
  induction n generalizing l with
  | zero => cases h
  | succ n ih =>
    rw [List.range'_succ, List.findSome?_cons] at h
    cases hl : f l with
    | some b =>
      rw [hl] at h
      exact ⟨l, le_rfl, by omega, hl.trans h, fun j hlow hhigh => by omega⟩
    | none =>
      rw [hl] at h
      obtain ⟨i, hlow, hhigh, hi, hmin⟩ := ih h
      refine ⟨i, by omega, by omega, hi, fun j hj hji => ?_⟩
      rcases Nat.eq_or_lt_of_le hj with rfl | hlt
      · exact hl
      · exact hmin j hlt hji

theorem findFreeBlock_none (h : Coherent mm used) {i : ℕ} (hf : mm.findFreeBlock i = none) {b : Block}
    (hb : b ∈ mm.freeBlocks) : b.level ≠ i := by
  rintro rfl
  have hfirst := findFreeBlock_isFirst h (h.level_lt hb.1)
  rw [hf] at hfirst
  have hset := hb.2
  rw [getBitmapFlag, hfirst b.offset (Coherent.offset_lt hb.1)] at hset
  cases hset

theorem lowest_of_find (h : Coherent mm used) {i k : ℕ} (hl : l ≤ i) (hi : i < mm.maxLevel)
    (hk : mm.findFreeBlock i = some k) (hmin : ∀ j, l ≤ j → j < i → mm.findFreeBlock j = none) :
    mm.Lowest l ⟨i, k⟩ := by
  refine ⟨findFreeBlock_mem h hi hk, hl, fun c hc hlc => ?_⟩
  dsimp only
  rcases Nat.lt_trichotomy c.level i with hlt | heq | hgt
  · exact absurd rfl (findFreeBlock_none h (hmin c.level hlc hlt) hc)
  · refine .inr ⟨heq.symm, ?_⟩
    have hfirst := findFreeBlock_isFirst h hi
    rw [hk] at hfirst
    by_contra hlt
    have hset := hc.2
    rw [getBitmapFlag, heq, hfirst.2.2 c.offset (by omega)] at hset
    cases hset
  · exact .inl hgt

theorem halves_zero_notMem (h : Coherent mm used) {b c : Block} (hb : b ∈ mm.freeBlocks) (hc : c ∈ mm.freeBlocks) :
    c ∉ halves 0 l b := by
  rintro ⟨j, -, hj, rfl⟩
  have hhas : (Block.mk j (b.offset * 2 ^ (b.level - j) + 0)).Has b.first := by
    rw [Block.Has, Block.first, Nat.add_zero]
    obtain ⟨n, hn⟩ := Nat.exists_eq_add_of_le hj.le
    rw [hn, Nat.add_sub_cancel_left, Nat.add_comm, pow_add, ← Nat.mul_assoc, Nat.mul_div_cancel _ (Nat.two_pow_pos j)]
  have he := h.tiling.unique _ (.inl hc) _ (.inl hb) _ hhas b.has_first
  have hlevel : j = b.level := congrArg Block.level he
  omega

theorem allocBuddyBlock_taken (h : Coherent mm used) (hl : l < mm.maxLevel) (h18 : l ≤ 18)
    (ha : mm.allocBuddyBlock (pageShl l) = (mm', some off)) :
    ∃ b, mm.Lowest l b ∧ off * 2 ^ l = b.first ∧ mm'.freeBlocks = mm.freeBlocks \ {b} ∪ halves 1 l b := by
  rw [allocBuddyBlock, blockListIndex_pageShl hl h18] at ha
  dsimp only at ha
  split at ha
  · cases ha
  rename_i i k hfind
  obtain ⟨j, hlj, hj, hr, hmin⟩ := findSome?_range' hfind
  obtain ⟨k', hk, he⟩ := Option.map_eq_some_iff.mp hr
  obtain ⟨rfl, rfl⟩ := Prod.mk.inj he
  obtain ⟨n, rfl⟩ := Nat.exists_eq_add_of_le hlj
  rw [Nat.add_sub_cancel_left] at ha
  obtain ⟨rfl, hoff⟩ := Prod.mk.inj ha
  have hlow : mm.Lowest l ⟨l + n, k'⟩ :=
    lowest_of_find h hlj (by omega) hk fun j h1 h2 => Option.map_eq_none_iff.mp (hmin j h1 h2)
  refine ⟨⟨l + n, k'⟩, hlow, ?_, Set.ext fun c => ?_⟩
  · rw [← Option.some.inj hoff, splitBlock_offset, Block.first, Nat.mul_assoc, ← pow_add, Nat.add_comm n]
  · have hstop := hlow.1.1
    rw [splitBlock_freeBlocks l n k' (by simpa using hstop), mem_freeBlocks_set _ _ _ hstop]
    by_cases hc : c = ⟨l + n, k'⟩
    · simp [hc]
    · have hnot : c ∈ mm.freeBlocks → c ∉ halves 0 l ⟨l + n, k'⟩ := halves_zero_notMem h hlow.1
      simp only [hc, if_false, Set.mem_union, Set.mem_sdiff, Set.mem_singleton_iff, not_false_eq_true, and_true]
      tauto

theorem allocBuddyBlock_none (h : Coherent mm used) (hl : l < mm.maxLevel) (h18 : l ≤ 18)
    (hnone : ∀ b ∈ mm.freeBlocks, b.level < l) : mm.allocBuddyBlock (pageShl l) = (mm, none) := by
  have hg := allocBuddyBlock_grant h hl h18
  generalize hr : mm.allocBuddyBlock (pageShl l) = r at hg
  cases hg with
  | refused _ => rfl
  | granted mm' off _ _ _ =>
    obtain ⟨b, hb, -, -⟩ := allocBuddyBlock_taken h hl h18 hr
    exact absurd (hnone b hb.1) (Nat.not_lt.mpr hb.2.1)

theorem complete_of_unaligned (h0 : mm.alignBuddyBlock size = 0) : mm.Complete size := by
  have he := azAlloc_unaligned h0
  exact ⟨by simp [he, h0], fun hne => absurd h0 hne, fun _ => by rw [he], fun hne => absurd (by rw [he]) hne⟩

theorem azAlloc_none (ha : mm.alignBuddyBlock size = pageShl l) (hb : mm.allocBuddyBlock (pageShl l) = (mm, none)) :
    mm.azAlloc size = (mm, 0) := by
  rw [azAlloc, ha]
  dsimp only
  rw [hb]
  split_ifs <;> rfl

theorem azAlloc_some (ha : mm.alignBuddyBlock size = pageShl l) (hpos : pageShl l ≠ 0)
    (hroom : (mm.startAddr + mm.usedSize + pageShl l) % wordSize ≤ mm.endAddr)
    (hb : mm.allocBuddyBlock (pageShl l) = (mm', some off)) :
    (mm.azAlloc size).2 = (pageShl l * off % wordSize + mm.startAddr) % wordSize ∧
      (mm.azAlloc size).1.freeBlocks = mm'.freeBlocks := by
  have hstart : mm'.startAddr = mm.startAddr := by
    have := (allocBuddyBlock_frame mm (pageShl l)).samePool.startAddr
    rwa [hb] at this
  rw [azAlloc, ha]
  dsimp only
  rw [if_neg hpos, if_neg (Nat.not_lt.mpr hroom), hb]
  dsimp only
  exact ⟨by rw [hstart], rfl⟩

theorem initArea_ordered (prior : ℕ → BITMAP) (priorIndex : ℤ → BYTE) {freeMemStart freeMemEnd : ℕ}
    (hlow : 2 ^ 32 ≤ freeMemStart) (he : freeMemEnd < 2 ^ 64) (hle : freeMemStart ≤ freeMemEnd)
    (hN : 0 < (initArea prior priorIndex freeMemStart freeMemEnd).smallestBlock) :
    (initArea prior priorIndex freeMemStart freeMemEnd).startAddr ≤
      (initArea prior priorIndex freeMemStart freeMemEnd).endAddr := by
  have hb := bitmapSize_lt ((freeMemEnd + (wordSize - freeMemStart)) % wordSize)
  rw [initArea, initPool] at hN ⊢
  generalize bitmapSize ((freeMemEnd + (wordSize - freeMemStart)) % wordSize) = x at hb hN ⊢
  simp only [wordSize, pageMinSize, toInt_eq] at hN
  simp only [wordSize, pageMinSize]
  rw [intToQword_toInt]
  split_ifs at hN ⊢ <;> omega

end MM

namespace Heap
open MM
variable {h h' : Heap} {size l : ℕ}

theorem carefulRun_samePool (hr : Relation.ReflTransGen CarefulStep h h') : SamePool h.mm h'.mm := by
  induction hr with
  | refl => exact ⟨rfl, rfl, rfl, rfl⟩
  | @tail h₁ _ _ hs ih =>
    obtain ⟨c, -, rfl⟩ := hs
    have hcall : SamePool h₁.mm (h₁.call c).mm := by
      cases c with
      | alloc size => exact azAlloc_samePool _ size
      | free address => exact azFree_samePool _ address
    exact ⟨hcall.maxLevel.trans ih.maxLevel, hcall.smallestBlock.trans ih.smallestBlock,
      hcall.startAddr.trans ih.startAddr, hcall.endAddr.trans ih.endAddr⟩

theorem Valid.used_add_le (v : h.Valid) {b : Block} (hb : b ∈ h.mm.freeBlocks) :
    h.mm.usedSize + 4096 * 2 ^ b.level ≤ 4096 * h.mm.smallestBlock := by
  have hnot : b ∉ h.handed.map (Handed.block h.mm.startAddr) := fun hm =>
    v.coherent.apart b hb (by simpa [blocks] using hm)
  have hsum := v.coherent.tiling.sum_le (l := b :: h.handed.map (Handed.block h.mm.startAddr))
    (by
      intro c hc
      rcases List.mem_cons.mp hc with rfl | hc
      · exact .inl hb
      · exact .inr (by simpa [blocks] using hc))
    (List.nodup_cons.mpr ⟨hnot, v.nodup⟩)
  rw [List.map_cons, List.sum_cons] at hsum
  rw [v.used_eq, ← Nat.mul_add, Nat.add_comm]
  exact Nat.mul_le_mul_left _ hsum

theorem Valid.capacity (v : h.Valid) (hpool : h.mm.startAddr ≤ h.mm.endAddr) (h18 : l ≤ 18) {b : Block}
    (hb : b ∈ h.mm.freeBlocks) (hl : l ≤ b.level) :
    (h.mm.startAddr + h.mm.usedSize + pageShl l) % wordSize ≤ h.mm.endAddr := by
  have hused := v.used_add_le hb
  have hfits := v.fits hpool
  have hpow : 2 ^ l ≤ 2 ^ b.level := Nat.pow_le_pow_right (by decide) hl
  rw [pageShl_eq h18]
  exact (Nat.mod_le _ _).trans (by omega)

theorem Valid.complete (v : h.Valid) (hpool : h.mm.startAddr ≤ h.mm.endAddr)
    (hs : h.mm.maxLevel ≤ 19 ∨ size ≤ 2 ^ 30) : h.mm.Complete size := by
  rcases h.mm.alignBuddyBlock_cases hs with ⟨h0, -⟩ | ⟨l, hl, h18, ha, -, -⟩
  · exact complete_of_unaligned h0
  have hidx : h.mm.blockListIndex (h.mm.alignBuddyBlock size) = some l := by rw [ha, blockListIndex_pageShl hl h18]
  have hpos : pageShl l ≠ 0 := by
    rw [pageShl_eq h18]
    positivity
  have hcapacity : ∀ b ∈ h.mm.freeBlocks, l ≤ b.level →
      (h.mm.startAddr + h.mm.usedSize + pageShl l) % wordSize ≤ h.mm.endAddr :=
    fun b hb hlb => v.capacity hpool h18 hb hlb
  by_cases hnone : ∀ b ∈ h.mm.freeBlocks, b.level < l
  · have he := azAlloc_none ha (allocBuddyBlock_none v.coherent hl h18 hnone)
    refine ⟨?_, ?_, fun _ => by rw [he], fun hne => absurd (by rw [he]) hne⟩
    · rw [he]
      exact ⟨fun _ => .inr ⟨l, hidx, hnone⟩, fun _ => rfl⟩
    · rintro - l' hl' b hb hlb
      obtain rfl := Option.some.inj (hidx.symm.trans hl')
      exact absurd (hnone b hb) (Nat.not_lt.mpr hlb)
  · simp only [not_forall, Nat.not_lt] at hnone
    obtain ⟨c, hc, hlc⟩ := hnone
    obtain ⟨mm', off, hb⟩ : ∃ mm' off, h.mm.allocBuddyBlock (pageShl l) = (mm', some off) := by
      have hg := allocBuddyBlock_grant v.coherent hl h18
      generalize h.mm.allocBuddyBlock (pageShl l) = r at hg
      cases hg with
      | refused hall => exact absurd (hall c hc) (Nat.not_lt.mpr hlc)
      | granted mm' off _ _ _ => exact ⟨mm', off, rfl⟩
    obtain ⟨b, hlow, hoff, hfree⟩ := allocBuddyBlock_taken v.coherent hl h18 hb
    obtain ⟨haddr, hblocks⟩ := azAlloc_some ha hpos (hcapacity c hc hlc) hb
    have hroom := v.room
    have hstart := v.start
    have hin := first_lt_smallest hlow.1.1
    have haddress : (h.mm.azAlloc size).2 = h.mm.startAddr + pageMinSize * b.first := by
      rw [haddr, pageShl_eq h18, Nat.mul_assoc, Nat.mul_comm (2 ^ l), hoff]
      simp only [wordSize, pageMinSize] at hroom ⊢
      omega
    refine ⟨?_, ?_, fun h0 => by omega, fun _ => ⟨l, b, hidx, hlow, haddress, hblocks.trans hfree⟩⟩
    · refine ⟨fun h0 => by omega, ?_⟩
      rintro (h0 | ⟨l', hl', hall⟩)
      · exact absurd (ha.symm.trans h0) hpos
      · obtain rfl := Option.some.inj (hidx.symm.trans hl')
        exact absurd (hall c hc) (Nat.not_lt.mpr hlc)
    · rintro - l' hl' b' hb' hlb
      obtain rfl := Option.some.inj (hidx.symm.trans hl')
      rw [ha]
      exact hcapacity b' hb' hlb

theorem Valid.azAlloc_null_iff (v : h.Valid) (hpool : h.mm.startAddr ≤ h.mm.endAddr) (hs : h.mm.maxLevel ≤ 19) :
    (h.mm.azAlloc size).2 = 0 ↔ ∀ b ∈ h.mm.freeBlocks, 4096 * 2 ^ b.level < size := by
  rw [(v.complete hpool (.inl hs)).null_iff]
  rcases h.mm.alignBuddyBlock_cases (.inl hs) with ⟨h0, hall⟩ | ⟨l, hl, h18, ha, hfit, hleast⟩
  · exact iff_of_true (.inl h0) fun b hb => hall _ (v.coherent.level_lt hb.1)
  have hidx : h.mm.blockListIndex (h.mm.alignBuddyBlock size) = some l := by rw [ha, blockListIndex_pageShl hl h18]
  have hpos : pageShl l ≠ 0 := by
    rw [pageShl_eq h18]
    positivity
  constructor
  · rintro (h0 | ⟨k, hk, hall⟩) b hb
    · exact absurd (ha.symm.trans h0) hpos
    · obtain rfl := Option.some.inj (hidx.symm.trans hk)
      have hlt := hleast _ (hall b hb)
      rwa [pageShl_eq ((hall b hb).le.trans h18)] at hlt
  · intro hall
    refine .inr ⟨l, hidx, fun b hb => ?_⟩
    by_contra hlb
    have hlt := hall b hb
    have hpow : 2 ^ l ≤ 2 ^ b.level := Nat.pow_le_pow_right (by decide) (Nat.le_of_not_lt hlb)
    rw [pageShl_eq h18] at hfit
    omega

theorem freeMemInit_run_complete (prior : ℕ → BITMAP) (priorIndex : ℤ → BYTE) {gMemoryStart gMemoryEnd : ℕ}
    (hs : gMemoryStart < wordSize)
    (harea : va gMemoryStart (gMemoryStart + configKernelSize) ≤ va gMemoryStart gMemoryEnd)
    (hr : Relation.ReflTransGen CarefulStep ⟨freeMemInit prior priorIndex gMemoryStart gMemoryEnd, []⟩ h)
    (hsize : size ≤ 2 ^ 30) : h.mm.Complete size := by
  rcases Nat.eq_zero_or_pos (freeMemInit prior priorIndex gMemoryStart gMemoryEnd).smallestBlock with hN | hN
  · have hl := freeMemInit_maxLevel prior priorIndex hN
    obtain rfl := carefulRun_of_no_blocks hl hN hr
    have h0 : (freeMemInit prior priorIndex gMemoryStart gMemoryEnd).alignBuddyBlock size = 0 := by
      rw [alignBuddyBlock, hl]
      rfl
    exact complete_of_unaligned h0
  · obtain ⟨hlow, hhigh⟩ := va_kernel_bounds hs
    have hend : va gMemoryStart gMemoryEnd < 2 ^ 64 := Nat.mod_lt _ (by decide)
    have hsame := carefulRun_samePool hr
    refine Valid.complete (Valid.carefulRun (initArea_valid prior priorIndex hlow hhigh hend hN) hr) ?_ (.inr hsize)
    rw [hsame.startAddr, hsame.endAddr]
    exact initArea_ordered prior priorIndex hlow hend harea hN

theorem tiny_alloc_complete : (tiny.call (.alloc 5000)).mm.Complete 5000 := by
  have hcareful : tiny.Careful (.alloc 5000) := .inr (.inl (by decide))
  have hrun : Relation.ReflTransGen CarefulStep tiny (tiny.call (.alloc 5000)) := .single ⟨_, hcareful, rfl⟩
  exact freeMemInit_run_complete (fun _ => ⟨fun _ => 0#8, 0⟩) (fun _ => 0#8)
    (show 0x140000000 < wordSize by decide)
    (show va 0x140000000 (0x140000000 + configKernelSize) ≤ va 0x140000000 0x180400000 by decide) hrun (by decide)

end Heap
end Azalea
