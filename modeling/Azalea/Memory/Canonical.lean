import Azalea.Memory.Pool

namespace Azalea
namespace MM
open Dyadic

variable {mm mm' : MM} {used : Set Block}

theorem freeBlocks_clear (l k : ℕ) : (mm.setBitmapFlag l k false).freeBlocks ⊆ mm.freeBlocks := by
  rintro c ⟨hin, hf⟩
  rw [setBitmapFlag_smallestBlock] at hin
  rw [getBitmapFlag_set] at hf
  split_ifs at hf
  exact ⟨hin, hf⟩

theorem freeBlocks_mark {l k : ℕ} {c : Block} (h : c ∈ (mm.setBitmapFlag l k true).freeBlocks) :
    c = ⟨l, k⟩ ∨ c ∈ mm.freeBlocks := by
  obtain ⟨hin, hf⟩ := h
  rw [setBitmapFlag_smallestBlock] at hin
  rw [getBitmapFlag_set] at hf
  split_ifs at hf with he
  · left
    cases c
    simpa using he
  · exact .inr ⟨hin, hf⟩

theorem merged_mark {l k : ℕ} (h : Merged mm.freeBlocks)
    (hb : (mm.setBitmapFlag l k true).getBitmapFlag l (buddyOf k) = false) :
    Merged (mm.setBitmapFlag l k true).freeBlocks := by
  intro i j hl hr
  rcases freeBlocks_mark hl with he | hl'
  · obtain ⟨rfl, rfl⟩ := Block.mk.inj he
    rcases buddyOf_cases (2 * j) with ⟨_, h2⟩ | ⟨h1, _⟩
    · rw [show buddyOf (2 * j) = 2 * j + 1 by omega] at hb
      exact absurd (hr.2.symm.trans hb) (by simp)
    · omega
  · rcases freeBlocks_mark hr with he | hr'
    · obtain ⟨rfl, rfl⟩ := Block.mk.inj he
      rcases buddyOf_cases (2 * j + 1) with ⟨h1, _⟩ | ⟨_, h2⟩
      · omega
      · rw [show buddyOf (2 * j + 1) = 2 * j by omega] at hb
        exact absurd (hl.2.symm.trans hb) (by simp)
    · exact h i j hl' hr'

theorem splitBlock_merged (bl n off : ℕ) (h : Merged mm.freeBlocks) : Merged (splitBlock mm bl n off).1.freeBlocks := by
  induction n generalizing mm off with
  | zero => exact h
  | succ n ih =>
    refine ih (off * 2) (merged_mark (h.mono (freeBlocks_clear _ _)) ?_)
    have hb : buddyOf (off * 2 + 1) = off * 2 := by
      unfold buddyOf
      split_ifs <;> omega
    rw [hb, getBitmapFlag_set, getBitmapFlag_set]
    simp

theorem mergeBlock_merged (n i k : ℕ) (h : Merged mm.freeBlocks) : Merged (mergeBlock mm n i k).freeBlocks := by
  induction n generalizing mm i k with
  | zero => exact h
  | succ n ih =>
    rw [mergeBlock]
    dsimp only
    split_ifs with hf
    · exact merged_mark h hf
    · refine ih (i + 1) (k / 2) (h.mono fun c hc => ?_)
      have hc' := freeBlocks_mark (freeBlocks_clear _ _ (freeBlocks_clear _ _ hc))
      refine hc'.resolve_left ?_
      rintro rfl
      have hflag := hc.2
      rw [getBitmapFlag_set] at hflag
      simp at hflag

theorem azAlloc_merged (size : ℕ) (h : Merged mm.freeBlocks) : Merged (mm.azAlloc size).1.freeBlocks := by
  have halloc (n : ℕ) : Merged (mm.allocBuddyBlock n).1.freeBlocks := by
    rw [allocBuddyBlock]
    split
    · exact h
    · split
      · exact h
      · exact splitBlock_merged _ _ _ (h.mono (freeBlocks_clear _ _))
  have hm := halloc (mm.alignBuddyBlock size)
  rw [azAlloc]
  dsimp only
  split_ifs
  · exact h
  · exact h
  · split
    · next he =>
      rw [he] at hm
      exact hm
    · next he =>
      rw [he] at hm
      exact hm

theorem azFree_merged (address : ℕ) (h : Merged mm.freeBlocks) : Merged (mm.azFree address).1.freeBlocks := by
  rw [azFree]
  dsimp only
  split_ifs
  · exact h
  · exact h
  · exact h
  · simp only [freeBuddyBlock]
    exact mergeBlock_merged _ _ _ h

theorem SamePool.eq (h : SamePool mm mm') (hb : mm'.bitmap = mm.bitmap) (hi : mm'.blockIndex = mm.blockIndex)
    (hu : mm'.usedSize = mm.usedSize) : mm' = mm := by
  obtain ⟨hl, hn, hs, he⟩ := h
  cases mm
  cases mm'
  dsimp only at hl hn hs he hb hi hu
  rw [hl, hn, hs, he, hb, hi, hu]

structure Beyond (mm mm' : MM) : Prop extends SamePool mm mm' where
  flags : ∀ {l k}, mm.smallestBlock >>> l ≤ k → mm'.getBitmapFlag l k = mm.getBitmapFlag l k
  levels : ∀ {l}, mm.maxLevel ≤ l → mm'.bitmap l = mm.bitmap l

theorem Beyond.refl (mm : MM) : Beyond mm mm := ⟨⟨rfl, rfl, rfl, rfl⟩, fun _ => rfl, fun _ => rfl⟩

theorem Beyond.trans {a b c : MM} (h : Beyond a b) (h' : Beyond b c) : Beyond a c where
  maxLevel := h'.maxLevel.trans h.maxLevel
  smallestBlock := h'.smallestBlock.trans h.smallestBlock
  startAddr := h'.startAddr.trans h.startAddr
  endAddr := h'.endAddr.trans h.endAddr
  flags hk := (h'.flags (by rwa [h.smallestBlock])).trans (h.flags hk)
  levels hl := (h'.levels (by rwa [h.maxLevel])).trans (h.levels hl)

theorem Beyond.of_bitmap {a b c : MM} (h : Beyond a b) (hs : SamePool b c) (hb : c.bitmap = b.bitmap) : Beyond a c :=
  h.trans ⟨hs, fun _ => by rw [getBitmapFlag, hb]; rfl, fun _ => by rw [hb]⟩

theorem setBitmapFlag_beyond (hl : mm.maxLevel = levelCount mm.smallestBlock) {l k : ℕ} (flag : Bool)
    (hb : (Block.mk l k).stop ≤ mm.smallestBlock) : Beyond mm (mm.setBitmapFlag l k flag) where
  toSamePool := (setBitmapFlag_frame mm l k flag).samePool
  flags {l' k'} hk := by
    rw [getBitmapFlag_set, if_neg]
    rintro ⟨rfl, rfl⟩
    exact absurd (Coherent.offset_lt hb) (Nat.not_lt_of_le hk)
  levels {l'} hl' := by
    refine setBitmapFlag_of_ne mm k flag ?_
    rintro rfl
    have hlt : l' < mm.maxLevel := hl ▸ (lt_levelCount_iff _ _).mpr (Block.pow_level_le hb)
    exact absurd hlt (Nat.not_lt_of_le hl')

theorem splitBlock_beyond (hl : mm.maxLevel = levelCount mm.smallestBlock) (bl n off : ℕ)
    (hb : (Block.mk (bl + n) off).stop ≤ mm.smallestBlock) : Beyond mm (splitBlock mm bl n off).1 := by
  induction n generalizing mm off with
  | zero => exact .refl mm
  | succ n ih =>
    have hpow : 2 ^ (bl + (n + 1)) = 2 * 2 ^ (bl + n) := by rw [← Nat.add_assoc, pow_succ, Nat.mul_comm]
    simp only [Block.stop, hpow] at hb
    have hright : (Block.mk (bl + n) (off * 2 + 1)).stop ≤ mm.smallestBlock := by
      simp only [Block.stop]
      linarith
    have hleft : (Block.mk (bl + n) (off * 2)).stop ≤ mm.smallestBlock := by
      simp only [Block.stop] at hright ⊢
      linarith [Nat.two_pow_pos (bl + n)]
    have h1 := setBitmapFlag_beyond hl false hleft
    have h2 : Beyond (mm.setBitmapFlag (bl + n) (off * 2) false) _ :=
      setBitmapFlag_beyond (by simpa using hl) true (by simpa using hright)
    exact (h1.trans h2).trans (ih (by simpa using hl) (off * 2) (by simpa using hleft))

theorem mergeBlock_beyond (n i k : ℕ) (h : Coherent mm used) (hb : (⟨i, k⟩ : Block) ∈ used) :
    Beyond mm (mergeBlock mm n i k) := by
  induction n generalizing mm used i k with
  | zero => exact .refl mm
  | succ n ih =>
    have hin := h.inside hb
    have h1 := setBitmapFlag_beyond h.levels true hin
    rw [mergeBlock]
    dsimp only
    split_ifs with hf
    · exact h1
    · obtain ⟨hstop, hstep⟩ := h.merge_step hb (by simpa using hf)
      have h2 := h1.trans (setBitmapFlag_beyond (h.put hb).levels false (by simpa using hstop))
      have h3 := h2.trans (setBitmapFlag_beyond (by simpa using h.levels) false (by simpa using hin))
      exact h3.trans (ih (i + 1) (k / 2) hstep (by simp))

theorem allocBuddyBlock_beyond (h : Coherent mm used) (n : ℕ) : Beyond mm (mm.allocBuddyBlock n).1 := by
  rw [allocBuddyBlock]
  split
  · exact .refl mm
  · next l _ =>
    split
    · exact .refl mm
    · next hf =>
      obtain ⟨j, hj, hr⟩ := List.exists_of_findSome?_eq_some hf
      obtain ⟨k, hk, he⟩ := Option.map_eq_some_iff.mp hr
      obtain ⟨rfl, rfl⟩ := Prod.mk.injEq .. ▸ he
      rw [List.mem_range'_1] at hj
      have hin := (findFreeBlock_mem h (by omega) hk).1
      have h1 := setBitmapFlag_beyond h.levels false hin
      refine h1.trans (splitBlock_beyond (by simpa using h.levels) _ _ _ ?_)
      rw [show l + (j - l) = j by omega]
      simpa using hin

theorem azAlloc_beyond (h : Coherent mm used) (size : ℕ) : Beyond mm (mm.azAlloc size).1 := by
  have hb := allocBuddyBlock_beyond h (mm.alignBuddyBlock size)
  rw [azAlloc]
  dsimp only
  split_ifs
  · exact .refl mm
  · exact .refl mm
  · split
    · next he =>
      rw [he] at hb
      exact hb
    · next he =>
      rw [he] at hb
      exact hb.of_bitmap ⟨rfl, rfl, rfl, rfl⟩ rfl

end MM

namespace Heap
open Dyadic MM

structure Coalesced (mm : MM) (h : Heap) : Prop where
  valid : h.Valid
  merged : Merged h.mm.freeBlocks
  beyond : Beyond mm h.mm
  index : ∀ i : ℤ, i < 0 ∨ (mm.smallestBlock : ℤ) ≤ i → h.mm.blockIndex i = mm.blockIndex i

variable {mm : MM} {h h' : Heap}

theorem Coalesced.record {mm' : MM} {page : ℕ} {entry : BYTE} {n : ℕ} (c : Coalesced mm h) (hf : Frame h.mm mm')
    (hp : page < h.mm.smallestBlock) (i : ℤ) (hi : i < 0 ∨ (mm.smallestBlock : ℤ) ≤ i) :
    (mm'.record page entry n).blockIndex i = mm.blockIndex i := by
  obtain ⟨bitmap, rfl⟩ := hf.exists_bitmap
  rw [← c.index i hi]
  rw [c.beyond.smallestBlock] at hp
  refine Function.update_of_ne ?_ _ _
  omega

theorem Coalesced.step (c : Coalesced mm h) (hs : h.Step h') : Coalesced mm h' := by
  have hv := c.valid.step hs
  obtain ⟨e, hl, rfl⟩ := hs
  cases e with
  | alloc size =>
    refine ⟨hv, azAlloc_merged size c.merged, c.beyond.trans (azAlloc_beyond c.valid.coherent size), fun i hi => ?_⟩
    have hspec := azAlloc_spec c.valid.coherent (.inr hl)
    change (h.mm.azAlloc size).1.blockIndex i = _
    generalize h.mm.azAlloc size = r at hspec
    cases hspec with
    | refused => exact c.index i hi
    | granted mm' b hcoh hframe =>
      have hin := first_lt_smallest (hcoh.inside (.inr rfl))
      rw [hframe.samePool.smallestBlock] at hin
      exact c.record hframe hin i hi
  | free address =>
    by_cases hx : ∃ x ∈ h.handed, h.mm.page x.address = h.mm.page address
    · obtain ⟨x, hx, hxp⟩ := hx
      have hroom := c.valid.room
      have hfit := c.valid.fit x hx
      have hb := Valid.mem_blocks hx
      have hin := first_lt_smallest (c.valid.coherent.inside hb)
      have hsmall := c.valid.coherent.small
      have heq := azFree_eq (hin.trans hsmall) hfit.level c.valid.start (by omega) hl.1
        (hxp.symm.trans (c.valid.page_eq hx)) (c.valid.head x hx)
      refine ⟨hv, azFree_merged address c.merged, c.beyond.trans ?_, fun i hi => ?_⟩
      · change Beyond h.mm (h.mm.azFree address).1
        rw [heq]
        have hm := mergeBlock_beyond (h.mm.maxLevel - (x.block h.mm.startAddr).level) _ _
          (c.valid.coherent.record (x.block h.mm.startAddr).first 0xFF#8 h.mm.usedSize) hb
        have h0 : Beyond h.mm (h.mm.record (x.block h.mm.startAddr).first 0xFF#8 h.mm.usedSize) :=
          (Beyond.refl h.mm).of_bitmap ⟨rfl, rfl, rfl, rfl⟩ rfl
        exact (h0.trans hm).of_bitmap ⟨rfl, rfl, rfl, rfl⟩ rfl
      · have hspec := azFree_assigned c.valid.coherent hb hfit.level c.valid.start (by omega) hl.1
          (hxp.symm.trans (c.valid.page_eq hx)) (c.valid.head x hx)
        change (h.mm.azFree address).1.blockIndex i = _
        generalize h.mm.azFree address = r at hspec
        cases hspec with
        | released mm' hcoh hframe => exact c.record hframe hin i hi
    · have hnone := c.valid.free_unassigned hl fun x hx' he => hx ⟨x, hx', he⟩
      have hmm : (h.call (.free address)).mm = h.mm := by
        change (h.mm.azFree address).1 = _
        rw [hnone]
      refine ⟨hv, ?_, ?_, ?_⟩
      · rw [hmm]
        exact c.merged
      · rw [hmm]
        exact c.beyond
      · rw [hmm]
        exact c.index

theorem Coalesced.run (c : Coalesced mm h) (hr : Heap.Run h h') : Coalesced mm h' := by
  induction hr with
  | refl => exact c
  | tail _ hs ih => exact ih.step hs

theorem Coalesced.bitmap_eq (c : Coalesced mm h) (c' : Coalesced mm h') (hb : h'.blocks = h.blocks) :
    h'.mm.bitmap = h.mm.bitmap := by
  have hN := c.beyond.smallestBlock
  have hN' := c'.beyond.smallestBlock
  have hfree : h'.mm.freeBlocks = h.mm.freeBlocks := by
    have ht := c.valid.coherent.tiling
    have ht' := c'.valid.coherent.tiling
    have ha' := c'.valid.coherent.apart
    rw [hb] at ht' ha'
    rw [hN', ← hN] at ht'
    exact ht'.eq_of_merged ht ha' c.valid.coherent.apart c'.merged c.merged
  have hflag (l k : ℕ) : h'.mm.getBitmapFlag l k = h.mm.getBitmapFlag l k := by
    by_cases hk : k < mm.smallestBlock >>> l
    · have hstop : (Block.mk l k).stop ≤ mm.smallestBlock :=
        (Block.stop_le_iff _ _).mpr (by rwa [Nat.shiftRight_eq_div_pow] at hk)
      have hmem : (⟨l, k⟩ : Block) ∈ h'.mm.freeBlocks ↔ (⟨l, k⟩ : Block) ∈ h.mm.freeBlocks := by rw [hfree]
      simp only [freeBlocks, Set.mem_ofPred_eq, hN, hN', hstop, true_and] at hmem
      exact Bool.eq_iff_iff.mpr hmem
    · rw [c'.beyond.flags (Nat.le_of_not_lt hk), c.beyond.flags (Nat.le_of_not_lt hk)]
  have hbytes (l : ℕ) : (h'.mm.bitmap l).bitmap = (h.mm.bitmap l).bitmap := Bitmap.eq_of_test (hflag l)
  funext l
  by_cases hl : l < mm.maxLevel
  · have hcount : (h'.mm.bitmap l).bitmapCount = (h.mm.bitmap l).bitmapCount := by
      rw [c'.valid.coherent.counts l (by rwa [c'.beyond.maxLevel]),
        c.valid.coherent.counts l (by rwa [c.beyond.maxLevel]), hbytes, hN, hN']
    exact BITMAP.mk.injEq .. ▸ ⟨hbytes l, hcount⟩
  · rw [c'.beyond.levels (Nat.le_of_not_lt hl), c.beyond.levels (Nat.le_of_not_lt hl)]

theorem Coalesced.mm_eq (c : Coalesced mm h) (c₀ : Coalesced mm ⟨mm, []⟩) (he : h.handed = []) : h.mm = mm := by
  have hblocks : h.blocks = Heap.blocks ⟨mm, []⟩ := by simp [blocks, he]
  have hbitmap : h.mm.bitmap = mm.bitmap := c₀.bitmap_eq c hblocks
  have hused : h.mm.usedSize = mm.usedSize := by
    rw [c.valid.used, c₀.valid.used, he]
  have hindex : h.mm.blockIndex = mm.blockIndex := by
    funext i
    by_cases hi : i < 0 ∨ (mm.smallestBlock : ℤ) ≤ i
    · exact c.index i hi
    · obtain ⟨p, rfl⟩ := Int.eq_ofNat_of_zero_le (Int.not_lt.mp (not_or.mp hi).1)
      have hp : p < mm.smallestBlock := by exact_mod_cast Int.not_le.mp (not_or.mp hi).2
      rw [c.valid.rest p (by rwa [c.beyond.smallestBlock]) (by simp [he]), c₀.valid.rest p hp (by simp)]
  exact c.beyond.toSamePool.eq hbitmap hindex hused

theorem initArea_coalesced (prior : ℕ → BITMAP) (priorIndex : ℤ → BYTE) {freeMemStart freeMemEnd : ℕ}
    (hlow : 2 ^ 32 ≤ freeMemStart) (hhigh : freeMemStart + 2 ^ 46 < 2 ^ 64) (he : freeMemEnd < 2 ^ 64)
    (hN : 0 < (initArea prior priorIndex freeMemStart freeMemEnd).smallestBlock) :
    Coalesced (initArea prior priorIndex freeMemStart freeMemEnd)
      ⟨initArea prior priorIndex freeMemStart freeMemEnd, []⟩ where
  valid := initArea_valid prior priorIndex hlow hhigh he hN
  merged := by
    rw [initArea]
    dsimp only
    rw [initPool_freeBlocks]
    exact merged_tail _
  beyond := .refl _
  index _ _ := rfl

theorem run_of_no_blocks (hl : mm.maxLevel = 0) (hN : mm.smallestBlock = 0) (hr : Heap.Run ⟨mm, []⟩ h) :
    h = ⟨mm, []⟩ := by
  induction hr with
  | refl => rfl
  | tail _ hs ih =>
    obtain ⟨e, hlegal, rfl⟩ := hs
    subst ih
    cases e with
    | alloc size =>
      have halign : mm.alignBuddyBlock size = 0 := by
        rw [alignBuddyBlock, hl]
        rfl
      simp [call, azAlloc, halign]
    | free address =>
      obtain ⟨h1, h2⟩ := hlegal
      simp only [hN, Nat.mul_zero, Nat.add_zero] at h2
      exact absurd h1 (Nat.not_le_of_lt h2)

theorem freeMemInit_run_coalesced (prior : ℕ → BITMAP) (priorIndex : ℤ → BYTE) (gMemoryStart gMemoryEnd : ℕ)
    (hs : gMemoryStart < wordSize)
    (hr : Heap.Run ⟨freeMemInit prior priorIndex gMemoryStart gMemoryEnd, []⟩ h) :
    (h.handed = [] → h.mm = freeMemInit prior priorIndex gMemoryStart gMemoryEnd) ∧
    (∀ l k, (⟨l, 2 * k⟩ : Block) ∈ h.mm.freeBlocks → (⟨l, 2 * k + 1⟩ : Block) ∉ h.mm.freeBlocks) ∧
    ∀ h', Heap.Run ⟨freeMemInit prior priorIndex gMemoryStart gMemoryEnd, []⟩ h' → h'.blocks = h.blocks →
      h'.mm.bitmap = h.mm.bitmap := by
  rcases Nat.eq_zero_or_pos (freeMemInit prior priorIndex gMemoryStart gMemoryEnd).smallestBlock with hN | hN
  · have hl := freeMemInit_maxLevel prior priorIndex hN
    obtain rfl := run_of_no_blocks hl hN hr
    refine ⟨fun _ => rfl, ?_, fun h' hr' _ => by rw [run_of_no_blocks hl hN hr']⟩
    rintro l k ⟨hstop, -⟩
    change (Block.mk l (2 * k)).stop ≤ (freeMemInit prior priorIndex gMemoryStart gMemoryEnd).smallestBlock at hstop
    rw [hN] at hstop
    exact absurd (Nat.le_zero.mp hstop) (Nat.pos_iff_ne_zero.mp (Nat.zero_lt_of_lt (Block.first_lt_stop _)))
  · obtain ⟨hlow, hhigh⟩ := va_kernel_bounds hs
    have hend : va gMemoryStart gMemoryEnd < 2 ^ 64 := Nat.mod_lt _ (by decide)
    have c₀ : Coalesced (freeMemInit prior priorIndex gMemoryStart gMemoryEnd)
        ⟨freeMemInit prior priorIndex gMemoryStart gMemoryEnd, []⟩ :=
      initArea_coalesced prior priorIndex hlow hhigh hend hN
    have c := c₀.run hr
    exact ⟨fun he => c.mm_eq c₀ he, c.merged, fun h' hr' hb => c.bitmap_eq (c₀.run hr') hb⟩

def tiny : Heap :=
  ⟨freeMemInit (fun _ => ⟨fun _ => 0#8, 0⟩) (fun _ => 0#8) 0x140000000 0x180400000, []⟩

theorem tiny_alloc_free_coalesced : (tiny.call (.alloc 5000)).mm.usedSize = 8192 ∧
    ((tiny.call (.alloc 5000)).call (.free 0xFFFF800100200000)).mm = tiny.mm := by
  have hfree : (tiny.call (.alloc 5000)).Legal (.free 0xFFFF800100200000) := ⟨by decide +kernel, by decide +kernel⟩
  have hrun : Heap.Run tiny ((tiny.call (.alloc 5000)).call (.free 0xFFFF800100200000)) :=
    (Relation.ReflTransGen.single ⟨_, Nat.le_of_ble_eq_true rfl, rfl⟩).tail ⟨_, hfree, rfl⟩
  refine ⟨by decide +kernel, ?_⟩
  exact (freeMemInit_run_coalesced _ _ 0x140000000 0x180400000 (by decide) hrun).1 (by decide +kernel)

end Heap
end Azalea
