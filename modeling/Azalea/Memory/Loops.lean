import Azalea.Memory.Coherence

namespace Azalea
namespace MM
open Dyadic

variable {mm : MM} {used : Set Block}

structure Scanned (m : Bitmap.Bytes) (maxCount i : ℕ) : Prop where
  clear : ∀ k < i, Bitmap.test m k = false
  guard : i % 8 ≠ 0 → 0 < (maxCount - i) / 64 → Bitmap.wordIsZero m (i / 8) = false

theorem Scanned.start (m : Bitmap.Bytes) (maxCount : ℕ) : Scanned m maxCount 0 := ⟨by omega, by omega⟩

theorem Scanned.window {m : Bitmap.Bytes} {maxCount i : ℕ} (h : Scanned m maxCount i) (hw : 0 < (maxCount - i) / 64)
    (hz : Bitmap.wordIsZero m (i / 8) = true) :
    i % 8 = 0 ∧ ∀ k, i ≤ k → k < i + 64 → Bitmap.test m k = false := by
  have haligned : i % 8 = 0 := by
    by_contra hne
    rw [h.guard hne hw] at hz
    contradiction
  rw [Bitmap.wordIsZero_iff] at hz
  exact ⟨haligned, fun k hik hk => hz k (by omega) (by omega)⟩

theorem Scanned.skip {m : Bitmap.Bytes} {maxCount i : ℕ} (h : Scanned m maxCount i) (hw : 0 < (maxCount - i) / 64)
    (hz : Bitmap.wordIsZero m (i / 8) = true) : Scanned m maxCount (i + 64) := by
  obtain ⟨haligned, hwindow⟩ := h.window hw hz
  refine ⟨fun k hk => ?_, by omega⟩
  rcases Nat.lt_or_ge k i with hki | hki
  · exact h.clear k hki
  · exact hwindow k hki hk

theorem Scanned.next {m : Bitmap.Bytes} {maxCount i : ℕ} (h : Scanned m maxCount i)
    (hs : ¬ (0 < (maxCount - i) / 64 ∧ Bitmap.wordIsZero m (i / 8) = true)) (ht : ¬ Bitmap.test m i = true) :
    Scanned m maxCount (i + 1) := by
  refine ⟨fun k hk => ?_, fun hne hw => ?_⟩
  · rcases Nat.lt_or_eq_of_le (Nat.le_of_lt_succ hk) with hki | rfl
    · exact h.clear k hki
    · simpa using ht
  · rw [show (i + 1) / 8 = i / 8 by omega]
    have hw' : 0 < (maxCount - i) / 64 := by omega
    simpa [hw'] using hs

theorem scan_isFirst (m : Bitmap.Bytes) (maxCount fuel i : ℕ) (h : Scanned m maxCount i)
    (enough : maxCount ≤ i + fuel) : Bitmap.IsFirst m maxCount (scan m maxCount fuel i) := by
  induction fuel generalizing i with
  | zero => exact fun k hk => h.clear k (by omega)
  | succ fuel ih =>
    rw [scan]
    split_ifs with hi hskip ht
    · exact ih (i + 64) (h.skip hskip.1 hskip.2) (by omega)
    · exact ⟨hi, ht, h.clear⟩
    · exact ih (i + 1) (h.next hskip ht) (by omega)
    · exact fun k hk => h.clear k (by omega)

theorem findFreeBlock_isFirst_of_count {l : ℕ}
    (hcount : (mm.bitmap l).bitmapCount = Bitmap.size (mm.bitmap l).bitmap (mm.smallestBlock >>> l)) :
    Bitmap.IsFirst (mm.bitmap l).bitmap (mm.smallestBlock >>> l) (mm.findFreeBlock l) := by
  rw [findFreeBlock]
  split_ifs with hc
  · intro k hk
    rw [hcount] at hc
    by_contra ht
    have := (Bitmap.size_pos_iff _ _).mpr ⟨k, hk, by simpa using ht⟩
    omega
  · exact scan_isFirst _ _ _ 0 (Scanned.start _ _) (by omega)

theorem findFreeBlock_isFirst (h : Coherent mm used) {l : ℕ} (hl : l < mm.maxLevel) :
    Bitmap.IsFirst (mm.bitmap l).bitmap (mm.smallestBlock >>> l) (mm.findFreeBlock l) :=
  findFreeBlock_isFirst_of_count (h.counts l hl)

theorem findFreeBlock_mem (h : Coherent mm used) {l k : ℕ} (hl : l < mm.maxLevel)
    (hf : mm.findFreeBlock l = some k) : (⟨l, k⟩ : Block) ∈ mm.freeBlocks := by
  have hfirst := findFreeBlock_isFirst h hl
  rw [hf] at hfirst
  obtain ⟨hk, ht, -⟩ := hfirst
  rw [Nat.shiftRight_eq_div_pow] at hk
  exact ⟨(Block.stop_le_iff _ _).mpr hk, ht⟩

theorem splitBlock_frame (mm : MM) (bl n off : ℕ) : Frame mm (splitBlock mm bl n off).1 := by
  induction n generalizing mm off with
  | zero => exact Frame.refl mm
  | succ n ih =>
    exact ((setBitmapFlag_frame _ _ _ _).trans (setBitmapFlag_frame _ _ _ _)).trans (ih _ _)

theorem mergeBlock_frame (mm : MM) (n i k : ℕ) : Frame mm (mergeBlock mm n i k) := by
  induction n generalizing mm i k with
  | zero => exact Frame.refl mm
  | succ n ih =>
    rw [mergeBlock]
    dsimp only
    split_ifs
    · exact setBitmapFlag_frame _ _ _ _
    · exact ((setBitmapFlag_frame _ _ _ _).trans ((setBitmapFlag_frame _ _ _ _).trans
        (setBitmapFlag_frame _ _ _ _))).trans (ih _ _ _)

theorem splitBlock_spec (bl n off : ℕ) (h : Coherent mm used)
    (hb : (⟨bl + n, off⟩ : Block) ∈ used) :
    Coherent (splitBlock mm bl n off).1
      (used \ {⟨bl + n, off⟩} ∪ {⟨bl, (splitBlock mm bl n off).2⟩}) := by
  induction n generalizing mm used off with
  | zero =>
    refine h.congr fun c => ?_
    by_cases hc : c = ⟨bl, off⟩
    · subst hc; simpa [splitBlock] using hb
    · simp [splitBlock, hc]
  | succ n ih =>
    have hs := h.split hb
    rw [Nat.mul_comm 2 off] at hs
    have hleft : (⟨bl + n, off * 2⟩ : Block) ∈ used \ {⟨bl + n + 1, off⟩} ∪
      {⟨bl + n, off * 2⟩, ⟨bl + n, off * 2 + 1⟩} := by simp
    have hc := hs.clear hleft
    have hp := hc.put (b := ⟨bl + n, off * 2 + 1⟩) (by simp)
    have hl' : (⟨bl + n, off * 2 + 1⟩ : Block) ∉ used :=
      fun hu => h.tiling.child_notMem (Or.inr hb) 1 (by decide) (by rw [Nat.mul_comm]; exact Or.inr hu)
    have hl'' : (⟨bl + n, off * 2⟩ : Block) ∉ used :=
      fun hu => h.tiling.child_notMem (Or.inr hb) 0 (by decide) (by rw [Nat.mul_comm]; exact Or.inr hu)
    refine (ih (off * 2) hp (by simp)).congr fun c => ?_
    simp only [splitBlock, Set.mem_union, Set.mem_sdiff, Set.mem_singleton_iff, Set.mem_insert_iff,
      ← Nat.add_assoc]
    by_cases hcl : c = ⟨bl + n, off * 2⟩
    · subst hcl; simp [hl'']
    · by_cases hcr : c = ⟨bl + n, off * 2 + 1⟩
      · subst hcr; simp [hl']
      · simp [hcl, hcr]

theorem buddyOf_cases (k : ℕ) :
    (k = 2 * (k / 2) ∧ buddyOf k = 2 * (k / 2) + 1) ∨
      (k = 2 * (k / 2) + 1 ∧ buddyOf k = 2 * (k / 2)) := by
  unfold buddyOf
  split_ifs with h <;> omega

theorem buddy_free (h : Coherent mm used) {i k : ℕ} (hb : (Block.mk i k).stop ≤ mm.smallestBlock)
    (hf : mm.getBitmapFlag i (buddyOf k) = true) : (⟨i, buddyOf k⟩ : Block) ∈ mm.freeBlocks := by
  have hk := (Block.stop_le_iff _ _).mp hb
  refine ⟨(Block.stop_le_iff _ _).mpr ?_, hf⟩
  by_contra hge
  -- only the buddy of the unpaired last block lies outside, and its bit is never set
  have hedge : buddyOf k = mm.smallestBlock / 2 ^ i ∧ mm.smallestBlock / 2 ^ i % 2 = 1 := by
    dsimp only at hk hge
    rcases buddyOf_cases k with ⟨h1, h2⟩ | ⟨h1, h2⟩ <;> omega
  have hspare := h.spare i (h.level_lt hb) (by rw [Nat.shiftRight_eq_div_pow]; exact hedge.2)
  rw [Nat.shiftRight_eq_div_pow, ← hedge.1, hf] at hspare
  contradiction

theorem Coherent.merge_buddies (h : Coherent mm used) {i k : ℕ} (hb : (⟨i, k⟩ : Block) ∈ used)
    (hr : (⟨i, buddyOf k⟩ : Block) ∈ used) :
    Coherent mm (used \ {⟨i, k⟩, ⟨i, buddyOf k⟩} ∪ {⟨i + 1, k / 2⟩}) := by
  rcases buddyOf_cases k with ⟨h1, h2⟩ | ⟨h1, h2⟩
  · have hm := h.merge (l := i) (k := k / 2) (by rwa [← h1]) (by rwa [← h2])
    rwa [← h2, ← h1] at hm
  · have hm := h.merge (l := i) (k := k / 2) (by rwa [← h2]) (by rwa [← h1])
    rwa [← h1, ← h2, Set.pair_comm] at hm

theorem buddyOf_ne (k : ℕ) : buddyOf k ≠ k := by
  rcases buddyOf_cases k with ⟨h1, h2⟩ | ⟨h1, h2⟩ <;> omega

theorem Coherent.parent_notMem (h : Coherent mm used) {i k : ℕ} (hb : (⟨i, k⟩ : Block) ∈ used) :
    (⟨i + 1, k / 2⟩ : Block) ∉ used := by
  intro hu
  refine h.tiling.child_notMem (Or.inr hu) (k % 2) (Nat.mod_lt _ (by decide)) ?_
  rw [Nat.div_add_mod]
  exact Or.inr hb

theorem Coherent.merge_step (h : Coherent mm used) {i k : ℕ} (hb : (⟨i, k⟩ : Block) ∈ used)
    (hf : (mm.setBitmapFlag i k true).getBitmapFlag i (buddyOf k) = true) :
    (Block.mk i (buddyOf k)).stop ≤ mm.smallestBlock ∧
      Coherent (((mm.setBitmapFlag i k true).setBitmapFlag i (buddyOf k) false).setBitmapFlag i k false)
        (used \ {⟨i, k⟩} ∪ {⟨i + 1, k / 2⟩}) := by
  have hp := h.put hb
  have hin := h.inside hb
  have hne : (⟨i, buddyOf k⟩ : Block) ≠ ⟨i, k⟩ := by simpa using buddyOf_ne k
  have hbf := buddy_free hp (by simpa using hin) hf
  have hbu : (⟨i, buddyOf k⟩ : Block) ∉ used := by
    rw [mem_freeBlocks_set i k true hin, if_neg hne] at hbf
    exact h.apart _ hbf
  have hself : (⟨i, k⟩ : Block) ∈
      ((mm.setBitmapFlag i k true).setBitmapFlag i (buddyOf k) false).freeBlocks := by
    rw [mem_freeBlocks_set i (buddyOf k) false hbf.1, if_neg hne.symm,
      mem_freeBlocks_set i k true hin, if_pos rfl]
  have ht := ((hp.take hbf).take hself).merge_buddies (i := i) (k := k) (by simp) (by simp)
  refine ⟨by simpa using hbf.1, ht.congr fun c => ?_⟩
  simp only [Set.mem_union, Set.mem_sdiff, Set.mem_singleton_iff, Set.mem_insert_iff]
  by_cases hc : c ∈ used
  · have h2 : c ≠ ⟨i, buddyOf k⟩ := fun he => hbu (he ▸ hc)
    tauto
  · tauto

theorem mergeBlock_spec (n i k : ℕ) (h : Coherent mm used) (hb : (⟨i, k⟩ : Block) ∈ used)
    (hn : mm.maxLevel ≤ i + n) :
    Coherent (mergeBlock mm n i k) (used \ {⟨i, k⟩}) := by
  induction n generalizing mm used i k with
  | zero =>
    have := h.level_lt (h.inside hb)
    dsimp only at this
    omega
  | succ n ih =>
    rw [mergeBlock]
    dsimp only
    split_ifs with hf
    · exact h.put hb
    · obtain ⟨-, hstep⟩ := h.merge_step hb (by simpa using hf)
      have hup := h.parent_notMem hb
      refine (ih (i + 1) (k / 2) hstep (by simp)
        (by rw [setBitmapFlag_maxLevel, setBitmapFlag_maxLevel, setBitmapFlag_maxLevel]; omega)).congr
        fun c => ?_
      simp only [Set.mem_union, Set.mem_sdiff, Set.mem_singleton_iff]
      by_cases hc : c ∈ used
      · have h1 : c ≠ ⟨i + 1, k / 2⟩ := fun he => hup (he ▸ hc)
        tauto
      · tauto

end MM
end Azalea
