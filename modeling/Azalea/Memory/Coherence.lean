import Azalea.Foundation.Dyadic
import Azalea.Memory.Buddy

namespace Azalea
namespace MM
open Dyadic

variable {mm : MM} {used : Set Block}

theorem lt_levelCount_iff (n l : ℕ) : l < levelCount n ↔ 2 ^ l ≤ n := by
  unfold levelCount
  split_ifs with hn
  · simp [hn]
  · rw [Nat.lt_add_one_iff, Nat.le_log2 hn]

def Frame (mm mm' : MM) : Prop := mm' = { mm with bitmap := mm'.bitmap }

theorem Frame.refl (mm : MM) : Frame mm mm := rfl

theorem Frame.trans {a b c : MM} (hab : Frame a b) (hbc : Frame b c) : Frame a c := by
  rw [Frame] at *
  rw [hbc, hab]

theorem Frame.exists_bitmap {mm mm' : MM} (h : Frame mm mm') :
    ∃ bitmap, mm' = { mm with bitmap := bitmap } :=
  ⟨_, h⟩

theorem setBitmapFlag_frame (mm : MM) (l k : ℕ) (flag : Bool) :
    Frame mm (mm.setBitmapFlag l k flag) := by
  cases flag <;> rfl

@[simp] theorem setBitmapFlag_maxLevel (mm : MM) (l k : ℕ) (flag : Bool) :
    (mm.setBitmapFlag l k flag).maxLevel = mm.maxLevel := by
  cases flag <;> rfl

@[simp] theorem setBitmapFlag_smallestBlock (mm : MM) (l k : ℕ) (flag : Bool) :
    (mm.setBitmapFlag l k flag).smallestBlock = mm.smallestBlock := by
  cases flag <;> rfl

theorem setBitmapFlag_of_ne (mm : MM) {l l' : ℕ} (k : ℕ) (flag : Bool) (h : l' ≠ l) :
    (mm.setBitmapFlag l k flag).bitmap l' = mm.bitmap l' := by
  cases flag <;> exact Function.update_of_ne h _ _

theorem getBitmapFlag_set (mm : MM) (l k l' k' : ℕ) (flag : Bool) :
    (mm.setBitmapFlag l k flag).getBitmapFlag l' k' =
      if l' = l ∧ k' = k then flag else mm.getBitmapFlag l' k' := by
  by_cases hl : l' = l
  · subst hl
    cases flag <;> by_cases hk : k' = k <;>
      simp [getBitmapFlag, setBitmapFlag, setLevel, Bitmap.test_insert, Bitmap.test_remove, hk]
  · rw [getBitmapFlag, setBitmapFlag_of_ne mm k flag hl]
    simp [hl, getBitmapFlag]

theorem setBitmapFlag_count {l k n : ℕ} (flag : Bool) (hk : k < n) (hn : n < wordSize)
    (h : (mm.bitmap l).bitmapCount = Bitmap.size (mm.bitmap l).bitmap n) :
    ((mm.setBitmapFlag l k flag).bitmap l).bitmapCount =
      Bitmap.size ((mm.setBitmapFlag l k flag).bitmap l).bitmap n := by
  have hle := Bitmap.size_le (mm.bitmap l).bitmap n
  simp only [wordSize] at hn
  cases flag with
  | true =>
    simp only [setBitmapFlag, setLevel, if_true, Function.update_self, h, wordSize]
    split_ifs with ht
    · have hs := Bitmap.size_insert hk ht
      have hle' := Bitmap.size_le (Bitmap.insert (mm.bitmap l).bitmap k) n
      rw [hs, Nat.mod_eq_of_lt (by omega)]
    · refine (Bitmap.size_congr fun j _ => ?_).symm
      by_cases hj : j = k
      · subst hj; simpa [Bitmap.test_insert] using ht
      · simp [Bitmap.test_insert, hj]
  | false =>
    simp only [setBitmapFlag, setLevel, Bool.false_eq_true, if_false, Function.update_self, h,
      wordSize]
    split_ifs with ht
    · have hs := Bitmap.size_remove hk ht
      omega
    · refine (Bitmap.size_congr fun j _ => ?_).symm
      by_cases hj : j = k
      · subst hj; simpa [Bitmap.test_remove] using ht
      · simp [Bitmap.test_remove, hj]

def freeBlocks (mm : MM) : Set Block :=
  {b | b.stop ≤ mm.smallestBlock ∧ mm.getBitmapFlag b.level b.offset = true}

theorem mem_freeBlocks_set (l k : ℕ) (flag : Bool) (h : (Block.mk l k).stop ≤ mm.smallestBlock)
    (b : Block) : b ∈ (mm.setBitmapFlag l k flag).freeBlocks ↔
      if b = ⟨l, k⟩ then flag = true else b ∈ mm.freeBlocks := by
  obtain ⟨l', k'⟩ := b
  simp only [freeBlocks, Set.mem_ofPred_eq, setBitmapFlag_smallestBlock, getBitmapFlag_set,
    Block.mk.injEq]
  split_ifs with he
  · obtain ⟨rfl, rfl⟩ := he
    simp [h]
  · rfl

structure Coherent (mm : MM) (used : Set Block) : Prop where
  levels : mm.maxLevel = levelCount mm.smallestBlock
  small : mm.smallestBlock < 2 ^ 31
  tiling : Tiling (mm.freeBlocks ∪ used) mm.smallestBlock
  apart : ∀ b ∈ mm.freeBlocks, b ∉ used
  spare : ∀ l < mm.maxLevel, (mm.smallestBlock >>> l) % 2 = 1 →
    mm.getBitmapFlag l (mm.smallestBlock >>> l) = false
  counts : ∀ l < mm.maxLevel, (mm.bitmap l).bitmapCount =
    Bitmap.size (mm.bitmap l).bitmap (mm.smallestBlock >>> l)

namespace Coherent

theorem congr {used' : Set Block} (h : Coherent mm used) (e : ∀ b, b ∈ used' ↔ b ∈ used) :
    Coherent mm used' := by
  have : used' = used := Set.ext e
  rwa [this]

theorem inside (h : Coherent mm used) {b : Block} (hb : b ∈ used) : b.stop ≤ mm.smallestBlock :=
  h.tiling.inside b (Or.inr hb)

theorem level_lt (h : Coherent mm used) {b : Block} (hb : b.stop ≤ mm.smallestBlock) :
    b.level < mm.maxLevel := by
  rw [h.levels, lt_levelCount_iff]
  exact Block.pow_level_le hb

theorem offset_lt {b : Block} (hb : b.stop ≤ mm.smallestBlock) :
    b.offset < mm.smallestBlock >>> b.level := by
  rw [Nat.shiftRight_eq_div_pow]
  exact (b.stop_le_iff _).mp hb

theorem set {used' : Set Block} (h : Coherent mm used) {l k : ℕ} (flag : Bool)
    (hb : (Block.mk l k).stop ≤ mm.smallestBlock)
    (tiling : Tiling ((mm.setBitmapFlag l k flag).freeBlocks ∪ used') mm.smallestBlock)
    (apart : ∀ b ∈ (mm.setBitmapFlag l k flag).freeBlocks, b ∉ used') :
    Coherent (mm.setBitmapFlag l k flag) used' := by
  have hk : k < mm.smallestBlock >>> l := offset_lt hb
  refine ⟨by simpa using h.levels, by simpa using h.small, by simpa using tiling, apart, ?_, ?_⟩
  · intro j hj ho
    simp only [setBitmapFlag_maxLevel, setBitmapFlag_smallestBlock, getBitmapFlag_set] at hj ho ⊢
    rw [if_neg, h.spare j hj ho]
    rintro ⟨rfl, he⟩
    omega
  · intro j hj
    simp only [setBitmapFlag_maxLevel, setBitmapFlag_smallestBlock] at hj ⊢
    by_cases hjl : j = l
    · subst hjl
      have hle : mm.smallestBlock >>> j ≤ mm.smallestBlock := by
        rw [Nat.shiftRight_eq_div_pow]; exact Nat.div_le_self _ _
      have hs := h.small
      exact setBitmapFlag_count flag hk (by simp only [wordSize]; omega) (h.counts j hj)
    · rw [setBitmapFlag_of_ne mm k flag hjl]
      exact h.counts j hj

theorem take (h : Coherent mm used) {b : Block} (hb : b ∈ mm.freeBlocks) :
    Coherent (mm.setBitmapFlag b.level b.offset false) (used ∪ {b}) := by
  obtain ⟨l, k⟩ := b
  have hin := h.tiling.inside _ (Or.inl hb)
  refine h.set false hin (h.tiling.congr fun c => ?_) fun c hc => ?_
  · have hm := mem_freeBlocks_set l k false hin c
    by_cases hc : c = ⟨l, k⟩
    · subst hc; simp [hb]
    · simp [hm, hc]
  · rw [mem_freeBlocks_set l k false hin c] at hc
    split_ifs at hc with he
    rintro (hu | hu)
    · exact h.apart c hc hu
    · exact he hu

theorem put (h : Coherent mm used) {b : Block} (hb : b ∈ used) :
    Coherent (mm.setBitmapFlag b.level b.offset true) (used \ {b}) := by
  obtain ⟨l, k⟩ := b
  have hin := h.inside hb
  refine h.set true hin (h.tiling.congr fun c => ?_) fun c hc => ?_
  · have hm := mem_freeBlocks_set l k true hin c
    by_cases hc : c = ⟨l, k⟩
    · subst hc; simp [hm, hb]
    · simp [hm, hc]
  · rw [mem_freeBlocks_set l k true hin c] at hc
    rintro ⟨hu, hne⟩
    rw [if_neg (by simpa using hne)] at hc
    exact h.apart c hc hu

theorem clear (h : Coherent mm used) {b : Block} (hb : b ∈ used) :
    Coherent (mm.setBitmapFlag b.level b.offset false) used := by
  obtain ⟨l, k⟩ := b
  have hin := h.inside hb
  have same : ∀ c, c ∈ (mm.setBitmapFlag l k false).freeBlocks ↔ c ∈ mm.freeBlocks := by
    intro c
    rw [mem_freeBlocks_set l k false hin c]
    split_ifs with he
    · subst he
      simpa using fun hc => h.apart _ hc hb
    · rfl
  refine h.set false hin (h.tiling.congr fun c => ?_) fun c hc => h.apart c ((same c).mp hc)
  simp only [Set.mem_union, same]

theorem split (h : Coherent mm used) {l k : ℕ} (hb : (⟨l + 1, k⟩ : Block) ∈ used) :
    Coherent mm (used \ {⟨l + 1, k⟩} ∪ {⟨l, 2 * k⟩, ⟨l, 2 * k + 1⟩}) := by
  have hl := h.tiling.child_notMem (Or.inr hb) 0 (by decide)
  have hr := h.tiling.child_notMem (Or.inr hb) 1 (by decide)
  refine { h with tiling := h.tiling.split (Or.inr hb) fun c => ?_, apart := fun c hc => ?_ }
  · have : c ∈ mm.freeBlocks → c ≠ ⟨l + 1, k⟩ := fun hc he => h.apart c hc (he ▸ hb)
    simp only [Set.mem_union, Set.mem_sdiff, Set.mem_singleton_iff, Set.mem_insert_iff]
    tauto
  · rintro (⟨hu, -⟩ | rfl | rfl)
    · exact h.apart c hc hu
    · exact hl (Or.inl hc)
    · exact hr (Or.inl hc)

theorem merge (h : Coherent mm used) {l k : ℕ} (hl : (⟨l, 2 * k⟩ : Block) ∈ used)
    (hr : (⟨l, 2 * k + 1⟩ : Block) ∈ used) :
    Coherent mm (used \ {⟨l, 2 * k⟩, ⟨l, 2 * k + 1⟩} ∪ {⟨l + 1, k⟩}) := by
  refine { h with
    tiling := h.tiling.merge (Or.inr hl) (Or.inr hr) fun c => ?_, apart := fun c hc => ?_ }
  · have h1 : c ∈ mm.freeBlocks → c ≠ ⟨l, 2 * k⟩ := fun hc he => h.apart c hc (he ▸ hl)
    have h2 : c ∈ mm.freeBlocks → c ≠ ⟨l, 2 * k + 1⟩ := fun hc he => h.apart c hc (he ▸ hr)
    simp only [Set.mem_union, Set.mem_sdiff, Set.mem_singleton_iff, Set.mem_insert_iff]
    tauto
  · rintro (⟨hu, -⟩ | rfl)
    · exact h.apart c hc hu
    · exact h.tiling.child_notMem (Or.inl hc) 0 (by decide) (Or.inr hl)

end Coherent
end MM
end Azalea
