import Mathlib.Logic.Relation
import Azalea.Memory.Calls

namespace Azalea
open Dyadic

structure Handed where
  address : ℕ
  size : ℕ
  request : ℕ
deriving DecidableEq, Repr

def Handed.block (start : ℕ) (x : Handed) : Block :=
  ⟨Nat.log2 (x.size / 4096), (x.address - start) / x.size⟩

structure Heap where
  mm : MM
  handed : List Handed

inductive Call where
  | alloc (size : ℕ)
  | free (address : ℕ)
deriving DecidableEq, Repr

namespace MM

def page (mm : MM) (address : ℕ) : ℕ := (address - mm.startAddr) / pageMinSize

def InPool (mm : MM) (address : ℕ) : Prop :=
  mm.startAddr ≤ address ∧ address < mm.startAddr + pageMinSize * mm.smallestBlock

end MM

namespace Heap

def call (h : Heap) : Call → Heap
  | .alloc size =>
    let r := h.mm.azAlloc size
    ⟨r.1, if r.2 = 0 then h.handed else ⟨r.2, h.mm.alignBuddyBlock size, size⟩ :: h.handed⟩
  | .free address =>
    let r := h.mm.azFree address
    ⟨r.1, if r.2 then h.handed.filter (fun x => h.mm.page x.address ≠ h.mm.page address)
      else h.handed⟩

def Legal (h : Heap) : Call → Prop
  | .alloc size => size ≤ 2 ^ 30
  | .free address => h.mm.InPool address

def Step (h h' : Heap) : Prop := ∃ c, h.Legal c ∧ h' = h.call c

abbrev Run : Heap → Heap → Prop := Relation.ReflTransGen Step

def blocks (h : Heap) : Set Block := {b | ∃ x ∈ h.handed, x.block h.mm.startAddr = b}

structure Fit (start : ℕ) (x : Handed) : Prop where
  size : x.size = 4096 * 2 ^ (x.block start).level
  address : x.address = start + 4096 * (x.block start).first
  level : (x.block start).level ≤ 18
  request : x.request ≤ x.size

theorem fit_mk {start request : ℕ} {b : Block} (hb : b.level ≤ 18)
    (hr : request ≤ 4096 * 2 ^ b.level) :
    Handed.block start ⟨start + 4096 * b.first, 4096 * 2 ^ b.level, request⟩ = b ∧
      Fit start ⟨start + 4096 * b.first, 4096 * 2 ^ b.level, request⟩ := by
  have hblock : Handed.block start ⟨start + 4096 * b.first, 4096 * 2 ^ b.level, request⟩ = b := by
    obtain ⟨l, k⟩ := b
    simp only [Handed.block, Block.mk.injEq]
    constructor
    · rw [Nat.mul_div_cancel_left _ (by decide), Nat.log2_two_pow]
    · rw [Nat.add_sub_cancel_left, Nat.mul_div_mul_left _ _ (by decide)]
      exact (Block.mk l k).has_first
  exact ⟨hblock, ⟨by rw [hblock], by rw [hblock], by rw [hblock]; exact hb, hr⟩⟩

structure Valid (h : Heap) : Prop where
  coherent : h.mm.Coherent h.blocks
  fit : ∀ x ∈ h.handed, Fit h.mm.startAddr x
  nodup : (h.handed.map (Handed.block h.mm.startAddr)).Nodup
  head : ∀ x ∈ h.handed, h.mm.blockIndex ((x.block h.mm.startAddr).first : ℤ) =
    BitVec.ofNat 8 (x.block h.mm.startAddr).level
  rest : ∀ p < h.mm.smallestBlock, (∀ x ∈ h.handed, (x.block h.mm.startAddr).first ≠ p) →
    h.mm.blockIndex (p : ℤ) = 0xFF#8
  used : h.mm.usedSize = (h.handed.map Handed.size).sum
  start : 0 < h.mm.startAddr
  room : h.mm.startAddr + 2 * (4096 * h.mm.smallestBlock) < wordSize
  fits : h.mm.startAddr ≤ h.mm.endAddr →
    h.mm.startAddr + 4096 * h.mm.smallestBlock ≤ h.mm.endAddr
  placed : h.handed ≠ [] → h.mm.startAddr ≤ h.mm.endAddr

namespace Valid
variable {h : Heap}

theorem mem_blocks {x : Handed} (hx : x ∈ h.handed) : x.block h.mm.startAddr ∈ h.blocks :=
  ⟨x, hx, rfl⟩

theorem page_eq (v : h.Valid) {x : Handed} (hx : x ∈ h.handed) :
    h.mm.page x.address = (x.block h.mm.startAddr).first := by
  rw [MM.page, (v.fit x hx).address, Nat.add_sub_cancel_left]
  exact Nat.mul_div_cancel_left _ (by decide)

theorem block_inside (v : h.Valid) {x : Handed} (hx : x ∈ h.handed) :
    (x.block h.mm.startAddr).stop ≤ h.mm.smallestBlock :=
  v.coherent.inside (mem_blocks hx)

theorem block_eq_of_first (v : h.Valid) {x y : Handed} (hx : x ∈ h.handed) (hy : y ∈ h.handed)
    (he : (x.block h.mm.startAddr).first = (y.block h.mm.startAddr).first) :
    x.block h.mm.startAddr = y.block h.mm.startAddr :=
  v.coherent.tiling.unique _ (Or.inr (mem_blocks hx)) _ (Or.inr (mem_blocks hy)) _
    (Block.has_first _) (he ▸ Block.has_first _)

theorem apart (v : h.Valid) {x y : Handed} (hx : x ∈ h.handed) (hy : y ∈ h.handed)
    (hne : x.block h.mm.startAddr ≠ y.block h.mm.startAddr) :
    x.address + x.size ≤ y.address ∨ y.address + y.size ≤ x.address := by
  have hsep := v.coherent.tiling.disjoint (Or.inr (mem_blocks hx)) (Or.inr (mem_blocks hy)) hne
  have h1 := v.fit x hx
  have h2 := v.fit y hy
  rw [h1.address, h1.size, h2.address, h2.size]
  rw [Block.stop_eq, Block.stop_eq] at hsep
  omega

theorem eq_of_block (v : h.Valid) {x y : Handed} (hx : x ∈ h.handed) (hy : y ∈ h.handed)
    (he : x.block h.mm.startAddr = y.block h.mm.startAddr) : x = y :=
  List.inj_on_of_nodup_map v.nodup hx hy he

theorem eq_of_address (v : h.Valid) {x y : Handed} (hx : x ∈ h.handed) (hy : y ∈ h.handed)
    (he : x.address = y.address) : x = y := by
  refine v.eq_of_block hx hy (v.block_eq_of_first hx hy ?_)
  have h1 := (v.fit x hx).address
  have h2 := (v.fit y hy).address
  omega

theorem inPool (v : h.Valid) {x : Handed} (hx : x ∈ h.handed) : h.mm.InPool x.address := by
  have hb := v.block_inside hx
  have hlt := (x.block h.mm.startAddr).first_lt_stop
  rw [MM.InPool, (v.fit x hx).address, pageMinSize]
  omega

theorem used_eq (v : h.Valid) :
    h.mm.usedSize = 4096 * ((h.handed.map (Handed.block h.mm.startAddr)).map fun b => 2 ^ b.level).sum := by
  have hmap : h.handed.map Handed.size =
      h.handed.map fun x => 4096 * 2 ^ (x.block h.mm.startAddr).level :=
    List.map_congr_left fun x hx => (v.fit x hx).size
  rw [v.used, hmap, List.sum_map_mul_left, List.map_map]
  rfl

theorem used_le (v : h.Valid) : h.mm.usedSize ≤ 4096 * h.mm.smallestBlock := by
  have hsum := v.coherent.tiling.sum_le
    (fun b hb => Or.inr (by simpa [blocks] using hb)) v.nodup
  rw [v.used_eq]
  exact Nat.mul_le_mul_left _ hsum

theorem alloc (v : h.Valid) {size : ℕ} (hs : h.mm.maxLevel ≤ 19 ∨ size ≤ 2 ^ 30) :
    (h.call (.alloc size)).Valid := by
  have hspec := MM.azAlloc_spec v.coherent hs
  rw [call]
  generalize h.mm.azAlloc size = r at hspec
  cases hspec with
  | refused _ => simpa using v
  | granted mm' b hcoh hframe hnot h18 ha hfit hroom =>
    obtain ⟨bitmap, rfl⟩ := hframe.exists_bitmap
    have hin : b.first < h.mm.smallestBlock := MM.first_lt_smallest (hcoh.inside (Or.inr rfl))
    have hpow : 2 ^ b.level ≤ h.mm.smallestBlock := Block.pow_level_le (hcoh.inside (Or.inr rfl))
    have hle := v.used_le
    have hr := v.room
    have hstart := v.start
    simp only [wordSize] at hr hroom
    obtain ⟨hblock, hnew⟩ := @fit_mk h.mm.startAddr _ _ h18 hfit
    have haddr : (4096 * b.first + h.mm.startAddr) % 2 ^ 64 = h.mm.startAddr + 4096 * b.first := by
      omega
    have hused : (h.mm.usedSize + 4096 * 2 ^ b.level) % 2 ^ 64 =
        h.mm.usedSize + 4096 * 2 ^ b.level := by omega
    have hsend : h.mm.startAddr ≤ h.mm.endAddr := by omega
    simp only [wordSize, haddr, hused, ha]
    rw [if_neg (by omega)]
    refine ⟨?_, ?_, ?_, ?_, ?_, ?_, hstart, hr, v.fits, fun _ => hsend⟩
    · refine (hcoh.record _ _ _).congr fun c => ?_
      simp only [blocks, MM.record, List.mem_cons, Set.mem_ofPred_eq, Set.mem_union,
        Set.mem_singleton_iff, exists_eq_or_imp, hblock]
      rw [eq_comm (a := b), or_comm]
    · intro x hx
      rcases List.mem_cons.mp hx with rfl | hx
      · exact hnew
      · exact v.fit x hx
    · change (List.map (Handed.block h.mm.startAddr) (_ :: h.handed)).Nodup
      rw [List.map_cons, hblock, List.nodup_cons]
      exact ⟨fun hm => hnot (by simpa [blocks] using hm), v.nodup⟩
    · intro x hx
      rcases List.mem_cons.mp hx with rfl | hx
      · simp only [MM.record, hblock, Function.update_self]
      · have hne : (x.block h.mm.startAddr).first ≠ b.first := by
          intro he
          have hxb : x.block h.mm.startAddr = b :=
            hcoh.tiling.unique _ (Or.inr (Or.inl (mem_blocks hx))) _ (Or.inr (Or.inr rfl)) _
              (Block.has_first _) (he ▸ b.has_first)
          exact hnot (hxb ▸ mem_blocks hx)
        change Function.update h.mm.blockIndex _ _ _ = _
        rw [Function.update_of_ne (by exact_mod_cast hne)]
        exact v.head x hx
    · intro p hp hnone
      have hne : p ≠ b.first := by
        have := hnone _ List.mem_cons_self
        change (Handed.block h.mm.startAddr _).first ≠ p at this
        rw [hblock] at this
        exact this.symm
      change Function.update h.mm.blockIndex _ _ _ = _
      rw [Function.update_of_ne (by exact_mod_cast hne)]
      exact v.rest p hp fun x hx => hnone x (List.mem_cons_of_mem _ hx)
    · change h.mm.usedSize + 4096 * 2 ^ b.level = _
      rw [List.map_cons, List.sum_cons, v.used, Nat.add_comm]

theorem full_of_refuses (v : h.Valid) (hpool : h.mm.startAddr ≤ h.mm.endAddr) (hr : h.mm.Refuses 4096) :
    4096 * h.mm.smallestBlock ≤ h.mm.usedSize := by
  by_contra hlt
  have hroom := v.room
  have hfits := v.fits hpool
  have hused := v.used_eq
  have halign := h.mm.alignBuddyBlock_page (by
    rw [v.coherent.levels, MM.levelCount, if_neg (by omega)]
    omega)
  rcases hr with h0 | hover | ⟨l, hl, hnone⟩
  · omega
  · rw [halign, Nat.mod_eq_of_lt (by simp only [wordSize] at *; omega)] at hover
    omega
  · obtain ⟨b, hb, hnot⟩ := v.coherent.tiling.exists_notMem v.nodup (by omega)
    have hfree : b ∈ h.mm.freeBlocks := hb.resolve_right fun ⟨x, hx, he⟩ =>
      hnot (he ▸ List.mem_map_of_mem hx)
    have hpow : 2 ^ l = 1 := by omega
    rcases Nat.eq_zero_or_pos l with rfl | hpos
    · exact absurd (hnone b hfree) (Nat.not_lt_zero _)
    · have := Nat.one_lt_two_pow hpos.ne'
      omega

theorem page_lt {address : ℕ} (hp : h.mm.InPool address) :
    h.mm.page address < h.mm.smallestBlock := by
  obtain ⟨hlow, hhigh⟩ := hp
  rw [MM.page, pageMinSize]
  rw [pageMinSize] at hhigh
  omega

theorem free_unassigned (v : h.Valid) {address : ℕ} (hp : h.mm.InPool address)
    (hnone : ∀ x ∈ h.handed, h.mm.page x.address ≠ h.mm.page address) :
    h.mm.azFree address = (h.mm, false) := by
  have hr := v.room
  have hlt := page_lt hp
  have hsmall := v.coherent.small
  refine MM.azFree_unassigned v.start (by omega) hp.1 rfl (hlt.trans hsmall) ?_
  exact v.rest _ hlt fun x hx => v.page_eq hx ▸ hnone x hx

theorem sum_filter {start : ℕ} {l : List Handed} (hn : (l.map (Handed.block start)).Nodup)
    {x : Handed} (hx : x ∈ l) :
    ((l.filter fun y => y.block start ≠ x.block start).map Handed.size).sum + x.size =
      (l.map Handed.size).sum := by
  induction l with
  | nil => contradiction
  | cons y l ih =>
    rw [List.map_cons, List.nodup_cons] at hn
    rcases List.mem_cons.mp hx with rfl | hxl
    · have hkeep : l.filter (fun y => y.block start ≠ x.block start) = l := by
        refine List.filter_eq_self.mpr fun z hz => ?_
        have hne : z.block start ≠ x.block start := fun he => hn.1 (he ▸ List.mem_map_of_mem hz)
        simpa using hne
      rw [List.filter_cons_of_neg (by simp), hkeep, List.map_cons, List.sum_cons, Nat.add_comm]
    · have hne : y.block start ≠ x.block start := fun he => hn.1 (he ▸ List.mem_map_of_mem hxl)
      rw [List.filter_cons_of_pos (by simpa using hne), List.map_cons, List.sum_cons, List.map_cons,
        List.sum_cons, Nat.add_assoc, ih hn.2 hxl]

theorem free_assigned (v : h.Valid) {address : ℕ} (hp : h.mm.InPool address) {x : Handed}
    (hx : x ∈ h.handed) (hxp : h.mm.page x.address = h.mm.page address) :
    (h.mm.azFree address).2 = true ∧ (h.call (.free address)).Valid := by
  have hr := v.room
  have hfx := v.fit x hx
  have hspec := MM.azFree_assigned v.coherent (mem_blocks hx) hfx.level v.start (by omega) hp.1
    (hxp.symm.trans (v.page_eq hx)) (v.head x hx)
  have hfilter : h.handed.filter (fun y => h.mm.page y.address ≠ h.mm.page address) =
      h.handed.filter (fun y => y.block h.mm.startAddr ≠ x.block h.mm.startAddr) := by
    refine List.filter_congr fun y hy => ?_
    rw [decide_eq_decide, not_iff_not, ← hxp, v.page_eq hy, v.page_eq hx]
    exact ⟨v.block_eq_of_first hy hx, fun he => by rw [he]⟩
  have hsum := sum_filter v.nodup hx
  have hmem : ∀ y, y ∈ h.handed.filter (fun y => y.block h.mm.startAddr ≠ x.block h.mm.startAddr) ↔
      y ∈ h.handed ∧ y.block h.mm.startAddr ≠ x.block h.mm.startAddr := by
    simp [List.mem_filter]
  have hnodup : ((h.handed.filter fun y => y.block h.mm.startAddr ≠ x.block h.mm.startAddr).map
      (Handed.block h.mm.startAddr)).Nodup := v.nodup.sublist (List.filter_sublist.map _)
  rw [call, hfilter]
  generalize h.mm.azFree address = r at hspec
  generalize h.handed.filter _ = kept at hsum hmem hnodup
  cases hspec with
  | released mm' hcoh hframe =>
    obtain ⟨bitmap, rfl⟩ := hframe.exists_bitmap
    have hle := v.used_le
    have hsub : ∀ y ∈ kept, y ∈ h.handed := fun y hy => ((hmem y).mp hy).1
    simp only [wordSize] at hr
    have hused : (h.mm.usedSize + (2 ^ 64 - 4096 * 2 ^ (x.block h.mm.startAddr).level)) % 2 ^ 64 =
        (kept.map Handed.size).sum := by
      rw [← v.used, hfx.size] at hsum
      omega
    refine ⟨rfl, ?_⟩
    simp only [if_true, wordSize, hused]
    refine ⟨?_, fun y hy => v.fit y (hsub y hy), hnodup, ?_, ?_, rfl, v.start, hr, v.fits, ?_⟩
    · refine (hcoh.record _ _ _).congr fun c => ?_
      simp only [blocks, MM.record, Set.mem_ofPred_eq, Set.mem_sdiff, Set.mem_singleton_iff, hmem]
      constructor
      · rintro ⟨y, ⟨hy, hne⟩, rfl⟩
        exact ⟨⟨y, hy, rfl⟩, hne⟩
      · rintro ⟨⟨y, hy, rfl⟩, hne⟩
        exact ⟨y, ⟨hy, hne⟩, rfl⟩
    · intro y hy
      obtain ⟨hyh, hne⟩ := (hmem y).mp hy
      have hfirst : (y.block h.mm.startAddr).first ≠ (x.block h.mm.startAddr).first :=
        fun he => hne (v.block_eq_of_first hyh hx he)
      change Function.update h.mm.blockIndex _ _ _ = _
      rw [Function.update_of_ne (by exact_mod_cast hfirst)]
      exact v.head y hyh
    · intro p hpN hnone
      change Function.update h.mm.blockIndex _ _ _ = _
      by_cases hpe : p = (x.block h.mm.startAddr).first
      · rw [hpe, Function.update_self]
      · rw [Function.update_of_ne (by exact_mod_cast hpe)]
        refine v.rest p hpN fun y hy he => ?_
        by_cases hyx : y.block h.mm.startAddr = x.block h.mm.startAddr
        · exact hpe (he.symm.trans (congrArg Block.first hyx))
        · exact hnone y ((hmem y).mpr ⟨hy, hyx⟩) he
    · intro _
      exact v.placed (List.ne_nil_of_mem hx)

theorem free (v : h.Valid) {address : ℕ} (hp : h.mm.InPool address) :
    (h.call (.free address)).Valid := by
  by_cases hx : ∃ x ∈ h.handed, h.mm.page x.address = h.mm.page address
  · obtain ⟨x, hx, hxp⟩ := hx
    exact (v.free_assigned hp hx hxp).2
  · have hnone := v.free_unassigned hp fun x hx' he => hx ⟨x, hx', he⟩
    rw [call, hnone]
    simpa using v

theorem step {h' : Heap} (v : h.Valid) (hs : h.Step h') : h'.Valid := by
  obtain ⟨c, hc, rfl⟩ := hs
  cases c with
  | alloc size => exact v.alloc (Or.inr hc)
  | free address => exact v.free hc

theorem run {h' : Heap} (v : h.Valid) (hr : Run h h') : h'.Valid := by
  induction hr with
  | refl => exact v
  | tail _ hs ih => exact ih.step hs

end Valid
end Heap
end Azalea
