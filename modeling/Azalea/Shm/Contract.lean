import Azalea.Memory.Complete
import Azalea.Shm.Ownership

namespace Azalea
open MM

namespace ShmInfo
variable {s : ShmInfo} {key : ℤ} {size shmflg pid i : ℕ}

def Named (s : ShmInfo) (key : ℤ) (i : ℕ) : Prop := i < configArchShmMaxregions ∧ (s.region i).key = key

inductive Refusal (s : ShmInfo) (key : ℤ) (size shmflg : ℕ) : Prop
  | eexist (i : ℕ) : s.Named key i → shmflg &&& ipcCreat ≠ 0 → shmflg &&& ipcExcl ≠ 0 → Refusal s key size shmflg
  | enoent : (∀ i, ¬ s.Named key i) → shmflg &&& ipcCreat = 0 → Refusal s key size shmflg
  | einval (i : ℕ) : s.Named key i → shmflg &&& ipcCreat = 0 → (s.region i).segsz < size → Refusal s key size shmflg
  | enospc : (∀ i, ¬ s.Named key i) → shmflg &&& ipcCreat ≠ 0 →
      (∀ i < configArchShmMaxregions, (s.region i).InUse) → Refusal s key size shmflg
  | enomem : (∀ i, ¬ s.Named key i) → shmflg &&& ipcCreat ≠ 0 →
      (∀ b ∈ s.heap.mm.freeBlocks, 4096 * 2 ^ b.level < size) → Refusal s key size shmflg
  | growth (i : ℕ) (x : Handed) : s.Named key i → shmflg &&& ipcCreat ≠ 0 → (s.region i).segsz < size →
      x ∈ s.heap.handed → x.address = (s.region i).data → x.size < size → Refusal s key size shmflg

structure Delivered (s : ShmInfo) (key : ℤ) (size : ℕ) (s' : ShmInfo) (i : ℕ) : Prop where
  named : s'.Named key i
  inUse : (s'.region i).InUse
  size_le : size ≤ (s'.region i).segsz
  created : (∀ j, ¬ s.Named key j) → ∀ a, (s'.region i).data ≤ a →
    a < (s'.region i).data + (s'.region i).segsz → s'.mem a = 0#8
  same : ∀ j, s.Named key j → j = i ∧ (s'.region i).data = (s.region i).data
  kept : ∀ j, s.Named key j → ∀ a, (s.region j).data ≤ a → a < (s.region j).data + (s.region j).segsz →
    s'.mem a = s.mem a
  added : ∀ j, s.Named key j → ∀ a, (s.region j).data + (s.region j).segsz ≤ a →
    a < (s'.region i).data + (s'.region i).segsz → s'.mem a = 0#8

def Contract (s : ShmInfo) (key : ℤ) (size shmflg pid : ℕ) : Prop :=
  ((s.shmget key size shmflg pid).2 = -1 ↔ s.Refusal key size shmflg) ∧
    (¬ s.Refusal key size shmflg → ∃ i : ℕ, (s.shmget key size shmflg pid).2 = i ∧
      s.Delivered key size (s.shmget key size shmflg pid).1 i)

def Regular (s : ShmInfo) (key : ℤ) (size shmflg : ℕ) : Prop :=
  ∀ i, s.Named key i → shmflg &&& ipcCreat ≠ 0 →
    (shmflg &&& ipcExcl ≠ 0 →
      (s.region i).segsz < size ∧ shmGetBuddyBlockSize (s.region i).segsz < size) ∧
    (shmflg &&& ipcExcl = 0 → (s.region i).segsz < size → ∀ x ∈ s.heap.handed, x.address = (s.region i).data →
      size ≤ x.size ∨ shmGetBuddyBlockSize (s.region i).segsz < size)

structure Sized (s : ShmInfo) : Prop where
  tabled : s.Tabled
  ordered : s.heap.mm.startAddr ≤ s.heap.mm.endAddr
  backed : s.Backed Least

theorem effect_samePool {s' : ShmInfo} (h : s.Tabled) (he : Effect s s') : SamePool s.heap.mm s'.heap.mm := by
  cases he with
  | unchanged => exact ⟨rfl, rfl, rfl, rfl⟩
  | created key size shmflg pid _ _ =>
    rcases h.create_cases key size shmflg pid with ⟨e, -, -, hc⟩ | ⟨i, -, -, -, hc⟩
    · rw [hc]
      exact ⟨rfl, rfl, rfl, rfl⟩
    · rw [hc]
      exact MM.azAlloc_samePool s.heap.mm size
  | touched => exact ⟨rfl, rfl, rfl, rfl⟩
  | destroyed i hi hu =>
    rw [h.destroy_eq hi hu]
    exact MM.azFree_samePool s.heap.mm _

theorem Sized.call (h : s.Sized) (c : ShmCall) : (s.call c).Sized := by
  have hsame := effect_samePool h.tabled (h.tabled.call_effect c)
  refine ⟨h.tabled.call c, ?_, h.tabled.backed_call h.backed c (fun size ha => (h.tabled.snug_alloc ha).2) ?_⟩
  · rw [hsame.startAddr, hsame.endAddr]
    exact h.ordered
  · rintro key size shmflg pid i rfl - - hlt - x - - ⟨l, hl, hsize, hleast⟩
    exact ⟨l, hl, hsize, fun j hj => (hleast j hj).trans hlt⟩

theorem Fresh.sized (h : s.Fresh) : s.ready.Sized := by
  have hr := ready_of_fresh h
  refine ⟨hr.toTabled, ?_, fun i hi hu => ?_⟩
  · have hblocks := shmPool_smallestBlock s.heap.mm.bitmap s.heap.mm.blockIndex
    rw [h.ready_heap]
    exact initArea_ordered s.heap.mm.bitmap s.heap.mm.blockIndex (by decide) (by decide) (by decide)
      (by rw [hblocks]; decide)
  · rw [h.ready_region hi] at hu
    exact absurd hu not_inUse_zero

theorem sized_calls {s₀ : ShmInfo} (h : s₀.Fresh ∨ s₀.Sized) (cs : List ShmCall) :
    (cs.foldl ShmInfo.call s₀).Fresh ∨ (cs.foldl ShmInfo.call s₀).Sized := by
  induction cs generalizing s₀ with
  | nil => exact h
  | cons c cs ih =>
    refine ih ?_
    rcases h with h | h
    · rcases fresh_cases h c with h' | ⟨he, -⟩
      · exact .inl h'
      · rw [he]
        exact .inr (h.sized.call c)
    · exact .inr (h.call c)

theorem Tabled.named_iff (h : s.Tabled) (hk : key ≠ 0) : s.Named key i ↔ s.shmFind key = some i := by
  refine ⟨fun ⟨hi, hn⟩ => (h.consistent.byKey key hk i hi).mp hn, fun hf => ?_⟩
  obtain ⟨hi, -, hn⟩ := h.find_inUse hk hf
  exact ⟨hi, hn⟩

theorem Tabled.not_named (h : s.Tabled) (hk : key ≠ 0) (hf : s.shmFind key = none) (i : ℕ) : ¬ s.Named key i := by
  rw [h.named_iff hk, hf]
  exact Option.some_ne_none i ∘ Eq.symm

theorem refusal_absent (hno : ∀ i, ¬ s.Named key i) : s.Refusal key size shmflg ↔
    shmflg &&& ipcCreat = 0 ∨ (∀ i < configArchShmMaxregions, (s.region i).InUse) ∨
      ∀ b ∈ s.heap.mm.freeBlocks, 4096 * 2 ^ b.level < size := by
  constructor
  · intro hr
    cases hr with
    | eexist i hn _ _ => exact absurd hn (hno i)
    | enoent _ hc => exact .inl hc
    | einval i hn _ _ => exact absurd hn (hno i)
    | enospc _ _ hall => exact .inr (.inl hall)
    | enomem _ _ hall => exact .inr (.inr hall)
    | growth i x hn _ _ _ _ _ => exact absurd hn (hno i)
  · intro hr
    by_cases hc : shmflg &&& ipcCreat = 0
    · exact .enoent hno hc
    · rcases hr.resolve_left hc with hall | hall
      · exact .enospc hno hc hall
      · exact .enomem hno hc hall

theorem refusal_named (h : s.Tabled) (hn : ∀ j, s.Named key j ↔ j = i) {x : Handed} (hx : x ∈ s.heap.handed)
    (ha : x.address = (s.region i).data) : s.Refusal key size shmflg ↔
      (shmflg &&& ipcCreat ≠ 0 ∧ shmflg &&& ipcExcl ≠ 0) ∨
        (s.region i).segsz < size ∧ (shmflg &&& ipcCreat = 0 ∨ x.size < size) := by
  have hi : s.Named key i := (hn i).mpr rfl
  constructor
  · intro hr
    cases hr with
    | eexist j _ hc he => exact .inl ⟨hc, he⟩
    | enoent hno _ => exact absurd hi (hno i)
    | einval j hj hc hlt =>
      obtain rfl := (hn j).mp hj
      exact .inr ⟨hlt, .inl hc⟩
    | enospc hno _ _ => exact absurd hi (hno i)
    | enomem hno _ _ => exact absurd hi (hno i)
    | growth j y hj hc hlt hy hya hgt =>
      obtain rfl := (hn j).mp hj
      obtain rfl := h.heap.eq_of_address hx hy (ha.trans hya.symm)
      exact .inr ⟨hlt, .inr hgt⟩
  · rintro (⟨hc, he⟩ | ⟨hlt, hr⟩)
    · exact .eexist i hi hc he
    · by_cases hc : shmflg &&& ipcCreat = 0
      · exact .einval i hi hc hlt
      · exact .growth i x hi hc hlt hx ha (hr.resolve_left hc)

theorem regular_named (h : s.Tabled) (hn : ∀ j, s.Named key j ↔ j = i) {x : Handed} (hx : x ∈ s.heap.handed)
    (ha : x.address = (s.region i).data) : s.Regular key size shmflg ↔ (shmflg &&& ipcCreat ≠ 0 →
      (shmflg &&& ipcExcl ≠ 0 → (s.region i).segsz < size ∧ shmGetBuddyBlockSize (s.region i).segsz < size) ∧
      (shmflg &&& ipcExcl = 0 → (s.region i).segsz < size →
        size ≤ x.size ∨ shmGetBuddyBlockSize (s.region i).segsz < size)) := by
  constructor
  · intro hr hc
    obtain ⟨he, hg⟩ := hr i ((hn i).mpr rfl) hc
    exact ⟨he, fun h0 hlt => hg h0 hlt x hx ha⟩
  · intro hr j hj hc
    obtain rfl := (hn j).mp hj
    obtain ⟨he, hg⟩ := hr hc
    refine ⟨he, fun h0 hlt y hy hya => ?_⟩
    obtain rfl := h.heap.eq_of_address hx hy (ha.trans hya.symm)
    exact hg h0 hlt

theorem Least.capacity {x : Handed} {segsz : ℕ} (h : Least x segsz) (hlt : segsz < size) (hle : size ≤ x.size) :
    size ≤ shmGetBuddyBlockSize segsz := by
  obtain ⟨l, hl, hsize, hleast⟩ := h
  rw [shmGetBuddyBlockSize_eq (by omega) (by omega) fun j hj => (hleast j hj).le]
  omega

theorem memset_inside {mem : ℕ → BYTE} {address n a : ℕ} {value : BYTE} (hlow : address ≤ a) (hhigh : a < address + n) :
    memset mem address value n a = value :=
  if_pos ⟨hlow, hhigh⟩

theorem delivered_created (hno : ∀ j, ¬ s.Named key j) (hi : i < configArchShmMaxregions) {address n : ℕ} (heap : Heap)
    (hn : size ≤ n) : s.Delivered key size ({ s with
        heap := heap
        mem := memset s.mem address 0#8 n }.setRegion i
      ⟨shmflg &&& ipcMode, size, 0, pid, 0, srflagInuse, key, address⟩) i := by
  refine ⟨⟨hi, by rw [setRegion_self]⟩, ?_, by rw [setRegion_self], fun _ a => ?_,
    fun j hj => absurd hj (hno j), fun j hj => absurd hj (hno j), fun j hj => absurd hj (hno j)⟩
  · rw [setRegion_self]
    exact inUse_of_flags rfl
  · rw [setRegion_self]
    intro hlow hhigh
    exact memset_inside hlow (hhigh.trans_le (Nat.add_le_add_left hn _))

theorem delivered_reopened (hn : ∀ j, s.Named key j ↔ j = i) (hle : size ≤ (s.region i).segsz) :
    s.Delivered key size (s.reopen i) i := by
  have hi := (hn i).mpr rfl
  unfold ShmInfo.reopen
  refine ⟨⟨hi.1, ?_⟩, ?_, ?_, fun hno => absurd hi (hno i), fun j hj => ⟨(hn j).mp hj, ?_⟩, fun _ _ _ _ _ => rfl,
    fun j hj a => ?_⟩
  · rw [setRegion_self]
    exact hi.2
  · rw [setRegion_self]
    exact inUse_of_flags rfl
  · rwa [setRegion_self]
  · rw [setRegion_self]
  · rw [setRegion_self, (hn j).mp hj]
    intro hlow hhigh
    exact absurd hhigh (Nat.not_lt.mpr hlow)

theorem delivered_extended (hn : ∀ j, s.Named key j ↔ j = i) (hlt : (s.region i).segsz < size) :
    s.Delivered key size
      (({ s with mem := memset s.mem ((s.region i).data + (s.region i).segsz) 0#8 (size - (s.region i).segsz)
        }.setRegion i ((s.region i).withSegsz size)).reopen i) i := by
  have hi := (hn i).mpr rfl
  rw [ShmInfo.reopen, setRegion_setRegion, setRegion_self]
  refine ⟨⟨hi.1, ?_⟩, ?_, ?_, fun hno => absurd hi (hno i), fun j hj => ⟨(hn j).mp hj, ?_⟩, fun j hj a _ => ?_,
    fun j hj a => ?_⟩
  · rw [setRegion_self]
    exact hi.2
  · rw [setRegion_self]
    exact inUse_of_flags rfl
  · rw [setRegion_self]
    exact le_rfl
  · rw [setRegion_self]
    rfl
  · rw [(hn j).mp hj]
    intro hhigh
    exact memset_outside (.inl hhigh)
  · rw [setRegion_self, (hn j).mp hj]
    intro hlow hhigh
    refine memset_inside hlow ?_
    change a < (s.region i).data + size at hhigh
    omega

theorem contract_failed {s' : ShmInfo} (hr : s.shmget key size shmflg pid = (s', -1)) :
    s.Contract key size shmflg pid ↔ s.Refusal key size shmflg := by
  rw [Contract, hr]
  refine ⟨fun hc => hc.1.mp rfl, fun href => ⟨iff_of_true rfl href, fun hno => absurd href hno⟩⟩

theorem contract_returned {s' : ShmInfo} (hr : s.shmget key size shmflg pid = (s', (i : ℤ)))
    (hd : s.Delivered key size s' i) : s.Contract key size shmflg pid ↔ ¬ s.Refusal key size shmflg := by
  have hne : (i : ℤ) ≠ -1 := by omega
  rw [Contract, hr]
  exact ⟨fun hc href => hne (hc.1.mpr href), fun hno => ⟨iff_of_false hne hno, fun _ => ⟨i, rfl, hd⟩⟩⟩

theorem Sized.contract_absent (h : s.Sized) (hk : key ≠ ipcPrivate) (hf : s.shmFind key = none) :
    s.Contract key size shmflg pid := by
  have hno := h.tabled.not_named hk hf
  have hlevels : s.heap.mm.maxLevel ≤ 19 := h.tabled.levels.trans (by decide)
  have hnull := @Heap.Valid.azAlloc_null_iff s.heap size h.tabled.heap h.ordered hlevels
  have hanswered := shmget_answered (if_neg h.tabled.flag) key size shmflg pid
  generalize hr : s.shmget key size shmflg pid = r at hanswered
  cases hanswered with
  | refused hrefused =>
    cases hrefused with
    | unsupported h0 => exact absurd h0 hk
    | absent _ _ hc => exact (contract_failed hr).mpr (.enoent hno hc)
    | small i _ hfind _ _ => exact absurd (hf.symm.trans hfind) (Option.some_ne_none i).symm
    | blocked i _ hfind _ _ _ => exact absurd (hf.symm.trans hfind) (Option.some_ne_none i).symm
  | created _ _ hc =>
    rcases h.tabled.create_cases key size shmflg pid with ⟨e, he, hwhy, hcreate⟩ | ⟨i, hi, hz, ha, hcreate⟩
    · rw [hcreate, if_pos he] at hr
      refine (contract_failed hr).mpr ((refusal_absent hno).mpr (.inr ?_))
      exact hwhy.imp id hnull.mp
    · obtain ⟨l, -, -, halign, hfit, -⟩ := Heap.alloc_size (.inl hlevels) ha
      rw [hcreate, if_neg (by omega)] at hr
      refine (contract_returned hr (delivered_created hno hi _ (halign ▸ hfit))).mpr fun href => ?_
      rcases (refusal_absent hno).mp href with h0 | hall | hall
      · exact hc h0
      · have hu := hall i hi
        rw [hz] at hu
        exact not_inUse_zero hu
      · exact ha (hnull.mpr hall)
  | reopened i _ hfind _ => exact absurd (hf.symm.trans hfind) (Option.some_ne_none i).symm
  | extended i _ hfind _ _ _ => exact absurd (hf.symm.trans hfind) (Option.some_ne_none i).symm

theorem Sized.contract_named (h : s.Sized) (hk : key ≠ ipcPrivate) (hf : s.shmFind key = some i) :
    s.Contract key size shmflg pid ↔ s.Regular key size shmflg := by
  have hn : ∀ j, s.Named key j ↔ j = i := by
    intro j
    rw [h.tabled.named_iff hk, hf, Option.some_inj, eq_comm]
  obtain ⟨hi, hu, -⟩ := h.tabled.find_inUse hk hf
  obtain ⟨x, hx, ha, hleast⟩ := h.backed i hi hu
  have hsame : ∀ {j}, s.shmFind key = some j → j = i := fun hj => Option.some.inj (hj.symm.trans hf)
  have href := @refusal_named s key size shmflg i h.tabled hn x hx ha
  rw [@regular_named s key size shmflg i h.tabled hn x hx ha]
  have hanswered := shmget_answered (if_neg h.tabled.flag) key size shmflg pid
  generalize hr : s.shmget key size shmflg pid = r at hanswered
  cases hanswered with
  | refused hrefused =>
    cases hrefused with
    | unsupported h0 => exact absurd h0 hk
    | absent _ hfind _ => exact absurd (hfind.symm.trans hf) (Option.some_ne_none i).symm
    | small j _ hfind hc hlt =>
      obtain rfl := hsame hfind
      rw [contract_failed hr, href]
      exact iff_of_true (.inr ⟨hlt, .inl hc⟩) fun hne => absurd hc hne
    | blocked j _ hfind hc hlt hgt =>
      obtain rfl := hsame hfind
      have hover : x.size < size := by
        by_contra hle
        exact absurd (hleast.capacity hlt (Nat.le_of_not_lt hle)) (Nat.not_le.mpr hgt)
      rw [contract_failed hr, href]
      exact iff_of_true (.inr ⟨hlt, .inr hover⟩) fun _ => ⟨fun _ => ⟨hlt, hgt⟩, fun _ _ => .inr hgt⟩
  | created _ hfind _ => exact absurd (hfind.symm.trans hf) (Option.some_ne_none i).symm
  | reopened j _ hfind hle =>
    obtain rfl := hsame hfind
    rw [contract_returned hr (delivered_reopened hn hle), href]
    have hge : ¬ (s.region j).segsz < size := Nat.not_lt.mpr hle
    constructor
    · intro hno hc
      exact ⟨fun he => absurd (.inl ⟨hc, he⟩) hno, fun _ hlt => absurd hlt hge⟩
    · rintro hreg (⟨hc, he⟩ | ⟨hlt, -⟩)
      · exact hge ((hreg hc).1 he).1
      · exact hge hlt
  | extended j _ hfind hc hlt hle =>
    obtain rfl := hsame hfind
    have hge : ¬ shmGetBuddyBlockSize (s.region j).segsz < size := Nat.not_lt.mpr hle
    rw [contract_returned hr (delivered_extended hn hlt), href]
    constructor
    · intro hno _
      refine ⟨fun he => absurd (.inl ⟨hc, he⟩) hno, fun _ _ => .inl ?_⟩
      by_contra hover
      exact hno (.inr ⟨hlt, .inr (Nat.lt_of_not_le hover)⟩)
    · intro hreg hno
      obtain ⟨hexcl, hgrow⟩ := hreg hc
      by_cases he : shmflg &&& ipcExcl = 0
      · rcases hno with ⟨-, hne⟩ | ⟨-, h0 | hover⟩
        · exact hne he
        · exact hc h0
        · exact hge ((hgrow he hlt).resolve_left (Nat.not_le.mpr hover))
      · exact hge (hexcl he).2

theorem shmget_contract_iff {s₀ : ShmInfo} (h : s₀.Fresh) (cs : List ShmCall)
    (hinit : (cs.foldl ShmInfo.call s₀).shmInitFlag ≠ 0) (hk : key ≠ ipcPrivate) :
    (cs.foldl ShmInfo.call s₀).Contract key size shmflg pid ↔ (cs.foldl ShmInfo.call s₀).Regular key size shmflg := by
  have hs : (cs.foldl ShmInfo.call s₀).Sized := (sized_calls (.inl h) cs).resolve_left fun hf => hinit hf.1
  cases hf : (cs.foldl ShmInfo.call s₀).shmFind key with
  | none => exact iff_of_true (hs.contract_absent hk hf) fun i hi => absurd hi (hs.tabled.not_named hk hf i)
  | some i => exact hs.contract_named hk hf

theorem blank_grow_in_block : (blank.call (.get 1 4000 ipcCreat 0)).Contract 1 4096 ipcCreat 0 := by
  have hrun := blank_get (.inl rfl)
  generalize hinfo : blank.call (.get 1 4000 ipcCreat 0) = s at hrun ⊢
  obtain ⟨hinit, -, hhanded⟩ := hrun
  have hs : s = [ShmCall.get 1 4000 ipcCreat 0].foldl ShmInfo.call blank := by
    rw [List.foldl_cons, List.foldl_nil, hinfo]
  rw [hs] at hinit hhanded ⊢
  refine (shmget_contract_iff blank_fresh _ hinit (by decide)).mpr fun i _ _ => ?_
  refine ⟨fun he => absurd (show ipcCreat &&& ipcExcl = 0 by decide) he, fun _ _ x hx _ => .inl ?_⟩
  rw [hhanded] at hx
  obtain rfl := List.mem_singleton.mp hx
  exact le_rfl

theorem blank_breaks_contract :
    ¬ (blank.call (.get 1 4096 ipcCreat 0)).Contract 1 4096 (ipcCreat ||| ipcExcl) 0 ∧
      ¬ (blank.call (.get 1 4096 ipcCreat 0)).Contract 1 8192 ipcCreat 0 := by
  have hfirst := blank_get (.inr rfl)
  have hsecond : ((blank.call (.get 1 4096 ipcCreat 0)).shmget 1 4096 (ipcCreat ||| ipcExcl) 0).2 ≠ -1 ∧
      ((blank.call (.get 1 4096 ipcCreat 0)).shmget 1 8192 ipcCreat 0).2 ≠ -1 := by decide +kernel
  generalize blank.call (.get 1 4096 ipcCreat 0) = s at hfirst hsecond
  obtain ⟨-, hregion, hhanded⟩ := hfirst
  obtain ⟨hexcl, hgrow⟩ := hsecond
  have hnamed : s.Named 1 0 := ⟨by decide, by rw [hregion]⟩
  refine ⟨fun hc => hexcl (hc.1.mpr (.eexist 0 hnamed (by decide) (by decide))), fun hc => hgrow (hc.1.mpr ?_)⟩
  refine .growth 0 ⟨0xFFFF80003FFFF000, 4096, 4096⟩ hnamed (by decide) ?_ ?_ ?_ (by decide)
  · rw [hregion]
    decide
  · rw [hhanded]
    exact List.mem_singleton_self _
  · rw [hregion]

end ShmInfo
end Azalea
