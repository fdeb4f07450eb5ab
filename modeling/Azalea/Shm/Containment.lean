import Azalea.Shm.Calls

namespace Azalea
open MM

namespace ShmInfo
variable {s : ShmInfo}

def Fresh (s : ShmInfo) : Prop :=
  s.shmInitFlag = 0 ∧ (∀ i < configArchShmMaxregions, s.region i = .zero) ∧ s.heap.handed = []

def Contained (s : ShmInfo) : Prop :=
  ∀ i < configArchShmMaxregions, (s.region i).InUse → ∃ x ∈ s.heap.handed,
    x.address = (s.region i).data ∧
      (s.region i).data + (s.region i).segsz ≤ x.address + x.size

def Separate (s : ShmInfo) : Prop :=
  ∀ i < configArchShmMaxregions, ∀ j < configArchShmMaxregions, i ≠ j → (s.region i).InUse →
    (s.region j).InUse → (s.region i).data + (s.region i).segsz ≤ (s.region j).data ∨
      (s.region j).data + (s.region j).segsz ≤ (s.region i).data

def Fits (s : ShmInfo) : ShmCall → Prop
  | .get key size shmflg _ => ∀ i, s.shmFind key = some i → shmflg &&& ipcCreat ≠ 0 →
      (s.region i).segsz < size → size ≤ 2 * (s.region i).segsz →
      ∀ l, (s.region i).segsz ≠ pageMinSize * 2 ^ l
  | _ => True

def Step (s s' : ShmInfo) : Prop := ∃ c, s.Fits c ∧ s' = s.call c

abbrev Run : ShmInfo → ShmInfo → Prop := Relation.ReflTransGen Step

theorem shmGetBuddyBlockSize_eq {size l : ℕ} (hl : l ≤ 18) (hlt : size < pageShl l)
    (hleast : ∀ j < l, pageShl j ≤ size) : shmGetBuddyBlockSize size = pageShl l := by
  have hfind : (List.range 32).find? (fun i => decide (size < pageShl i)) = some l := by
    rw [List.find?_range_eq_some]
    refine ⟨by simpa using hlt, List.mem_range.mpr (by omega), fun j hj => ?_⟩
    simpa using hleast j hj
  rw [shmGetBuddyBlockSize, hfind]

theorem Holds.capacity {h : Heap} {r : ShmRegion} {x : Handed} (hx : Holds h r x) :
    (r.segsz < x.size ∧ shmGetBuddyBlockSize r.segsz = x.size) ∨
      (r.segsz = x.size ∧ (∃ l, x.size = 4096 * 2 ^ l) ∧
        shmGetBuddyBlockSize r.segsz = 2 * x.size) := by
  obtain ⟨l, hl, hsize, hleast⟩ := hx.least
  have hfits := hx.fits
  rcases hfits.lt_or_eq with hlt | heq
  · refine Or.inl ⟨hlt, ?_⟩
    rw [hsize] at hlt ⊢
    exact shmGetBuddyBlockSize_eq (by omega) hlt fun j hj => (hleast j hj).le
  · refine Or.inr ⟨heq, ⟨l, by rw [hsize, pageShl_eq (by omega)]⟩, ?_⟩
    have htwice : pageShl (l + 1) = 2 * pageShl l := by
      rw [pageShl_eq (by omega), pageShl_eq (by omega), pow_succ]
      omega
    rw [heq, hsize, ← htwice]
    refine shmGetBuddyBlockSize_eq (by omega) (pageShl_lt (by omega) (by omega)) fun j hj => ?_
    rcases Nat.lt_succ_iff_lt_or_eq.mp hj with hj | rfl
    · exact (pageShl_lt hj (by omega)).le
    · exact le_rfl

theorem Holds.full_iff {h : Heap} {r : ShmRegion} {x : Handed} (hx : Holds h r x) :
    (∃ l, r.segsz = 4096 * 2 ^ l) ↔ r.segsz = x.size := by
  obtain ⟨l, hl, hsize, hleast⟩ := hx.least
  have hfits := hx.fits
  rw [hsize, pageShl_eq (by omega)] at hfits
  rw [hsize, pageShl_eq (by omega)]
  constructor
  · rintro ⟨k, hk⟩
    rw [hk] at hfits ⊢
    have hkl : k ≤ l := (Nat.pow_le_pow_iff_right (by decide : 1 < 2)).mp (by omega)
    rcases hkl.lt_or_eq with hlt | rfl
    · have := hleast k hlt
      rw [pageShl_eq (by omega), hk] at this
      omega
    · rfl
  · intro he
    exact ⟨l, he⟩

theorem Holds.grow {h : Heap} {r : ShmRegion} {x : Handed} (hx : Holds h r x) {size : ℕ}
    (hlt : r.segsz < size) (hle : size ≤ shmGetBuddyBlockSize r.segsz)
    (hfit : size ≤ 2 * r.segsz → ∀ l, r.segsz ≠ 4096 * 2 ^ l) : Holds h (r.withSegsz size) x := by
  obtain ⟨l, hl, hsize, hleast⟩ := hx.least
  refine ⟨hx.mem, hx.address, ?_, l, hl, hsize, fun j hj => (hleast j hj).trans hlt⟩
  rcases hx.capacity with ⟨-, hcap⟩ | ⟨hfull, -, hcap⟩
  · rwa [hcap] at hle
  · rw [hcap] at hle
    obtain ⟨k, hk⟩ := hx.full_iff.mpr hfull
    exact absurd hk (hfit (by omega) k)

theorem shmget_extended (hready : s.ready = s) {key : ℤ} {size shmflg i : ℕ} (pid : ℕ) (hk : key ≠ 0)
    (hfind : s.shmFind key = some i) (hc : shmflg &&& ipcCreat ≠ 0)
    (hlt : (s.region i).segsz < size) (hle : size ≤ shmGetBuddyBlockSize (s.region i).segsz) :
    (s.shmget key size shmflg pid).1 =
      ({ s with mem := memset s.mem ((s.region i).data + (s.region i).segsz) 0#8 (size - (s.region i).segsz)
        }.setRegion i ((s.region i).withSegsz size)).reopen i := by
  unfold shmget underLock
  dsimp only
  rw [hready, if_neg (show ¬ key = ipcPrivate from hk), hfind]
  dsimp only
  rw [if_pos hlt, if_pos hc]
  rcases extend_cases hlt with ⟨hgt, -⟩ | ⟨-, hext⟩
  · omega
  · rw [hext, if_neg (show ¬ (1 : ℤ) < 0 by decide)]

theorem Ready.call (h : s.Ready) {c : ShmCall} (hf : s.Fits c) : (s.call c).Ready := by
  refine (h.backed_call h.backed c (fun size ha => h.snug_alloc ha) ?_).ready (h.toTabled.call c)
  rintro key size shmflg pid i rfl hfind hc hlt hle x hx ha ⟨hfits, hleast⟩
  have hgrown := Holds.grow ⟨hx, ha, hfits, hleast⟩ hlt hle (hf i hfind hc hlt)
  exact ⟨hgrown.fits, hgrown.least⟩

theorem shmPool_smallestBlock (prior : ℕ → BITMAP) (priorIndex : ℤ → BYTE) :
    (initArea prior priorIndex (configShmSharedMemory + 23 * 4096)
      (configShmSharedMemory + ipcSize)).smallestBlock = 130537 := by
  rw [initArea, initPool_smallestBlock]
  decide +kernel

theorem Fresh.ready_region (h : s.Fresh) {i : ℕ} (hi : i < configArchShmMaxregions) : s.ready.region i = .zero := by
  rw [ready, if_pos h.1]
  exact if_pos hi

theorem Fresh.ready_heap (h : s.Fresh) : s.ready.heap = ⟨initArea s.heap.mm.bitmap s.heap.mm.blockIndex
    (configShmSharedMemory + 23 * 4096) (configShmSharedMemory + ipcSize), []⟩ := by
  rw [ready, if_pos h.1]
  rfl

theorem ready_of_fresh (h : s.Fresh) : s.ready.Ready := by
  have hr : s.ready = { s.shmInitialize.shmFreeMemInit with shmInitFlag := 1 } := if_pos h.1
  have hheap := h.ready_heap
  have hblocks := shmPool_smallestBlock s.heap.mm.bitmap s.heap.mm.blockIndex
  have hzero : ∀ i < configArchShmMaxregions, s.ready.region i = .zero := fun i hi => h.ready_region hi
  have hidle : ∀ i < configArchShmMaxregions, ¬ (s.ready.region i).InUse := by
    intro i hi
    rw [hzero i hi]
    exact not_inUse_zero
  have hvalid : s.ready.heap.Valid := by
    rw [hheap]
    exact initArea_valid _ _ (by decide) (by decide) (by decide) (by rw [hblocks]; decide)
  refine ⟨⟨by rw [hr]; exact one_ne_zero, hvalid, ?_, fun i hi _ => hzero i hi,
    fun i hi hu => absurd hu (hidle i hi), fun i hi _ _ hu => absurd hu (hidle i hi),
    fun i hi hu => absurd hu (hidle i hi), fun i hi _ _ hu => absurd hu (hidle i hi), ?_⟩,
    fun i hi hu => absurd hu (hidle i hi)⟩
  · rw [hvalid.coherent.levels, hheap, hblocks]
    decide
  · rw [hheap]
    simp

theorem fresh_find (h : s.Fresh) {key : ℤ} (hk : key ≠ 0) : s.ready.shmFind key = none := by
  cases hf : s.ready.shmFind key with
  | none => rfl
  | some i =>
    obtain ⟨hi, hu, -⟩ := (ready_of_fresh h).find_inUse hk hf
    rw [h.ready_region hi] at hu
    exact absurd hu not_inUse_zero

theorem fresh_fits (h : s.Fresh) (c : ShmCall) : s.Fits c := by
  cases c with
  | get key size shmflg pid =>
    intro i hf _ hlt hle
    obtain ⟨hi, -⟩ := firstRegion_some hf
    rw [h.2.1 i hi] at hlt hle
    simp only [ShmRegion.zero] at hlt hle
    omega
  | _ => trivial

def Valid (s : ShmInfo) : Prop := s.Fresh ∨ s.Ready

theorem Fresh.not_inUse (h : s.Fresh) {i : ℕ} (hi : i < configArchShmMaxregions) : ¬ (s.region i).InUse := by
  rw [h.2.1 i hi]
  exact not_inUse_zero

theorem fresh_cases (h : s.Fresh) (c : ShmCall) :
    (s.call c).Fresh ∨ (s.call c = s.ready.call c ∧ s.ready.Fits c) := by
  cases c with
  | get key size shmflg pid =>
    by_cases hk : key = ipcPrivate
    · exact .inl (by rwa [call, shmget, if_pos hk])
    · refine .inr ⟨?_, fun i hf => ?_⟩
      · simp only [call]
        unfold shmget underLock
        rw [if_neg hk, if_neg hk, show s.ready.ready = s.ready from if_neg (ready_of_fresh h).flag]
      · rw [fresh_find h hk] at hf
        contradiction
  | attach shmid pid =>
    have hattached := shmat_attached s shmid pid
    rw [call]
    generalize s.shmat shmid pid = r at hattached
    cases hattached with
    | refused => exact .inl h
    | attached hi hu _ => exact absurd hu (h.not_inUse hi)
  | detach shmaddr pid =>
    have hdetached := shmdt_detached s shmaddr pid
    rw [call]
    generalize s.shmdt shmaddr pid = r at hdetached
    cases hdetached with
    | refused => exact .inl h
    | released hi hu _ _ => exact absurd hu (h.not_inUse hi)
    | destroyed hi hu _ _ => exact absurd hu (h.not_inUse hi)
  | control shmid cmd pid =>
    have hcontrolled := shmctl_controlled s shmid cmd pid
    rw [call]
    generalize s.shmctl shmid cmd pid = r at hcontrolled
    cases hcontrolled with
    | refused => exact .inl h
    | stated _ hi hu => exact absurd hu (h.not_inUse hi)
    | set _ hi hu => exact absurd hu (h.not_inUse hi)
    | unlinked hi hu _ => exact absurd hu (h.not_inUse hi)
    | destroyed hi hu _ => exact absurd hu (h.not_inUse hi)

theorem Valid.call (h : s.Valid) {c : ShmCall} (hf : s.Fits c) : (s.call c).Valid := by
  rcases h with h | h
  · rcases fresh_cases h c with h' | ⟨he, hfits⟩
    · exact .inl h'
    · rw [he]
      exact .inr ((ready_of_fresh h).call hfits)
  · exact .inr (h.call hf)

theorem Valid.run {s' : ShmInfo} (h : s.Valid) (hr : Run s s') : s'.Valid := by
  induction hr with
  | refl => exact h
  | tail _ hs ih =>
    obtain ⟨c, hf, rfl⟩ := hs
    exact ih.call hf

theorem Valid.contained (h : s.Valid) : s.Contained := by
  intro i hi hu
  rcases h with h | h
  · exact absurd hu (h.not_inUse hi)
  · obtain ⟨x, hx⟩ := h.holds i hi hu
    have hfits := hx.fits
    have haddr := hx.address
    exact ⟨x, hx.mem, haddr, by omega⟩

theorem Ready.apart (h : s.Ready) {i j : ℕ} (hi : i < configArchShmMaxregions)
    (hj : j < configArchShmMaxregions) (hij : i ≠ j) (hui : (s.region i).InUse)
    (huj : (s.region j).InUse) {x y : Handed} (hx : Holds s.heap (s.region i) x)
    (hy : Holds s.heap (s.region j) y) :
    x.address + x.size ≤ y.address ∨ y.address + y.size ≤ x.address := by
  refine h.heap.apart hx.mem hy.mem fun he => hij (h.distinct i hi j hj hui huj ?_)
  rw [← hx.address, ← hy.address, h.heap.eq_of_block hx.mem hy.mem he]

theorem Valid.separate (h : s.Valid) : s.Separate := by
  intro i hi j hj hij hui huj
  rcases h with h | h
  · exact absurd hui (h.not_inUse hi)
  · obtain ⟨x, hx⟩ := h.holds i hi hui
    obtain ⟨y, hy⟩ := h.holds j hj huj
    have hsep := h.apart hi hj hij hui huj hx hy
    have h1 := hx.fits
    have h2 := hy.fits
    rw [← hx.address, ← hy.address]
    omega

theorem memset_outside {mem : ℕ → BYTE} {address size a : ℕ} {value : BYTE}
    (h : a < address ∨ address + size ≤ a) : memset mem address value size a = mem a :=
  if_neg (by omega)

theorem Ready.get_mem (h : s.Ready) {key : ℤ} {size shmflg pid : ℕ}
    (hf : s.Fits (.get key size shmflg pid)) {i : ℕ} (hi : i < configArchShmMaxregions)
    (hu : (s.region i).InUse) (hkey : (s.region i).key ≠ key) {a : ℕ} (hlow : (s.region i).data ≤ a)
    (hhigh : a < (s.region i).data + (s.region i).segsz) :
    (s.shmget key size shmflg pid).1.mem a = s.mem a := by
  obtain ⟨x, hx⟩ := h.holds i hi hu
  have hfits := hx.fits
  rw [← hx.address] at hlow hhigh
  have hanswered := shmget_answered (if_neg h.flag) key size shmflg pid
  generalize s.shmget key size shmflg pid = r at hanswered
  cases hanswered with
  | refused => rfl
  | created hk hfind _ =>
    rcases h.create_cases key size shmflg pid with ⟨e, -, -, he⟩ | ⟨j, hj, hz, ha, he⟩
    · rw [he]
    · have hs : s.heap.mm.maxLevel ≤ 19 ∨ size ≤ 2 ^ 30 := Or.inl (h.levels.trans (by decide))
      have hvalid := h.heap.alloc hs
      have hhanded := Tabled.handed_alloc ha
      have hd := hvalid.disjoint
      rw [hhanded, List.pairwise_cons] at hd
      have hapart := hd.1 x hx.mem
      dsimp only at hapart
      rw [he]
      exact memset_outside (by omega)
  | reopened j hk hfind _ => rfl
  | extended j hk hfind hc hlt hle =>
    obtain ⟨hj, huj, hkj⟩ := h.find_inUse hk hfind
    obtain ⟨y, hy⟩ := h.holds j hj huj
    have hij : i ≠ j := fun he => hkey (he ▸ hkj)
    have hsep := h.apart hi hj hij hu huj hx hy
    have hgrow : size ≤ y.size := (hy.grow hlt hle (hf j hfind hc hlt)).fits
    have haddr := hy.address
    exact memset_outside (by omega)

theorem Ready.overrun (h : s.Ready) {key : ℤ} {size shmflg pid i l : ℕ} (hfind : s.shmFind key = some i)
    (hc : shmflg &&& ipcCreat ≠ 0) (hlt : (s.region i).segsz < size)
    (hle : size ≤ 2 * (s.region i).segsz) (hl : (s.region i).segsz = 4096 * 2 ^ l) :
    ¬ (s.shmget key size shmflg pid).1.Contained := by
  obtain ⟨hi, hkey⟩ := firstRegion_some hfind
  have hu : (s.region i).InUse := by
    by_contra hu
    rw [h.idle i hi hu] at hl
    simp [ShmRegion.zero] at hl
  have hk : key ≠ 0 := of_decide_eq_true hkey ▸ h.keyed i hi hu
  obtain ⟨x, hx⟩ := h.holds i hi hu
  have hfull := hx.full_iff.mp ⟨l, hl⟩
  have hcap : size ≤ shmGetBuddyBlockSize (s.region i).segsz := by
    rcases hx.capacity with ⟨hlt', -⟩ | ⟨-, -, hcap⟩ <;> omega
  rw [shmget_extended (if_neg h.flag) pid hk hfind hc hlt hcap]
  intro hcontained
  have hat := hcontained i hi
  simp only [ShmInfo.reopen, setRegion_self] at hat
  obtain ⟨y, hy, haddr, hend⟩ := hat (inUse_of_flags rfl)
  obtain rfl := h.heap.eq_of_address hy hx.mem (haddr.trans hx.address.symm)
  simp only [ShmRegion.withSegsz] at haddr hend
  omega

theorem Valid.contained_call_iff (h : s.Valid) (c : ShmCall) : (s.call c).Contained ↔ s.Fits c := by
  refine ⟨fun hcontained => ?_, fun hf => (h.call hf).contained⟩
  rcases h with h | h
  · exact fresh_fits h c
  · cases c with
    | get key size shmflg pid =>
      intro i hfind hc hlt hle l hl
      exact h.overrun hfind hc hlt hle hl hcontained
    | _ => trivial

theorem shm_segments_contained {s₀ s : ShmInfo} (h : s₀.Fresh) (hr : Run s₀ s) :
    s.Contained ∧ s.Separate ∧ (∀ c, (s.call c).Contained ↔ s.Fits c) ∧
      ∀ key size shmflg pid, s.Fits (.get key size shmflg pid) →
        ∀ i < configArchShmMaxregions, (s.region i).InUse → (s.region i).key ≠ key →
          ∀ a, (s.region i).data ≤ a → a < (s.region i).data + (s.region i).segsz →
            (s.shmget key size shmflg pid).1.mem a = s.mem a := by
  have hv : s.Valid := Valid.run (Or.inl h) hr
  refine ⟨hv.contained, hv.separate, hv.contained_call_iff, ?_⟩
  intro key size shmflg pid hf i hi hu hkey a hlow hhigh
  rcases hv with hv | hv
  · exact absurd hu (hv.not_inUse hi)
  · exact hv.get_mem hf hi hu hkey hlow hhigh

def blank : ShmInfo where
  shmInitFlag := 0
  heap := ⟨⟨0, 0, 0, 0, 0, fun _ => 0#8, fun _ => ⟨fun _ => 0#8, 0⟩⟩, []⟩
  region := fun _ => .zero
  mem := fun _ => 0#8

theorem blank_fresh : blank.Fresh := ⟨rfl, fun _ _ => rfl, rfl⟩

theorem blank_get {size : ℕ} (h : size = 4000 ∨ size = 4096) :
    (blank.call (.get 1 size ipcCreat 0)).shmInitFlag ≠ 0 ∧
      (blank.call (.get 1 size ipcCreat 0)).region 0 = ⟨0, size, 0, 0, 0, srflagInuse, 1, 0xFFFF80003FFFF000⟩ ∧
      (blank.call (.get 1 size ipcCreat 0)).heap.handed = [⟨0xFFFF80003FFFF000, 4096, size⟩] := by
  rcases h with rfl | rfl <;> decide +kernel

theorem blank_grow_contained :
    ((blank.call (.get 1 4000 ipcCreat 0)).call (.get 1 4096 ipcCreat 0)).Contained := by
  have hfirst : blank.Fits (.get 1 4000 ipcCreat 0) := fresh_fits blank_fresh _
  have hregion := (blank_get (.inl rfl)).2.1
  have hfind : (blank.call (.get 1 4000 ipcCreat 0)).shmFind 1 = some 0 := by
    refine firstRegion_zero ?_
    rw [hregion]
    rfl
  have hfull : ∀ l, 4000 ≠ 4096 * 2 ^ l := fun l => by have := Nat.two_pow_pos l; omega
  have hsecond : (blank.call (.get 1 4000 ipcCreat 0)).Fits (.get 1 4096 ipcCreat 0) := by
    intro i hf _ _ _ l
    obtain rfl : i = 0 := Option.some.inj (hf.symm.trans hfind)
    rw [hregion]
    exact hfull l
  exact (shm_segments_contained blank_fresh
    ((Relation.ReflTransGen.single ⟨_, hfirst, rfl⟩).tail ⟨_, hsecond, rfl⟩)).1

theorem blank_grow_overruns :
    ¬ ((blank.call (.get 1 4096 ipcCreat 0)).call (.get 1 8192 ipcCreat 0)).Contained := by
  have hstate : ((blank.call (.get 1 4096 ipcCreat 0)).call (.get 1 8192 ipcCreat 0)).region 0 =
        ⟨0, 8192, 0, 0, 0, srflagInuse, 1, 0xFFFF80003FFFF000⟩ ∧
      ((blank.call (.get 1 4096 ipcCreat 0)).call (.get 1 8192 ipcCreat 0)).heap.handed =
        [⟨0xFFFF80003FFFF000, 4096, 4096⟩] := by decide +kernel
  intro hcontained
  have h0 := hcontained 0 (by decide)
  rw [hstate.1, hstate.2] at h0
  obtain ⟨x, hx, haddr, hend⟩ := h0 (inUse_of_flags rfl)
  obtain rfl := List.mem_singleton.mp hx
  simp at hend

end ShmInfo
end Azalea
