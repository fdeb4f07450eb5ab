import Azalea.Memory.Pool
import Azalea.Shm.Segment

namespace Azalea
open MM

namespace Heap
variable {h : Heap}

theorem Valid.alloc_null (v : h.Valid) {size : ℕ} (hs : h.mm.maxLevel ≤ 19 ∨ size ≤ 2 ^ 30)
    (hz : (h.mm.azAlloc size).2 = 0) : h.call (.alloc size) = h := by
  have hspec := MM.azAlloc_spec v.coherent hs
  rw [call]
  generalize h.mm.azAlloc size = r at hspec hz
  cases hspec with
  | refused => rfl
  | granted mm' b hcoh hframe hnot h18 ha hfit hroom =>
    have hb := hcoh.inside (Or.inr rfl)
    have hn : mm'.smallestBlock = h.mm.smallestBlock := hframe.samePool.smallestBlock
    have hfirst := b.first_lt_stop
    have hroom' := v.room
    have hstart := v.start
    simp only [wordSize] at hz hroom'
    omega

theorem alloc_size {size : ℕ} (hs : h.mm.maxLevel ≤ 19 ∨ size ≤ 2 ^ 30)
    (hz : (h.mm.azAlloc size).2 ≠ 0) : ∃ l < h.mm.maxLevel, l ≤ 18 ∧
      h.mm.alignBuddyBlock size = pageShl l ∧ size ≤ pageShl l ∧ ∀ j < l, pageShl j < size := by
  rcases h.mm.alignBuddyBlock_cases hs with ⟨h0, -⟩ | hl
  · rw [azAlloc] at hz
    simp [h0] at hz
  · exact hl

end Heap

namespace ShmInfo
variable {s : ShmInfo}

structure Holds (h : Heap) (r : ShmRegion) (x : Handed) : Prop where
  mem : x ∈ h.handed
  address : x.address = r.data
  fits : r.segsz ≤ x.size
  least : ∃ l < 18, x.size = pageShl l ∧ ∀ j < l, pageShl j < r.segsz

structure Tabled (s : ShmInfo) : Prop where
  flag : s.shmInitFlag ≠ 0
  heap : s.heap.Valid
  levels : s.heap.mm.maxLevel ≤ 18
  idle : ∀ i < configArchShmMaxregions, ¬ (s.region i).InUse → s.region i = .zero
  keyed : ∀ i < configArchShmMaxregions, (s.region i).InUse → (s.region i).key ≠ 0
  keys : ∀ i < configArchShmMaxregions, ∀ j < configArchShmMaxregions, (s.region i).InUse →
    (s.region j).InUse → (s.region i).key = (s.region j).key → i = j
  held : ∀ i < configArchShmMaxregions, (s.region i).InUse → ∃ x ∈ s.heap.handed, x.address = (s.region i).data
  distinct : ∀ i < configArchShmMaxregions, ∀ j < configArchShmMaxregions, (s.region i).InUse →
    (s.region j).InUse → (s.region i).data = (s.region j).data → i = j
  owner : ∀ x ∈ s.heap.handed, ∃ i < configArchShmMaxregions, (s.region i).InUse ∧
    (s.region i).data = x.address

structure Ready (s : ShmInfo) : Prop extends s.Tabled where
  holds : ∀ i < configArchShmMaxregions, (s.region i).InUse → ∃ x, Holds s.heap (s.region i) x

def Backed (s : ShmInfo) (Q : Handed → ℕ → Prop) : Prop :=
  ∀ i < configArchShmMaxregions, (s.region i).InUse →
    ∃ x ∈ s.heap.handed, x.address = (s.region i).data ∧ Q x (s.region i).segsz

def Least (x : Handed) (segsz : ℕ) : Prop := ∃ l < 18, x.size = pageShl l ∧ ∀ j < l, pageShl j < segsz

def Snug (x : Handed) (segsz : ℕ) : Prop := segsz ≤ x.size ∧ Least x segsz

theorem Ready.backed (h : s.Ready) : s.Backed Snug := by
  intro i hi hu
  obtain ⟨x, hx⟩ := h.holds i hi hu
  exact ⟨x, hx.mem, hx.address, hx.fits, hx.least⟩

theorem Backed.ready (hb : s.Backed Snug) (h : s.Tabled) : s.Ready := by
  refine ⟨h, fun i hi hu => ?_⟩
  obtain ⟨x, hx, ha, hfits, hleast⟩ := hb i hi hu
  exact ⟨x, hx, ha, hfits, hleast⟩

theorem Backed.touch {Q : Handed → ℕ → Prop} (hb : s.Backed Q) {i : ℕ} {r : ShmRegion}
    (hr : ∃ x ∈ s.heap.handed, x.address = r.data ∧ Q x r.segsz) (mem : ℕ → BYTE) :
    ({ s with mem := mem }.setRegion i r).Backed Q := by
  intro j hj hu
  simp only [setRegion] at hu ⊢
  by_cases hji : j = i
  · rw [hji, Function.update_self]
    exact hr
  · rw [Function.update_of_ne hji] at hu ⊢
    exact hb j hj hu

theorem Backed.same {Q : Handed → ℕ → Prop} (hb : s.Backed Q) {i : ℕ} {r : ShmRegion}
    (hi : i < configArchShmMaxregions) (hu : (s.region i).InUse) (hdata : r.data = (s.region i).data)
    (hsize : r.segsz = (s.region i).segsz) : (s.setRegion i r).Backed Q := by
  refine hb.touch ?_ s.mem
  rw [hdata, hsize]
  exact hb i hi hu

theorem firstRegion_some {p : ShmRegion → Bool} {i : ℕ} (h : s.firstRegion p = some i) :
    i < configArchShmMaxregions ∧ p (s.region i) = true := by
  unfold firstRegion at h
  have hp := List.find?_some h
  exact ⟨List.mem_range.mp (List.mem_of_find?_eq_some h), hp⟩

theorem firstRegion_none {p : ShmRegion → Bool} (h : s.firstRegion p = none) {i : ℕ}
    (hi : i < configArchShmMaxregions) : p (s.region i) = false := by
  unfold firstRegion at h
  simpa using List.find?_eq_none.mp h i (List.mem_range.mpr hi)

theorem firstRegion_zero {p : ShmRegion → Bool} (h : p (s.region 0) = true) : s.firstRegion p = some 0 :=
  List.find?_range_eq_some.mpr ⟨h, List.mem_range.mpr (by decide), fun _ hj => absurd hj (Nat.not_lt_zero _)⟩

@[simp] theorem setRegion_self (s : ShmInfo) (i : ℕ) (r : ShmRegion) : (s.setRegion i r).region i = r := by
  simp [setRegion]

theorem not_inUse_zero : ¬ ShmRegion.zero.InUse := by decide

theorem inUse_of_flags {r : ShmRegion} (h : r.flags = srflagInuse) : r.InUse := by
  rw [ShmRegion.InUse, h]
  decide

theorem inUse_unlinked {r r' : ShmRegion} (hu : r.InUse) (h : r'.flags = r.flags ||| srflagUnlinked) :
    r'.InUse := by
  have keep : ∀ f : BYTE, f &&& srflagInuse ≠ 0#8 → (f ||| srflagUnlinked) &&& srflagInuse ≠ 0#8 := by
    decide +kernel
  rw [ShmRegion.InUse, h]
  exact keep _ hu

namespace Tabled

theorem find_inUse (h : s.Tabled) {key : ℤ} (hk : key ≠ 0) {i : ℕ} (hf : s.shmFind key = some i) :
    i < configArchShmMaxregions ∧ (s.region i).InUse ∧ (s.region i).key = key := by
  obtain ⟨hi, hp⟩ := firstRegion_some hf
  have hkey : (s.region i).key = key := by simpa using hp
  refine ⟨hi, ?_, hkey⟩
  by_contra hu
  rw [h.idle i hi hu] at hkey
  exact hk hkey.symm

theorem touch (h : s.Tabled) {i : ℕ} {r : ShmRegion} (hold : (s.region i).InUse) (hnew : r.InUse)
    (hkey : r.key = (s.region i).key) (hdata : r.data = (s.region i).data) (mem : ℕ → BYTE) :
    ({ s with mem := mem }.setRegion i r).Tabled := by
  have same : ∀ j, (Function.update s.region i r j).InUse ↔ (s.region j).InUse := by
    intro j
    by_cases hj : j = i
    · subst hj; simp [hold, hnew]
    · rw [Function.update_of_ne hj]
  have key : ∀ j, (Function.update s.region i r j).key = (s.region j).key := by
    intro j
    by_cases hj : j = i
    · subst hj; rw [Function.update_self, hkey]
    · rw [Function.update_of_ne hj]
  have data : ∀ j, (Function.update s.region i r j).data = (s.region j).data := by
    intro j
    by_cases hj : j = i
    · subst hj; rw [Function.update_self, hdata]
    · rw [Function.update_of_ne hj]
  refine ⟨h.flag, h.heap, h.levels, ?_, ?_, ?_, ?_, ?_, ?_⟩ <;> simp only [setRegion, same, key, data]
  · intro j hj hu
    have hji : j ≠ i := fun he => hu (by rwa [he])
    rw [Function.update_of_ne hji]
    exact h.idle j hj hu
  · exact h.keyed
  · exact h.keys
  · exact h.held
  · exact h.distinct
  · exact h.owner

theorem data_ne_zero (h : s.Tabled) {i : ℕ} (hi : i < configArchShmMaxregions) (hu : (s.region i).InUse) :
    (s.region i).data ≠ 0 := by
  obtain ⟨x, hx, ha⟩ := h.held i hi hu
  have hstart := h.heap.start
  have hpool := (h.heap.inPool hx).1
  omega

theorem destroy_eq (h : s.Tabled) {i : ℕ} (hi : i < configArchShmMaxregions) (hu : (s.region i).InUse) :
    s.shmDestroy i = { s with heap := s.heap.call (.free (s.region i).data) }.setRegion i .zero := by
  rw [shmDestroy, if_pos (h.data_ne_zero hi hu), shmFree]

theorem mem_destroy (h : s.Tabled) {i : ℕ} (hi : i < configArchShmMaxregions) (hu : (s.region i).InUse) (y : Handed) :
    y ∈ (s.heap.call (.free (s.region i).data)).handed ↔ y ∈ s.heap.handed ∧ y.address ≠ (s.region i).data := by
  obtain ⟨x, hx, ha⟩ := h.held i hi hu
  have hfree := h.heap.free_assigned (h.heap.inPool hx) hx rfl
  rw [← ha, Heap.call]
  simp only [hfree.1, if_true, List.mem_filter, decide_eq_true_eq]
  refine and_congr_right fun hy => not_congr ⟨fun he => ?_, fun he => by rw [he]⟩
  rw [h.heap.page_eq hy, h.heap.page_eq hx] at he
  rw [h.heap.eq_of_block hy hx (h.heap.block_eq_of_first hy hx he)]

theorem destroy (h : s.Tabled) {i : ℕ} (hi : i < configArchShmMaxregions) (hu : (s.region i).InUse) :
    (s.shmDestroy i).Tabled := by
  have hvalid : (s.heap.call (.free (s.region i).data)).Valid := by
    obtain ⟨x, hx, ha⟩ := h.held i hi hu
    exact ha ▸ (h.heap.free_assigned (h.heap.inPool hx) hx rfl).2
  have hsame := MM.azFree_samePool s.heap.mm (s.region i).data
  have hhanded := h.mem_destroy hi hu
  have away : ∀ j, (Function.update s.region i .zero j).InUse →
      j ≠ i ∧ (s.region j).InUse ∧ Function.update s.region i .zero j = s.region j := by
    intro j huj
    by_cases hji : j = i
    · subst hji
      rw [Function.update_self] at huj
      exact absurd huj not_inUse_zero
    · rw [Function.update_of_ne hji] at huj ⊢
      exact ⟨hji, huj, rfl⟩
  rw [h.destroy_eq hi hu]
  refine ⟨h.flag, hvalid, ?_, ?_, ?_, ?_, ?_, ?_, ?_⟩ <;> simp only [setRegion]
  · exact hsame.maxLevel.le.trans h.levels
  · intro j hj hnu
    by_cases hji : j = i
    · rw [hji, Function.update_self]
    · rw [Function.update_of_ne hji] at hnu ⊢
      exact h.idle j hj hnu
  · intro j hj huj
    obtain ⟨-, huj', he⟩ := away j huj
    rw [he]
    exact h.keyed j hj huj'
  · intro j hj k hk huj huk
    obtain ⟨-, huj', hej⟩ := away j huj
    obtain ⟨-, huk', hek⟩ := away k huk
    rw [hej, hek]
    exact h.keys j hj k hk huj' huk'
  · intro j hj huj
    obtain ⟨hji, huj', he⟩ := away j huj
    obtain ⟨y, hy, ha⟩ := h.held j hj huj'
    rw [he]
    refine ⟨y, (hhanded y).mpr ⟨hy, fun hya => hji ?_⟩, ha⟩
    exact h.distinct j hj i hi huj' hu (ha.symm.trans hya)
  · intro j hj k hk huj huk
    obtain ⟨-, huj', hej⟩ := away j huj
    obtain ⟨-, huk', hek⟩ := away k huk
    rw [hej, hek]
    exact h.distinct j hj k hk huj' huk'
  · intro y hy
    obtain ⟨hym, hya⟩ := (hhanded y).mp hy
    obtain ⟨j, hj, huj, hjd⟩ := h.owner y hym
    have hji : j ≠ i := fun he => hya (by rw [← hjd, he])
    exact ⟨j, hj, by rwa [Function.update_of_ne hji], by rwa [Function.update_of_ne hji]⟩

theorem handed_alloc {size : ℕ} (ha : (s.heap.mm.azAlloc size).2 ≠ 0) : (s.heap.call (.alloc size)).handed =
    ⟨(s.heap.mm.azAlloc size).2, s.heap.mm.alignBuddyBlock size, size⟩ :: s.heap.handed := if_neg ha

theorem create_cases (h : s.Tabled) (key : ℤ) (size shmflg pid : ℕ) :
    (∃ e < 0, ((∀ i < configArchShmMaxregions, (s.region i).InUse) ∨ (s.heap.mm.azAlloc size).2 = 0) ∧
      s.shmCreate key size shmflg pid = (s, e)) ∨
      ∃ i < configArchShmMaxregions, s.region i = .zero ∧ (s.heap.mm.azAlloc size).2 ≠ 0 ∧
        s.shmCreate key size shmflg pid =
          ({ s with
              heap := s.heap.call (.alloc size)
              mem := memset s.mem (s.heap.mm.azAlloc size).2 0#8 (s.heap.mm.alignBuddyBlock size) }.setRegion i
            ⟨shmflg &&& ipcMode, size, 0, pid, 0, srflagInuse, key, (s.heap.mm.azAlloc size).2⟩, (i : ℤ)) := by
  unfold shmCreate shmReserve
  cases hf : s.firstRegion (fun r => decide (r.flags = srflagAvailable)) with
  | none =>
    refine Or.inl ⟨-enospc, by decide, .inl fun i hi => ?_, ?_⟩
    · by_contra hu
      have hp := firstRegion_none hf hi
      rw [h.idle i hi hu] at hp
      exact absurd hp (by decide)
    · dsimp only
      rw [if_pos (by decide)]
  | some i =>
    obtain ⟨hi, hp⟩ := firstRegion_some hf
    have hz : s.region i = .zero := by
      refine h.idle i hi fun hu => hu ?_
      rw [show (s.region i).flags = 0#8 from of_decide_eq_true hp]
      rfl
    dsimp only
    rw [if_neg (by omega), Int.toNat_natCast]
    by_cases ha : (s.heap.mm.azAlloc size).2 = 0
    · refine Or.inl ⟨-enomem, by decide, .inr ha, ?_⟩
      have hc := h.heap.alloc_null (Or.inl (h.levels.trans (by decide))) ha
      simp only [shmAlloc, setRegion, ha, hc, if_true, shmDestroy, Function.update_self, ne_eq,
        not_true_eq_false, if_false, Function.update_idem]
      rw [← hz, Function.update_eq_self]
    · refine Or.inr ⟨i, hi, hz, ha, ?_⟩
      simp only [shmAlloc, setRegion, ha, if_false, Function.update_self, Function.update_idem, hz]
      simp only [ShmRegion.zero]

theorem create (h : s.Tabled) {key : ℤ} (size shmflg pid : ℕ) (hk : key ≠ 0)
    (hnew : s.shmFind key = none) : (s.shmCreate key size shmflg pid).1.Tabled := by
  rcases h.create_cases key size shmflg pid with ⟨e, -, -, he⟩ | ⟨i, hi, hz, ha, he⟩
  · rw [he]
    exact h
  have hs : s.heap.mm.maxLevel ≤ 19 ∨ size ≤ 2 ^ 30 := Or.inl (h.levels.trans (by decide))
  have hvalid := h.heap.alloc hs
  have hsame := MM.azAlloc_samePool s.heap.mm size
  have hhanded := handed_alloc ha
  have hfresh : ∀ y ∈ s.heap.handed, y.address ≠ (s.heap.mm.azAlloc size).2 := by
    intro y hy he
    have hn := hvalid.nodup
    rw [hhanded, List.map_cons, List.nodup_cons] at hn
    have hnew := hvalid.eq_of_address (x := y) (y := ⟨_, s.heap.mm.alignBuddyBlock size, size⟩)
      (hhanded ▸ List.mem_cons_of_mem _ hy) (hhanded ▸ List.mem_cons_self) he
    exact hn.1 (hnew ▸ List.mem_map_of_mem hy)
  rw [he]
  generalize (s.heap.mm.azAlloc size).2 = address at *
  generalize hr : ShmRegion.mk (shmflg &&& ipcMode) size 0 pid 0 srflagInuse key address = r
  have hru : r.InUse := by rw [← hr]; exact inUse_of_flags rfl
  have hrk : r.key = key := by rw [← hr]
  have hrd : r.data = address := by rw [← hr]
  have hiu : ¬ (s.region i).InUse := by rw [hz]; exact not_inUse_zero
  have away : ∀ j < configArchShmMaxregions, (Function.update s.region i r j).InUse →
      j = i ∨ (j ≠ i ∧ (s.region j).InUse ∧ (s.region j).key ≠ key ∧
        (s.region j).data ≠ address) := by
    intro j hj huj
    by_cases hji : j = i
    · exact Or.inl hji
    · rw [Function.update_of_ne hji] at huj
      refine Or.inr ⟨hji, huj, ?_, ?_⟩
      · simpa using firstRegion_none hnew hj
      · obtain ⟨x, hx, ha⟩ := h.held j hj huj
        exact ha ▸ hfresh x hx
  refine ⟨h.flag, hvalid, hsame.maxLevel.le.trans h.levels, ?_, ?_, ?_, ?_, ?_, ?_⟩ <;>
    simp only [setRegion]
  · intro j hj hnu
    by_cases hji : j = i
    · rw [hji, Function.update_self] at hnu
      exact absurd hru hnu
    · rw [Function.update_of_ne hji] at hnu ⊢
      exact h.idle j hj hnu
  · intro j hj huj
    rcases away j hj huj with rfl | ⟨hji, huj', -, -⟩
    · rwa [Function.update_self, hrk]
    · rw [Function.update_of_ne hji]
      exact h.keyed j hj huj'
  · intro j hj k hk huj huk hkey
    rcases away j hj huj with rfl | ⟨hji, huj', hkj, -⟩ <;>
      rcases away k hk huk with rfl | ⟨hki, huk', hkk, -⟩
    · rfl
    · rw [Function.update_self, Function.update_of_ne hki, hrk] at hkey
      exact absurd hkey.symm hkk
    · rw [Function.update_self, Function.update_of_ne hji, hrk] at hkey
      exact absurd hkey hkj
    · rw [Function.update_of_ne hji, Function.update_of_ne hki] at hkey
      exact h.keys j hj k hk huj' huk' hkey
  · intro j hj huj
    rcases away j hj huj with rfl | ⟨hji, huj', -, -⟩
    · rw [Function.update_self]
      exact ⟨⟨address, s.heap.mm.alignBuddyBlock size, size⟩, by rw [hhanded]; exact List.mem_cons_self, hrd.symm⟩
    · obtain ⟨x, hx, hxa⟩ := h.held j hj huj'
      rw [Function.update_of_ne hji]
      exact ⟨x, by rw [hhanded]; exact List.mem_cons_of_mem _ hx, hxa⟩
  · intro j hj k hk huj huk hdata
    rcases away j hj huj with rfl | ⟨hji, huj', -, hkj⟩ <;>
      rcases away k hk huk with rfl | ⟨hki, huk', -, hkk⟩
    · rfl
    · rw [Function.update_self, Function.update_of_ne hki, hrd] at hdata
      exact absurd hdata.symm hkk
    · rw [Function.update_self, Function.update_of_ne hji, hrd] at hdata
      exact absurd hdata hkj
    · rw [Function.update_of_ne hji, Function.update_of_ne hki] at hdata
      exact h.distinct j hj k hk huj' huk' hdata
  · intro x hx
    rw [hhanded] at hx
    rcases List.mem_cons.mp hx with rfl | hx
    · exact ⟨i, hi, by rwa [Function.update_self], by rw [Function.update_self, hrd]⟩
    · obtain ⟨j, hj, huj, hjd⟩ := h.owner x hx
      have hji : j ≠ i := fun he => hiu (he ▸ huj)
      exact ⟨j, hj, by rwa [Function.update_of_ne hji], by rwa [Function.update_of_ne hji]⟩

end Tabled

namespace Tabled
variable {Q : Handed → ℕ → Prop}

theorem backed_destroy (h : s.Tabled) (hb : s.Backed Q) {i : ℕ} (hi : i < configArchShmMaxregions)
    (hu : (s.region i).InUse) : (s.shmDestroy i).Backed Q := by
  intro j hj huj
  rw [h.destroy_eq hi hu] at huj ⊢
  simp only [setRegion] at huj ⊢
  by_cases hji : j = i
  · rw [hji, Function.update_self] at huj
    exact absurd huj not_inUse_zero
  · rw [Function.update_of_ne hji] at huj ⊢
    obtain ⟨y, hy, ha, hq⟩ := hb j hj huj
    refine ⟨y, (h.mem_destroy hi hu y).mpr ⟨hy, fun hya => hji ?_⟩, ha, hq⟩
    exact h.distinct j hj i hi huj hu (ha.symm.trans hya)

theorem backed_create (h : s.Tabled) (hb : s.Backed Q) (key : ℤ) (size shmflg pid : ℕ)
    (hq : (s.heap.mm.azAlloc size).2 ≠ 0 →
      Q ⟨(s.heap.mm.azAlloc size).2, s.heap.mm.alignBuddyBlock size, size⟩ size) :
    (s.shmCreate key size shmflg pid).1.Backed Q := by
  rcases h.create_cases key size shmflg pid with ⟨e, -, -, he⟩ | ⟨i, hi, hz, ha, he⟩
  · rw [he]
    exact hb
  have hhanded := handed_alloc ha
  rw [he]
  intro j hj huj
  simp only [setRegion] at huj ⊢
  by_cases hji : j = i
  · rw [hji, Function.update_self]
    exact ⟨_, by rw [hhanded]; exact List.mem_cons_self, rfl, hq ha⟩
  · rw [Function.update_of_ne hji] at huj ⊢
    obtain ⟨x, hx, hxa, hxq⟩ := hb j hj huj
    exact ⟨x, by rw [hhanded]; exact List.mem_cons_of_mem _ hx, hxa, hxq⟩

theorem snug_alloc (h : s.Tabled) {size : ℕ} (ha : (s.heap.mm.azAlloc size).2 ≠ 0) :
    Snug ⟨(s.heap.mm.azAlloc size).2, s.heap.mm.alignBuddyBlock size, size⟩ size := by
  obtain ⟨l, hl, h18, halign, hfit, hleast⟩ := Heap.alloc_size (.inl (h.levels.trans (by decide))) ha
  exact ⟨halign ▸ hfit, l, hl.trans_le h.levels, halign, hleast⟩

end Tabled

end ShmInfo
end Azalea
