import Azalea.Paging.Tree

namespace Azalea
open Word

namespace Space

structure Pool (s : Space) : Prop where
  heap : s.heap.Valid
  start : 2 ^ 30 ∣ s.gMemoryStart
  top : s.gMemoryStart < wordSize
  low : configPageOffset + 2 ^ 30 ≤ s.heap.mm.startAddr
  aligned : 4096 ∣ s.heap.mm.startAddr
  high : 0 < s.heap.mm.smallestBlock →
    s.gMemoryStart + (s.heap.mm.startAddr + 4096 * s.heap.mm.smallestBlock) ≤ configPageOffset + wordSize
  fits : 0 < s.heap.mm.smallestBlock → s.heap.mm.startAddr ≤ s.heap.mm.endAddr

def Owned (s : Space) (t : ℕ) : Prop :=
  4096 ∣ t ∧ ((s.pgd ≤ t ∧ t < s.pgd + 0x4000) ∨ ∃ x ∈ s.heap.handed, t = pa s.gMemoryStart x.address)

namespace Pool
variable {s : Space} {x y : Handed}

theorem pa_eq (h : s.Pool) (hx : x ∈ s.heap.handed) :
    configPageOffset ≤ x.address ∧
      pa s.gMemoryStart x.address = s.gMemoryStart + (x.address - configPageOffset) := by
  have hfit := (h.heap.fit x hx).address
  have hlt := MM.first_lt_smallest (h.heap.block_inside hx)
  have hlow := h.low
  have hhigh := h.high (Nat.zero_lt_of_lt hlt)
  have hroom := h.heap.room
  rw [pa]
  simp only [wordSize] at *
  have hoff : configPageOffset < 2 ^ 64 := by decide
  generalize configPageOffset = offset at *
  omega

theorem page (h : s.Pool) (hx : x ∈ s.heap.handed) :
    4096 ∣ pa s.gMemoryStart x.address ∧ s.gMemoryStart + 2 ^ 30 ≤ pa s.gMemoryStart x.address ∧
      pa s.gMemoryStart x.address + 4096 ≤ wordSize := by
  have hfit := (h.heap.fit x hx).address
  have hlt := MM.first_lt_smallest (h.heap.block_inside hx)
  have hlow := h.low
  have hhigh := h.high (Nat.zero_lt_of_lt hlt)
  have haligned := h.aligned
  have hstart := h.start
  rw [(h.pa_eq hx).2, hfit]
  have hoff : 4096 ∣ configPageOffset := by decide
  generalize configPageOffset = offset at *
  omega

theorem pa_inj (h : s.Pool) (hx : x ∈ s.heap.handed) (hy : y ∈ s.heap.handed)
    (he : pa s.gMemoryStart x.address = pa s.gMemoryStart y.address) : x = y := by
  have hxa := h.pa_eq hx
  have hya := h.pa_eq hy
  refine h.heap.eq_of_address hx hy ?_
  generalize configPageOffset = offset at *
  omega

theorem not_rigid (h : s.Pool) (hx : x ∈ s.heap.handed) : ¬ Rigid s.pgd (pa s.gMemoryStart x.address) := by
  have hpage := h.page hx
  simp only [Rigid, pgd, configKernelPagetableAddress]
  omega

theorem of_samePool (h : s.Pool) {heap : Heap} (hv : heap.Valid) (hs : MM.SamePool s.heap.mm heap.mm) :
    Pool { s with heap := heap } where
  heap := hv
  start := h.start
  top := h.top
  low := by
    rw [hs.startAddr]
    exact h.low
  aligned := by
    rw [hs.startAddr]
    exact h.aligned
  high := by
    rw [hs.startAddr, hs.smallestBlock]
    exact h.high
  fits := by
    rw [hs.startAddr, hs.smallestBlock, hs.endAddr]
    exact h.fits

theorem new_not_owned {mm : MM} (h : Pool { s with heap := ⟨mm, x :: s.heap.handed⟩ })
    (hx : x ∉ s.heap.handed) : ¬ s.Owned (pa s.gMemoryStart x.address) := by
  have hmem : x ∈ x :: s.heap.handed := List.mem_cons_self
  have hlow : s.gMemoryStart + 2 ^ 30 ≤ pa s.gMemoryStart x.address := (h.page hmem).2.1
  rintro ⟨-, hboot | ⟨y, hy, he⟩⟩
  · simp only [pgd, configKernelPagetableAddress] at hboot
    omega
  · exact hx (h.pa_inj hmem (List.mem_cons_of_mem _ hy) he ▸ hy)

end Pool

inductive PageAlloc (s : Space) : Space × ℕ → Prop
  | refused : 4096 * s.heap.mm.smallestBlock ≤ s.heap.mm.usedSize → PageAlloc s (s, 0)
  | granted (mm : MM) (x : Handed) : x.address ≠ 0 → x ∉ s.heap.handed →
      Pool { s with heap := ⟨mm, x :: s.heap.handed⟩ } →
      mm.usedSize = s.heap.mm.usedSize + 4096 → mm.smallestBlock = s.heap.mm.smallestBlock →
      PageAlloc s ({ s with
        heap := ⟨mm, x :: s.heap.handed⟩
        mem := zeroFill s.mem (pa s.gMemoryStart x.address) 4096 }, x.address)

theorem azAlloc_page {s : Space} (h : s.Pool) : PageAlloc s (s.azAlloc pageSize4K) := by
  have hsize : 4096 ≤ 2 ^ 30 := by decide
  have hvalid : (s.heap.call (.alloc 4096)).Valid := h.heap.alloc (.inr hsize)
  have hsame := MM.azAlloc_samePool s.heap.mm 4096
  have hspec := MM.azAlloc_spec h.heap.coherent (.inr hsize)
  have hroom := h.heap.room
  have hstart := h.heap.start
  unfold azAlloc pageSize4K
  rw [Heap.call] at hvalid ⊢
  generalize s.heap.mm.azAlloc 4096 = r at *
  cases hspec with
  | refused hr =>
    refine PageAlloc.refused ?_
    rcases Nat.eq_zero_or_pos s.heap.mm.smallestBlock with h0 | hpos
    · rw [h0]
      exact Nat.zero_le _
    · exact h.heap.full_of_refuses (h.fits hpos) hr
  | granted mm b hcoh hframe hnot h18 ha hfit hle =>
    have hin : b.first < s.heap.mm.smallestBlock := by
      obtain ⟨bitmap, rfl⟩ := hframe.exists_bitmap
      exact MM.first_lt_smallest (hcoh.inside (Or.inr rfl))
    have halign := s.heap.mm.alignBuddyBlock_page (by
      rw [h.heap.coherent.levels, MM.levelCount, if_neg (by omega)]
      omega)
    have hne : (4096 * b.first + s.heap.mm.startAddr) % wordSize ≠ 0 := by
      simp only [wordSize] at *
      omega
    simp only [if_neg hne, halign] at hvalid ⊢
    refine PageAlloc.granted _ ⟨_, 4096, 4096⟩ hne ?_ (h.of_samePool hvalid hsame) ?_ hsame.smallestBlock
    · intro hmem
      have hnodup := hvalid.nodup
      rw [List.map_cons, List.nodup_cons] at hnodup
      exact hnodup.1 (List.mem_map_of_mem hmem)
    · rw [hvalid.used, h.heap.used, List.map_cons, List.sum_cons, Nat.add_comm]

structure Valid (s : Space) (level : ℕ → ℕ) : Prop where
  pool : s.Pool
  tables : Tables s.pgd s.Owned s.mem level

def Demand (s : Space) (v : ℕ) : Prop :=
  v / 2 ^ 39 % 512 = 256 → Soft s.pgd (s.mem (slot (s.pgd + 0x1000) (v / 2 ^ 30 % 512)))

structure Grows (s : Space) (level : ℕ → ℕ) (s' : Space) (level' : ℕ → ℕ) : Prop where
  start : s'.gMemoryStart = s.gMemoryStart
  shared : s'.gSharedMemory = s.gSharedMemory
  pages : s'.heap.mm.smallestBlock = s.heap.mm.smallestBlock
  handed : ∀ x ∈ s.heap.handed, x ∈ s'.heap.handed
  same : ∀ t, s.Owned t → level' t = level t
  upper : ∀ t i, i < 512 → 2 ≤ level t → s.mem (slot t i) ≠ 0 → s'.mem (slot t i) = s.mem (slot t i)
  demand : ∀ v, s.Demand v → s'.Demand v

theorem Grows.refl (s : Space) (level : ℕ → ℕ) : s.Grows level s level :=
  ⟨rfl, rfl, rfl, fun _ h => h, fun _ _ => rfl, fun _ _ _ _ _ => rfl, fun _ h => h⟩

theorem Grows.owned {s s' : Space} {level level' : ℕ → ℕ} (h : s.Grows level s' level') {t : ℕ}
    (ht : s.Owned t) : s'.Owned t := by
  refine ⟨ht.1, ?_⟩
  rw [pgd, h.start]
  exact ht.2.imp id fun ⟨x, hx, he⟩ => ⟨x, h.handed x hx, he⟩

theorem Grows.trans {s s' s'' : Space} {level level' level'' : ℕ → ℕ} (hv : s.Valid level)
    (h : s.Grows level s' level') (h' : s'.Grows level' s'' level'') : s.Grows level s'' level'' where
  start := h'.start.trans h.start
  shared := h'.shared.trans h.shared
  pages := h'.pages.trans h.pages
  handed := fun x hx => h'.handed x (h.handed x hx)
  same := fun t ht => (h'.same t (h.owned ht)).trans (h.same t ht)
  upper := by
    intro t i hi ht hne
    have hlev := h.same t (hv.tables.owned t (by omega))
    have he := h.upper t i hi ht hne
    rw [h'.upper t i hi (by omega) (by rwa [he]), he]
  demand := fun v hv => h'.demand v (h.demand v hv)

def Keeps (s s' : Space) : Prop := ∀ v p, walk s.mem s.pgd v = some p → walk s'.mem s'.pgd v = some p

theorem Keeps.trans {s s' s'' : Space} (h : s.Keeps s') (h' : s'.Keeps s'') : s.Keeps s'' :=
  fun v p hw => h' v p (h v p hw)

def Link (mem : Mem) (v l t n : ℕ) : Prop :=
  present (mem (slot t (v / 2 ^ (12 + 9 * l) % 512))) = true ∧
    (l = 1 ∨ l = 2 → large (mem (slot t (v / 2 ^ (12 + 9 * l) % 512))) = false) ∧
    clearLow 12 (mem (slot t (v / 2 ^ (12 + 9 * l) % 512))) = n

theorem Link.walk {mem : Mem} {v l t n : ℕ} (h : Link mem v l t n) :
    walkFrom mem (l + 1) t v = walkFrom mem l n v := by
  obtain ⟨hp, hl, rfl⟩ := h
  rw [walkFrom, if_neg (by simp [hp]), if_neg]
  rintro ⟨h12, hlarge⟩
  rw [hl h12] at hlarge
  exact absurd hlarge (by decide)

theorem walk_path {mem : Mem} {v w pgd pdpt pd pt : ℕ} (h3 : Link mem v 3 pgd pdpt) (h2 : Link mem v 2 pdpt pd)
    (h1 : Link mem v 1 pd pt) (hw : w / 2 ^ 21 = v / 2 ^ 21) : walk mem pgd w = walkFrom mem 1 pt w := by
  have hindex : ∀ l, 1 ≤ l → w / 2 ^ (12 + 9 * l) = v / 2 ^ (12 + 9 * l) := by
    intro l hl
    obtain ⟨k, rfl⟩ := Nat.exists_eq_add_of_le hl
    rw [show 12 + 9 * (1 + k) = 21 + 9 * k by omega, pow_add, ← Nat.div_div_eq_div_mul,
      ← Nat.div_div_eq_div_mul, hw]
  unfold Link at h3 h2 h1
  rw [← hindex 3 (by decide)] at h3
  rw [← hindex 2 (by decide)] at h2
  rw [← hindex 1 (by decide)] at h1
  rw [walk_eq_walkFrom, Link.walk h3, Link.walk h2, Link.walk h1]

theorem Grows.link {s s' : Space} {level level' : ℕ → ℕ} (h : s.Grows level s' level') {v l t n : ℕ}
    (ht : 2 ≤ level t) (hl : Link s.mem v l t n) : Link s'.mem v l t n := by
  unfold Link at hl ⊢
  rwa [h.upper t _ (Nat.mod_lt _ (by decide)) ht (present_ne_zero hl.1)]

structure Reached (s : Space) (level : ℕ → ℕ) (v l t : ℕ) (s' : Space) (level' : ℕ → ℕ) (n : ℕ) : Prop where
  valid : s'.Valid level'
  grows : s.Grows level s' level'
  keeps : s.Keeps s'
  child : level' n = l
  used : s'.heap.mm.usedSize ≤ s.heap.mm.usedSize + 4096
  link : Link s'.mem v l t n
  next : ∀ k, l = k + 1 → Soft s'.pgd (s'.mem (slot n (v / 2 ^ (12 + 9 * k) % 512)))
  unmapped : ∀ k, l = k + 1 → walkFrom s.mem (l + 1) t v = none → walkFrom s'.mem l n v = none

inductive Next (s : Space) (level : ℕ → ℕ) (v l t : ℕ) : Space × Option ℕ → Prop
  | refused : 4096 * s.heap.mm.smallestBlock ≤ s.heap.mm.usedSize → Next s level v l t (s, none)
  | reached (s' : Space) (level' : ℕ → ℕ) (n : ℕ) : s.Reached level v l t s' level' n →
      Next s level v l t (s', some n)

theorem nextTable_filled {s : Space} {entry : ℕ} (h : s.mem entry ≠ 0) :
    s.nextTable entry = (s, some (clearLow 12 (s.mem entry))) := by
  rw [nextTable, if_neg h]

def withTable (s : Space) (heap : Heap) (n entry : ℕ) : Space :=
  { s with heap := heap, mem := newTable s.mem n entry }

inductive Fetched (s : Space) (entry : ℕ) : Space × Option ℕ → Prop
  | refused : s.mem entry = 0 → 4096 * s.heap.mm.smallestBlock ≤ s.heap.mm.usedSize → Fetched s entry (s, none)
  | grown (mm : MM) (x : Handed) : s.mem entry = 0 → x ∉ s.heap.handed →
      Pool { s with heap := ⟨mm, x :: s.heap.handed⟩ } →
      mm.usedSize = s.heap.mm.usedSize + 4096 → mm.smallestBlock = s.heap.mm.smallestBlock →
      Fetched s entry (s.withTable ⟨mm, x :: s.heap.handed⟩ (pa s.gMemoryStart x.address) entry,
        some (pa s.gMemoryStart x.address))
  | found : s.mem entry ≠ 0 → Fetched s entry (s, some (clearLow 12 (s.mem entry)))

theorem Pool.nextTable {s : Space} (h : s.Pool) (entry : ℕ) : Fetched s entry (s.nextTable entry) := by
  by_cases h0 : s.mem entry = 0
  · have halloc := azAlloc_page h
    rw [Space.nextTable, if_pos h0]
    generalize s.azAlloc pageSize4K = r at halloc
    cases halloc with
    | refused hfull => exact .refused h0 hfull
    | granted mm x hne hx hp hu hN =>
      have hpage := (hp.page List.mem_cons_self).1
      have hentry : clearLow 12 (newTable s.mem (pa s.gMemoryStart x.address) entry entry) =
          pa s.gMemoryStart x.address := by
        rw [newTable, Function.update_self, clearLow_entry hpage (by decide)]
      dsimp only
      rw [if_neg hne]
      exact hentry.symm ▸ .grown mm x h0 hx hp hu hN
  · rw [nextTable_filled h0]
    exact .found h0

section Next
variable {s : Space} {level : ℕ → ℕ} {v l t : ℕ}

theorem Valid.found (h : s.Valid level) (ht : level t = l + 1)
    (hne : s.mem (slot t (v / 2 ^ (12 + 9 * l) % 512)) ≠ 0)
    (hsoft : Soft s.pgd (s.mem (slot t (v / 2 ^ (12 + 9 * l) % 512)))) :
    s.Reached level v l t s level (clearLow 12 (s.mem (slot t (v / 2 ^ (12 + 9 * l) % 512)))) := by
  have hi : ∀ k, v / 2 ^ (12 + 9 * k) % 512 < 512 := fun k => Nat.mod_lt _ (by decide)
  obtain ⟨hp, hlarge, hlev, -, hrigid⟩ := h.tables.child (by omega) (hi l) hne hsoft
  refine ⟨h, Grows.refl s level, fun _ _ hw => hw, by omega, by omega, ⟨hp, fun _ => hlarge, rfl⟩, ?_, ?_⟩
  · intro k hk
    exact h.tables.soft _ _ (hi k) (by omega) (.inl hrigid)
  · intro k _ hw
    rwa [Tables.walkFrom_child hp hlarge] at hw

theorem Valid.withTable_empty (h : s.Valid level) (ht : level t ≠ 0) {i : ℕ} (hi : i < 512)
    {mm : MM} {x : Handed} (hx : x ∉ s.heap.handed) (hp : Pool { s with heap := ⟨mm, x :: s.heap.handed⟩ }) :
    ∀ j < 512, (s.withTable ⟨mm, x :: s.heap.handed⟩ (pa s.gMemoryStart x.address) (slot t i)).mem
      (slot (pa s.gMemoryStart x.address) j) = 0 := by
  intro j hj
  have hpage : 4096 ∣ pa s.gMemoryStart x.address := (hp.page List.mem_cons_self).1
  have hown := Pool.new_not_owned hp hx
  change newTable s.mem _ (slot t i) (slot _ j) = 0
  rw [h.tables.newTable_slot hpage ht hi hpage hj, if_neg, if_pos rfl]
  rintro ⟨rfl, -⟩
  exact hown (h.tables.owned _ ht)

theorem Valid.grown (h : s.Valid level) (ht : level t = l + 1)
    (h0 : s.mem (slot t (v / 2 ^ (12 + 9 * l) % 512)) = 0)
    {mm : MM} {x : Handed} (hx : x ∉ s.heap.handed) (hp : Pool { s with heap := ⟨mm, x :: s.heap.handed⟩ })
    (hu : mm.usedSize = s.heap.mm.usedSize + 4096) (hN : mm.smallestBlock = s.heap.mm.smallestBlock) :
    s.Reached level v l t (s.withTable ⟨mm, x :: s.heap.handed⟩ (pa s.gMemoryStart x.address)
        (slot t (v / 2 ^ (12 + 9 * l) % 512)))
      (Function.update level (pa s.gMemoryStart x.address) (level t - 1)) (pa s.gMemoryStart x.address) := by
  have hi : ∀ k, v / 2 ^ (12 + 9 * k) % 512 < 512 := fun k => Nat.mod_lt _ (by decide)
  have htl : level t ≠ 0 := by omega
  have hmem : x ∈ x :: s.heap.handed := List.mem_cons_self
  have hpage : 4096 ∣ pa s.gMemoryStart x.address := (hp.page hmem).1
  have hrigid : ¬ Rigid s.pgd (pa s.gMemoryStart x.address) := hp.not_rigid hmem
  have hown := Pool.new_not_owned hp hx
  set n := pa s.gMemoryStart x.address with hn
  set i := v / 2 ^ (12 + 9 * l) % 512 with hidx
  set s' := s.withTable ⟨mm, x :: s.heap.handed⟩ n (slot t i) with hs'
  have hmono : ∀ u, s.Owned u → s'.Owned u := fun u hu =>
    ⟨hu.1, hu.2.imp id fun ⟨y, hy, he⟩ => ⟨y, List.mem_cons_of_mem _ hy, he⟩⟩
  have hnew : s'.Owned n := ⟨hpage, .inr ⟨x, hmem, rfl⟩⟩
  have hempty : ∀ j < 512, s'.mem (slot n j) = 0 := h.withTable_empty htl (hi l) hx hp
  have hkeep : ∀ u j, j < 512 → level u ≠ 0 → s.mem (slot u j) ≠ 0 → s'.mem (slot u j) = s.mem (slot u j) :=
    fun u j hj hu hne => h.tables.newTable_of_ne_zero hpage hown htl (hi l) h0 hu hj hne
  have hself : s'.mem (slot t i) = n ||| 7 := Function.update_self _ _ _
  refine ⟨⟨⟨hp.heap, hp.start, hp.top, hp.low, hp.aligned, hp.high, hp.fits⟩, ?_⟩, ⟨rfl, rfl, hN, ?_, ?_, ?_, ?_⟩,
    ?_, ?_, hu.le, ⟨?_, ?_, ?_⟩, ?_, ?_⟩
  · exact h.tables.grow hmono (fun u hu => hu.1) hnew hown hrigid htl (hi l) h0
  · exact fun y hy => List.mem_cons_of_mem _ hy
  · intro u hu
    refine Function.update_of_ne ?_ _ _
    rintro rfl
    exact hown hu
  · exact fun u j hj hu hne => hkeep u j hj (by omega) hne
  · intro w hw h256
    have hpdpt : level (s.pgd + 0x1000) ≠ 0 := by rw [h.tables.pdpt]; decide
    change Soft s.pgd (newTable s.mem n (slot t i) (slot (s.pgd + 0x1000) (w / 2 ^ 30 % 512)))
    rw [h.tables.newTable_slot hpage htl (hi l) (h.tables.page_of_level hpdpt) (Nat.mod_lt _ (by decide))]
    split
    · exact .inr ⟨not_large_or hpage (by decide), by rwa [clearLow_entry hpage (by decide)]⟩
    · split
      · exact .inl rfl
      · exact hw h256
  · exact fun w p hw => h.tables.keeps hkeep hw
  · rw [Function.update_self]
    omega
  · rw [← hidx, hself]
    exact present_or (by decide)
  · rw [← hidx, hself]
    exact fun _ => not_large_or hpage (by decide)
  · rw [← hidx, hself]
    exact clearLow_entry hpage (by decide)
  · intro k _
    exact .inl (hempty _ (hi k))
  · rintro k rfl -
    exact Tables.walkFrom_empty (hempty _ (hi k))

inductive Entered (s : Space) (level : ℕ → ℕ) (v l t : ℕ) : Space × Option ℕ → Prop
  | refused : s.mem (slot t (v / 2 ^ (12 + 9 * l) % 512)) = 0 →
      4096 * s.heap.mm.smallestBlock ≤ s.heap.mm.usedSize → Entered s level v l t (s, none)
  | grown (s' : Space) (level' : ℕ → ℕ) (x : Handed) : s.mem (slot t (v / 2 ^ (12 + 9 * l) % 512)) = 0 →
      s.Reached level v l t s' level' (pa s.gMemoryStart x.address) → s'.heap.handed = x :: s.heap.handed →
      s'.heap.mm.usedSize = s.heap.mm.usedSize + 4096 →
      (∀ j < 512, s'.mem (slot (pa s.gMemoryStart x.address) j) = 0) →
      Entered s level v l t (s', some (pa s.gMemoryStart x.address))
  | found : s.mem (slot t (v / 2 ^ (12 + 9 * l) % 512)) ≠ 0 →
      s.Reached level v l t s level (clearLow 12 (s.mem (slot t (v / 2 ^ (12 + 9 * l) % 512)))) →
      Entered s level v l t (s, some (clearLow 12 (s.mem (slot t (v / 2 ^ (12 + 9 * l) % 512)))))

theorem nextTable_entered (h : s.Valid level) (ht : level t = l + 1)
    (hsoft : Soft s.pgd (s.mem (slot t (v / 2 ^ (12 + 9 * l) % 512)))) :
    Entered s level v l t (s.nextTable (slot t (v / 2 ^ (12 + 9 * l) % 512))) := by
  have hfetched := h.pool.nextTable (slot t (v / 2 ^ (12 + 9 * l) % 512))
  generalize s.nextTable (slot t (v / 2 ^ (12 + 9 * l) % 512)) = r at hfetched
  cases hfetched with
  | refused h0 hfull => exact .refused h0 hfull
  | grown mm x h0 hx hp hu hN =>
    have htl : level t ≠ 0 := by omega
    have hempty := h.withTable_empty htl (Nat.mod_lt (v / 2 ^ (12 + 9 * l)) (by decide)) hx hp
    exact .grown _ _ x h0 (h.grown ht h0 hx hp hu hN) rfl hu hempty
  | found h0 => exact .found h0 (h.found ht h0 hsoft)

theorem nextTable_next (h : s.Valid level) (ht : level t = l + 1)
    (hsoft : Soft s.pgd (s.mem (slot t (v / 2 ^ (12 + 9 * l) % 512)))) :
    Next s level v l t (s.nextTable (slot t (v / 2 ^ (12 + 9 * l) % 512))) := by
  have hn := nextTable_entered h ht hsoft
  generalize s.nextTable (slot t (v / 2 ^ (12 + 9 * l) % 512)) = r at hn
  cases hn with
  | refused _ hfull => exact Next.refused hfull
  | grown s' level' x _ hr _ _ _ => exact Next.reached _ _ _ hr
  | found _ hr => exact Next.reached _ _ _ hr

theorem rootTable_next (h : s.Valid level) (hd : s.Demand v) :
    Next s level v 3 s.pgd (s.nextTable (slot s.pgd (v / 2 ^ (12 + 9 * 3) % 512))) := by
  have hi : v / 2 ^ 39 % 512 < 512 := Nat.mod_lt _ (by decide)
  by_cases h256 : v / 2 ^ 39 % 512 = 256
  · have hpage : 2 ^ 12 ∣ s.pgd + 0x1000 := h.tables.page_of_level (by rw [h.tables.pdpt]; decide)
    have he : s.mem (slot s.pgd (v / 2 ^ (12 + 9 * 3) % 512)) = s.pgd + 0x1000 ||| 7 := by
      rw [← h.tables.window, ← h256]
    rw [nextTable_filled (by rw [he]; exact present_ne_zero (present_or (by decide))), he,
      clearLow_entry hpage (by decide)]
    refine Next.reached _ _ _ ⟨h, Grows.refl s level, fun _ _ hw => hw, h.tables.pdpt, by omega, ⟨?_, ?_, ?_⟩, ?_, ?_⟩
    · rw [he]
      exact present_or (by decide)
    · omega
    · rw [he, clearLow_entry hpage (by decide)]
    · rintro k hk
      obtain rfl : k = 2 := by omega
      exact hd h256
    · intro k _ hw
      rw [walkFrom, he, clearLow_entry hpage (by decide), present_or (by decide)] at hw
      simpa using hw
  · exact nextTable_next h h.tables.root (h.tables.soft _ _ hi (by rw [h.tables.root]; decide) (.inr ⟨rfl, h256⟩))

structure Filled (s : Space) (level : ℕ → ℕ) (s' : Space) : Prop where
  valid : ∃ level', s'.Valid level' ∧ s.Grows level s' level'
  keeps : s.Keeps s'

theorem Filled.refl (h : s.Valid level) : s.Filled level s :=
  ⟨⟨level, h, Grows.refl s level⟩, fun _ _ hw => hw⟩

theorem Reached.filled {s' : Space} {level' : ℕ → ℕ} {n : ℕ} (hs : s.Valid level)
    (h : s.Reached level v l t s' level' n) {s'' : Space} (h' : s'.Filled level' s'') : s.Filled level s'' := by
  obtain ⟨level'', hv, hg⟩ := h'.valid
  exact ⟨⟨level'', hv, h.grows.trans hs hg⟩, h.keeps.trans h'.keeps⟩

theorem Valid.setLeaf (h : s.Valid level) {i f : ℕ} (ht : level t = 1) (hi : i < 512) (hown : s.Owned f)
    (hf : level f = 0) (hr : ¬ Rigid s.pgd f) :
    (s.setEntry (slot t i) f 7).Valid level ∧ s.Grows level (s.setEntry (slot t i) f 7) level := by
  have hupper : ∀ u j, j < 512 → 2 ≤ level u → (s.setEntry (slot t i) f 7).mem (slot u j) = s.mem (slot u j) := by
    intro u j hj hu
    refine Function.update_of_ne (fun he => ?_) _ _
    have hut := (slot_page (h.tables.page_of_level (by omega)) (h.tables.page_of_level (by omega)) hj hi he).1
    rw [hut] at hu
    omega
  refine ⟨⟨⟨h.pool.heap, h.pool.start, h.pool.top, h.pool.low, h.pool.aligned, h.pool.high, h.pool.fits⟩,
    h.tables.setLeaf ht hi hown hf hr⟩,
    ⟨rfl, rfl, rfl, fun _ hx => hx, fun _ _ => rfl, fun u j hj hu _ => hupper u j hj hu, ?_⟩⟩
  intro w hw h256
  change Soft s.pgd ((s.setEntry (slot t i) f 7).mem (slot (s.pgd + 0x1000) (w / 2 ^ 30 % 512)))
  rw [hupper _ _ (Nat.mod_lt _ (by decide)) (by rw [h.tables.pdpt]; decide)]
  exact hw h256

theorem Valid.setLeaf_keeps (h : s.Valid level) {i f : ℕ} (h0 : s.mem (slot t i) = 0) :
    s.Keeps (s.setEntry (slot t i) f 7) := by
  intro w p hw
  refine h.tables.keeps (fun u j _ _ hne => Function.update_of_ne ?_ _ _) hw
  intro he
  exact hne (he ▸ h0)

theorem setLeaf_link (s : Space) (v pt : ℕ) {f : ℕ} (hf : 4096 ∣ f) :
    Link (s.setEntry (slot pt (v / 2 ^ 12 % 512)) f 7).mem v 0 pt f := by
  have he : (s.setEntry (slot pt (v / 2 ^ 12 % 512)) f 7).mem (slot pt (v / 2 ^ (12 + 9 * 0) % 512)) = f ||| 7 :=
    Function.update_self _ _ _
  unfold Link
  rw [he]
  exact ⟨present_or (by decide), by omega, clearLow_entry hf (by decide)⟩

inductive Mapped (s : Space) (level : ℕ → ℕ) (v f : ℕ) : Space × Bool → Prop
  | refused (s' : Space) : s.Filled level s' →
      4096 * s.heap.mm.smallestBlock < s.heap.mm.usedSize + 3 * 4096 → Mapped s level v f (s', false)
  | mapped (s' : Space) (level' : ℕ → ℕ) : s'.Valid level' → s.Grows level s' level' →
      s'.heap.mm.usedSize ≤ s.heap.mm.usedSize + 3 * 4096 →
      walk s'.mem s'.pgd v = some (f + v % 2 ^ 12) → (walk s.mem s.pgd v = none → s.Keeps s') →
      (∀ w p, w / 2 ^ 21 = v / 2 ^ 21 → w / 2 ^ 12 % 512 ≠ v / 2 ^ 12 % 512 →
        walk s.mem s.pgd w = some p → walk s'.mem s'.pgd w = some p) →
      Mapped s level v f (s', true)

theorem lkMap_spec (h : s.Valid level) (hd : s.Demand v) {f : ℕ} (hown : s.Owned f) (hf : level f = 0)
    (hr : ¬ Rigid s.pgd f) : Mapped s level v f (s.lkMap v f pageSize4K 0) := by
  have hi : v / 2 ^ 12 % 512 < 512 := Nat.mod_lt _ (by decide)
  unfold lkMap
  rw [pml4Index_eq, pdptIndex_eq, pdeIndex_eq, pteIndex_eq]
  have h3 := rootTable_next h hd
  generalize s.nextTable (slot s.pgd (v / 2 ^ 39 % 512)) = r3 at h3 ⊢
  cases h3 with
  | refused hfull => exact Mapped.refused _ (Filled.refl h) (by omega)
  | reached s3 level3 pdpt h3 =>
    have h2 := nextTable_next h3.valid h3.child (h3.next 2 rfl)
    have hN3 := h3.grows.pages
    have hu3 := h3.used
    dsimp only
    generalize s3.nextTable (slot pdpt (v / 2 ^ 30 % 512)) = r2 at h2 ⊢
    cases h2 with
    | refused hfull => exact Mapped.refused _ (h3.filled h (Filled.refl h3.valid)) (by omega)
    | reached s2 level2 pd h2 =>
      have h1 := nextTable_next h2.valid h2.child (h2.next 1 rfl)
      have hN2 := h2.grows.pages
      have hu2 := h2.used
      dsimp only
      generalize s2.nextTable (slot pd (v / 2 ^ 21 % 512)) = r1 at h1 ⊢
      cases h1 with
      | refused hfull =>
        exact Mapped.refused _ (h3.filled h (h2.filled h3.valid (Filled.refl h2.valid))) (by omega)
      | reached s1 level1 pt h1 =>
        have hu1 := h1.used
        have hg2 := h2.grows.trans h3.valid h1.grows
        have hg := h3.grows.trans h hg2
        have hleaf := h1.valid.setLeaf h1.child hi (hg.owned hown) ((hg.same f hown).trans hf)
          (by rw [pgd, hg.start]; exact hr)
        have hroot : level3 s.pgd = 4 := by
          have := h3.valid.tables.root
          rwa [pgd, h3.grows.start] at this
        have hpdpt : level2 pdpt = 3 := by
          rw [h2.grows.same _ (h3.valid.tables.owned _ (by rw [h3.child]; decide)), h3.child]
        have hpd : level1 pd = 2 := by
          rw [h1.grows.same _ (h2.valid.tables.owned _ (by rw [h2.child]; decide)), h2.child]
        have hlink3 := hg2.link (by omega) h3.link
        have hlink2 := h1.grows.link (by omega) h2.link
        have hkeeps := (h3.keeps.trans h2.keeps).trans h1.keeps
        have hpgd1 : s1.pgd = s.pgd := by rw [pgd, pgd, hg.start]
        have hpath : ∀ w, w / 2 ^ 21 = v / 2 ^ 21 →
            walk (s1.setEntry (slot pt (v / 2 ^ 12 % 512)) f 7).mem s.pgd w =
              walkFrom (s1.setEntry (slot pt (v / 2 ^ 12 % 512)) f 7).mem 1 pt w := fun w hw =>
          walk_path ((hg2.trans h3.valid hleaf.2).link (by omega) h3.link)
            ((h1.grows.trans h2.valid hleaf.2).link (by omega) h2.link) (hleaf.2.link (by omega) h1.link) hw
        dsimp only
        rw [if_pos rfl]
        refine Mapped.mapped _ level1 hleaf.1 (hg.trans h hleaf.2) ?_ ?_ (fun hnone => ?_) ?_
        · change s1.heap.mm.usedSize ≤ _
          omega
        · change walk (s1.setEntry (slot pt (v / 2 ^ 12 % 512)) f 7).mem s1.pgd v = _
          rw [hpgd1, hpath v rfl, (setLeaf_link s1 v pt hown.1).walk, walkFrom]
        · have hpt := h1.unmapped 0 rfl (h2.unmapped 1 rfl (h3.unmapped 2 rfl (by
            rwa [← walk_eq_walkFrom])))
          exact hkeeps.trans (h1.valid.setLeaf_keeps (h1.valid.tables.leaf_empty h1.child hpt))
        · intro w p hsame hne hw
          have hw1 := hkeeps w p hw
          change walk (s1.setEntry (slot pt (v / 2 ^ 12 % 512)) f 7).mem s1.pgd w = _
          rw [hpgd1, walk_path hlink3 hlink2 h1.link hsame] at hw1
          rw [hpgd1, hpath w hsame, ← hw1]
          have hslot : (s1.setEntry (slot pt (v / 2 ^ 12 % 512)) f 7).mem (slot pt (w / 2 ^ (12 + 9 * 0) % 512)) =
              s1.mem (slot pt (w / 2 ^ (12 + 9 * 0) % 512)) :=
            Function.update_of_ne (fun he => hne (slot_inj.mp he)) _ _
          simp only [walkFrom, hslot]

theorem getPa_spec (h : s.Valid level) (hd : s.Demand v) : s.Filled level (s.getPa v).1 := by
  unfold getPa
  split_ifs with hv hhigh
  · exact Filled.refl h
  · exact Filled.refl h
  rw [pml4Index_eq, pdptIndex_eq, pdeIndex_eq, pteIndex_eq]
  have h3 := rootTable_next h hd
  generalize s.nextTable (slot s.pgd (v / 2 ^ 39 % 512)) = r3 at h3 ⊢
  cases h3 with
  | refused _ => exact Filled.refl h
  | reached s3 level3 pdpt h3 =>
    have h2 := nextTable_next h3.valid h3.child (h3.next 2 rfl)
    dsimp only
    generalize s3.nextTable (slot pdpt (v / 2 ^ 30 % 512)) = r2 at h2 ⊢
    cases h2 with
    | refused _ => exact h3.filled h (Filled.refl h3.valid)
    | reached s2 level2 pd h2 =>
      have h1 := nextTable_next h2.valid h2.child (h2.next 1 rfl)
      dsimp only
      split_ifs
      · exact h3.filled h (h2.filled h3.valid (Filled.refl h2.valid))
      generalize s2.nextTable (slot pd (v / 2 ^ 21 % 512)) = r1 at h1 ⊢
      cases h1 with
      | refused _ => exact h3.filled h (h2.filled h3.valid (Filled.refl h2.valid))
      | reached s1 level1 pt h1 =>
        have h0 := nextTable_next h1.valid h1.child (h1.next 0 rfl)
        dsimp only
        generalize s1.nextTable (slot pt (v / 2 ^ 12 % 512)) = r0 at h0 ⊢
        cases h0 with
        | refused _ => exact h3.filled h (h2.filled h3.valid (h1.filled h2.valid (Filled.refl h1.valid)))
        | reached s0 level0 page h0 =>
          exact h3.filled h (h2.filled h3.valid (h1.filled h2.valid (h0.filled h1.valid (Filled.refl h0.valid))))

theorem Valid.offTable (h : s.Valid level) {mem : Mem}
    (hmem : ∀ t i, i < 512 → level t ≠ 0 → mem (slot t i) = s.mem (slot t i)) :
    Valid { s with mem := mem } level ∧ s.Grows level { s with mem := mem } level ∧
      ∀ v, walk mem s.pgd v = walk s.mem s.pgd v := by
  refine ⟨⟨⟨h.pool.heap, h.pool.start, h.pool.top, h.pool.low, h.pool.aligned, h.pool.high, h.pool.fits⟩,
    h.tables.congr hmem⟩, ⟨rfl, rfl, rfl, fun _ hx => hx, fun _ _ => rfl,
      fun t i hi ht _ => hmem t i hi (by omega), ?_⟩, h.tables.walk_congr hmem⟩
  intro v hv h256
  change Soft s.pgd (mem (slot (s.pgd + 0x1000) (v / 2 ^ 30 % 512)))
  rw [hmem _ _ (Nat.mod_lt _ (by decide)) (by rw [h.tables.pdpt]; decide)]
  exact hv h256

theorem Valid.alloc_slot (h : s.Valid level) {mm : MM} {x : Handed} (hx : x ∉ s.heap.handed)
    (hp : Pool { s with heap := ⟨mm, x :: s.heap.handed⟩ }) (t i : ℕ) (hi : i < 512) (ht : level t ≠ 0) :
    zeroFill s.mem (pa s.gMemoryStart x.address) 4096 (slot t i) = s.mem (slot t i) := by
  have hpage : 4096 ∣ pa s.gMemoryStart x.address := (hp.page List.mem_cons_self).1
  rw [zeroFill_slot hpage (h.tables.page_of_level ht) hi, if_neg]
  rintro rfl
  exact Pool.new_not_owned hp hx (h.tables.owned _ ht)

theorem Valid.alloc (h : s.Valid level) {mm : MM} {x : Handed} (hx : x ∉ s.heap.handed)
    (hp : Pool { s with heap := ⟨mm, x :: s.heap.handed⟩ })
    (hN : mm.smallestBlock = s.heap.mm.smallestBlock) {s' : Space}
    (hs : s' = { s with
      heap := ⟨mm, x :: s.heap.handed⟩
      mem := zeroFill s.mem (pa s.gMemoryStart x.address) 4096 }) :
    s'.Valid level ∧ s.Grows level s' level ∧ (∀ v, walk s'.mem s'.pgd v = walk s.mem s.pgd v) ∧
      level (pa s.gMemoryStart x.address) = 0 := by
  obtain ⟨hv, hg, hk⟩ := h.offTable (h.alloc_slot hx hp)
  have hzero : level (pa s.gMemoryStart x.address) = 0 := by
    by_contra hl
    exact Pool.new_not_owned hp hx (h.tables.owned _ hl)
  subst hs
  refine ⟨⟨⟨hp.heap, hp.start, hp.top, hp.low, hp.aligned, hp.high, hp.fits⟩, hv.tables.mono ?_ fun t ht => ht.1⟩,
    ⟨rfl, rfl, hN, fun y hy => List.mem_cons_of_mem _ hy, fun _ _ => rfl, hg.upper, hg.demand⟩, hk, hzero⟩
  exact fun t ht => ⟨ht.1, ht.2.imp id fun ⟨y, hy, he⟩ => ⟨y, List.mem_cons_of_mem _ hy, he⟩⟩

theorem demand_of_low (hv : v < 2 ^ 47) : s.Demand v := by
  intro h256
  omega

theorem Valid.demand_limit (h : s.Valid level) : s.Demand configHighHalfLimit :=
  fun _ => h.tables.first

theorem Valid.walk_window (h : s.Valid level) (h256 : v / 2 ^ 39 % 512 = 256) :
    walk s.mem s.pgd v = walkFrom s.mem 3 (s.pgd + 0x1000) v := by
  have hpage : 2 ^ 12 ∣ s.pgd + 0x1000 := h.tables.page_of_level (by rw [h.tables.pdpt]; decide)
  have he : s.mem (slot s.pgd (v / 2 ^ (12 + 9 * 3) % 512)) = s.pgd + 0x1000 ||| 7 := by
    rw [← h.tables.window, ← h256]
  rw [walk_eq_walkFrom, walkFrom, he, present_or (by decide), clearLow_entry hpage (by decide)]
  rfl

theorem Valid.demand_of_unmapped (h : s.Valid level) (hw : walk s.mem s.pgd v = none) : s.Demand v := by
  intro h256
  have hi : v / 2 ^ 30 % 512 < 512 := Nat.mod_lt _ (by decide)
  rw [h.walk_window h256] at hw
  rcases h.tables.entry _ _ hi (by rw [h.tables.pdpt]; decide) with h0 | ⟨hp, hty⟩
  · exact .inl h0
  by_cases hl : large (s.mem (slot (s.pgd + 0x1000) (v / 2 ^ 30 % 512))) = true
  · exact absurd hw (Tables.walkFrom_large (l := 2) hp hl (.inr rfl))
  have hl' := Bool.eq_false_of_not_eq_true hl
  rw [Tables.walkFrom_child (l := 2) hp hl'] at hw
  obtain ⟨hlev, -⟩ := hty.resolve_left fun hc => hl hc.1
  rw [h.tables.pdpt] at hlev
  refine .inr ⟨hl', ?_⟩
  rintro (he | he | he)
  · rw [he, h.tables.root] at hlev
    omega
  · rw [he, h.tables.pdpt] at hlev
    omega
  · have hk := h.tables.kernel (v / 2 ^ 21 % 512) (Nat.mod_lt _ (by decide))
    change walkFrom s.mem 2 (clearLow 12 (s.mem (slot (s.pgd + 0x1000) (v / 2 ^ 30 % 512)))) v = none at hw
    rw [he] at hw
    exact Tables.walkFrom_large (l := 1) hk.1 hk.2 (.inl rfl) hw

theorem Pool.owned_lt (h : s.Pool) {f : ℕ} (hown : s.Owned f) : 0 < f ∧ f + 2 ^ 12 ≤ wordSize := by
  have htop := h.top
  have hstart := h.start
  rcases hown.2 with hboot | ⟨x, hx, rfl⟩
  · simp only [pgd, configKernelPagetableAddress, wordSize] at *
    omega
  · have hpage := h.page hx
    omega

theorem Valid.walk_frame (h : s.Valid level) (hd : s.Demand v) {p : ℕ} (hw : walk s.mem s.pgd v = some p) :
    ∃ f, s.Owned f ∧ level f = 0 ∧ ¬ Rigid s.pgd f ∧ p = f + v % 2 ^ 12 := by
  have hbelow : ∀ l t, level t = l + 1 → Soft s.pgd (s.mem (slot t (v / 2 ^ (12 + 9 * l) % 512))) →
      walkFrom s.mem (l + 1) t v = some p →
      ∃ f, s.Owned f ∧ level f = 0 ∧ ¬ Rigid s.pgd f ∧ p = f + v % 2 ^ 12 := by
    intro l t ht hsoft hw
    obtain ⟨-, -, hlev, hown, hr, hw⟩ := h.tables.descend ht hsoft hw
    exact h.tables.walkFrom_frame hlev hown hr hw
  by_cases h256 : v / 2 ^ 39 % 512 = 256
  · rw [h.walk_window h256] at hw
    exact hbelow 2 _ h.tables.pdpt (hd h256) hw
  · rw [walk_eq_walkFrom] at hw
    exact hbelow 3 _ h.tables.root (h.tables.soft _ _ (Nat.mod_lt _ (by decide))
      (by rw [h.tables.root]; decide) (.inr ⟨rfl, h256⟩)) hw

end Next

end Space
end Azalea
