import Azalea.Foundation.Run
import Azalea.Memory.Pool
import Azalea.Paging.Boot
import Azalea.Paging.Fill

namespace Azalea
open Word

def Canonical (v : ℕ) : Prop := v < 2 ^ 47 ∨ configHighHalfLimit ≤ v ∧ v < wordSize

inductive Handler where
  | idle
  | faulted (faultAddress : ℕ)
  | holding (faultAddress newPage : ℕ)
  | halted
deriving DecidableEq, Repr

structure Machine where
  space : Space
  core : ℕ → Handler

inductive Event where
  | fault (core v : ℕ)
  | alloc (core : ℕ)
  | map (core : ℕ)
  | getPa (v : ℕ)
  | store (v value : ℕ)
deriving DecidableEq, Repr

namespace Machine

def translate (m : Machine) (v : ℕ) : Option ℕ := walk m.space.mem m.space.pgd v

def Legal (m : Machine) : Event → Prop
  | .fault c v => m.core c = .idle ∧ Canonical v ∧ m.translate v = none
  | .alloc c => ∃ v, m.core c = .faulted v
  | .map c => ∃ v page, m.core c = .holding v page
  | .getPa v => Canonical v
  | .store v _ => v < 2 ^ 47 ∧ 8 ∣ v ∧ m.translate v ≠ none

def step (m : Machine) : Event → Machine
  | .fault c v => { m with core := Function.update m.core c (.faulted v) }
  | .alloc c =>
    match m.core c with
    | .faulted v =>
      let r := m.space.azAlloc pageSize4K
      ⟨r.1, Function.update m.core c (if r.2 = 0 then .halted else .holding v r.2)⟩
    | _ => m
  | .map c =>
    match m.core c with
    | .holding v page =>
      ⟨(m.space.lkMap v (pa m.space.gMemoryStart page) pageSize4K 0).1, Function.update m.core c .idle⟩
    | _ => m
  | .getPa v => { m with space := (m.space.getPa v).1 }
  | .store v value =>
    match m.translate v with
    | some p => { m with space := { m.space with mem := Function.update m.space.mem p value } }
    | none => m

def Unmapped (m : Machine) : Event → Prop
  | .map c => ∀ v page, m.core c = .holding v page → m.translate v = none
  | _ => True

def Step (m m' : Machine) : Prop := ∃ e, m.Legal e ∧ m' = m.step e

def UnmappedStep (m m' : Machine) : Prop := ∃ e, m.Legal e ∧ m.Unmapped e ∧ m' = m.step e

def boot (prior : ℕ → BITMAP) (priorIndex : ℤ → BYTE) (mem : Mem)
    (gMemoryStart gMemoryEnd gSharedMemory : ℕ) : Machine where
  space :=
    { gMemoryStart, gSharedMemory
      heap := ⟨MM.freeMemInit prior priorIndex gMemoryStart gMemoryEnd, []⟩
      mem := bootTables mem gMemoryStart gMemoryEnd gSharedMemory }
  core := fun _ => .idle

def Held (s : Space) (level : ℕ → ℕ) : Handler → Prop
  | .faulted v => s.Demand v
  | .holding v page => s.Demand v ∧ level (pa s.gMemoryStart page) = 0 ∧
      ∃ x ∈ s.heap.handed, x.address = page
  | _ => True

def Valid (m : Machine) : Prop := ∃ level, m.space.Valid level ∧ ∀ c, Held m.space level (m.core c)

theorem Held.grows {s s' : Space} {level level' : ℕ → ℕ} (hp : s.Pool) (hg : s.Grows level s' level')
    {h : Handler} (hh : Held s level h) : Held s' level' h := by
  cases h with
  | idle => trivial
  | halted => trivial
  | faulted v => exact hg.demand v hh
  | holding v page =>
    obtain ⟨hd, hl, x, hx, rfl⟩ := hh
    refine ⟨hg.demand v hd, ?_, x, hg.handed x hx, rfl⟩
    rw [hg.start, hg.same _ ⟨(hp.page hx).1, .inr ⟨x, hx, rfl⟩⟩]
    exact hl

theorem Held.mapped {s : Space} {level : ℕ → ℕ} {v page : ℕ} (hs : s.Valid level) (h : Held s level (.holding v page)) :
    Space.Mapped s level v (pa s.gMemoryStart page) (s.lkMap v (pa s.gMemoryStart page) pageSize4K 0) := by
  obtain ⟨hd, hl, x, hx, rfl⟩ := h
  exact Space.lkMap_spec hs hd ⟨(hs.pool.page hx).1, .inr ⟨x, hx, rfl⟩⟩ hl (hs.pool.not_rigid hx)

section Step
variable {m : Machine} {c v : ℕ}

theorem held_update {s s' : Space} {level level' : ℕ → ℕ} {core : ℕ → Handler} (hp : s.Pool)
    (hg : s.Grows level s' level') (hh : ∀ c, Held s level (core c)) {h : Handler} (hc : Held s' level' h)
    (d : ℕ) : Held s' level' (Function.update core c h d) := by
  by_cases hd : d = c
  · rw [hd, Function.update_self]
    exact hc
  · rw [Function.update_of_ne hd]
    exact (hh d).grows hp hg

theorem Valid.fault (h : m.Valid) (hw : m.translate v = none) :
    (m.step (.fault c v)).Valid := by
  obtain ⟨level, hs, hh⟩ := h
  exact ⟨level, hs, held_update hs.pool (Space.Grows.refl _ _) hh (hs.demand_of_unmapped hw)⟩

theorem Valid.alloc (h : m.Valid) (hc : m.core c = .faulted v) :
    (m.step (.alloc c)).Valid ∧ m.space.Keeps (m.step (.alloc c)).space := by
  obtain ⟨level, hs, hh⟩ := h
  have hd := hh c
  rw [hc] at hd
  have halloc := Space.azAlloc_page hs.pool
  simp only [step, hc]
  generalize m.space.azAlloc pageSize4K = r at halloc
  cases halloc with
  | refused _ =>
    exact ⟨⟨level, hs, held_update hs.pool (Space.Grows.refl _ _) hh trivial⟩, fun _ _ hw => hw⟩
  | granted mm x hne hx hp _ hN =>
    obtain ⟨hv, hg, hk, hl⟩ := hs.alloc hx hp hN rfl
    refine ⟨⟨level, hv, held_update hs.pool hg hh ?_⟩, fun w p hw => (hk w).trans hw⟩
    rw [if_neg hne]
    exact ⟨hg.demand v hd, hl, x, List.mem_cons_self, rfl⟩

theorem Valid.map (h : m.Valid) {page : ℕ} (hc : m.core c = .holding v page) :
    (m.step (.map c)).Valid ∧ (m.translate v = none → m.space.Keeps (m.step (.map c)).space) := by
  obtain ⟨level, hs, hh⟩ := h
  have hmap := Held.mapped hs (hc ▸ hh c)
  simp only [step, hc]
  generalize m.space.lkMap v (pa m.space.gMemoryStart page) pageSize4K 0 = r at hmap
  cases hmap with
  | refused s' hfill _ =>
    obtain ⟨level', hv, hg⟩ := hfill.valid
    exact ⟨⟨level', hv, held_update hs.pool hg hh trivial⟩, fun _ => hfill.keeps⟩
  | mapped s' level' hv hg _ _ hk _ => exact ⟨⟨level', hv, held_update hs.pool hg hh trivial⟩, hk⟩

theorem Valid.getPa (h : m.Valid) (hcan : Canonical v) :
    (m.step (.getPa v)).Valid ∧ m.space.Keeps (m.step (.getPa v)).space := by
  obtain ⟨level, hs, hh⟩ := h
  have hfill : m.space.Filled level (m.space.getPa v).1 := by
    rcases hcan with hlow | ⟨hhigh, -⟩
    · exact Space.getPa_spec hs (Space.demand_of_low hlow)
    rcases hhigh.eq_or_lt with rfl | hlt
    · exact Space.getPa_spec hs hs.demand_limit
    · rw [Space.getPa, if_neg (by simp only [configHighHalfLimit] at hlt; omega), if_pos hlt]
      exact Space.Filled.refl hs
  obtain ⟨level', hv, hg⟩ := hfill.valid
  exact ⟨⟨level', hv, fun c => (hh c).grows hs.pool hg⟩, hfill.keeps⟩

theorem Valid.store (h : m.Valid) {value : ℕ} (hlow : v < 2 ^ 47) :
    (m.step (.store v value)).Valid ∧ m.space.Keeps (m.step (.store v value)).space := by
  obtain ⟨level, hs, hh⟩ := h
  rw [step]
  cases hw : m.translate v with
  | none => exact ⟨⟨level, hs, hh⟩, fun _ _ hw => hw⟩
  | some p =>
    obtain ⟨f, hown, hf, -, rfl⟩ := hs.walk_frame (Space.demand_of_low hlow) hw
    have hslot : ∀ t i, i < 512 → level t ≠ 0 →
        Function.update m.space.mem (f + v % 2 ^ 12) value (slot t i) = m.space.mem (slot t i) := by
      intro t i hi ht
      refine Function.update_of_ne (fun he => ?_) _ _
      have hpage := hs.tables.page_of_level ht
      have hfp := hown.1
      obtain rfl : t = f := by
        unfold slot at he
        omega
      exact ht hf
    obtain ⟨hv, hg, hk⟩ := hs.offTable hslot
    exact ⟨⟨level, hv, fun c => (hh c).grows hs.pool hg⟩, fun w p hw => (hk w).trans hw⟩

theorem Valid.step {e : Event} (h : m.Valid) (hl : m.Legal e) :
    (m.step e).Valid ∧ (m.Unmapped e → m.space.Keeps (m.step e).space) := by
  cases e with
  | fault c v => exact ⟨h.fault hl.2.2, fun _ _ _ hw => hw⟩
  | alloc c =>
    obtain ⟨v, hc⟩ := hl
    exact ⟨(h.alloc hc).1, fun _ => (h.alloc hc).2⟩
  | map c =>
    obtain ⟨v, page, hc⟩ := hl
    exact ⟨(h.map hc).1, fun hu => (h.map hc).2 (hu v page hc)⟩
  | getPa v => exact ⟨(h.getPa hl).1, fun _ => (h.getPa hl).2⟩
  | store v value => exact ⟨(h.store hl.1).1, fun _ => (h.store hl.1).2⟩

theorem Valid.run {m' : Machine} (h : m.Valid) (hr : Relation.ReflTransGen Step m m') : m'.Valid :=
  Run.invariant (fun {_ _} hv ⟨_, hl, he⟩ => he ▸ (hv.step hl).1) h hr

theorem Valid.unmapped_run {m' : Machine} (h : m.Valid) (hr : Relation.ReflTransGen UnmappedStep m m') :
    m'.Valid ∧ m.space.Keeps m'.space := by
  have hstep : ∀ {a b : Machine}, a.Valid → UnmappedStep a b → b.Valid ∧ a.space.Keeps b.space := by
    rintro a _ ha ⟨e, hl, hu, rfl⟩
    exact ⟨(ha.step hl).1, (ha.step hl).2 hu⟩
  exact ⟨Run.invariant (fun ha hs => (hstep ha hs).1) h hr,
    @Run.preserved Machine UnmappedStep Valid (fun a b => a.space.Keeps b.space) _ _
      (fun _ _ _ hw => hw) Space.Keeps.trans hstep h hr⟩

end Step

def bootLevel (pgd t : ℕ) : ℕ :=
  if t = pgd then 4 else if t = pgd + 0x1000 then 3
  else if t = pgd + 0x2000 ∨ t = pgd + 0x3000 then 2 else 0

theorem bootLevel_cases {pgd t : ℕ} (h : bootLevel pgd t ≠ 0) :
    t = pgd ∨ t = pgd + 1 * 0x1000 ∨ t = pgd + 2 * 0x1000 ∨ t = pgd + 3 * 0x1000 := by
  unfold bootLevel at h
  split_ifs at h <;> omega

theorem bootLevel_root (pgd : ℕ) : bootLevel pgd pgd = 4 := if_pos rfl

theorem bootLevel_pdpt (pgd : ℕ) : bootLevel pgd (pgd + 1 * 0x1000) = 3 := by
  rw [bootLevel, if_neg (by omega), if_pos rfl]

theorem bootLevel_pd {pgd k : ℕ} (hk : k = 2 ∨ k = 3) : bootLevel pgd (pgd + k * 0x1000) = 2 := by
  rw [bootLevel, if_neg (by omega), if_neg (by omega), if_pos (by omega)]

section Boot
variable {prior : ℕ → BITMAP} {priorIndex : ℤ → BYTE} {mem : Mem} {gMemoryStart gMemoryEnd gSharedMemory : ℕ}
  (hs : 2 ^ 30 ∣ gMemoryStart) (he : 2 ^ 30 ∣ gMemoryEnd) (hlt : gMemoryStart < gMemoryEnd)
  (hend : gMemoryEnd < wordSize) (hG : gMemoryEnd - gMemoryStart ≤ 508 * pageSize1G)

theorem bootTables_root {i : ℕ} (hi : i < 512) :
    bootTables mem gMemoryStart gMemoryEnd gSharedMemory (slot (configKernelPagetableAddress gMemoryStart) i) =
      if i = 256 then configKernelPagetableAddress gMemoryStart + 1 * 0x1000 ||| 7 else 0 := by
  rw [bootTables, remove_pml4 _ _ hi, initTables, init_pml4 _ hi]
  split_ifs <;> first | rfl | omega

include hs he hlt hend hG

omit he in
theorem bootTables_pdpt_typed {i : ℕ} (hi : i < 512) {own : ℕ → Prop}
    (hown : ∀ k < 4, own (configKernelPagetableAddress gMemoryStart + k * 0x1000)) :
    Typed own (bootLevel (configKernelPagetableAddress gMemoryStart)) 3
      (bootTables mem gMemoryStart gMemoryEnd gSharedMemory
        (slot (configKernelPagetableAddress gMemoryStart + 1 * 0x1000) i)) := by
  have hpd : ∀ k, k = 2 ∨ k = 3 → Typed own (bootLevel (configKernelPagetableAddress gMemoryStart)) 3
      (configKernelPagetableAddress gMemoryStart + k * 0x1000 ||| 7) := by
    intro k hk
    refine .inr ⟨present_or (by decide), .inr ?_⟩
    rw [clearLow_entry (pagetableAddress_dvd hs k) (by decide), bootLevel_pd hk]
    exact ⟨rfl, hown k (by omega)⟩
  have hlarge : ∀ b, Typed own (bootLevel (configKernelPagetableAddress gMemoryStart)) 3 (b ||| 0x87) :=
    fun b => .inr ⟨present_or (by decide), .inl ⟨large_or (by decide), .inr rfl⟩⟩
  rw [bootTables, remove_pdpt _ _ hi, initTables_pdpt hs hlt hend hG _ _ hi]
  by_cases h0 : i = 0
  · rw [if_pos h0]
    exact hpd 2 (.inl rfl)
  rw [if_neg h0]
  by_cases h2 : i < 3
  · rw [if_pos h2]
    exact hlarge _
  rw [if_neg h2]
  by_cases h3 : i = 3
  · rw [if_pos h3]
    exact hpd 3 (.inr rfl)
  rw [if_neg h3]
  split
  · exact hlarge _
  · exact .inl rfl

theorem bootTables_kernel {i : ℕ} (hi : i < 512) :
    present (bootTables mem gMemoryStart gMemoryEnd gSharedMemory
        (slot (configKernelPagetableAddress gMemoryStart + 3 * 0x1000) i)) = true ∧
      large (bootTables mem gMemoryStart gMemoryEnd gSharedMemory
        (slot (configKernelPagetableAddress gMemoryStart + 3 * 0x1000) i)) = true := by
  rw [bootTables, remove_kernel _ _ hi, initTables_kernel hs hlt.le hend (by simp only [pageSize1G] at hG ⊢; omega) hi]
  exact ⟨present_or (by decide), large_or (by decide)⟩

omit he in
theorem bootTables_first : Soft (configKernelPagetableAddress gMemoryStart)
    (bootTables mem gMemoryStart gMemoryEnd gSharedMemory
      (slot (configKernelPagetableAddress gMemoryStart + 1 * 0x1000) 0)) := by
  rw [bootTables, remove_pdpt _ _ (by decide), initTables_pdpt hs hlt hend hG _ _ (by decide), if_pos rfl]
  refine .inr ⟨not_large_or (pagetableAddress_dvd hs 2) (by decide), ?_⟩
  rw [clearLow_entry (pagetableAddress_dvd hs 2) (by decide)]
  unfold Rigid
  omega

theorem bootTables_tables {own : ℕ → Prop} (hpage : ∀ t, own t → 4096 ∣ t)
    (hown : ∀ k < 4, own (configKernelPagetableAddress gMemoryStart + k * 0x1000)) :
    Tables (configKernelPagetableAddress gMemoryStart) own
      (bootTables mem gMemoryStart gMemoryEnd gSharedMemory)
      (bootLevel (configKernelPagetableAddress gMemoryStart)) where
  root := bootLevel_root _
  pdpt := bootLevel_pdpt _
  pd := bootLevel_pd (k := 3) (.inr rfl)
  owned := by
    intro t ht
    rcases bootLevel_cases ht with rfl | rfl | rfl | rfl
    · exact hown 0 (by decide)
    · exact hown 1 (by decide)
    · exact hown 2 (by decide)
    · exact hown 3 (by decide)
  page := hpage
  entry := by
    intro t i hi ht
    rcases bootLevel_cases ht with rfl | rfl | rfl | rfl
    · rw [bootTables_root hi, bootLevel_root]
      split
      · refine .inr ⟨present_or (by decide), .inr ?_⟩
        rw [clearLow_entry (pagetableAddress_dvd hs 1) (by decide), bootLevel_pdpt]
        exact ⟨rfl, hown 1 (by decide)⟩
      · exact .inl rfl
    · rw [bootLevel_pdpt]
      exact bootTables_pdpt_typed hs hlt hend hG hi hown
    · exact .inl (remove_pd _ _ hi)
    · rw [bootLevel_pd (.inr rfl)]
      exact .inr ⟨(bootTables_kernel hs he hlt hend hG hi).1,
        .inl ⟨(bootTables_kernel hs he hlt hend hG hi).2, .inl rfl⟩⟩
  soft := by
    intro t i hi ht hr
    rcases bootLevel_cases ht with rfl | rfl | rfl | rfl
    · rw [bootTables_root hi, if_neg]
      · exact .inl rfl
      · rcases hr with hr | hr
        · exact absurd (.inl rfl) hr
        · exact hr.2
    · exact absurd (.inr (.inl rfl)) (hr.resolve_right (by omega))
    · exact .inl (remove_pd _ _ hi)
    · exact absurd (.inr (.inr rfl)) (hr.resolve_right (by omega))
  window := by rw [bootTables_root (by decide), if_pos rfl]
  first := bootTables_first hs hlt hend hG
  kernel := fun i hi => bootTables_kernel hs he hlt hend hG hi

theorem boot_valid : (boot prior priorIndex mem gMemoryStart gMemoryEnd gSharedMemory).Valid := by
  have hlow : gMemoryStart + 2 ^ 30 ≤ gMemoryEnd := by omega
  have hG' := hG.trans (by decide : 508 * 2 ^ 30 ≤ 509 * 2 ^ 30)
  obtain ⟨h1, h2, h3, h4⟩ := MM.freeMemInit_bounds prior priorIndex hend hlow hG'
  refine ⟨bootLevel (configKernelPagetableAddress gMemoryStart),
    ⟨⟨MM.freeMemInit_valid prior priorIndex hend hlow hG', hs, hlt.trans hend, h1, h2, h3, h4⟩, ?_⟩, fun _ => trivial⟩
  refine bootTables_tables hs he hlt hend hG (fun t ht => ht.1) fun k hk => ⟨pagetableAddress_dvd hs k, .inl ?_⟩
  change configKernelPagetableAddress gMemoryStart ≤ _ ∧ _ < configKernelPagetableAddress gMemoryStart + 0x4000
  omega

theorem demandPaging_keeps_frames {m m' : Machine}
    (hr : Relation.ReflTransGen UnmappedStep
      (boot prior priorIndex mem gMemoryStart gMemoryEnd gSharedMemory) m)
    (hr' : Relation.ReflTransGen UnmappedStep m m') {v p : ℕ} (_hlow : v < 2 ^ 47)
    (hw : m.translate v = some p) : m'.translate v = some p :=
  (((boot_valid hs he hlt hend hG).unmapped_run hr).1.unmapped_run hr').2 v p hw

end Boot

section Room
variable {m : Machine} {c v : ℕ}

theorem Valid.alloc_holds (h : m.Valid) (hc : m.core c = .faulted v)
    (hroom : m.space.heap.mm.usedSize + 4096 ≤ 4096 * m.space.heap.mm.smallestBlock) :
    ∃ x, (m.step (.alloc c)).core = Function.update m.core c (.holding v x.address) ∧
      (∀ w, (m.step (.alloc c)).translate w = m.translate w) ∧
      (m.step (.alloc c)).space.gMemoryStart = m.space.gMemoryStart ∧
      (m.step (.alloc c)).space.heap.handed = x :: m.space.heap.handed ∧ x ∉ m.space.heap.handed ∧
      (m.step (.alloc c)).space.heap.mm.usedSize = m.space.heap.mm.usedSize + 4096 ∧
      (m.step (.alloc c)).space.heap.mm.smallestBlock = m.space.heap.mm.smallestBlock := by
  obtain ⟨level, hs, -⟩ := h
  have halloc := Space.azAlloc_page hs.pool
  simp only [Machine.step, hc, translate]
  generalize m.space.azAlloc pageSize4K = r at halloc
  cases halloc with
  | refused hfull => omega
  | granted mm x hne hx hp hu hN =>
    exact ⟨x, by rw [if_neg hne], (hs.alloc hx hp hN rfl).2.2.1, rfl, rfl, hx, hu, hN⟩

theorem Valid.map_translate (h : m.Valid) {page : ℕ} (hc : m.core c = .holding v page)
    (hroom : m.space.heap.mm.usedSize + 3 * 4096 ≤ 4096 * m.space.heap.mm.smallestBlock) :
    (m.step (.map c)).translate v = some (pa m.space.gMemoryStart page + v % 2 ^ 12) ∧
      (m.step (.map c)).core = Function.update m.core c .idle ∧
      (m.step (.map c)).space.gMemoryStart = m.space.gMemoryStart ∧
      (m.step (.map c)).space.heap.mm.usedSize ≤ m.space.heap.mm.usedSize + 3 * 4096 ∧
      (m.step (.map c)).space.heap.mm.smallestBlock = m.space.heap.mm.smallestBlock := by
  obtain ⟨level, hs, hh⟩ := h
  have hmap := Held.mapped hs (hc ▸ hh c)
  simp only [Machine.step, hc, translate]
  generalize m.space.lkMap v (pa m.space.gMemoryStart page) pageSize4K 0 = r at hmap
  cases hmap with
  | refused s' hfill hfull => omega
  | mapped s' level' hv hg hu hw _ _ => exact ⟨hw, trivial, hg.start, hu, hg.pages⟩

theorem Valid.first_touch (h : m.Valid) (hc : m.core c = .idle) (hcan : Canonical v)
    (hnone : m.translate v = none)
    (hroom : m.space.heap.mm.usedSize + 4 * 4096 ≤ 4096 * m.space.heap.mm.smallestBlock) :
    ∃ m' p, Relation.ReflTransGen UnmappedStep m m' ∧ m'.translate v = some p := by
  set a := m.step (.fault c v) with ha
  have hac : a.core c = .faulted v := by
    rw [ha, Machine.step]
    exact Function.update_self _ _ _
  have hav : a.Valid := h.fault hnone
  obtain ⟨x, hxc, hxw, -, -, -, hxu, hxN⟩ := hav.alloc_holds hac (show m.space.heap.mm.usedSize + 4096 ≤ _ by
    change _ ≤ 4096 * m.space.heap.mm.smallestBlock
    omega)
  set b := a.step (.alloc c) with hb
  have hbv : b.Valid := (hav.alloc hac).1
  have hbc : b.core c = .holding v x.address := by rw [hxc, Function.update_self]
  change b.space.heap.mm.usedSize = m.space.heap.mm.usedSize + 4096 at hxu
  change b.space.heap.mm.smallestBlock = m.space.heap.mm.smallestBlock at hxN
  obtain ⟨hw, -⟩ := hbv.map_translate hbc (by omega)
  have hunmapped : b.Unmapped (.map c) := by
    intro w page hwc
    rw [hbc] at hwc
    cases hwc
    exact (hxw v).trans hnone
  exact ⟨_, _, ((Relation.ReflTransGen.single ⟨.fault c v, ⟨hc, hcan, hnone⟩, trivial, rfl⟩).tail
    ⟨.alloc c, ⟨v, hac⟩, trivial, rfl⟩).tail ⟨.map c, ⟨v, _, hbc⟩, hunmapped, rfl⟩, hw⟩

theorem Valid.race (h : m.Valid) (h0 : m.core 0 = .idle) (h1 : m.core 1 = .idle) (hcan : Canonical v)
    (hnone : m.translate v = none)
    (hroom : m.space.heap.mm.usedSize + 8 * 4096 ≤ 4096 * m.space.heap.mm.smallestBlock) :
    ∃ m₁ m₂ p₁ p₂, Relation.ReflTransGen Step m m₁ ∧ Step m₁ m₂ ∧ m₁.translate v = some p₁ ∧
      m₂.translate v = some p₂ ∧ p₁ ≠ p₂ := by
  set a := m.step (.fault 0 v) with ha
  set b := a.step (.fault 1 v) with hb
  have hb0 : b.core 0 = .faulted v := by
    rw [hb, Machine.step, ha, Machine.step]
    rfl
  have hb1 : b.core 1 = .faulted v := by
    rw [hb, Machine.step, ha, Machine.step]
    rfl
  have hbv : b.Valid := (h.fault hnone).fault hnone
  obtain ⟨x, hxc, -, hxs, hxh, -, hxu, hxN⟩ := hbv.alloc_holds hb0 (show m.space.heap.mm.usedSize + 4096 ≤ _ by
    change _ ≤ 4096 * m.space.heap.mm.smallestBlock
    omega)
  set c := b.step (.alloc 0) with hc
  have hc1 : c.core 1 = .faulted v := by
    rw [hxc, Function.update_of_ne (by decide), hb1]
  have hcv : c.Valid := (hbv.alloc hb0).1
  change c.space.heap.mm.usedSize = m.space.heap.mm.usedSize + 4096 at hxu
  change c.space.heap.mm.smallestBlock = m.space.heap.mm.smallestBlock at hxN
  obtain ⟨y, hyc, -, hys, hyh, hynew, hyu, hyN⟩ := hcv.alloc_holds hc1 (by omega)
  set d := c.step (.alloc 1) with hd
  have hdv : d.Valid := (hcv.alloc hc1).1
  have hd0 : d.core 0 = .holding v x.address := by
    rw [hyc, Function.update_of_ne (by decide), hxc, Function.update_self]
  have hd1 : d.core 1 = .holding v y.address := by rw [hyc, Function.update_self]
  obtain ⟨hw1, hec, hes, heu, heN⟩ := hdv.map_translate hd0 (by omega)
  set e := d.step (.map 0) with he
  have hev : e.Valid := (hdv.map hd0).1
  have he1 : e.core 1 = .holding v y.address := by
    rw [hec, Function.update_of_ne (by decide), hd1]
  obtain ⟨hw2, -, -, -, -⟩ := hev.map_translate he1 (by omega)
  have hfault : m.Legal (.fault 0 v) := ⟨h0, hcan, hnone⟩
  have hfault' : a.Legal (.fault 1 v) := by
    refine ⟨?_, hcan, hnone⟩
    rw [ha, Machine.step]
    exact h1
  have hstep : Step e (e.step (.map 1)) := ⟨.map 1, ⟨v, _, he1⟩, rfl⟩
  refine ⟨e, e.step (.map 1), _, _, ?_, hstep, hw1, hw2, ?_⟩
  · exact ((((Relation.ReflTransGen.single ⟨.fault 0 v, hfault, rfl⟩).tail ⟨.fault 1 v, hfault', rfl⟩).tail
      ⟨.alloc 0, ⟨v, hb0⟩, rfl⟩).tail ⟨.alloc 1, ⟨v, hc1⟩, rfl⟩).tail ⟨.map 0, ⟨v, _, hd0⟩, rfl⟩
  · intro hp
    obtain ⟨level, hs, -⟩ := hdv
    have hyx : y ≠ x := by
      rintro rfl
      exact hynew (hxh ▸ List.mem_cons_self)
    refine hyx (hs.pool.pa_inj (hyh ▸ List.mem_cons_self)
      (hyh ▸ List.mem_cons_of_mem _ (hxh ▸ List.mem_cons_self)) ?_)
    rw [hes] at hp
    omega

end Room

def knl : Machine :=
  boot (fun _ => ⟨fun _ => 0#8, 0⟩) (fun _ => 0#8) (fun _ => 0) (128 * 2 ^ 30) (138 * 2 ^ 30) (125 * 2 ^ 30)

theorem knl_valid : knl.Valid :=
  boot_valid (Nat.dvd_mul_left _ _) (Nat.dvd_mul_left _ _) (by decide) (by decide) (by decide)

theorem knl_unmapped : knl.translate 0x40000000 = none := by decide +kernel

theorem knl_room : 8 * 4096 ≤ 4096 * knl.space.heap.mm.smallestBlock := by decide +kernel

theorem knl_getPa_keeps_frame : ∃ m p, Relation.ReflTransGen UnmappedStep knl m ∧
    m.translate 0x40000000 = some p ∧ (m.step (.getPa 0x40000000)).translate 0x40000000 = some p := by
  have hcan : Canonical 0x40000000 := .inl (by decide)
  obtain ⟨m, p, hr, hw⟩ := knl_valid.first_touch (c := 0) rfl hcan knl_unmapped (by
    have := knl_room
    change 0 + 4 * 4096 ≤ _
    omega)
  refine ⟨m, p, hr, hw, ?_⟩
  exact demandPaging_keeps_frames (Nat.dvd_mul_left _ _) (Nat.dvd_mul_left _ _) (by decide) (by decide)
    (by decide) hr (.single ⟨.getPa 0x40000000, hcan, trivial, rfl⟩) (by decide) hw

theorem knl_second_handler_replaces : ∃ m₁ m₂ p₁ p₂, Relation.ReflTransGen Step knl m₁ ∧ Step m₁ m₂ ∧
    m₁.translate 0x40000000 = some p₁ ∧ m₂.translate 0x40000000 = some p₂ ∧ p₁ ≠ p₂ := by
  refine knl_valid.race rfl rfl (.inl (by decide)) knl_unmapped ?_
  have := knl_room
  change 0 + 8 * 4096 ≤ _
  omega

end Machine
end Azalea
