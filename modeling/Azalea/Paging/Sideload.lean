import Azalea.Paging.Lookup

namespace Azalea
open Word

def bootAddr : ℕ := 0x94000

def bootPml4 : ℕ := bootAddr + pageSize4K

-- a PT_ENTRY of the driver is two DWORDs, the lower half first
def setPageEntry (mem : Mem) (entry upperBaseAddress lowerBaseAddress lowerFlags upperFlags : ℕ) : Mem :=
  Function.update mem entry
    (2 ^ 32 * (upperBaseAddress % 2 ^ 32 &&& 0xFF ||| upperFlags) + (lowerBaseAddress % 2 ^ 32 ||| lowerFlags))

def driverFlagsDefault : ℕ := pageFlagsP ||| pageFlagsRW ||| pageFlagsPCD

def fillHalves (table step flags : ℕ) (upperAddress : ℕ → ℕ) : ℕ → Mem → ℕ → ℕ → Mem
  | 0, mem, _, _ => mem
  | count + 1, mem, i, mappingAddress =>
    fillHalves table step flags upperAddress count
      (setPageEntry mem (slot table i) (upperAddress i) mappingAddress flags 0) (i + 1)
      ((mappingAddress + step) % wordSize)

-- base_va is the ioremap of base_pa, so the stores are at the physical addresses
def initPageTable (mem : Mem) (memoryStartAddr : ℕ) : Mem :=
  let mem := fillHalves bootPml4 0 0 (fun _ => 0) pageMaxEntryCount mem 0 0
  let mem := setPageEntry mem (slot bootPml4 0) 0 (bootPml4 + 0x1000) (driverFlagsDefault ||| pageFlagsUS) 0
  let mem := setPageEntry mem (slot bootPml4 256) 0 (bootPml4 + 0x1000) (driverFlagsDefault ||| pageFlagsUS) 0
  let pdptEntry := bootPml4 + 0x1000
  let mem := setPageEntry mem (slot pdptEntry 0) 0 (bootPml4 + 0x2000) (driverFlagsDefault ||| pageFlagsUS) 0
  let mem := setPageEntry mem (slot pdptEntry 1) 0 0 0 0
  let mem := setPageEntry mem (slot pdptEntry 2) 0 0 0 0
  let mem := setPageEntry mem (slot pdptEntry 3) 0 (bootPml4 + 0x3000) (driverFlagsDefault ||| pageFlagsUS) 0
  let mem := fillHalves pdptEntry 0 0 (fun _ => 0) 508 mem 4 0
  let pdEntry := bootPml4 + 0x2000
  let mem := setPageEntry mem (slot pdEntry 0) 0 0 (driverFlagsDefault ||| pageFlagsPS) 0
  let mappingAddress := (memoryStartAddr + 0x200000) % wordSize &&& 0xFFFFFFFF
  let upperAddress := ((memoryStartAddr + 0x200000) % wordSize) >>> 32
  let mem := fillHalves pdEntry pageSize2M (driverFlagsDefault ||| pageFlagsPS) (fun _ => upperAddress) 511 mem 1
    mappingAddress
  let mem := setPageEntry mem (slot pdEntry 512) ((512 * (pageSize2M >>> 20)) >>> 12) 0
    (driverFlagsDefault ||| pageFlagsPS) 0
  let mem := fillHalves pdEntry pageSize2M (driverFlagsDefault ||| pageFlagsPS) (fun _ => upperAddress) 383 mem 513
    mappingAddress
  fillHalves pdEntry pageSize2M (driverFlagsDefault ||| pageFlagsPS) (fun i => (i * (pageSize2M >>> 20)) >>> 12) 128 mem
    896 0xF0000000

theorem setPageEntry_self (mem : Mem) (entry upper lower lowerFlags upperFlags : ℕ) :
    setPageEntry mem entry upper lower lowerFlags upperFlags entry =
      2 ^ 32 * (upper % 2 ^ 32 &&& 0xFF ||| upperFlags) + (lower % 2 ^ 32 ||| lowerFlags) :=
  Function.update_self entry _ mem

theorem setPageEntry_other {mem : Mem} {entry upper lower lowerFlags upperFlags a : ℕ} (h : a ≠ entry) :
    setPageEntry mem entry upper lower lowerFlags upperFlags a = mem a :=
  Function.update_of_ne h _ _

theorem fillHalves_outside {table step flags count : ℕ} {upper : ℕ → ℕ} {mem : Mem} {i m a : ℕ}
    (h : a < slot table i ∨ slot table (i + count) ≤ a) :
    fillHalves table step flags upper count mem i m a = mem a := by
  induction count generalizing mem i m with
  | zero => rfl
  | succ count ih =>
    unfold slot at h ih
    rw [fillHalves, ih (by omega)]
    exact setPageEntry_other (by unfold slot; omega)

theorem fillHalves_slot {table step flags count : ℕ} {upper : ℕ → ℕ} {mem : Mem} {i m j : ℕ} (hi : i ≤ j)
    (hj : j < i + count) (hm : m < wordSize) :
    fillHalves table step flags upper count mem i m (slot table j) =
      2 ^ 32 * (upper j % 2 ^ 32 &&& 0xFF ||| 0) + ((m + (j - i) * step) % wordSize % 2 ^ 32 ||| flags) := by
  induction count generalizing mem i m with
  | zero => omega
  | succ count ih =>
    rw [fillHalves]
    rcases hi.lt_or_eq with hlt | rfl
    · rw [ih hlt (by omega) (Nat.mod_lt _ (by decide)), Nat.mod_add_mod, add_step hlt]
    · rw [fillHalves_outside (by unfold slot; omega), setPageEntry_self, Nat.sub_self, Nat.zero_mul, Nat.add_zero,
        Nat.mod_eq_of_lt hm]

theorem halves_eq {upper lower flags : ℕ} (hu : upper < 2 ^ 8) (hl : lower < 2 ^ 32) (hf : flags < 2 ^ 32) :
    2 ^ 32 * (upper % 2 ^ 32 &&& 0xFF ||| 0) + (lower % 2 ^ 32 ||| flags) = 2 ^ 32 * upper + lower ||| flags := by
  have hand : upper % 2 ^ 32 &&& 0xFF = upper := by
    rw [show (0xFF : ℕ) = 2 ^ 8 - 1 by decide, Nat.and_two_pow_sub_one_eq_mod]
    omega
  rw [hand, Nat.or_zero, Nat.mod_eq_of_lt hl, Nat.two_pow_add_eq_or_of_lt (Nat.or_lt_two_pow hl hf),
    Nat.two_pow_add_eq_or_of_lt hl, Nat.or_assoc]

section Driver
variable (mem : Mem) {memoryStartAddr : ℕ}

theorem initPageTable_pml4 :
    initPageTable mem memoryStartAddr (slot bootPml4 256) = bootPml4 + 0x1000 ||| 0x17 := by
  unfold initPageTable
  simp (disch := (simp only [slot, bootPml4]; omega)) only [fillHalves_outside, setPageEntry_other]
  rw [setPageEntry_self]
  decide

theorem initPageTable_pdpt :
    initPageTable mem memoryStartAddr (slot (bootPml4 + 0x1000) 3) = bootPml4 + 0x3000 ||| 0x17 := by
  unfold initPageTable
  simp (disch := (simp only [slot]; omega)) only [fillHalves_outside, setPageEntry_other]
  rw [setPageEntry_self]
  decide

theorem initPageTable_kernel (hs : 2 ^ 30 ∣ memoryStartAddr) (hlt : memoryStartAddr < 2 ^ 40) {j : ℕ} (hj : j < 384) :
    initPageTable mem memoryStartAddr (slot (bootPml4 + 0x3000) j) =
      (if j = 0 then 0 else memoryStartAddr + j * pageSize2M) ||| 0x93 := by
  have hslot : slot (bootPml4 + 0x3000) j = slot (bootPml4 + 0x2000) (512 + j) := by
    unfold slot
    omega
  unfold initPageTable
  rw [hslot, fillHalves_outside (by unfold slot; omega)]
  by_cases h0 : j = 0
  · rw [h0, fillHalves_outside (by unfold slot; omega), setPageEntry_self, if_pos rfl]
    decide
  · have hword : (memoryStartAddr + 0x200000) % wordSize = memoryStartAddr + 0x200000 := by
      simp only [wordSize]
      omega
    have hmask : memoryStartAddr + 0x200000 &&& 0xFFFFFFFF = (memoryStartAddr + 0x200000) % 2 ^ 32 := by
      rw [show (0xFFFFFFFF : ℕ) = 2 ^ 32 - 1 by decide, Nat.and_two_pow_sub_one_eq_mod]
    have hlow : ((memoryStartAddr + 0x200000) % 2 ^ 32 + (512 + j - 513) * pageSize2M) % wordSize =
        (memoryStartAddr + 0x200000) % 2 ^ 32 + (j - 1) * pageSize2M := by
      simp only [wordSize, pageSize2M]
      omega
    rw [hword, hmask, fillHalves_slot (by omega) (by omega) (by simp only [wordSize]; omega), hlow, if_neg h0,
      Nat.shiftRight_eq_div_pow, halves_eq (by omega) (by simp only [pageSize2M]; omega) (by decide)]
    refine congrArg (· ||| 0x93) ?_
    simp only [pageSize2M]
    omega

theorem initPageTable_walk (hs : 2 ^ 30 ∣ memoryStartAddr) (hlt : memoryStartAddr < 2 ^ 40) {v : ℕ}
    (h39 : v / 2 ^ 39 % 512 = 256) (h30 : v / 2 ^ 30 % 512 = 3) (h21 : v / 2 ^ 21 % 512 < 384) :
    walk (initPageTable mem memoryStartAddr) bootPml4 v =
      some (if v / 2 ^ 21 % 512 = 0 then v % 2 ^ 21 else
        memoryStartAddr + v / 2 ^ 21 % 512 * pageSize2M + v % 2 ^ 21) := by
  rw [walk_table (by rw [h39]; exact initPageTable_pml4 mem) (by decide) (by decide) (by decide),
    walkPdpt_table (by rw [h30]; exact initPageTable_pdpt mem) (by decide) (by decide) (by decide) (by decide),
    walkPd_page (initPageTable_kernel mem hs hlt h21) (by decide) (by decide) (by decide)]
  by_cases hj : v / 2 ^ 21 % 512 = 0
  · rw [if_pos hj, if_pos hj, clearLow_of_dvd (Nat.dvd_zero _), Nat.zero_add]
  · rw [if_neg hj, if_neg hj, clearLow_of_dvd (by simp only [pageSize2M]; omega)]

end Driver

section Window
variable {memB mem : Mem} {gMemoryStart gMemoryEnd gSharedMemory v p : ℕ}

theorem window_index (hlo : configPageOffset ≤ v) (hhi : v < configPageOffset + 768 * 2 ^ 20) :
    v / 2 ^ 39 % 512 = 256 ∧ v / 2 ^ 30 % 512 = 3 ∧ v / 2 ^ 21 % 512 < 384 := by
  simp only [configPageOffset] at hlo hhi
  omega

theorem initTables_window_overrun (hs : 2 ^ 30 ∣ gMemoryStart) (hlt : gMemoryStart < 2 ^ 40)
    (hend : gMemoryEnd < wordSize) (hbig : ¬ (gMemoryStart ≤ gMemoryEnd ∧ gMemoryEnd < gMemoryStart + 1021 * 2 ^ 30)) :
    walk (initTables mem gMemoryStart gMemoryEnd gSharedMemory) (configKernelPagetableAddress gMemoryStart)
      configPageOffset = some (gMemoryStart + 1021 * 2 ^ 30) := by
  have hword : gMemoryStart < wordSize := hlt.trans (by decide)
  have hcount : 1020 < min (((gMemoryEnd + (wordSize - gMemoryStart)) % wordSize) >>> 30) (2 ^ 31 - 4) := by
    rw [Nat.shiftRight_eq_div_pow]
    simp only [wordSize] at hend ⊢
    omega
  have hslot : slot (configKernelPagetableAddress gMemoryStart + 3 * 0x1000) 0 =
      slot (configKernelPagetableAddress gMemoryStart + 0x1000) 1024 := by
    unfold slot
    omega
  have hentry : initTables mem gMemoryStart gMemoryEnd gSharedMemory
      (slot (configKernelPagetableAddress gMemoryStart + 3 * 0x1000) (configPageOffset / 2 ^ 21 % 512)) =
      gMemoryStart + 1021 * 2 ^ 30 ||| 0x87 := by
    rw [show configPageOffset / 2 ^ 21 % 512 = 0 by decide, hslot, initTables, kernelPagetablesInit]
    have hpage := pagetableAddress_lt hs hword
    rw [fill_slot (by decide) (by omega) (by rw [fill_address _ _ _ _ _ _ hpage]; exact Nat.mod_lt _ (by decide)),
      fill_address _ _ _ _ _ _ hpage, Nat.mod_add_mod]
    refine congrArg (· ||| 0x87) ?_
    simp only [configKernelPagetableAddress, pageSize2M, pageSize1G, wordSize]
    omega
  rw [initTables_walk_kernel hs hword (by decide) (by decide),
    walkPd_page hentry (by decide) (by decide) (by decide), clearLow_of_dvd (by omega),
    show configPageOffset % 2 ^ 21 = 0 by decide, Nat.add_zero]

theorem va_eq (hlo : gMemoryStart ≤ p) (hhi : p < gMemoryStart + 508 * 2 ^ 30) (hp : p < wordSize) :
    va gMemoryStart p = configPageOffset + (p - gMemoryStart) := by
  rw [va]
  simp only [wordSize, configPageOffset] at hp ⊢
  omega

theorem initTables_walk_va (hs : 2 ^ 30 ∣ gMemoryStart) (hend : gMemoryEnd < wordSize)
    (hG : gMemoryEnd - gMemoryStart ≤ 508 * 2 ^ 30) (hlo : gMemoryStart + 2 ^ 21 ≤ p) (hhi : p < gMemoryEnd) :
    walk (initTables mem gMemoryStart gMemoryEnd gSharedMemory) (configKernelPagetableAddress gMemoryStart)
      (va gMemoryStart p) = some p := by
  have hoff : configPageOffset + (p - gMemoryStart) = configSharedMemory + (3 * 2 ^ 30 + (p - gMemoryStart)) := by
    simp only [configPageOffset, configSharedMemory]
    omega
  have h30 : (configSharedMemory + (3 * 2 ^ 30 + (p - gMemoryStart))) / 2 ^ 30 % 512 = 3 + (p - gMemoryStart) / 2 ^ 30 := by
    simp only [configSharedMemory]
    omega
  rw [va_eq (by omega) (by omega) (hhi.trans hend), hoff,
    initTables_walk_high hs (by omega) hend hG (by simp only [pageSize1G]; omega), layout, h30,
    if_neg (by omega), if_neg (by omega)]
  by_cases hfirst : (p - gMemoryStart) / 2 ^ 30 = 0
  · rw [if_pos (by omega), if_neg (by simp only [configSharedMemory]; omega)]
    simp only [configSharedMemory, pageSize2M, Option.some_inj]
    omega
  · rw [if_neg (by omega), if_pos (by simp only [pageSize1G]; omega)]
    simp only [configSharedMemory, pageSize1G, Option.some_inj]
    omega

theorem getPa_va (s : Space) (hlo : s.gMemoryStart ≤ p) (hhi : p < s.gMemoryStart + 508 * 2 ^ 30)
    (hp : p < wordSize) : (s.getPa (va s.gMemoryStart p)).2 = p := by
  rw [va_eq hlo hhi hp, Space.getPa, if_neg (by simp only [configPageOffset]; omega),
    if_pos (by simp only [configPageOffset, configHighHalfLimit]; omega)]
  dsimp only
  rw [getPaHighHalf, if_neg (by omega), pa]
  simp only [wordSize, configPageOffset] at hp ⊢
  omega

def WindowAgrees (memB mem : Mem) (gMemoryStart gMemoryEnd gSharedMemory : ℕ) : Prop :=
  ∀ v, configPageOffset ≤ v → v < configPageOffset + 768 * 2 ^ 20 →
    ∃ pa, walk (initPageTable memB gMemoryStart) bootPml4 v = some pa ∧
      walk (initTables mem gMemoryStart gMemoryEnd gSharedMemory) (configKernelPagetableAddress gMemoryStart) v = some pa

theorem windowAgrees_iff (hs : 2 ^ 30 ∣ gMemoryStart) (hlt : gMemoryStart < 2 ^ 40) (hend : gMemoryEnd < wordSize) :
    WindowAgrees memB mem gMemoryStart gMemoryEnd gSharedMemory ↔
      gMemoryStart ≤ gMemoryEnd ∧ gMemoryEnd < gMemoryStart + 1021 * 2 ^ 30 := by
  constructor
  · intro h
    by_contra hbig
    obtain ⟨pa, hdriver, hkernel⟩ := h configPageOffset le_rfl (by decide)
    rw [initPageTable_walk memB hs hlt (by decide) (by decide) (by decide), if_pos (by decide), Option.some_inj] at hdriver
    rw [initTables_window_overrun hs hlt hend hbig, Option.some_inj] at hkernel
    rw [show configPageOffset % 2 ^ 21 = 0 by decide] at hdriver
    omega
  · rintro ⟨hle, hG⟩ v hlo hhi
    obtain ⟨h39, h30, h21⟩ := window_index hlo hhi
    refine ⟨_, initPageTable_walk memB hs hlt h39 h30 h21, ?_⟩
    rw [initTables_walk_kernel hs (hlt.trans (by decide)) h39 h30]
    exact initTables_walkPd_kernel hs hle hend hG

theorem pageTables_agree (hs : 2 ^ 30 ∣ gMemoryStart) (hlt : gMemoryStart < 2 ^ 40) (hend : gMemoryEnd < wordSize) :
    (WindowAgrees memB mem gMemoryStart gMemoryEnd gSharedMemory ↔
      gMemoryStart ≤ gMemoryEnd ∧ gMemoryEnd < gMemoryStart + 1021 * 2 ^ 30) ∧
    (gMemoryEnd - gMemoryStart ≤ 508 * 2 ^ 30 → ∀ p, gMemoryStart + 2 ^ 21 ≤ p → p < gMemoryEnd →
      walk (initTables mem gMemoryStart gMemoryEnd gSharedMemory) (configKernelPagetableAddress gMemoryStart)
          (va gMemoryStart p) = some p ∧
        ∀ s : Space, s.gMemoryStart = gMemoryStart → (s.getPa (va gMemoryStart p)).2 = p) := by
  refine ⟨windowAgrees_iff hs hlt hend, fun hG p hlo hhi => ⟨initTables_walk_va hs hend hG hlo hhi, ?_⟩⟩
  rintro s rfl
  exact getPa_va s (by omega) (by omega) (hhi.trans hend)

theorem pageTables_agree_node_zero :
    WindowAgrees (fun _ => 0) (fun _ => 0) (128 * 2 ^ 30) (138 * 2 ^ 30) (125 * 2 ^ 30) ∧
      walk (initTables (fun _ => 0) (128 * 2 ^ 30) (138 * 2 ^ 30) (125 * 2 ^ 30))
        (configKernelPagetableAddress (128 * 2 ^ 30)) (va (128 * 2 ^ 30) (137 * 2 ^ 30)) = some (137 * 2 ^ 30) :=
  have h := @pageTables_agree (fun _ => 0) (fun _ => 0) (128 * 2 ^ 30) (138 * 2 ^ 30) (125 * 2 ^ 30)
    (Nat.dvd_mul_left _ _) (by decide) (by decide)
  ⟨h.1.2 ⟨by decide, by decide⟩, (h.2 (by decide) _ (by decide) (by decide)).1⟩

theorem pageTables_disagree_overrun :
    walk (initPageTable (fun _ => 0) (128 * 2 ^ 30)) bootPml4 configPageOffset = some 0 ∧
      walk (initTables (fun _ => 0) (128 * 2 ^ 30) (1149 * 2 ^ 30) (125 * 2 ^ 30))
        (configKernelPagetableAddress (128 * 2 ^ 30)) configPageOffset = some (1149 * 2 ^ 30) ∧
      ¬ WindowAgrees (fun _ => 0) (fun _ => 0) (128 * 2 ^ 30) (1149 * 2 ^ 30) (125 * 2 ^ 30) := by
  have hs : 2 ^ 30 ∣ 128 * 2 ^ 30 := Nat.dvd_mul_left _ _
  refine ⟨?_, ?_, fun h => ?_⟩
  · rw [initPageTable_walk _ hs (by decide) (by decide) (by decide) (by decide)]
    decide
  · exact initTables_window_overrun hs (by decide) (by decide) (by decide)
  · exact absurd ((windowAgrees_iff hs (by decide) (by decide)).1 h).2 (by decide)

end Window

end Azalea
