import Azalea.Paging.Table

namespace Azalea
open Word

def kernelPagetablesInit (mem : Mem) (address gMemoryStart gMemoryEnd gSharedMemory : ℕ) : Mem :=
  let mem := (fill address 0 0 pageMaxEntryCount mem 0 0).1
  let mem := setPageEntryData mem (slot address 0) (address + 0x1000) (pageFlagsDefault ||| pageFlagsUS)
  let mem := setPageEntryData mem (slot address 256) (address + 0x1000) (pageFlagsDefault ||| pageFlagsUS)
  let pdptEntry := address + 0x1000
  let mem := (fill pdptEntry 0 0 pageMaxEntryCount mem 0 0).1
  let mem := setPageEntryData mem (slot pdptEntry 0) (address + 0x2000) (pageFlagsDefault ||| pageFlagsUS)
  let mem := setPageEntryData mem (slot pdptEntry 3) (address + 0x3000) (pageFlagsDefault ||| pageFlagsUS)
  let pdEntry := address + 0x2000
  let mem := setPageEntryData mem (slot pdEntry 0) 0 (pageFlagsDefault ||| pageFlagsPS)
  let r := fill pdEntry pageSize2M (pageFlagsDefault ||| pageFlagsPS) 511 mem 1
    ((gSharedMemory + pageSize2M) % wordSize)
  let r := fill pdptEntry pageSize1G (pageFlagsDefault ||| pageFlagsPS ||| pageFlagsUS) 2 r.1 1 r.2
  let pdEntry := address + 0x3000
  let mem := setPageEntryData r.1 (slot pdEntry 0) 0 (pageFlagsDefault ||| pageFlagsPS)
  let r := fill pdEntry pageSize2M (pageFlagsDefault ||| pageFlagsPS) 511 mem 1 address
  -- the loop counter is an int, so it leaves the range after 2^31 - 4 rounds at the latest
  let count := min (((gMemoryEnd + (wordSize - gMemoryStart)) % wordSize) >>> 30) (2 ^ 31 - 4)
  (fill pdptEntry pageSize1G (pageFlagsDefault ||| pageFlagsPS ||| pageFlagsUS) count r.1 4 r.2).1

def removeLowIdenticalMapping (mem : Mem) (pgd : ℕ) : Mem :=
  let mem := (fill (pgd + 0x2000) 0 0 pageMaxEntryCount mem 0 0).1
  Function.update mem (slot pgd 0) 0

section Entries
variable (mem : Mem) {address gMemoryStart gMemoryEnd gSharedMemory : ℕ}

theorem init_pml4 {i : ℕ} (hi : i < 512) :
    kernelPagetablesInit mem address gMemoryStart gMemoryEnd gSharedMemory (slot address i) =
      if i = 0 ∨ i = 256 then address + 0x1000 ||| 7 else 0 := by
  unfold kernelPagetablesInit
  rw [fill_outside (by unfold slot; omega), fill_outside (by unfold slot; omega),
    set_other (by unfold slot; omega), fill_outside (by unfold slot; omega),
    fill_outside (by unfold slot; omega), set_other (by unfold slot; omega),
    set_other (by unfold slot; omega), set_other (by unfold slot; omega),
    fill_outside (by unfold slot; omega)]
  by_cases h256 : i = 256
  · rw [h256, set_self, if_pos (by omega)]
    rfl
  rw [set_other (by rw [ne_eq, slot_inj]; exact h256)]
  by_cases h0 : i = 0
  · rw [h0, set_self, if_pos (by omega)]
    rfl
  rw [set_other (by rw [ne_eq, slot_inj]; exact h0), fill_slot (by omega) (by simpa using hi) (by decide),
    if_neg (by omega)]
  simp

theorem init_pdpt (ha : address < wordSize) {i : ℕ} (hi : i < 512) :
    kernelPagetablesInit mem address gMemoryStart gMemoryEnd gSharedMemory (slot (address + 0x1000) i) =
      if i = 0 then address + 0x2000 ||| 7
      else if i < 3 then (gSharedMemory + i * pageSize1G) % wordSize ||| 0x87
      else if i = 3 then address + 0x3000 ||| 7
      else if i < 4 + min (((gMemoryEnd + (wordSize - gMemoryStart)) % wordSize) >>> 30) (2 ^ 31 - 4) then
        (address + 511 * pageSize2M + (i - 4) * pageSize1G) % wordSize ||| 0x87
      else 0 := by
  unfold kernelPagetablesInit
  generalize min (((gMemoryEnd + (wordSize - gMemoryStart)) % wordSize) >>> 30) (2 ^ 31 - 4) = count
  by_cases hfree : 4 ≤ i ∧ i < 4 + count
  · rw [fill_slot hfree.1 hfree.2 (by rw [fill_address _ _ _ _ _ _ ha]; exact Nat.mod_lt _ (by decide)),
      fill_address _ _ _ _ _ _ ha, Nat.mod_add_mod, if_neg (by omega), if_neg (by omega),
      if_neg (by omega), if_pos hfree.2]
    rfl
  rw [fill_outside (by unfold slot; omega), fill_outside (by unfold slot; omega),
    set_other (by unfold slot; omega)]
  by_cases hsh : 1 ≤ i ∧ i < 3
  · have hm : (gSharedMemory + pageSize2M) % wordSize < wordSize := Nat.mod_lt _ (by decide)
    rw [fill_slot hsh.1 hsh.2 (by rw [fill_address _ _ _ _ _ _ hm]; exact Nat.mod_lt _ (by decide)),
      fill_address _ _ _ _ _ _ hm, if_neg (by omega), if_pos hsh.2]
    refine congrArg (· ||| 0x87) ?_
    rw [Nat.mod_add_mod, Nat.add_assoc, Nat.mod_add_mod]
    refine congrArg (· % wordSize) ?_
    simp only [pageSize2M, pageSize1G]
    omega
  rw [fill_outside (by unfold slot; omega), fill_outside (by unfold slot; omega),
    set_other (by unfold slot; omega)]
  by_cases h3 : i = 3
  · rw [h3, set_self, if_neg (by decide), if_neg (by decide), if_pos rfl]
    rfl
  rw [set_other (by rw [ne_eq, slot_inj]; exact h3)]
  by_cases h0 : i = 0
  · rw [h0, set_self, if_pos rfl]
    rfl
  rw [set_other (by rw [ne_eq, slot_inj]; exact h0), fill_slot (by omega) (by simpa using hi) (by decide),
    if_neg h0, if_neg (by omega), if_neg h3, if_neg (by omega)]
  simp

theorem memory_gigabytes (hlt : gMemoryStart ≤ gMemoryEnd) (he : gMemoryEnd < wordSize) :
    ((gMemoryEnd + (wordSize - gMemoryStart)) % wordSize) >>> 30 = (gMemoryEnd - gMemoryStart) / 2 ^ 30 := by
  have hsub : (gMemoryEnd + (wordSize - gMemoryStart)) % wordSize = gMemoryEnd - gMemoryStart := by
    simp only [wordSize] at he ⊢
    omega
  rw [hsub, Nat.shiftRight_eq_div_pow]

theorem init_pd_shared (hlt : gMemoryStart ≤ gMemoryEnd) (he : gMemoryEnd < wordSize)
    (hG : gMemoryEnd - gMemoryStart ≤ 508 * 2 ^ 30) {i : ℕ} (hi : i < 512) :
    kernelPagetablesInit mem address gMemoryStart gMemoryEnd gSharedMemory (slot (address + 0x2000) i) =
      if i = 0 then 0x83 else (gSharedMemory + i * pageSize2M) % wordSize ||| 0x83 := by
  unfold kernelPagetablesInit
  rw [memory_gigabytes hlt he]
  rw [fill_outside (by unfold slot; omega), fill_outside (by unfold slot; omega),
    set_other (by unfold slot; omega), fill_outside (by unfold slot; omega)]
  by_cases h0 : i = 0
  · rw [h0, fill_outside (by unfold slot; omega), set_self, if_pos rfl]
    rfl
  · rw [fill_slot (by omega) (by omega) (Nat.mod_lt _ (by decide)), if_neg h0, Nat.mod_add_mod]
    refine congrArg (· ||| 0x83) (congrArg (· % wordSize) ?_)
    simp only [pageSize2M]
    omega

theorem init_pd_kernel (ha : address < wordSize) (hlt : gMemoryStart ≤ gMemoryEnd)
    (he : gMemoryEnd < wordSize) (hG : gMemoryEnd < gMemoryStart + 1021 * 2 ^ 30) {i : ℕ} (hi : i < 512) :
    kernelPagetablesInit mem address gMemoryStart gMemoryEnd gSharedMemory (slot (address + 0x3000) i) =
      if i = 0 then 0x83 else (address + (i - 1) * pageSize2M) % wordSize ||| 0x83 := by
  unfold kernelPagetablesInit
  rw [memory_gigabytes hlt he]
  rw [fill_outside (by unfold slot; omega)]
  by_cases h0 : i = 0
  · rw [h0, fill_outside (by unfold slot; omega), set_self, if_pos rfl]
    rfl
  · rw [fill_slot (by omega) (by omega) ha, if_neg h0]
    rfl

end Entries

section Remove
variable (mem : Mem) (pgd : ℕ)

theorem remove_pml4 {i : ℕ} (hi : i < 512) :
    removeLowIdenticalMapping mem pgd (slot pgd i) = if i = 0 then 0 else mem (slot pgd i) := by
  unfold removeLowIdenticalMapping
  by_cases h0 : i = 0
  · rw [h0, Function.update_self, if_pos rfl]
  · rw [Function.update_of_ne (by rw [ne_eq, slot_inj]; exact h0), if_neg h0]
    exact fill_outside (by unfold slot; omega)

theorem remove_pdpt {i : ℕ} (hi : i < 512) :
    removeLowIdenticalMapping mem pgd (slot (pgd + 0x1000) i) = mem (slot (pgd + 0x1000) i) := by
  unfold removeLowIdenticalMapping
  rw [Function.update_of_ne (by unfold slot; omega)]
  exact fill_outside (by unfold slot; omega)

theorem remove_kernel {i : ℕ} (hi : i < 512) :
    removeLowIdenticalMapping mem pgd (slot (pgd + 0x3000) i) = mem (slot (pgd + 0x3000) i) := by
  unfold removeLowIdenticalMapping
  rw [Function.update_of_ne (by unfold slot; omega)]
  exact fill_outside (by unfold slot; simp only [pageMaxEntryCount]; omega)

theorem remove_pd {i : ℕ} (hi : i < 512) :
    removeLowIdenticalMapping mem pgd (slot (pgd + 0x2000) i) = 0 := by
  unfold removeLowIdenticalMapping
  rw [Function.update_of_ne (by unfold slot; omega), fill_slot (by omega) (by simpa using hi) (by decide)]
  simp

end Remove

section SharedWindow
variable {mem : Mem} {gMemoryStart gMemoryEnd gSharedMemory o : ℕ}

def initTables (mem : Mem) (gMemoryStart gMemoryEnd gSharedMemory : ℕ) : Mem :=
  kernelPagetablesInit mem (configKernelPagetableAddress gMemoryStart) gMemoryStart gMemoryEnd gSharedMemory

def bootTables (mem : Mem) (gMemoryStart gMemoryEnd gSharedMemory : ℕ) : Mem :=
  removeLowIdenticalMapping (initTables mem gMemoryStart gMemoryEnd gSharedMemory)
    (configKernelPagetableAddress gMemoryStart)

theorem pagetableAddress_lt (hs : 2 ^ 30 ∣ gMemoryStart) (hlt : gMemoryStart < wordSize) :
    configKernelPagetableAddress gMemoryStart < wordSize := by
  simp only [configKernelPagetableAddress, wordSize] at *
  omega

theorem pagetableAddress_dvd (hs : 2 ^ 30 ∣ gMemoryStart) (k : ℕ) :
    2 ^ 12 ∣ configKernelPagetableAddress gMemoryStart + k * 0x1000 := by
  unfold configKernelPagetableAddress
  omega

theorem getPaHighHalf_shared (ho : o < 3 * pageSize1G) :
    getPaHighHalf gMemoryStart gSharedMemory (configSharedMemory + o) = (gSharedMemory + o) % wordSize := by
  have hlt : configSharedMemory + o < configPageOffset := by
    simp only [configSharedMemory, configPageOffset, pageSize1G] at *
    omega
  rw [getPaHighHalf, if_pos hlt, sharedMemoryPa]
  simp only [configSharedMemory, wordSize]
  omega

theorem bootTables_walk_shared (hs : 2 ^ 30 ∣ gMemoryStart) (hlt : gMemoryStart < wordSize)
    (hsh : 2 ^ 30 ∣ gSharedMemory) (ho : o < 3 * pageSize1G) :
    walk (bootTables mem gMemoryStart gMemoryEnd gSharedMemory)
        (configKernelPagetableAddress gMemoryStart) (configSharedMemory + o) =
      if o < pageSize1G then none else some ((gSharedMemory + o) % wordSize) := by
  have ha := pagetableAddress_lt hs hlt
  have h39 : (configSharedMemory + o) / 2 ^ 39 % 512 = 256 := by
    simp only [configSharedMemory, pageSize1G] at *
    omega
  have h30 : (configSharedMemory + o) / 2 ^ 30 % 512 = o / 2 ^ 30 := by
    simp only [configSharedMemory, pageSize1G] at *
    omega
  have hlow : (configSharedMemory + o) % 2 ^ 30 = o % 2 ^ 30 := by
    simp only [configSharedMemory] at *
    omega
  have hroot : walk (bootTables mem gMemoryStart gMemoryEnd gSharedMemory)
      (configKernelPagetableAddress gMemoryStart) (configSharedMemory + o) =
      walkPdpt (bootTables mem gMemoryStart gMemoryEnd gSharedMemory)
        (configKernelPagetableAddress gMemoryStart + 1 * 0x1000) (configSharedMemory + o) := by
    refine walk_table ?_ (pagetableAddress_dvd hs 1) (f := 7) (by decide) (by decide)
    rw [h39, bootTables, remove_pml4 _ _ (by decide), if_neg (by decide), initTables, init_pml4 _ (by decide),
      if_pos (.inr rfl)]
  have hentry : bootTables mem gMemoryStart gMemoryEnd gSharedMemory
      (slot (configKernelPagetableAddress gMemoryStart + 1 * 0x1000) (o / 2 ^ 30)) =
      if o / 2 ^ 30 = 0 then configKernelPagetableAddress gMemoryStart + 2 * 0x1000 ||| 7
      else (gSharedMemory + o / 2 ^ 30 * pageSize1G) % wordSize ||| 0x87 := by
    simp only [pageSize1G] at ho
    rw [bootTables, remove_pdpt _ _ (by omega), initTables, init_pdpt _ ha (by omega)]
    exact if_congr Iff.rfl rfl (if_pos (by omega))
  rw [← h30] at hentry
  rw [hroot]
  by_cases hfirst : o < pageSize1G
  · rw [if_pos (by rw [h30]; exact Nat.div_eq_of_lt hfirst)] at hentry
    rw [if_pos hfirst, walkPdpt_table hentry (pagetableAddress_dvd hs 2) (by decide) (by decide) (by decide),
      walkPd, bootTables, remove_pd _ _ (Nat.mod_lt _ (by decide))]
    rfl
  · rw [if_neg (by rw [h30]; simp only [pageSize1G] at hfirst; omega)] at hentry
    rw [if_neg hfirst, walkPdpt_page hentry (by decide) (by decide) (by decide), hlow, h30]
    simp only [clearLow, wordSize, pageSize1G]
    congr 1
    omega

theorem sharedWindow_walk_iff (hs : 2 ^ 30 ∣ gMemoryStart) (hlt : gMemoryStart < wordSize)
    (_he : 2 ^ 30 ∣ gMemoryEnd) (hsh : 2 ^ 30 ∣ gSharedMemory)
    (_hlow : pageSize2M ≤ o) (ho : o < 3 * pageSize1G) :
    (walk (bootTables mem gMemoryStart gMemoryEnd gSharedMemory)
        (configKernelPagetableAddress gMemoryStart) (configSharedMemory + o) =
          some ((gSharedMemory + o) % wordSize) ∧
      getPaHighHalf gMemoryStart gSharedMemory (configSharedMemory + o) = (gSharedMemory + o) % wordSize) ↔
    pageSize1G ≤ o := by
  rw [bootTables_walk_shared hs hlt hsh ho]
  constructor
  · rintro ⟨hwalk, -⟩
    by_contra hfirst
    rw [if_pos (not_le.1 hfirst)] at hwalk
    exact absurd hwalk (Option.some_ne_none _).symm
  · intro hle
    exact ⟨if_neg (not_lt.2 hle), getPaHighHalf_shared ho⟩

theorem sharedWindow_walk_channel :
    pageSize1G ≤ 0x40000000 ∧
    walk (bootTables (fun _ => 0) (128 * 2 ^ 30) (138 * 2 ^ 30) (125 * 2 ^ 30))
        (configKernelPagetableAddress (128 * 2 ^ 30)) (configSharedMemory + 0x40000000) =
      some ((125 * 2 ^ 30 + 0x40000000) % wordSize) :=
  ⟨le_rfl, ((sharedWindow_walk_iff (Nat.dvd_mul_left _ _) (by decide) (Nat.dvd_mul_left _ 138)
    (Nat.dvd_mul_left _ _) (by decide) (by decide)).2 le_rfl).1⟩

theorem sharedWindow_ipc_unmapped :
    walk (bootTables (fun _ => 0) (128 * 2 ^ 30) (138 * 2 ^ 30) (125 * 2 ^ 30))
        (configKernelPagetableAddress (128 * 2 ^ 30)) (configSharedMemory + 0x20000000) = none ∧
      getPaHighHalf (128 * 2 ^ 30) (125 * 2 ^ 30) (configSharedMemory + 0x20000000) =
        125 * 2 ^ 30 + 0x20000000 := by
  constructor
  · rw [bootTables_walk_shared (Nat.dvd_mul_left _ _) (by decide) (Nat.dvd_mul_left _ _) (by decide)]
    exact if_pos (by decide)
  · decide

end SharedWindow

section Partition
variable {mem : Mem} {gMemoryStart gMemoryEnd gSharedMemory v pa : ℕ}

def layout (gMemoryStart gMemoryEnd gSharedMemory v : ℕ) : Option ℕ :=
  let i := v / 2 ^ 30 % 512
  let j := v / 2 ^ 21 % 512
  if i = 0 then
    some (if j = 0 then v % 2 ^ 21 else clearLow 21 ((gSharedMemory + j * pageSize2M) % wordSize) + v % 2 ^ 21)
  else if i < 3 then some (clearLow 30 ((gSharedMemory + i * pageSize1G) % wordSize) + v % 2 ^ 30)
  else if i = 3 then some (if j = 0 then v % 2 ^ 21 else gMemoryStart + j * pageSize2M + v % 2 ^ 21)
  else if gMemoryStart + (i - 3) * pageSize1G ≤ gMemoryEnd then
    some (gMemoryStart + (i - 3) * pageSize1G + v % 2 ^ 30)
  else none

theorem initTables_walk_root (hs : 2 ^ 30 ∣ gMemoryStart) :
    walk (initTables mem gMemoryStart gMemoryEnd gSharedMemory) (configKernelPagetableAddress gMemoryStart) v =
      if v / 2 ^ 39 % 512 = 0 ∨ v / 2 ^ 39 % 512 = 256 then
        walkPdpt (initTables mem gMemoryStart gMemoryEnd gSharedMemory)
          (configKernelPagetableAddress gMemoryStart + 1 * 0x1000) v
      else none := by
  have hentry : initTables mem gMemoryStart gMemoryEnd gSharedMemory
      (slot (configKernelPagetableAddress gMemoryStart) (v / 2 ^ 39 % 512)) =
      if v / 2 ^ 39 % 512 = 0 ∨ v / 2 ^ 39 % 512 = 256 then
        configKernelPagetableAddress gMemoryStart + 1 * 0x1000 ||| 7 else 0 :=
    init_pml4 mem (Nat.mod_lt _ (by decide))
  by_cases hroot : v / 2 ^ 39 % 512 = 0 ∨ v / 2 ^ 39 % 512 = 256
  · rw [if_pos hroot] at hentry ⊢
    exact walk_table hentry (pagetableAddress_dvd hs 1) (by decide) (by decide)
  · rw [if_neg hroot] at hentry ⊢
    rw [walk, hentry]
    rfl

theorem initTables_kernel (hs : 2 ^ 30 ∣ gMemoryStart) (hle : gMemoryStart ≤ gMemoryEnd)
    (hend : gMemoryEnd < wordSize) (hG : gMemoryEnd < gMemoryStart + 1021 * pageSize1G) {j : ℕ} (hj : j < 512) :
    initTables mem gMemoryStart gMemoryEnd gSharedMemory
        (slot (configKernelPagetableAddress gMemoryStart + 3 * 0x1000) j) =
      (if j = 0 then 0 else gMemoryStart + j * pageSize2M) ||| 0x83 := by
  rw [initTables, init_pd_kernel mem (pagetableAddress_lt hs (hle.trans_lt hend)) hle hend hG hj]
  by_cases h0 : j = 0
  · rw [if_pos h0, if_pos h0]
    rfl
  · rw [if_neg h0, if_neg h0]
    refine congrArg (· ||| 0x83) ?_
    simp only [configKernelPagetableAddress, pageSize2M, pageSize1G, wordSize] at *
    omega

theorem initTables_walkPd_kernel (hs : 2 ^ 30 ∣ gMemoryStart) (hle : gMemoryStart ≤ gMemoryEnd)
    (hend : gMemoryEnd < wordSize) (hG : gMemoryEnd < gMemoryStart + 1021 * pageSize1G) :
    walkPd (initTables mem gMemoryStart gMemoryEnd gSharedMemory)
        (configKernelPagetableAddress gMemoryStart + 3 * 0x1000) v =
      some (if v / 2 ^ 21 % 512 = 0 then v % 2 ^ 21 else
        gMemoryStart + v / 2 ^ 21 % 512 * pageSize2M + v % 2 ^ 21) := by
  rw [walkPd_page (initTables_kernel hs hle hend hG (Nat.mod_lt _ (by decide)))
    (by decide) (by decide) (by decide)]
  by_cases hj : v / 2 ^ 21 % 512 = 0
  · rw [if_pos hj, if_pos hj, clearLow_of_dvd (Nat.dvd_zero _), Nat.zero_add]
  · rw [if_neg hj, if_neg hj, clearLow_of_dvd (by simp only [pageSize2M]; omega)]

theorem initTables_walk_kernel (hs : 2 ^ 30 ∣ gMemoryStart) (hlt : gMemoryStart < wordSize)
    (h39 : v / 2 ^ 39 % 512 = 256) (h30 : v / 2 ^ 30 % 512 = 3) :
    walk (initTables mem gMemoryStart gMemoryEnd gSharedMemory) (configKernelPagetableAddress gMemoryStart) v =
      walkPd (initTables mem gMemoryStart gMemoryEnd gSharedMemory)
        (configKernelPagetableAddress gMemoryStart + 3 * 0x1000) v := by
  rw [initTables_walk_root hs, if_pos (.inr h39)]
  refine walkPdpt_table ?_ (pagetableAddress_dvd hs 3) (f := 7) (by decide) (by decide) (by decide)
  rw [h30]
  exact init_pdpt mem (pagetableAddress_lt hs hlt) (i := 3) (by decide)

variable (hs : 2 ^ 30 ∣ gMemoryStart) (hlt : gMemoryStart < gMemoryEnd)
  (hend : gMemoryEnd < wordSize) (hG : gMemoryEnd - gMemoryStart ≤ 508 * pageSize1G)
include hs hlt hend hG

theorem initTables_pdpt (mem : Mem) (gSharedMemory : ℕ) {i : ℕ} (hi : i < 512) :
    initTables mem gMemoryStart gMemoryEnd gSharedMemory
        (slot (configKernelPagetableAddress gMemoryStart + 1 * 0x1000) i) =
      if i = 0 then configKernelPagetableAddress gMemoryStart + 2 * 0x1000 ||| 7
      else if i < 3 then (gSharedMemory + i * pageSize1G) % wordSize ||| 0x87
      else if i = 3 then configKernelPagetableAddress gMemoryStart + 3 * 0x1000 ||| 7
      else if gMemoryStart + (i - 3) * pageSize1G ≤ gMemoryEnd then
        gMemoryStart + (i - 3) * pageSize1G ||| 0x87
      else 0 := by
  rw [initTables, init_pdpt mem (pagetableAddress_lt hs (hlt.trans hend)) hi]
  refine ite_congr rfl (fun _ => rfl) fun h0 => ite_congr rfl (fun _ => rfl) fun h2 =>
    ite_congr rfl (fun _ => rfl) fun h3 => ?_
  rw [memory_gigabytes hlt.le hend]
  simp only [configKernelPagetableAddress, pageSize2M, pageSize1G, wordSize] at *
  refine ite_congr (propext (by omega)) (fun hle => ?_) fun _ => rfl
  rw [Nat.mod_eq_of_lt (by omega)]
  refine congrArg (· ||| 0x87) ?_
  omega

omit hs in
theorem initTables_walkPd_shared :
    walkPd (initTables mem gMemoryStart gMemoryEnd gSharedMemory)
        (configKernelPagetableAddress gMemoryStart + 2 * 0x1000) v =
      some (if v / 2 ^ 21 % 512 = 0 then v % 2 ^ 21 else
        clearLow 21 ((gSharedMemory + v / 2 ^ 21 % 512 * pageSize2M) % wordSize) + v % 2 ^ 21) := by
  have hentry : initTables mem gMemoryStart gMemoryEnd gSharedMemory
      (slot (configKernelPagetableAddress gMemoryStart + 2 * 0x1000) (v / 2 ^ 21 % 512)) =
      (if v / 2 ^ 21 % 512 = 0 then 0 else
        (gSharedMemory + v / 2 ^ 21 % 512 * pageSize2M) % wordSize) ||| 0x83 := by
    rw [initTables, init_pd_shared mem hlt.le hend hG (Nat.mod_lt _ (by decide))]
    split_ifs <;> rfl
  rw [walkPd_page hentry (by decide) (by decide) (by decide)]
  by_cases hj : v / 2 ^ 21 % 512 = 0
  · rw [if_pos hj, if_pos hj, clearLow_of_dvd (Nat.dvd_zero _), Nat.zero_add]
  · rw [if_neg hj, if_neg hj]

theorem initTables_walkPdpt :
    walkPdpt (initTables mem gMemoryStart gMemoryEnd gSharedMemory)
        (configKernelPagetableAddress gMemoryStart + 1 * 0x1000) v =
      layout gMemoryStart gMemoryEnd gSharedMemory v := by
  have hentry := initTables_pdpt hs hlt hend hG mem gSharedMemory
    (Nat.mod_lt (v / 2 ^ 30) (show 512 > 0 by decide))
  unfold layout
  by_cases h0 : v / 2 ^ 30 % 512 = 0
  · rw [if_pos h0] at hentry ⊢
    rw [walkPdpt_table hentry (pagetableAddress_dvd hs 2) (by decide) (by decide) (by decide)]
    exact initTables_walkPd_shared hlt hend hG
  rw [if_neg h0] at hentry ⊢
  by_cases h2 : v / 2 ^ 30 % 512 < 3
  · rw [if_pos h2] at hentry ⊢
    exact walkPdpt_page hentry (by decide) (by decide) (by decide)
  rw [if_neg h2] at hentry ⊢
  by_cases h3 : v / 2 ^ 30 % 512 = 3
  · rw [if_pos h3] at hentry ⊢
    rw [walkPdpt_table hentry (pagetableAddress_dvd hs 3) (by decide) (by decide) (by decide)]
    exact initTables_walkPd_kernel hs hlt.le hend (by simp only [pageSize1G] at hG ⊢; omega)
  rw [if_neg h3] at hentry ⊢
  by_cases hle : gMemoryStart + (v / 2 ^ 30 % 512 - 3) * pageSize1G ≤ gMemoryEnd
  · rw [if_pos hle] at hentry ⊢
    rw [walkPdpt_page hentry (by decide) (by decide) (by decide),
      clearLow_of_dvd (by simp only [pageSize1G]; omega)]
  · rw [if_neg hle] at hentry ⊢
    rw [walkPdpt, hentry]
    rfl

theorem initTables_walk_high {o : ℕ} (ho : o < 512 * pageSize1G) :
    walk (initTables mem gMemoryStart gMemoryEnd gSharedMemory) (configKernelPagetableAddress gMemoryStart)
        (configSharedMemory + o) = layout gMemoryStart gMemoryEnd gSharedMemory (configSharedMemory + o) := by
  rw [initTables_walk_root hs, initTables_walkPdpt hs hlt hend hG, if_pos]
  simp only [configSharedMemory, pageSize1G] at *
  omega

theorem initTables_walk_layout
    (hwalk : walk (initTables mem gMemoryStart gMemoryEnd gSharedMemory)
      (configKernelPagetableAddress gMemoryStart) v = some pa) :
    layout gMemoryStart gMemoryEnd gSharedMemory v = some pa := by
  rw [initTables_walk_root hs, initTables_walkPdpt hs hlt hend hG] at hwalk
  by_cases hroot : v / 2 ^ 39 % 512 = 0 ∨ v / 2 ^ 39 % 512 = 256
  · rwa [if_pos hroot] at hwalk
  · rw [if_neg hroot] at hwalk
    exact absurd hwalk (Option.some_ne_none _).symm

omit hend in
-- the last 1 GB entry starts at g_memory_end: mapping_address was already one gigabyte ahead
theorem layout_last (he : 2 ^ 30 ∣ gMemoryEnd) :
    layout gMemoryStart gMemoryEnd gSharedMemory
      (configSharedMemory + ((gMemoryEnd - gMemoryStart) / 2 ^ 30 + 3) * pageSize1G) = some gMemoryEnd := by
  have hi : (configSharedMemory + ((gMemoryEnd - gMemoryStart) / 2 ^ 30 + 3) * pageSize1G) / 2 ^ 30 % 512 =
      (gMemoryEnd - gMemoryStart) / 2 ^ 30 + 3 := by
    simp only [configSharedMemory, pageSize1G] at *
    omega
  have hlow : (configSharedMemory + ((gMemoryEnd - gMemoryStart) / 2 ^ 30 + 3) * pageSize1G) % 2 ^ 30 = 0 := by
    simp only [configSharedMemory, pageSize1G] at *
    omega
  have hbase : gMemoryStart + ((gMemoryEnd - gMemoryStart) / 2 ^ 30 + 3 - 3) * pageSize1G = gMemoryEnd := by
    simp only [pageSize1G] at *
    omega
  have hpos : 0 < (gMemoryEnd - gMemoryStart) / 2 ^ 30 := by omega
  rw [layout, hi, hlow, hbase, if_neg (by omega), if_neg (by omega), if_neg (by omega), if_pos le_rfl,
    Nat.add_zero]

end Partition

def Partitioned (mem : Mem) (cr3 gMemoryStart gMemoryEnd gSharedMemory : ℕ) : Prop :=
  ∀ v pa, walk mem cr3 v = some pa →
    pa < pageSize2M ∨ (gSharedMemory ≤ pa ∧ pa < gSharedMemory + 3 * pageSize1G) ∨
      (gMemoryStart ≤ pa ∧ pa < gMemoryEnd)

section Partition
variable {gMemoryStart gMemoryEnd gSharedMemory v pa : ℕ}

theorem layout_inside (hs : 2 ^ 30 ∣ gMemoryStart) (he : 2 ^ 30 ∣ gMemoryEnd)
    (hlt : gMemoryStart < gMemoryEnd) (hfit : gMemoryEnd + 3 * pageSize1G ≤ wordSize)
    (h : layout gMemoryStart gMemoryEnd gMemoryEnd v = some pa) :
    pa < pageSize2M ∨ (gMemoryEnd ≤ pa ∧ pa < gMemoryEnd + 3 * pageSize1G) ∨
      (gMemoryStart ≤ pa ∧ pa < gMemoryEnd) := by
  have hi : v / 2 ^ 30 % 512 < 512 := Nat.mod_lt _ (by decide)
  have hj : v / 2 ^ 21 % 512 < 512 := Nat.mod_lt _ (by decide)
  have h30 : v % 2 ^ 30 < 2 ^ 30 := Nat.mod_lt _ (by decide)
  have h21 : v % 2 ^ 21 < 2 ^ 21 := Nat.mod_lt _ (by decide)
  unfold layout at h
  generalize v / 2 ^ 30 % 512 = i at *
  generalize v / 2 ^ 21 % 512 = j at *
  generalize v % 2 ^ 30 = low30 at *
  generalize v % 2 ^ 21 = low21 at *
  by_cases h0 : i = 0
  · rw [if_pos h0, Option.some_inj] at h
    simp only [pageSize1G, pageSize2M, wordSize, clearLow] at *
    split at h <;> omega
  rw [if_neg h0] at h
  by_cases h2 : i < 3
  · rw [if_pos h2, Option.some_inj] at h
    simp only [pageSize1G, pageSize2M, wordSize, clearLow] at *
    omega
  rw [if_neg h2] at h
  by_cases h3 : i = 3
  · rw [if_pos h3, Option.some_inj] at h
    simp only [pageSize1G, pageSize2M] at *
    split at h <;> omega
  rw [if_neg h3] at h
  split at h
  · rw [Option.some_inj] at h
    simp only [pageSize1G, pageSize2M] at *
    omega
  · exact absurd h (Option.some_ne_none _).symm

theorem layout_third :
    layout gMemoryStart gMemoryEnd gSharedMemory (configSharedMemory + (2 * pageSize1G + pageSize2M)) =
      some (clearLow 30 ((gSharedMemory + 2 * pageSize1G) % wordSize) + pageSize2M) := by
  have hi : (configSharedMemory + (2 * pageSize1G + pageSize2M)) / 2 ^ 30 % 512 = 2 := by decide
  have hlow : (configSharedMemory + (2 * pageSize1G + pageSize2M)) % 2 ^ 30 = pageSize2M := by decide
  rw [layout, hi, hlow, if_neg (by decide), if_pos (by decide)]

variable {mem : Mem}

theorem initTables_partitioned_iff (hs : 2 ^ 30 ∣ gMemoryStart) (he : 2 ^ 30 ∣ gMemoryEnd)
    (hlt : gMemoryStart < gMemoryEnd) (hend : gMemoryEnd < wordSize)
    (hG : gMemoryEnd - gMemoryStart ≤ 508 * pageSize1G)
    (hdisj : gSharedMemory + 3 * pageSize1G ≤ gMemoryStart ∨ gMemoryEnd ≤ gSharedMemory) :
    Partitioned (initTables mem gMemoryStart gMemoryEnd gSharedMemory)
        (configKernelPagetableAddress gMemoryStart) gMemoryStart gMemoryEnd gSharedMemory ↔
      gSharedMemory = gMemoryEnd ∧ gMemoryEnd + 3 * pageSize1G ≤ wordSize := by
  constructor
  · intro hpart
    have hlast := hpart _ _ ((initTables_walk_high hs hlt hend hG (by
      simp only [pageSize1G] at *
      omega)).trans (layout_last hs hlt hG he))
    have heq : gSharedMemory = gMemoryEnd := by
      simp only [pageSize1G, pageSize2M] at *
      omega
    subst heq
    refine ⟨rfl, ?_⟩
    by_contra hwrap
    -- the third shared gigabyte wraps to the bottom of memory
    have hthird := hpart _ _ ((initTables_walk_high hs hlt hend hG (by decide)).trans layout_third)
    simp only [pageSize1G, pageSize2M, wordSize, clearLow] at *
    omega
  · rintro ⟨rfl, hfit⟩ v pa hwalk
    exact layout_inside hs he hlt hfit (initTables_walk_layout hs hlt hend hG hwalk)

theorem initTables_partitioned_below_shared :
    Partitioned (initTables (fun _ => 0) (128 * 2 ^ 30) (138 * 2 ^ 30) (138 * 2 ^ 30))
      (configKernelPagetableAddress (128 * 2 ^ 30)) (128 * 2 ^ 30) (138 * 2 ^ 30) (138 * 2 ^ 30) :=
  (initTables_partitioned_iff (Nat.dvd_mul_left _ _) (Nat.dvd_mul_left _ _) (by decide) (by decide) (by decide)
    (.inr le_rfl)).2 ⟨rfl, by decide⟩

theorem initTables_reaches_neighbour :
    walk (initTables (fun _ => 0) (128 * 2 ^ 30) (138 * 2 ^ 30) (125 * 2 ^ 30))
        (configKernelPagetableAddress (128 * 2 ^ 30)) (configSharedMemory + 13 * pageSize1G) =
      some (138 * 2 ^ 30) ∧
    ¬ Partitioned (initTables (fun _ => 0) (128 * 2 ^ 30) (138 * 2 ^ 30) (125 * 2 ^ 30))
      (configKernelPagetableAddress (128 * 2 ^ 30)) (128 * 2 ^ 30) (138 * 2 ^ 30) (125 * 2 ^ 30) := by
  have hs : 2 ^ 30 ∣ 128 * 2 ^ 30 := Nat.dvd_mul_left _ _
  have he : 2 ^ 30 ∣ 138 * 2 ^ 30 := Nat.dvd_mul_left _ _
  have hwalk : walk (initTables (fun _ => 0) (128 * 2 ^ 30) (138 * 2 ^ 30) (125 * 2 ^ 30))
      (configKernelPagetableAddress (128 * 2 ^ 30)) (configSharedMemory + 13 * pageSize1G) =
      some (138 * 2 ^ 30) :=
    (initTables_walk_high hs (by decide) (by decide) (by decide) (by decide)).trans
      (layout_last hs (by decide) (by decide) he)
  refine ⟨hwalk, fun hpart => ?_⟩
  have := hpart _ _ hwalk
  simp only [pageSize1G, pageSize2M] at this
  omega

end Partition

end Azalea
