import Azalea.Offload.Transfer
import Azalea.Paging.Frames
import Azalea.Paging.Sideload
import Azalea.Shm.Lifetime

namespace Azalea

def unikernelStart : ℕ := 128

def sharedMemorySize : ℕ := 3

def memorysPerNode : ℕ := 10

def appStartOffset : ℕ := 2 <<< 20

def channelStartOffset : ℕ := ipcStartOffset + ipcSize

def channelSize : ℕ := 1 <<< 30

def sharedMemoryStart : ℕ := (unikernelStart - sharedMemorySize) <<< 30

def unikernelsMemBasePa : ℕ := unikernelStart <<< 30

def configChannelPa : ℕ := sharedMemoryStart + channelStartOffset

def nodeMemory (k : ℕ) : ℕ := (unikernelStart + k * memorysPerNode) <<< 30

def kernelsMemBasePaLen (nUnikernels : ℕ) : ℕ := (memorysPerNode * nUnikernels) <<< 30

theorem memoryLayout : sharedMemoryStart = 125 * 2 ^ 30 ∧ configChannelPa = 126 * 2 ^ 30 ∧
    unikernelsMemBasePa = 128 * 2 ^ 30 ∧ channelSize = 2 ^ 30 := by decide

namespace Handover

def mmapUnikernelsMemory (nUnikernels kernelsVa channelVa : ℕ) (phys : ℕ → Option ℕ) : Proxy where
  unikernelsMemBasePa := Azalea.unikernelsMemBasePa
  gKernelsMemBasePa := Azalea.unikernelsMemBasePa
  gMmapUnikernelsMemBaseVa := kernelsVa
  gChannelMemBasePa := configChannelPa
  gMmapChannelMemBaseVa := channelVa
  phys a :=
    if kernelsVa ≤ a ∧ a < kernelsVa + kernelsMemBasePaLen nUnikernels then
      some (Azalea.unikernelsMemBasePa + (a - kernelsVa))
    else if channelVa ≤ a ∧ a < channelVa + channelSize then some (configChannelPa + (a - channelVa))
    else phys a

def Mmapped (nUnikernels kernelsVa channelVa a : ℕ) : Prop :=
  (kernelsVa ≤ a ∧ a < kernelsVa + kernelsMemBasePaLen nUnikernels) ∨ (channelVa ≤ a ∧ a < channelVa + channelSize)

instance (n k c a : ℕ) : Decidable (Mmapped n k c a) := inferInstanceAs (Decidable (_ ∨ _))

structure Regions (n kernelsVa channelVa : ℕ) : Prop where
  int : memorysPerNode * n < 2 ^ 31
  kernels : kernelsVa + kernelsMemBasePaLen n ≤ wordSize
  channel : channelVa + channelSize ≤ wordSize
  apart : kernelsVa + kernelsMemBasePaLen n ≤ channelVa ∨ channelVa + channelSize ≤ kernelsVa

section
variable {n kernelsVa channelVa : ℕ} {phys : ℕ → Option ℕ} {pa : ℕ}

def Finds (n kernelsVa channelVa : ℕ) (phys : ℕ → Option ℕ) (pa : ℕ) : Prop :=
  Mmapped n kernelsVa channelVa ((mmapUnikernelsMemory n kernelsVa channelVa phys).getVa pa) ∧
    (mmapUnikernelsMemory n kernelsVa channelVa phys).phys
      ((mmapUnikernelsMemory n kernelsVa channelVa phys).getVa pa) = some pa

theorem getVa_kernels (hlo : unikernelsMemBasePa ≤ pa) : (mmapUnikernelsMemory n kernelsVa channelVa phys).getVa pa =
    (kernelsVa + (pa + (wordSize - unikernelsMemBasePa))) % wordSize := by
  have hne : pa ≠ 0 := by
    obtain ⟨-, -, hbase, -⟩ := memoryLayout
    omega
  rw [Proxy.getVa, if_neg hne]
  exact if_pos hlo

theorem getVa_channel (hne : pa ≠ 0) (hhi : pa < unikernelsMemBasePa) :
    (mmapUnikernelsMemory n kernelsVa channelVa phys).getVa pa =
      (channelVa + (pa + (wordSize - configChannelPa))) % wordSize := by
  rw [Proxy.getVa, if_neg hne]
  exact if_neg (Nat.not_le_of_lt hhi)

theorem finds_kernels (h : Regions n kernelsVa channelVa) (hlo : unikernelsMemBasePa ≤ pa)
    (hhi : pa < unikernelsMemBasePa + kernelsMemBasePaLen n) : Finds n kernelsVa channelVa phys pa := by
  have hva : (mmapUnikernelsMemory n kernelsVa channelVa phys).getVa pa = kernelsVa + (pa - unikernelsMemBasePa) := by
    obtain ⟨-, -, hbase, -⟩ := memoryLayout
    have hkernels := h.kernels
    rw [getVa_kernels hlo]
    simp only [wordSize] at *
    omega
  have hin : kernelsVa ≤ kernelsVa + (pa - unikernelsMemBasePa) ∧
      kernelsVa + (pa - unikernelsMemBasePa) < kernelsVa + kernelsMemBasePaLen n := by omega
  rw [Finds, hva]
  refine ⟨.inl hin, (if_pos hin).trans ?_⟩
  rw [Option.some.injEq]
  omega

theorem finds_channel (h : Regions n kernelsVa channelVa) (hlo : configChannelPa ≤ pa)
    (hhi : pa < configChannelPa + channelSize) : Finds n kernelsVa channelVa phys pa := by
  have hapart := h.apart
  have hva : (mmapUnikernelsMemory n kernelsVa channelVa phys).getVa pa = channelVa + (pa - configChannelPa) := by
    obtain ⟨-, hchannel, hbase, hsize⟩ := memoryLayout
    have hregion := h.channel
    rw [getVa_channel (by omega) (by omega)]
    simp only [wordSize] at *
    omega
  have hin : channelVa ≤ channelVa + (pa - configChannelPa) ∧
      channelVa + (pa - configChannelPa) < channelVa + channelSize := by omega
  have hout : ¬ (kernelsVa ≤ channelVa + (pa - configChannelPa) ∧
      channelVa + (pa - configChannelPa) < kernelsVa + kernelsMemBasePaLen n) := by omega
  rw [Finds, hva]
  refine ⟨.inr hin, (if_neg hout).trans ((if_pos hin).trans ?_)⟩
  rw [Option.some.injEq]
  omega

theorem not_finds_below (h : Regions n kernelsVa channelVa) (hlo : sharedMemoryStart ≤ pa) (hhi : pa < configChannelPa) :
    ¬ Finds n kernelsVa channelVa phys pa := by
  obtain ⟨hshared, hchannel, hbase, hsize⟩ := memoryLayout
  have hregion := h.channel
  rw [Finds, getVa_channel (by omega) (by omega)]
  rintro ⟨hin, hphys⟩
  by_cases hk : kernelsVa ≤ (channelVa + (pa + (wordSize - configChannelPa))) % wordSize ∧
      (channelVa + (pa + (wordSize - configChannelPa))) % wordSize < kernelsVa + kernelsMemBasePaLen n
  · have he := (if_pos hk).symm.trans hphys
    rw [Option.some.injEq] at he
    omega
  · have hc := hin.resolve_left hk
    simp only [wordSize] at *
    omega

end

inductive ServiceStep (s : Space) : Space → Prop
  | page {s' : Space} : s.PageStep s' → ServiceStep s s'
  | alloc : ServiceStep s (s.azAlloc pageSize4K).1

inductive Passable (s : Space) (k : ℕ) : ℕ → Prop
  | kernel {p : ℕ} : nodeMemory k ≤ p → p < nodeMemory (k + 1) → Passable s k (va s.gMemoryStart p)
  | low {v p : ℕ} : 0 < v → v < 2 ^ 47 → walk s.mem s.pgd v = some p → nodeMemory k ≤ p → p < nodeMemory (k + 1) →
      Passable s k v
  | shared {o : ℕ} : appStartOffset ≤ o → o < channelStartOffset + channelSize → Passable s k (configSharedMemory + o)

def BelowChannel (v : ℕ) : Prop := configSharedMemory + appStartOffset ≤ v ∧ v < configSharedMemory + channelStartOffset

section
variable {s : Space} {k n v kernelsVa channelVa : ℕ} {phys : ℕ → Option ℕ} {prior : ℕ → BITMAP} {priorIndex : ℤ → BYTE}
  {mem : Mem}

theorem nodeMemory_eq (k : ℕ) : nodeMemory k = (128 + k * 10) * 2 ^ 30 := Nat.shiftLeft_eq _ _

theorem kernelsMemBasePaLen_eq (n : ℕ) : kernelsMemBasePaLen n = 10 * n * 2 ^ 30 := Nat.shiftLeft_eq _ _

theorem node_inside (hk : k < n) {p : ℕ} (hlo : nodeMemory k ≤ p) (hhi : p < nodeMemory (k + 1)) :
    unikernelsMemBasePa ≤ p ∧ p < unikernelsMemBasePa + kernelsMemBasePaLen n := by
  obtain ⟨-, -, hbase, -⟩ := memoryLayout
  rw [nodeMemory_eq] at hlo hhi
  rw [kernelsMemBasePaLen_eq]
  omega

theorem getPa_shared (s : Space) {o : ℕ} (hlo : 0 < o) (hhi : o < 2 * 2 ^ 30) (hs : s.gSharedMemory = sharedMemoryStart) :
    (s.getPa (configSharedMemory + o)).2 = sharedMemoryStart + o := by
  obtain ⟨hshared, -⟩ := memoryLayout
  rw [Space.getPa, if_neg (by simp only [configSharedMemory]; omega),
    if_pos (by simp only [configSharedMemory, configHighHalfLimit]; omega)]
  dsimp only
  rw [getPaHighHalf_shared (by simp only [pageSize1G]; omega), hs]
  simp only [wordSize]
  omega

theorem run_low (hk : memorysPerNode * (k + 1) < 2 ^ 31) (hr : Relation.ReflTransGen ServiceStep
    (Machine.boot prior priorIndex mem (nodeMemory k) (nodeMemory (k + 1)) sharedMemoryStart).space s) :
    (∃ node, s.Low node) ∧ s.gMemoryStart = nodeMemory k ∧ s.gSharedMemory = sharedMemoryStart := by
  have hboot : ∃ node, (Machine.boot prior priorIndex mem (nodeMemory k) (nodeMemory (k + 1)) sharedMemoryStart).space.Low
      node := by
    rw [memorysPerNode] at hk
    apply Space.boot_low <;> rw [nodeMemory_eq] <;> try rw [nodeMemory_eq]
    · exact Nat.dvd_mul_left _ _
    · exact Nat.dvd_mul_left _ _
    · omega
    · simp only [wordSize]
      omega
    · simp only [pageSize1G]
      omega
  refine @Run.invariant Space ServiceStep (fun s => (∃ node, s.Low node) ∧ s.gMemoryStart = nodeMemory k ∧
    s.gSharedMemory = sharedMemoryStart) _ _ ?_ ⟨hboot, rfl, rfl⟩ hr
  rintro a _ ⟨⟨node, hlow⟩, hstart, hshared⟩ (⟨c, hl, rfl⟩ | _)
  · obtain ⟨h1, h2⟩ := hlow.pageCall_sameMemory hl
    exact ⟨hlow.step hl, h1.trans hstart, h2.trans hshared⟩
  · exact ⟨⟨node, hlow.azAlloc⟩, hstart, hshared⟩

theorem finds_iff (hregions : Regions n kernelsVa channelVa) (hk : k < n)
    (hr : Relation.ReflTransGen ServiceStep
      (Machine.boot prior priorIndex mem (nodeMemory k) (nodeMemory (k + 1)) sharedMemoryStart).space s)
    (hv : Passable s k v) : Finds n kernelsVa channelVa phys (s.getPa v).2 ↔ ¬ BelowChannel v := by
  have hint := hregions.int
  rw [memorysPerNode] at hint
  obtain ⟨⟨node, hlow⟩, hstart, hshared⟩ := run_low (by rw [memorysPerNode]; omega) hr
  obtain ⟨hsh, hch, hbase, hsize⟩ := memoryLayout
  have hoff : channelStartOffset = 2 ^ 30 := by decide
  have hnode := nodeMemory_eq k
  have hnext := nodeMemory_eq (k + 1)
  cases hv with
  | @kernel p hlo hhi =>
    have hva : (s.getPa (va s.gMemoryStart p)).2 = p := getPa_va s (by omega) (by omega) (by simp only [wordSize]; omega)
    rw [hva]
    obtain ⟨h1, h2⟩ := node_inside hk hlo hhi
    refine iff_of_true (finds_kernels hregions h1 h2) ?_
    rintro ⟨-, hbelow⟩
    rw [hoff, va] at hbelow
    simp only [wordSize, configPageOffset, configSharedMemory] at hbelow
    omega
  | low h0 hlt hw hlo hhi =>
    rw [Space.walk_frames (.inl hlt)] at hw
    obtain ⟨f, hf, rfl⟩ := Option.map_eq_some_iff.mp hw
    rw [hlow.getPa_frames (by omega) hlt hf]
    obtain ⟨h1, h2⟩ := node_inside hk hlo hhi
    refine iff_of_true (finds_kernels hregions h1 h2) ?_
    rintro ⟨habove, -⟩
    simp only [configSharedMemory] at habove
    omega
  | @shared o hlo hhi =>
    have happ : appStartOffset = 2 ^ 21 := by decide
    rw [getPa_shared s (by omega) (by omega) hshared]
    by_cases hbelow : o < 2 ^ 30
    · exact iff_of_false (not_finds_below hregions (by omega) (by omega)) (not_not.mpr ⟨by omega, by omega⟩)
    · refine iff_of_true (finds_channel hregions (by omega) (by omega)) ?_
      rintro ⟨-, hlt⟩
      omega

end
def nodeZero : Machine :=
  .boot (fun _ => ⟨fun _ => 0#8, 0⟩) (fun _ => 0#8) (fun _ => 0) (nodeMemory 0) (nodeMemory 1) sharedMemoryStart

theorem regions_one : Regions 1 0x7F0000000000 0x7E0000000000 := by
  constructor <;> simp only [memorysPerNode, kernelsMemBasePaLen_eq, wordSize, channelSize] <;> omega

theorem nodeZero_channel_finds :
    Finds 1 0x7F0000000000 0x7E0000000000 (fun _ => none) (nodeZero.space.getPa (configSharedMemory + 0x52C00000)).2 := by
  refine (finds_iff (k := 0) regions_one (by decide) .refl (.shared (by decide) (by decide))).mpr ?_
  rintro ⟨-, hlt⟩
  exact absurd hlt (by decide)

theorem nodeZero_segment_lost :
    (ShmLife.opened.info.shmat 0 0).2 = 0xFFFF80003FFFF000 ∧ Passable nodeZero.space 0 0xFFFF80003FFFF000 ∧
      (mmapUnikernelsMemory 1 0x7F0000000000 0x7E0000000000 fun _ => none).getVa
        (nodeZero.space.getPa 0xFFFF80003FFFF000).2 = 0x7DFFFFFFF000 ∧
      ¬ Mmapped 1 0x7F0000000000 0x7E0000000000 0x7DFFFFFFF000 := by
  have hattach : ShmLife.opened.info.shmat (0 : ℕ) 0 = _ := ShmInfo.shmat_eq (by decide)
    (by rw [ShmLife.opened_region]; exact ShmInfo.inUse_of_flags rfl) (by rw [ShmLife.opened_region]; simp) 0
  have hpa : (nodeZero.space.getPa 0xFFFF80003FFFF000).2 = sharedMemoryStart + 0x3FFFF000 :=
    getPa_shared (o := 0x3FFFF000) _ (by decide) (by decide) rfl
  refine ⟨?_, ?_, ?_, by decide⟩
  · exact (congrArg Prod.snd hattach).trans (by rw [ShmLife.opened_region])
  · exact .shared (o := 0x3FFFF000) (by decide) (by decide)
  · rw [hpa, getVa_channel (by decide) (by decide)]
    decide

end Handover
end Azalea
