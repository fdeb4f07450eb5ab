import Azalea.Offload.Handover
import Mathlib.Order.CompletePartialOrder

namespace Azalea

def cqElePageNum : ℕ := 2

def cqEleSize : ℕ := 2 * 4096

def configOffloadChannelPa : ℕ := configChannelPa + 300 <<< 20

def offloadChannelStructPa : ℕ := configOffloadChannelPa + pageSize4K * 100

def offloadChannelInfoPa : ℕ := configOffloadChannelPa + pageSize4K * 200

def offloadChannelBasePa : ℕ := configOffloadChannelPa + pageSize4K * 300

def configOffloadChannelVa : ℕ := configSharedMemory + channelStartOffset + 300 * 1024 * 1024

def offloadChannelStructVa : ℕ := configOffloadChannelVa + pageSize4K * 100

def offloadChannelInfoVa : ℕ := configOffloadChannelVa + pageSize4K * 200

def offloadChannelBaseVa : ℕ := configOffloadChannelVa + pageSize4K * 300

namespace Layout

def cqInitAt (mem : Mem) (cq size : ℕ) : Mem := Function.update (Function.update mem cq 0) (cq + 8) size

section Proxy
variable (va opages ipages : ℕ)

def outCq (o : ℕ) : ℕ := (va + o * intToQword (toInt (opages + ipages)) * pageSize4K) % wordSize

def inCq (o : ℕ) : ℕ := (outCq va opages ipages o + intToQword (toInt (opages * pageSize4K))) % wordSize

def outCqLen : ℕ := opages * pageSize4K % wordSize

def inCqLen : ℕ := ipages * pageSize4K % wordSize

def proxyPa (a : ℕ) : ℕ := offloadChannelBasePa + (a - va)

def mmapLoop : ℕ → Mem → Mem
  | 0, mem => mem
  | o + 1, mem =>
    let mem := mmapLoop o mem
    let mem := cqInitAt mem (proxyPa va (outCq va opages ipages o)) ((opages - 1) / cqElePageNum)
    cqInitAt mem (proxyPa va (inCq va opages ipages o)) ((ipages - 1) / cqElePageNum)

def mmapChannels (nUnikernels nOffloadChannels : ℕ) (mem : Mem) : Mem :=
  let mem := Function.update mem offloadChannelInfoPa 0
  let mem := Function.update mem (offloadChannelInfoPa + 8) nOffloadChannels
  let mem := Function.update mem (offloadChannelInfoPa + 16) opages
  let mem := Function.update mem (offloadChannelInfoPa + 24) ipages
  let mem := Function.update mem (offloadChannelInfoPa + 32) nUnikernels
  let mem := mmapLoop va opages ipages nOffloadChannels mem
  Function.update mem offloadChannelInfoPa offloadMagic

end Proxy

def kernelPa (v : ℕ) : ℕ := sharedMemoryPa sharedMemoryStart v

structure OffloadState where
  gNodeId : ℤ
  gChannelSize : ℤ
deriving DecidableEq, Repr

def getOffloadId (memStart : ℕ) : ℤ := (toInt memStart - unikernelStart).tdiv memorysPerNode

-- sizeof(channel_t) is 24; slock is at offset 256 of a queue and both spinlock_init calls are on the in queue
def initChannelAt (mem : Mem) (ch inVa outVa : ℕ) : Mem :=
  let mem := Function.update mem (kernelPa ch) 0
  let mem := Function.update mem (kernelPa (ch + 8)) 0
  let mem := Function.update mem (kernelPa (ch + 16)) 0
  let mem := Function.update mem (kernelPa ch) inVa
  let mem := Function.update mem (kernelPa (inVa + 256)) 0
  let mem := Function.update mem (kernelPa (ch + 8)) outVa
  Function.update mem (kernelPa (inVa + 256)) 0

section Kernel
variable (nodeId size : ℤ) (nIpages nOpages : ℕ)

def channelVa (i : ℕ) : ℕ := (offloadChannelStructVa + 24 * intToQword (nodeId * size + i)) % wordSize

def icqBaseVa (i : ℕ) : ℕ :=
  (offloadChannelBaseVa + intToQword (size * nodeId + i) * (nIpages + nOpages) * pageSize4K) % wordSize

def ocqBaseVa (i : ℕ) : ℕ := (icqBaseVa nodeId size nIpages nOpages i + nIpages * pageSize4K) % wordSize

def initLoop : ℕ → Mem → Mem
  | 0, mem => mem
  | i + 1, mem => initChannelAt (initLoop i mem) (channelVa nodeId size i) (icqBaseVa nodeId size nIpages nOpages i)
      (ocqBaseVa nodeId size nIpages nOpages i)

end Kernel

def initOffloadChannel (memStart : ℕ) (mem : Mem) : Mem × Option OffloadState :=
  if mem (kernelPa offloadChannelInfoVa) ≠ offloadMagic then (mem, none)
  else
    let gNOffloadChannels := toInt (mem (kernelPa (offloadChannelInfoVa + 8)))
    let nIpages := mem (kernelPa (offloadChannelInfoVa + 16))
    let nOpages := mem (kernelPa (offloadChannelInfoVa + 24))
    let gNNodes := toInt (mem (kernelPa (offloadChannelInfoVa + 32)))
    let pNodeId := kernelPa (offloadChannelInfoVa + 40)
    let mem := Function.update mem pNodeId ((mem pNodeId + 1) % wordSize)
    let gNodeId := getOffloadId memStart
    let gChannelSize := gNOffloadChannels.tdiv gNNodes
    (initLoop gNodeId gChannelSize nIpages nOpages gChannelSize.toNat mem, some ⟨gNodeId, gChannelSize⟩)

structure Config (nNodes c opages ipages va : ℕ) : Prop where
  out : opages % 2 = 1 ∧ opages < 2 ^ 19
  inn : ipages % 2 = 1 ∧ ipages < 2 ^ 19
  area : offloadChannelBasePa + nNodes * c * (opages + ipages) * 4096 ≤ configChannelPa + channelSize
  table : nNodes * c * 24 ≤ 100 * 4096
  mapped : va + nNodes * c * (opages + ipages) * 4096 ≤ wordSize

theorem addresses : offloadChannelStructPa = 126 * 2 ^ 30 + 300 * 2 ^ 20 + 100 * 4096 ∧
    offloadChannelInfoPa = 126 * 2 ^ 30 + 300 * 2 ^ 20 + 200 * 4096 ∧
    offloadChannelBasePa = 126 * 2 ^ 30 + 300 * 2 ^ 20 + 300 * 4096 ∧
    offloadChannelStructVa = configSharedMemory + (2 ^ 30 + 300 * 2 ^ 20 + 100 * 4096) ∧
    offloadChannelInfoVa = configSharedMemory + (2 ^ 30 + 300 * 2 ^ 20 + 200 * 4096) ∧
    offloadChannelBaseVa = configSharedMemory + (2 ^ 30 + 300 * 2 ^ 20 + 300 * 4096) := by
  decide

theorem kernelPa_shared {o : ℕ} (ho : o < 3 * 2 ^ 30) : kernelPa (configSharedMemory + o) = 125 * 2 ^ 30 + o := by
  rw [kernelPa, sharedMemoryPa, memoryLayout.1]
  simp only [configSharedMemory, wordSize]
  omega

theorem kernelPa_struct {x : ℕ} (hx : x ≤ 100 * 4096) :
    kernelPa (offloadChannelStructVa + x) = offloadChannelStructPa + x := by
  obtain ⟨hpa, -, -, hva, -⟩ := addresses
  rw [hva, hpa, Nat.add_assoc, kernelPa_shared (by omega)]
  omega

theorem kernelPa_info {x : ℕ} (hx : x ≤ 100 * 4096) : kernelPa (offloadChannelInfoVa + x) = offloadChannelInfoPa + x := by
  obtain ⟨-, hpa, -, -, hva, -⟩ := addresses
  rw [hva, hpa, Nat.add_assoc, kernelPa_shared (by omega)]
  omega

theorem kernelPa_base {x : ℕ} (hx : x ≤ 2 ^ 30 + 4096) : kernelPa (offloadChannelBaseVa + x) = offloadChannelBasePa + x := by
  obtain ⟨-, -, hpa, -, -, hva⟩ := addresses
  rw [hva, hpa, Nat.add_assoc, kernelPa_shared (by omega)]
  omega

theorem area_le {n : ℕ} (h : offloadChannelBasePa + n ≤ configChannelPa + channelSize) : n ≤ 2 ^ 30 := by
  obtain ⟨-, hch, -, hsize⟩ := memoryLayout
  rw [addresses.2.2.1, hch, hsize] at h
  norm_num at h ⊢
  omega

namespace Config
variable {nNodes c opages ipages va o o' : ℕ}

theorem span (ho : o < o') : o * (opages + ipages) * 4096 + (opages + ipages) * 4096 ≤ o' * (opages + ipages) * 4096 := by
  rw [← Nat.add_mul]
  apply Nat.mul_le_mul_right
  have hle : (o + 1) * (opages + ipages) ≤ o' * (opages + ipages) := Nat.mul_le_mul_right _ ho
  rwa [Nat.add_mul, Nat.one_mul] at hle

variable (h : Config nNodes c opages ipages va)
include h

theorem total_le : nNodes * c * (opages + ipages) * 4096 ≤ 2 ^ 30 := area_le h.area

theorem channels_le : nNodes * c ≤ 2 ^ 17 := by
  have htotal := h.total_le
  have hout := h.out
  have hin := h.inn
  have htwo : nNodes * c * 2 ≤ nNodes * c * (opages + ipages) := Nat.mul_le_mul_left _ (by omega)
  omega

theorem pages_qword : intToQword (toInt (opages + ipages)) = opages + ipages := by
  have hout := h.out
  have hin := h.inn
  exact intToQword_toInt_of_lt (by omega)

theorem outCq_eq (ho : o < nNodes * c) : outCq va opages ipages o = va + o * (opages + ipages) * 4096 := by
  have hspan := @span opages ipages o _ ho
  have hmapped := h.mapped
  have hout := h.out
  rw [outCq, h.pages_qword]
  simp only [pageSize4K]
  exact Nat.mod_eq_of_lt (by omega)

theorem inCq_eq (ho : o < nNodes * c) :
    inCq va opages ipages o = va + o * (opages + ipages) * 4096 + opages * 4096 := by
  have hspan := @span opages ipages o _ ho
  have hmapped := h.mapped
  have hout := h.out
  have hin := h.inn
  rw [inCq, h.outCq_eq ho, intToQword_toInt_of_lt (by simp only [pageSize4K]; omega)]
  simp only [pageSize4K]
  exact Nat.mod_eq_of_lt (by omega)

theorem outPa (ho : o < nNodes * c) :
    proxyPa va (outCq va opages ipages o) = offloadChannelBasePa + o * (opages + ipages) * 4096 := by
  rw [h.outCq_eq ho, proxyPa]
  omega

theorem inPa (ho : o < nNodes * c) : proxyPa va (inCq va opages ipages o) =
    offloadChannelBasePa + o * (opages + ipages) * 4096 + opages * 4096 := by
  rw [h.inCq_eq ho, proxyPa]
  omega

end Config

theorem areas : offloadChannelStructPa + 100 * 4096 = offloadChannelInfoPa ∧
    offloadChannelInfoPa + 100 * 4096 = offloadChannelBasePa ∧ 4096 ∣ offloadChannelBasePa := by
  decide

theorem cqInitAt_size (mem : Mem) (cq size : ℕ) : cqInitAt mem cq size (cq + 8) = size := Function.update_self ..

theorem cqInitAt_other {mem : Mem} {cq size a : ℕ} (h0 : a ≠ cq) (h8 : a ≠ cq + 8) : cqInitAt mem cq size a = mem a := by
  rw [cqInitAt, Function.update_of_ne h8, Function.update_of_ne h0]

section Run
variable {nNodes c opages ipages va : ℕ} (h : Config nNodes c opages ipages va)
include h

theorem mmapLoop_below {n a : ℕ} {mem : Mem} (hn : n ≤ nNodes * c) (ha : a < offloadChannelBasePa) :
    mmapLoop va opages ipages n mem a = mem a := by
  induction n with
  | zero => rfl
  | succ n ih =>
    rw [mmapLoop, h.outPa hn, h.inPa hn, cqInitAt_other (by omega) (by omega), cqInitAt_other (by omega) (by omega)]
    exact ih (Nat.le_of_succ_le hn)

theorem mmapLoop_sizes {n o : ℕ} {mem : Mem} (hn : n ≤ nNodes * c) (ho : o < n) :
    mmapLoop va opages ipages n mem (offloadChannelBasePa + o * (opages + ipages) * 4096 + 8) = (opages - 1) / 2 ∧
      mmapLoop va opages ipages n mem (offloadChannelBasePa + o * (opages + ipages) * 4096 + opages * 4096 + 8) =
        (ipages - 1) / 2 := by
  have hout := h.out
  have hin := h.inn
  induction n with
  | zero => exact absurd ho (Nat.not_lt_zero o)
  | succ n ih =>
    rw [mmapLoop, h.outPa hn, h.inPa hn]
    rcases Nat.lt_succ_iff_lt_or_eq.mp ho with hlt | rfl
    · have hspan := @Config.span opages ipages o n hlt
      have hold := ih (Nat.le_of_succ_le hn) hlt
      constructor
      · rw [cqInitAt_other (by omega) (by omega), cqInitAt_other (by omega) (by omega)]
        exact hold.1
      · rw [cqInitAt_other (by omega) (by omega), cqInitAt_other (by omega) (by omega)]
        exact hold.2
    · constructor
      · rw [cqInitAt_other (by omega) (by omega), cqInitAt_size]
        rfl
      · rw [cqInitAt_size]
        rfl

theorem mmapChannels_info {a : ℕ} {mem : Mem} (ha : a < offloadChannelBasePa) (hne : a ≠ offloadChannelInfoPa) :
    mmapChannels va opages ipages nNodes (nNodes * c) mem a =
      Function.update (Function.update (Function.update (Function.update (Function.update mem offloadChannelInfoPa 0)
        (offloadChannelInfoPa + 8) (nNodes * c)) (offloadChannelInfoPa + 16) opages) (offloadChannelInfoPa + 24) ipages)
        (offloadChannelInfoPa + 32) nNodes a := by
  rw [mmapChannels, Function.update_of_ne hne, mmapLoop_below h le_rfl ha]

end Run

structure Holds (k c opages ipages : ℕ) : Prop where
  area : offloadChannelBasePa + (k + 1) * c * (opages + ipages) * 4096 ≤ configChannelPa + channelSize
  table : (k + 1) * c * 24 ≤ 100 * 4096

section Slots
variable {k c i nNodes opages ipages va : ℕ}

theorem slot_lt (hk : k < nNodes) (hi : i < c) : k * c + i < nNodes * c := by
  have hle : (k + 1) * c ≤ nNodes * c := Nat.mul_le_mul_right _ hk
  rw [Nat.add_mul, Nat.one_mul] at hle
  omega

theorem slot_div (hi : i < c) : (k * c + i) / c = k := by
  rw [Nat.add_comm, Nat.add_mul_div_right _ _ (by omega), Nat.div_eq_of_lt hi, Nat.zero_add]

theorem Config.holds (h : Config nNodes c opages ipages va) (hk : k < nNodes) : Holds k c opages ipages := by
  have hle : (k + 1) * c ≤ nNodes * c := Nat.mul_le_mul_right _ hk
  have hpages : (k + 1) * c * (opages + ipages) * 4096 ≤ nNodes * c * (opages + ipages) * 4096 :=
    Nat.mul_le_mul_right _ (Nat.mul_le_mul_right _ hle)
  exact ⟨(Nat.add_le_add_left hpages _).trans h.area, (Nat.mul_le_mul_right _ hle).trans h.table⟩

variable (h : Holds k c opages ipages) (hi : i < c)
include h hi

theorem slot_table : 24 * (k * c + i) + 24 ≤ 100 * 4096 := by
  have hslot := slot_lt (Nat.lt_succ_self k) hi
  have htable := h.table
  rw [Nat.succ_eq_add_one] at hslot
  omega

theorem slot_pages : (k * c + i) * (opages + ipages) * 4096 + (opages + ipages) * 4096 ≤ 2 ^ 30 :=
  (Config.span (slot_lt (Nat.lt_succ_self k) hi)).trans (area_le h.area)

theorem channelVa_eq :
    channelVa k c i = offloadChannelStructVa + 24 * (k * c + i) := by
  have htable := slot_table h hi
  have hqword : intToQword ((k : ℤ) * c + i) = k * c + i := by
    exact_mod_cast intToQword_of_nat (by omega : k * c + i < 2 ^ 64)
  rw [channelVa, hqword, addresses.2.2.2.1]
  simp only [configSharedMemory, wordSize]
  omega

theorem icqBaseVa_eq :
    icqBaseVa k c opages ipages i = offloadChannelBaseVa + (k * c + i) * (opages + ipages) * 4096 := by
  have hpages := slot_pages h hi
  have htable := slot_table h hi
  have hqword : intToQword ((c : ℤ) * k + i) = k * c + i := by
    rw [mul_comm (c : ℤ) k]
    exact_mod_cast intToQword_of_nat (by omega : k * c + i < 2 ^ 64)
  rw [icqBaseVa, hqword, addresses.2.2.2.2.2]
  simp only [configSharedMemory, wordSize, pageSize4K]
  omega

theorem ocqBaseVa_eq :
    ocqBaseVa k c opages ipages i =
      offloadChannelBaseVa + (k * c + i) * (opages + ipages) * 4096 + opages * 4096 := by
  have hpages := slot_pages h hi
  rw [ocqBaseVa, icqBaseVa_eq h hi, addresses.2.2.2.2.2]
  simp only [configSharedMemory, wordSize, pageSize4K]
  omega

end Slots

theorem initChannelAt_spec {mem : Mem} {ch inVa outVa chPa lockPa : ℕ} (hch : kernelPa ch = chPa)
    (h8 : kernelPa (ch + 8) = chPa + 8) (h16 : kernelPa (ch + 16) = chPa + 16) (hlock : kernelPa (inVa + 256) = lockPa)
    (hsep : chPa + 24 ≤ lockPa) :
    initChannelAt mem ch inVa outVa chPa = inVa ∧ initChannelAt mem ch inVa outVa (chPa + 8) = outVa ∧
      initChannelAt mem ch inVa outVa lockPa = 0 ∧ ∀ a, a < chPa ∨ chPa + 24 ≤ a → a ≠ lockPa → initChannelAt mem ch inVa outVa a = mem a := by
  simp only [initChannelAt, hch, h8, h16, hlock]
  refine ⟨?_, ?_, Function.update_self .., ?_⟩
  · rw [Function.update_of_ne (by omega), Function.update_of_ne (by omega), Function.update_of_ne (by omega),
      Function.update_self]
  · rw [Function.update_of_ne (by omega), Function.update_self]
  · intro a ha hne
    rw [Function.update_of_ne hne, Function.update_of_ne (by omega), Function.update_of_ne hne,
      Function.update_of_ne (by omega), Function.update_of_ne (by omega), Function.update_of_ne (by omega),
      Function.update_of_ne (by omega)]

def Outside (k c pages n a : ℕ) : Prop :=
  ∀ i < n, (a < offloadChannelStructPa + 24 * (k * c + i) ∨ offloadChannelStructPa + 24 * (k * c + i) + 24 ≤ a) ∧
    a ≠ offloadChannelBasePa + (k * c + i) * pages * 4096 + 256

section Boot
variable {nNodes c opages ipages va k : ℕ}

theorem initLoop_spec (h : Holds k c opages ipages) {n : ℕ} (hn : n ≤ c) (mem : Mem) :
    (∀ i < n, initLoop k c opages ipages n mem (offloadChannelStructPa + 24 * (k * c + i)) =
        icqBaseVa k c opages ipages i ∧
      initLoop k c opages ipages n mem (offloadChannelStructPa + 24 * (k * c + i) + 8) =
        ocqBaseVa k c opages ipages i ∧
      initLoop k c opages ipages n mem (offloadChannelBasePa + (k * c + i) * (opages + ipages) * 4096 + 256) = 0) ∧
    ∀ a, Outside k c (opages + ipages) n a → initLoop k c opages ipages n mem a = mem a := by
  induction n with
  | zero => exact ⟨fun i hi => absurd hi (Nat.not_lt_zero i), fun a _ => rfl⟩
  | succ n ih =>
    obtain ⟨hold, hkeep⟩ := ih (Nat.le_of_succ_le hn)
    have htable := slot_table h hn
    have hpages := slot_pages h hn
    have hareas := areas
    have hva := channelVa_eq h hn
    obtain ⟨hin, hocq, hfree, hother⟩ := @initChannelAt_spec (initLoop k c opages ipages n mem) (channelVa k c n)
      (icqBaseVa k c opages ipages n) (ocqBaseVa k c opages ipages n) (offloadChannelStructPa + 24 * (k * c + n))
      (offloadChannelBasePa + (k * c + n) * (opages + ipages) * 4096 + 256)
      (by rw [hva, kernelPa_struct (by omega)])
      (by rw [hva, Nat.add_assoc, kernelPa_struct (by omega), Nat.add_assoc])
      (by rw [hva, Nat.add_assoc, kernelPa_struct (by omega), Nat.add_assoc])
      (by rw [icqBaseVa_eq h hn, Nat.add_assoc, kernelPa_base (by omega), Nat.add_assoc])
      (by omega)
    constructor
    · intro i hi
      rcases Nat.lt_succ_iff_lt_or_eq.mp hi with hlt | rfl
      · obtain ⟨hi1, hi2, hi3⟩ := hold i hlt
        refine ⟨(hother _ (by omega) (by omega)).trans hi1, (hother _ (by omega) (by omega)).trans hi2, ?_⟩
        -- without pages the lock word of an earlier channel is this one's
        by_cases hsame : offloadChannelBasePa + (k * c + i) * (opages + ipages) * 4096 + 256 =
            offloadChannelBasePa + (k * c + n) * (opages + ipages) * 4096 + 256
        · rw [hsame]
          exact hfree
        · exact (hother _ (by omega) hsame).trans hi3
      · exact ⟨hin, hocq, hfree⟩
    · intro a ha
      rw [initLoop, hother a (ha n (Nat.lt_succ_self n)).1 (ha n (Nat.lt_succ_self n)).2]
      exact hkeep a fun i hi => ha i (Nat.lt_succ_of_lt hi)

variable (h : Config nNodes c opages ipages va)
include h

theorem outside_info (hk : k < nNodes) {a : ℕ} (hlo : offloadChannelInfoPa ≤ a) (hhi : a < offloadChannelBasePa) :
    Outside k c (opages + ipages) c a := by
  intro i hi
  have hslot := slot_lt hk hi
  have htable := h.table
  have hareas := areas
  exact ⟨.inr (by omega), by omega⟩

theorem outside_slot {k' i' : ℕ} (hk' : k' < nNodes) (hne : k' ≠ k) (hi' : i' < c) {a : ℕ}
    (hlo : offloadChannelStructPa + 24 * (k' * c + i') ≤ a) (hhi : a < offloadChannelStructPa + 24 * (k' * c + i') + 24) :
    Outside k c (opages + ipages) c a := by
  intro i hi
  have hslot' := slot_lt hk' hi'
  have htable := h.table
  have hareas := areas
  have hdiff : k' * c + i' ≠ k * c + i := by
    intro he
    apply hne
    calc k' = (k' * c + i') / c := (slot_div hi').symm
      _ = (k * c + i) / c := by rw [he]
      _ = k := slot_div hi
  exact ⟨by omega, by omega⟩

theorem outside_size (hk : k < nNodes) {a : ℕ} (hlo : offloadChannelBasePa ≤ a) (ha : a % 4096 = 8) :
    Outside k c (opages + ipages) c a := by
  intro i hi
  have hslot := slot_lt hk hi
  have htable := h.table
  have hareas := areas
  exact ⟨.inr (by omega), by omega⟩

end Boot

theorem initOffloadChannel_eq {mem : Mem} (hmagic : mem offloadChannelInfoPa = offloadMagic) (memStart : ℕ) :
    let size := (toInt (mem (offloadChannelInfoPa + 8))).tdiv (toInt (mem (offloadChannelInfoPa + 32)))
    initOffloadChannel memStart mem =
      (initLoop (getOffloadId memStart) size (mem (offloadChannelInfoPa + 16)) (mem (offloadChannelInfoPa + 24)) size.toNat
        (Function.update mem (offloadChannelInfoPa + 40) ((mem (offloadChannelInfoPa + 40) + 1) % wordSize)),
       some ⟨getOffloadId memStart, size⟩) := by
  have hinfo : ∀ x ≤ 100 * 4096, kernelPa (offloadChannelInfoVa + x) = offloadChannelInfoPa + x :=
    fun x hx => kernelPa_info hx
  have hzero : kernelPa offloadChannelInfoVa = offloadChannelInfoPa := hinfo 0 (by omega)
  rw [initOffloadChannel, hzero, hinfo 8 (by omega), hinfo 16 (by omega), hinfo 24 (by omega), hinfo 32 (by omega),
    hinfo 40 (by omega)]
  exact if_neg (not_not.mpr hmagic)

theorem getOffloadId_eq {k : ℕ} (hk : k < 2 ^ 24) : getOffloadId (unikernelStart + k * memorysPerNode) = k := by
  simp only [getOffloadId, unikernelStart, memorysPerNode]
  rw [toInt_of_lt (by omega)]
  push_cast
  rw [add_sub_cancel_left]
  exact Int.mul_tdiv_cancel _ (by omega)

theorem channelSize_eq {nNodes c : ℕ} (hpos : 0 < nNodes) (hnodes : nNodes < 2 ^ 31) (hchannels : nNodes * c < 2 ^ 31) :
    (toInt (nNodes * c)).tdiv (toInt nNodes) = c := by
  rw [toInt_of_lt hchannels, toInt_of_lt hnodes, Nat.cast_mul]
  exact Int.mul_tdiv_cancel_left _ (by omega)

def boots (ks : List ℕ) (mem : Mem) : Mem :=
  ks.foldl (fun mem k => (initOffloadChannel (unikernelStart + k * memorysPerNode) mem).1) mem

structure Info (nNodes c : ℕ) (mem : Mem) : Prop where
  magic : mem offloadChannelInfoPa = offloadMagic
  channels : mem (offloadChannelInfoPa + 8) = nNodes * c
  nodes : mem (offloadChannelInfoPa + 32) = nNodes

structure Shared (nNodes c opages ipages : ℕ) (booted : ℕ → Prop) (mem : Mem) : Prop extends Info nNodes c mem where
  outPages : mem (offloadChannelInfoPa + 16) = opages
  inPages : mem (offloadChannelInfoPa + 24) = ipages
  sizes : ∀ o < nNodes * c, mem (offloadChannelBasePa + o * (opages + ipages) * 4096 + 8) = (opages - 1) / 2 ∧
    mem (offloadChannelBasePa + o * (opages + ipages) * 4096 + opages * 4096 + 8) = (ipages - 1) / 2
  queues : ∀ k, booted k → k < nNodes → ∀ i < c,
    mem (offloadChannelStructPa + 24 * (k * c + i)) = icqBaseVa k c opages ipages i ∧
    mem (offloadChannelStructPa + 24 * (k * c + i) + 8) = ocqBaseVa k c opages ipages i

namespace Shared
variable {nNodes c opages ipages va k : ℕ} {booted : ℕ → Prop} {mem : Mem} (h : Config nNodes c opages ipages va)
include h

theorem mmapped (mem : Mem) :
    Shared nNodes c opages ipages (fun _ => False) (mmapChannels va opages ipages nNodes (nNodes * c) mem) := by
  have hareas := areas
  refine ⟨⟨by rw [mmapChannels, Function.update_self], ?_, ?_⟩, ?_, ?_, ?_, fun k hk => hk.elim⟩
  · rw [mmapChannels_info h (by omega) (by omega), Function.update_of_ne (by omega), Function.update_of_ne (by omega),
      Function.update_of_ne (by omega), Function.update_self]
  · rw [mmapChannels_info h (by omega) (by omega), Function.update_self]
  · rw [mmapChannels_info h (by omega) (by omega), Function.update_of_ne (by omega), Function.update_of_ne (by omega),
      Function.update_self]
  · rw [mmapChannels_info h (by omega) (by omega), Function.update_of_ne (by omega), Function.update_self]
  · intro o ho
    rw [mmapChannels, Function.update_of_ne (by omega), Function.update_of_ne (by omega)]
    exact mmapLoop_sizes h le_rfl ho

theorem booted_eq (hm : Shared nNodes c opages ipages booted mem) (hk : k < nNodes) :
    (initOffloadChannel (unikernelStart + k * memorysPerNode) mem).1 = initLoop k c opages ipages c
      (Function.update mem (offloadChannelInfoPa + 40) ((mem (offloadChannelInfoPa + 40) + 1) % wordSize)) := by
  rw [initOffloadChannel_eq hm.magic, hm.channels, hm.outPages, hm.inPages, hm.nodes]
  rcases Nat.eq_zero_or_pos c with rfl | hc
  · rw [Nat.mul_zero, show toInt 0 = 0 from rfl, Int.zero_tdiv]
    rfl
  · have hchannels := h.channels_le
    have hle : nNodes ≤ nNodes * c := Nat.le_mul_of_pos_right _ hc
    rw [getOffloadId_eq (by omega), channelSize_eq (by omega) (by omega) (by omega), Int.toNat_natCast]

theorem boot (hm : Shared nNodes c opages ipages booted mem) (hk : k < nNodes) :
    Shared nNodes c opages ipages (fun k' => k' = k ∨ booted k')
      (initOffloadChannel (unikernelStart + k * memorysPerNode) mem).1 := by
  have hareas := areas
  obtain ⟨hnew, hkeep⟩ := initLoop_spec (h.holds hk) le_rfl
    (Function.update mem (offloadChannelInfoPa + 40) ((mem (offloadChannelInfoPa + 40) + 1) % wordSize))
  rw [← booted_eq h hm hk] at hnew hkeep
  generalize (initOffloadChannel (unikernelStart + k * memorysPerNode) mem).1 = mem' at hnew hkeep
  have hframe : ∀ a, a ≠ offloadChannelInfoPa + 40 → Outside k c (opages + ipages) c a → mem' a = mem a :=
    fun a hne ha => (hkeep a ha).trans (Function.update_of_ne hne ..)
  have hinfo : ∀ x < 40, mem' (offloadChannelInfoPa + x) = mem (offloadChannelInfoPa + x) :=
    fun x hx => hframe _ (by omega) (outside_info h hk (by omega) (by omega))
  refine ⟨⟨(hinfo 0 (by omega)).trans hm.magic, (hinfo 8 (by omega)).trans hm.channels,
    (hinfo 32 (by omega)).trans hm.nodes⟩, (hinfo 16 (by omega)).trans hm.outPages,
    (hinfo 24 (by omega)).trans hm.inPages, ?_, ?_⟩
  · intro o ho
    rw [hframe _ (by omega) (outside_size h hk (by omega) (by omega)),
      hframe _ (by omega) (outside_size h hk (by omega) (by omega))]
    exact hm.sizes o ho
  · intro k' hbooted hk' i hi
    by_cases hne : k' = k
    · subst hne
      exact ⟨(hnew i hi).1, (hnew i hi).2.1⟩
    · have hslot := slot_lt hk' hi
      have htable := h.table
      rw [hframe _ (by omega) (outside_slot h hk' hne hi le_rfl (by omega)),
        hframe _ (by omega) (outside_slot h hk' hne hi (by omega) (by omega))]
      exact hm.queues k' (hbooted.resolve_left hne) hk' i hi

theorem boots {ks : List ℕ} (hm : Shared nNodes c opages ipages booted mem) (hks : ∀ k ∈ ks, k < nNodes) :
    Shared nNodes c opages ipages (fun k => k ∈ ks ∨ booted k) (boots ks mem) := by
  induction ks generalizing booted mem with
  | nil => simpa [Layout.boots] using hm
  | cons k ks ih =>
    have hnext := ih (hm.boot h (hks k List.mem_cons_self)) fun k' hk' => hks k' (List.mem_cons_of_mem k hk')
    refine { hnext with queues := fun k' hbooted => hnext.queues k' ?_ }
    rcases hbooted with hmem | hbooted
    · rcases List.mem_cons.mp hmem with rfl | hmem
      · exact .inr (.inl rfl)
      · exact .inl hmem
    · exact .inr (.inr hbooted)

end Shared

def region (va opages ipages : ℕ) (q : ℕ × Bool) : Set ℕ :=
  if q.2 then Set.Ico (proxyPa va (outCq va opages ipages q.1)) (proxyPa va (outCq va opages ipages q.1) + outCqLen opages)
  else Set.Ico (proxyPa va (inCq va opages ipages q.1)) (proxyPa va (inCq va opages ipages q.1) + inCqLen ipages)

def nodeWalk (tables : Mem) (k v : ℕ) : Option ℕ :=
  walk (bootTables tables (nodeMemory k) (nodeMemory (k + 1)) sharedMemoryStart)
    (configKernelPagetableAddress (nodeMemory k)) v

structure Agrees (nNodes c opages ipages va : ℕ) (ks : List ℕ) (mem : Mem) : Prop where
  inQueue : ∀ k ∈ ks, ∀ i < c, ∀ tables, nodeWalk tables k (mem (kernelPa (offloadChannelStructVa + 24 * (k * c + i)))) =
    some (proxyPa va (outCq va opages ipages (k * c + i)))
  outQueue : ∀ k ∈ ks, ∀ i < c, ∀ tables,
    nodeWalk tables k (mem (kernelPa (offloadChannelStructVa + 24 * (k * c + i) + 8))) =
      some (proxyPa va (inCq va opages ipages (k * c + i)))
  disjoint : Set.PairwiseDisjoint {q : ℕ × Bool | q.1 < nNodes * c} (region va opages ipages)
  fits : ∀ o < nNodes * c,
    pageSize4K + mem (proxyPa va (outCq va opages ipages o) + 8) * cqEleSize = outCqLen opages ∧
    pageSize4K + mem (proxyPa va (inCq va opages ipages o) + 8) * cqEleSize = inCqLen ipages

theorem nodeWalk_shared {k o : ℕ} (hk : k < 2 ^ 17) (hlo : 2 ^ 30 ≤ o) (hhi : o < 3 * 2 ^ 30) (tables : Mem) :
    nodeWalk tables k (configSharedMemory + o) = some (125 * 2 ^ 30 + o) := by
  have hs : 2 ^ 30 ∣ nodeMemory k := by
    rw [Handover.nodeMemory_eq]
    exact Nat.dvd_mul_left ..
  have hlt : nodeMemory k < wordSize := by
    rw [Handover.nodeMemory_eq]
    simp only [wordSize]
    omega
  obtain ⟨hshared, -⟩ := memoryLayout
  have hsh : 2 ^ 30 ∣ sharedMemoryStart := by
    rw [hshared]
    exact Nat.dvd_mul_left ..
  rw [nodeWalk, bootTables_walk_shared hs hlt hsh (by simp only [pageSize1G]; omega),
    if_neg (by simp only [pageSize1G]; omega), hshared, Nat.mod_eq_of_lt (by simp only [wordSize]; omega)]

section Regions
variable {nNodes c opages ipages va : ℕ} (h : Config nNodes c opages ipages va)
include h

theorem region_eq {q : ℕ × Bool} (hq : q.1 < nNodes * c) : region va opages ipages q =
    if q.2 then Set.Ico (offloadChannelBasePa + q.1 * (opages + ipages) * 4096)
      (offloadChannelBasePa + q.1 * (opages + ipages) * 4096 + opages * 4096)
    else Set.Ico (offloadChannelBasePa + q.1 * (opages + ipages) * 4096 + opages * 4096)
      (offloadChannelBasePa + q.1 * (opages + ipages) * 4096 + (opages + ipages) * 4096) := by
  have hout := h.out
  have hin := h.inn
  have houtLen : outCqLen opages = opages * 4096 := Nat.mod_eq_of_lt (by simp only [wordSize, pageSize4K]; omega)
  have hinLen : inCqLen ipages = ipages * 4096 := Nat.mod_eq_of_lt (by simp only [wordSize, pageSize4K]; omega)
  rw [region, h.outPa hq, h.inPa hq, houtLen, hinLen, Nat.add_assoc _ (opages * 4096), ← Nat.add_mul]

theorem region_span {q : ℕ × Bool} (hq : q.1 < nNodes * c) : region va opages ipages q ⊆
    Set.Ico (offloadChannelBasePa + q.1 * (opages + ipages) * 4096)
      (offloadChannelBasePa + q.1 * (opages + ipages) * 4096 + (opages + ipages) * 4096) := by
  rw [region_eq h hq]
  split
  · exact Set.Ico_subset_Ico_right (by omega)
  · exact Set.Ico_subset_Ico_left (by omega)

theorem region_disjoint {q r : ℕ × Bool} (hq : q.1 < nNodes * c) (hr : r.1 < nNodes * c)
    (hlt : q.1 < r.1 ∨ q.1 = r.1 ∧ q.2 = true ∧ r.2 = false) :
    Disjoint (region va opages ipages q) (region va opages ipages r) := by
  rcases hlt with hlt | ⟨heq, hqt, hrf⟩
  · have hspan := @Config.span opages ipages _ _ hlt
    refine Disjoint.mono (region_span h hq) (region_span h hr) ?_
    exact Set.Ico_disjoint_Ico.mpr (by omega)
  · rw [region_eq h hq, region_eq h hr, hqt, hrf, heq]
    exact Set.Ico_disjoint_Ico_same

theorem regions_disjoint : Set.PairwiseDisjoint {q : ℕ × Bool | q.1 < nNodes * c} (region va opages ipages) := by
  intro q hq r hr hne
  have horder : (q.1 < r.1 ∨ q.1 = r.1 ∧ q.2 = true ∧ r.2 = false) ∨ (r.1 < q.1 ∨ r.1 = q.1 ∧ r.2 = true ∧ q.2 = false) := by
    obtain ⟨o, b⟩ := q
    obtain ⟨o', b'⟩ := r
    rcases Nat.lt_trichotomy o o' with hlt | rfl | hlt
    · exact .inl (.inl hlt)
    · cases b <;> cases b' <;> simp_all
    · exact .inr (.inl hlt)
  rcases horder with horder | horder
  · exact region_disjoint h hq hr horder
  · exact (region_disjoint h hr hq horder).symm

end Regions

theorem channels_agree {nNodes c opages ipages va : ℕ} (h : Config nNodes c opages ipages va) {ks : List ℕ}
    (hks : ∀ k ∈ ks, k < nNodes) (mem : Mem) :
    Agrees nNodes c opages ipages va ks (boots ks (mmapChannels va opages ipages nNodes (nNodes * c) mem)) := by
  have hm := (Shared.mmapped h mem).boots h hks
  generalize boots ks (mmapChannels va opages ipages nNodes (nNodes * c) mem) = mem' at hm
  have hout := h.out
  have hin := h.inn
  have htable := h.table
  have hchannels := h.channels_le
  have hbase := addresses
  have hnodes {i : ℕ} (hi : i < c) : nNodes ≤ nNodes * c := Nat.le_mul_of_pos_right _ (by omega)
  refine ⟨?_, ?_, regions_disjoint h, ?_⟩
  · intro k hmem i hi tables
    have hk := hks k hmem
    have hslot := slot_lt hk hi
    have hpages := slot_pages (h.holds hk) hi
    have hle := hnodes hi
    rw [kernelPa_struct (by omega), (hm.queues k (.inl hmem) hk i hi).1, icqBaseVa_eq (h.holds hk) hi, h.outPa hslot,
      hbase.2.2.2.2.2, hbase.2.2.1, Nat.add_assoc, nodeWalk_shared (by omega) (by omega) (by omega), ← Nat.add_assoc]
    rfl
  · intro k hmem i hi tables
    have hk := hks k hmem
    have hslot := slot_lt hk hi
    have hpages := slot_pages (h.holds hk) hi
    have hle := hnodes hi
    rw [Nat.add_assoc, kernelPa_struct (by omega), ← Nat.add_assoc, (hm.queues k (.inl hmem) hk i hi).2,
      ocqBaseVa_eq (h.holds hk) hi, h.inPa hslot, hbase.2.2.2.2.2, hbase.2.2.1, Nat.add_assoc, Nat.add_assoc,
      nodeWalk_shared (by omega) (by omega) (by omega)]
    congr 1
    omega
  · intro o ho
    obtain ⟨houtSize, hinSize⟩ := hm.sizes o ho
    rw [h.outPa ho, h.inPa ho, houtSize, hinSize]
    simp only [outCqLen, inCqLen, pageSize4K, cqEleSize, wordSize]
    omega

theorem two_nodes_config : Config 2 24 2049 513 0x7E0000000000 := by
  refine ⟨by decide, by decide, ?_, by decide, by decide⟩
  rw [addresses.2.2.1]
  decide

theorem two_nodes_agree : Agrees 2 24 2049 513 0x7E0000000000 [1, 0]
    (boots [1, 0] (mmapChannels 0x7E0000000000 2049 513 2 48 fun _ => 0xA5)) :=
  channels_agree two_nodes_config (by decide) _

end Layout

end Azalea
