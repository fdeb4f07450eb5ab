import Azalea.Offload.Layout
import Azalea.Smp.ApicId

namespace Azalea

def cpusPerNode : ℕ := 24

def maxUnikernel : ℕ := 100

namespace Ownership
open Layout

structure Resources where
  coreStart : ℕ
  coreEnd : ℕ
  memoryStart : ℕ
  memoryEnd : ℕ
  gTotal : UInt16
  gKernel32 : UInt16
deriving DecidableEq, Repr

def allocUkid (gUkid : ℕ → Bool) : Option (ℕ × (ℕ → Bool)) :=
  ((List.range maxUnikernel).find? fun i => !gUkid i).map fun i => (i, Function.update gUkid i true)

-- start_index is an unsigned int, so the comparison with -1 is one with 2 ^ 32 - 1
def resources (gParam : Fin 7 → UInt16) : Resources :=
  let startIndex := (gParam 0).toNat
  { coreStart := if gParam 1 = 0 then cpusPerNode else (gParam 1).toNat
    coreEnd := 0
    memoryStart :=
      if startIndex ≠ 2 ^ 32 - 1 then (unikernelStart + startIndex * memorysPerNode) % 2 ^ 32 else (gParam 3).toNat
    memoryEnd :=
      if startIndex ≠ 2 ^ 32 - 1 then (unikernelStart + (startIndex + 1) * memorysPerNode) % 2 ^ 32
      else (gParam 4).toNat
    gTotal := gParam 5
    gKernel32 := gParam 6 }

def initUnikernelResources (gUkid : ℕ → Bool) (gParam : Fin 7 → UInt16) : Option (ℕ × (ℕ → Bool) × Resources) :=
  (allocUkid gUkid).map fun (ukid, gUkid) => (ukid, gUkid, resources gParam)

theorem initUnikernelResources_eq {gUkid gUkid' : ℕ → Bool} {gParam : Fin 7 → UInt16} {ukid : ℕ} {r : Resources}
    (h : initUnikernelResources gUkid gParam = some (ukid, gUkid', r)) : r = resources gParam := by
  obtain ⟨x, -, hx⟩ := Option.map_eq_some_iff.mp h
  exact (congrArg (·.2.2) hx).symm

theorem resources_memoryStart (gParam : Fin 7 → UInt16) :
    (resources gParam).memoryStart = unikernelStart + (gParam 0).toNat * memorysPerNode := by
  have hlt := (gParam 0).toNat_lt
  simp only [resources, unikernelStart, memorysPerNode]
  rw [if_pos (by omega)]
  omega

def getApicId (listApicId : ℕ → ℤ) (papicId : ℕ) : ℕ := intToQword (listApicId papicId)

def getOffloadChannel (st : OffloadState) (listApicId : ℕ → ℤ) (papicId : ℕ) : ℕ :=
  let index := (intToQword (st.gNodeId * st.gChannelSize) + getApicId listApicId papicId) % wordSize
  (offloadChannelStructVa + 24 * index) % wordSize

abbrev Cores (r : Resources) : Type := Fin r.coreStart

def Booted {ι : Type*} (s : ApicId ι) (core : ι) : Prop := ∃ rax, s.pc core = .returned rax

section
variable (nNodes : ℕ) (res : ℕ → Resources) (apicid : ∀ k, Cores (res k) → ℕ) (offload : ℕ → OffloadState)
  (s : ∀ k, ApicId (Cores (res k)))

def channelOf (x : (k : ℕ) × Cores (res k)) : ℕ :=
  getOffloadChannel (offload x.1) (s x.1).listApicId (apicid x.1 x.2)

structure Owned : Prop where
  own : ∀ k < nNodes, ∀ core, Booted (s k) core → ∃ i : ℕ, k * (offload k).gChannelSize ≤ i ∧
    i < (k + 1) * (offload k).gChannelSize ∧
    channelOf res apicid offload s ⟨k, core⟩ = offloadChannelStructVa + 24 * i
  distinct : ∀ x y : (k : ℕ) × Cores (res k), x.1 < nNodes → y.1 < nNodes → Booted (s x.1) x.2 →
    Booted (s y.1) y.2 → x ≠ y → channelOf res apicid offload s x ≠ channelOf res apicid offload s y

end

theorem Booted.numbered {ι : Type*} {s : ApicId ι} {core : ι} (h : Booted s core) : s.Numbered core := by
  obtain ⟨rax, hpc⟩ := h
  simp [ApicId.Numbered, hpc]

section Node
variable {nNodes c k : ℕ} (hnodes : nNodes < 2 ^ 31) (hchannels : nNodes * c < 2 ^ 31) (hk : k < nNodes)
include hnodes hchannels hk

theorem state_eq {mem : Mem} (h : Info nNodes c mem) {gParam : Fin 7 → UInt16} (hindex : (gParam 0).toNat = k) :
    (initOffloadChannel (resources gParam).memoryStart mem).2 = some ⟨k, c⟩ := by
  have hlt := (gParam 0).toNat_lt
  rw [initOffloadChannel_eq h.magic, h.channels, h.nodes, resources_memoryStart, hindex, getOffloadId_eq (by omega),
    channelSize_eq (by omega) hnodes hchannels]

omit hnodes in
theorem getOffloadChannel_eq {listApicId : ℕ → ℤ} {papicId j : ℕ} (hj : listApicId papicId = j) (hlt : j < maxPapicId) :
    getOffloadChannel ⟨k, c⟩ listApicId papicId = offloadChannelStructVa + 24 * (k * c + j) := by
  have hle : k * c ≤ nNodes * c := Nat.mul_le_mul_right _ hk.le
  simp only [maxPapicId] at hlt
  have hbase : intToQword ((k : ℤ) * c) = k * c := by
    exact_mod_cast intToQword_of_nat (by omega : k * c < 2 ^ 64)
  rw [getOffloadChannel, getApicId, hj, intToQword_of_nat (by omega)]
  dsimp only
  rw [hbase, addresses.2.2.2.1]
  simp only [configSharedMemory, wordSize]
  omega

end Node

section Cluster
variable {nNodes c : ℕ} {res : ℕ → Resources} {apicid : ∀ k, Cores (res k) → ℕ} {offload : ℕ → OffloadState}
  {s : ∀ k, ApicId (Cores (res k))} (hchannels : nNodes * c < 2 ^ 31) (hid : ∀ k, Function.Injective (apicid k))
  (hlt : ∀ k core, apicid k core < maxPapicId) (hoff : ∀ k < nNodes, offload k = ⟨k, c⟩)
include hchannels hid hlt hoff

theorem channelOf_eq {k : ℕ} (hk : k < nNodes) {order : List (Cores (res k))} (h : (s k).Order (apicid k) order)
    {core : Cores (res k)} (hb : Booted (s k) core) : ∃ j : ℕ, j < order.length ∧
      (s k).listApicId (apicid k core) = j ∧
      channelOf res apicid offload s ⟨k, core⟩ = offloadChannelStructVa + 24 * (k * c + j) := by
  obtain ⟨j, hj, -, hentry⟩ := h.place hb.numbered
  refine ⟨j, hj, hentry, ?_⟩
  rw [channelOf, hoff k hk]
  exact getOffloadChannel_eq hchannels hk hentry (hj.trans_le (h.length_le (hid k) (hlt k)))

theorem owned_of_le (hcores : ∀ k < nNodes, (res k).coreStart ≤ c)
    (horder : ∀ k < nNodes, ∃ order, (s k).Order (apicid k) order) : Owned nNodes res apicid offload s := by
  have hplace : ∀ k < nNodes, ∀ core, Booted (s k) core → ∃ j : ℕ, j < c ∧ (s k).listApicId (apicid k core) = j ∧
      channelOf res apicid offload s ⟨k, core⟩ = offloadChannelStructVa + 24 * (k * c + j) := by
    intro k hk core hb
    obtain ⟨order, h⟩ := horder k hk
    obtain ⟨j, hj, hentry, hch⟩ := channelOf_eq hchannels hid hlt hoff hk h hb
    have hcard := h.nodup.length_le_card
    rw [Fintype.card_fin] at hcard
    exact ⟨j, hj.trans_le (hcard.trans (hcores k hk)), hentry, hch⟩
  constructor
  · intro k hk core hb
    obtain ⟨j, hj, -, hch⟩ := hplace k hk core hb
    refine ⟨k * c + j, ?_, ?_, hch⟩
    · rw [hoff k hk]
      push_cast
      exact Int.le_add_of_nonneg_right (Int.natCast_nonneg j)
    · rw [hoff k hk]
      push_cast
      rw [add_mul, one_mul]
      exact Int.add_lt_add_left (by exact_mod_cast hj) _
  · rintro ⟨k, core⟩ ⟨k', core'⟩ hk hk' hb hb' hne he
    obtain ⟨j, hj, hentry, hch⟩ := hplace k hk core hb
    obtain ⟨j', hj', hentry', hch'⟩ := hplace k' hk' core' hb'
    have hslot : k * c + j = k' * c + j' := by
      rw [hch, hch'] at he
      omega
    obtain rfl : k = k' := by
      calc k = (k * c + j) / c := (slot_div hj).symm
        _ = (k' * c + j') / c := by rw [hslot]
        _ = k' := slot_div hj'
    obtain rfl : j = j' := Nat.add_left_cancel hslot
    obtain ⟨order, h⟩ := horder k hk
    exact hne (congrArg (Sigma.mk k) (h.listApicId_inj hb.numbered hb'.numbered (hentry.trans hentry'.symm)))

theorem le_of_owned (horder : ∀ k < nNodes, ∃ order, (s k).Order (apicid k) order)
    (hall : ∀ k < nNodes, ∀ core, Booted (s k) core) (h : Owned nNodes res apicid offload s) :
    ∀ k < nNodes, (res k).coreStart ≤ c := by
  intro k hk
  by_contra hgt
  obtain ⟨order, ho⟩ := horder k hk
  have hlen : c < order.length := by
    have hsub : (Finset.univ : Finset (Cores (res k))) ⊆ order.toFinset :=
      fun core _ => List.mem_toFinset.mpr (ho.mem.mpr (hall k hk core).numbered)
    have hcard := (Finset.card_le_card hsub).trans order.toFinset_card_le
    rw [Finset.card_univ, Fintype.card_fin] at hcard
    omega
  obtain ⟨core, hcore⟩ : ∃ core, order[c]? = some core := ⟨order[c], List.getElem?_eq_getElem hlen⟩
  obtain ⟨j, -, hentry, hch⟩ := channelOf_eq hchannels hid hlt hoff hk ho (hall k hk core)
  obtain rfl : c = j := by exact_mod_cast (ho.entry hcore).symm.trans hentry
  obtain ⟨i, -, hi, hown⟩ := h.own k hk core (hall k hk core)
  have hle : i < k * c + c := by
    simp only [hoff k hk, add_mul, one_mul] at hi
    exact_mod_cast hi
  rw [hch] at hown
  omega

end Cluster

theorem run_owned_iff {nNodes c : ℕ} (hnodes : nNodes < 2 ^ 31) (hchannels : nNodes * c < 2 ^ 31)
    {gParam : ℕ → Fin 7 → UInt16} (hindex : ∀ k < nNodes, (gParam k 0).toNat = k) {gUkid gUkid' : ℕ → ℕ → Bool}
    {ukid : ℕ → ℕ} {res : ℕ → Resources}
    (hres : ∀ k < nNodes, initUnikernelResources (gUkid k) (gParam k) = some (ukid k, gUkid' k, res k))
    {apicid : ∀ k, Cores (res k) → ℕ} (hid : ∀ k, Function.Injective (apicid k))
    (hlt : ∀ k core, apicid k core < maxPapicId) {mem : ℕ → Mem} (hinfo : ∀ k < nNodes, Info nNodes c (mem k))
    {offload : ℕ → OffloadState}
    (hoff : ∀ k < nNodes, (initOffloadChannel (res k).memoryStart (mem k)).2 = some (offload k)) :
    (∀ s : ∀ k, ApicId (Cores (res k)),
      (∀ k < nNodes, Relation.ReflTransGen (ApicId.Step (apicid k) fun _ _ => True) ApicId.start (s k)) →
      Owned nNodes res apicid offload s) ↔
    ∀ k < nNodes, (res k).coreStart ≤ c := by
  have hstate : ∀ k < nNodes, offload k = ⟨k, c⟩ := by
    intro k hk
    have hsome := hoff k hk
    rw [initUnikernelResources_eq (hres k hk), state_eq hnodes hchannels hk (hinfo k hk) (hindex k hk)] at hsome
    exact (Option.some_inj.mp hsome).symm
  constructor
  · intro howned
    choose s hrun hall using fun k => ApicId.exists_all_returned (apicid k)
    exact le_of_owned hchannels hid hlt hstate (fun k _ => ApicId.Order.run (hid k) (hrun k)) (fun k _ => hall k)
      (howned s fun k _ => hrun k)
  · intro hcores s hrun
    exact owned_of_le hchannels hid hlt hstate hcores fun k hk => ApicId.Order.run (hid k) (hrun k hk)

def twoCores (k : ℕ) : Resources := resources ![UInt16.ofNat k, 2, 0, 0, 0, 0, 0]

def firstCore (k : ℕ) : Cores (twoCores k) := ⟨0, show 0 < 2 by decide⟩

def secondCore (k : ℕ) : Cores (twoCores k) := ⟨1, show 1 < 2 by decide⟩

def twoPapicIds (k : ℕ) (core : Cores (twoCores k)) : ℕ := core.val

def ukids : ℕ → ℕ → Bool
  | 0 => fun _ => false
  | k + 1 => Function.update (ukids k) k true

def infoPage (nNodes c : ℕ) : Mem := fun a =>
  if a = offloadChannelInfoPa then offloadMagic
  else if a = offloadChannelInfoPa + 8 then nNodes * c
  else if a = offloadChannelInfoPa + 32 then nNodes else 0

theorem infoPage_info (nNodes c : ℕ) : Info nNodes c (infoPage nNodes c) := by
  constructor <;> simp [infoPage]

theorem twoCores_booted {k : ℕ} (hk : k < 2) :
    initUnikernelResources (ukids k) ![UInt16.ofNat k, 2, 0, 0, 0, 0, 0] = some (k, ukids (k + 1), twoCores k) := by
  interval_cases k <;> rfl

theorem twoCores_index {k : ℕ} (hk : k < 2) : (![UInt16.ofNat k, 2, 0, 0, 0, 0, 0] 0).toNat = k := by
  interval_cases k <;> rfl

theorem twoPapicIds_lt (k : ℕ) (core : Cores (twoCores k)) : twoPapicIds k core < maxPapicId :=
  Nat.lt_trans core.isLt (show 2 < 600 by omega)

theorem two_cores_two_channels_owned : (∀ k < 2, (twoCores k).coreStart ≤ 2) ∧
    ∀ s : ∀ k, ApicId (Cores (twoCores k)),
      (∀ k < 2, Relation.ReflTransGen (ApicId.Step (twoPapicIds k) fun _ _ => True) ApicId.start (s k)) →
        Owned 2 twoCores twoPapicIds (fun k => ⟨k, 2⟩) s := by
  have hcores : ∀ k < 2, (twoCores k).coreStart ≤ 2 := fun k _ => le_refl 2
  refine ⟨hcores, (run_owned_iff (by decide) (by decide) (fun k hk => twoCores_index hk) (fun k hk => twoCores_booted hk)
    (fun k => Fin.val_injective) twoPapicIds_lt (fun k _ => infoPage_info 2 2) ?_).mpr hcores⟩
  exact fun k hk => state_eq (by decide) (by decide) hk (infoPage_info 2 2) (twoCores_index hk)

theorem two_cores_one_channel_shared : ∃ s : ∀ k, ApicId (Cores (twoCores k)),
    (∀ k < 2, Relation.ReflTransGen (ApicId.Step (twoPapicIds k) fun _ _ => True) ApicId.start (s k)) ∧
    (∀ k < 2, initUnikernelResources (ukids k) ![UInt16.ofNat k, 2, 0, 0, 0, 0, 0] =
      some (k, ukids (k + 1), twoCores k)) ∧
    (∀ k < 2, (initOffloadChannel (twoCores k).memoryStart (infoPage 2 1)).2 = some ⟨k, 1⟩) ∧
    channelOf twoCores twoPapicIds (fun k => ⟨k, 1⟩) s ⟨0, secondCore 0⟩ =
      channelOf twoCores twoPapicIds (fun k => ⟨k, 1⟩) s ⟨1, firstCore 1⟩ ∧
    ¬ Owned 2 twoCores twoPapicIds (fun k => ⟨k, 1⟩) s := by
  have hboot : ∀ k, ∃ s : ApicId (Cores (twoCores k)),
      Relation.ReflTransGen (ApicId.Step (twoPapicIds k) fun _ _ => True) ApicId.start s ∧
      s.pc (firstCore k) = .returned 1 ∧ s.pc (secondCore k) = .returned 2 ∧ s.listApicId 0 = 0 ∧ s.listApicId 1 = 1 := by
    intro k
    exact ⟨_, .head (.lock (firstCore k) rfl rfl) <| .head (.assign (firstCore k) rfl trivial) <|
      .head (.unlock (firstCore k) rfl) <| .head (.read (firstCore k) rfl) <| .head (.lock (secondCore k) rfl rfl) <|
      .head (.assign (secondCore k) rfl trivial) <| .head (.unlock (secondCore k) rfl) <|
      .head (.read (secondCore k) rfl) .refl, rfl, rfl, rfl, rfl⟩
  choose s hrun hfirst hsecond hzero hone using hboot
  have hsame : channelOf twoCores twoPapicIds (fun k => ⟨k, 1⟩) s ⟨0, secondCore 0⟩ =
      channelOf twoCores twoPapicIds (fun k => ⟨k, 1⟩) s ⟨1, firstCore 1⟩ := by
    simp only [channelOf, twoPapicIds, firstCore, secondCore, getOffloadChannel, getApicId, hzero, hone]
    rfl
  refine ⟨s, fun k _ => hrun k, fun k hk => twoCores_booted hk, fun k hk => state_eq (by decide) (by decide) hk (infoPage_info 2 1) (twoCores_index hk),
    hsame, fun h => ?_⟩
  exact h.distinct _ _ (by decide) (by decide) ⟨2, hsecond 0⟩ ⟨1, hfirst 1⟩ (by simp) hsame

end Ownership

end Azalea
