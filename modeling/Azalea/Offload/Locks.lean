import Azalea.Offload.Layout

namespace Azalea

namespace Layout

-- nobody else touches the word meanwhile; a value that is neither 0 nor TRUE is tried again as well
def spinlockLock (mem : Mem) (lock : ℕ) : ℕ → Option Mem
  | 0 => none
  | fuel + 1 =>
    if mem lock = 1 then spinlockLock mem lock fuel
    else if mem lock = 0 then some (Function.update mem lock 1)
    else spinlockLock mem lock fuel

structure Unlocked (mem : Mem) (lock : ℕ) : Prop where
  free : mem lock = 0
  taken : ∃ fuel, spinlockLock mem lock fuel = some (Function.update mem lock 1)

theorem unlocked_iff {mem : Mem} {lock : ℕ} : Unlocked mem lock ↔ mem lock = 0 := by
  refine ⟨Unlocked.free, fun h => ⟨h, 1, ?_⟩⟩
  rw [spinlockLock, if_neg (by omega), if_pos h]

def slockPa (cq : ℕ) : ℕ := kernelPa (cq + 256)

namespace OffloadState

def channel (st : OffloadState) (i : ℕ) : ℕ := channelVa st.gNodeId st.gChannelSize i

def inLock (st : OffloadState) (mem : Mem) (i : ℕ) : ℕ := slockPa (mem (kernelPa (st.channel i)))

def outLock (st : OffloadState) (mem : Mem) (i : ℕ) : ℕ := slockPa (mem (kernelPa (st.channel i + 8)))

def LocksFree (st : OffloadState) (mem : Mem) : Prop :=
  ∀ i < st.gChannelSize.toNat, Unlocked mem (st.inLock mem i) ∧ Unlocked mem (st.outLock mem i)

structure Fits (st : OffloadState) (nIpages nOpages : ℕ) : Prop where
  node : 0 ≤ st.gNodeId
  holds : Holds st.gNodeId.toNat st.gChannelSize.toNat nIpages nOpages

def OutLocksClear (st : OffloadState) (nIpages nOpages : ℕ) (mem : Mem) : Prop :=
  ∀ i < st.gChannelSize.toNat, mem (slockPa (ocqBaseVa st.gNodeId st.gChannelSize nIpages nOpages i)) = 0 ∨
    ∃ j < st.gChannelSize.toNat, slockPa (ocqBaseVa st.gNodeId st.gChannelSize nIpages nOpages i) =
      slockPa (icqBaseVa st.gNodeId st.gChannelSize nIpages nOpages j)

end OffloadState

section Slock
variable {k c nIpages nOpages i : ℕ} (h : Holds k c nIpages nOpages) (hi : i < c)
include h hi

theorem slockPa_icq : slockPa (icqBaseVa k c nIpages nOpages i) =
    offloadChannelBasePa + (k * c + i) * (nIpages + nOpages) * 4096 + 256 := by
  have hpages := slot_pages h hi
  rw [slockPa, icqBaseVa_eq h hi, Nat.add_assoc, kernelPa_base (by omega), Nat.add_assoc]

theorem slockPa_ocq : slockPa (ocqBaseVa k c nIpages nOpages i) =
    offloadChannelBasePa + (k * c + i) * (nIpages + nOpages) * 4096 + nIpages * 4096 + 256 := by
  have hpages := slot_pages h hi
  rw [Nat.add_mul nIpages] at hpages
  rw [slockPa, ocqBaseVa_eq h hi, Nat.add_assoc, Nat.add_assoc, kernelPa_base (by omega), ← Nat.add_assoc,
    ← Nat.add_assoc]

variable (mem : Mem)

theorem initLoop_inLock : slockPa (initLoop k c nIpages nOpages c mem (kernelPa (channelVa k c i))) =
    slockPa (icqBaseVa k c nIpages nOpages i) := by
  have htable := slot_table h hi
  rw [channelVa_eq h hi, kernelPa_struct (by omega), (((initLoop_spec h le_rfl mem).1 i hi).1)]

theorem initLoop_outLock : slockPa (initLoop k c nIpages nOpages c mem (kernelPa (channelVa k c i + 8))) =
    slockPa (ocqBaseVa k c nIpages nOpages i) := by
  have htable := slot_table h hi
  rw [channelVa_eq h hi, Nat.add_assoc, kernelPa_struct (by omega), ← Nat.add_assoc,
    (((initLoop_spec h le_rfl mem).1 i hi).2.1)]

theorem initLoop_in_free : initLoop k c nIpages nOpages c mem (slockPa (icqBaseVa k c nIpages nOpages i)) = 0 := by
  rw [slockPa_icq h hi]
  exact ((initLoop_spec h le_rfl mem).1 i hi).2.2

theorem initLoop_out_free : initLoop k c nIpages nOpages c mem (slockPa (ocqBaseVa k c nIpages nOpages i)) = 0 ↔
    mem (slockPa (ocqBaseVa k c nIpages nOpages i)) = 0 ∨
      ∃ j < c, slockPa (ocqBaseVa k c nIpages nOpages i) = slockPa (icqBaseVa k c nIpages nOpages j) := by
  by_cases hsame : ∃ j < c, slockPa (ocqBaseVa k c nIpages nOpages i) = slockPa (icqBaseVa k c nIpages nOpages j)
  · obtain ⟨j, hj, he⟩ := hsame
    refine iff_of_true ?_ (.inr ⟨j, hj, he⟩)
    rw [he]
    exact initLoop_in_free h hj mem
  · have hout : Outside k c (nIpages + nOpages) c (slockPa (ocqBaseVa k c nIpages nOpages i)) := by
      intro j hj
      have htable := slot_table h hj
      have hareas := areas
      have hne : slockPa (ocqBaseVa k c nIpages nOpages i) ≠ slockPa (icqBaseVa k c nIpages nOpages j) :=
        fun he => hsame ⟨j, hj, he⟩
      rw [slockPa_icq h hj] at hne
      refine ⟨.inr ?_, hne⟩
      rw [slockPa_ocq h hi]
      omega
    rw [(initLoop_spec h le_rfl mem).2 _ hout]
    exact (or_iff_left hsame).symm

end Slock

open OffloadState

theorem initOffloadChannel_some {memStart : ℕ} {mem mem' : Mem} {st : OffloadState}
    (hinit : initOffloadChannel memStart mem = (mem', some st)) :
    mem' = initLoop st.gNodeId st.gChannelSize (mem (offloadChannelInfoPa + 16)) (mem (offloadChannelInfoPa + 24))
      st.gChannelSize.toNat
      (Function.update mem (offloadChannelInfoPa + 40) ((mem (offloadChannelInfoPa + 40) + 1) % wordSize)) := by
  have hzero : kernelPa offloadChannelInfoVa = offloadChannelInfoPa := kernelPa_info (x := 0) (by omega)
  have hmagic : mem offloadChannelInfoPa = offloadMagic := by
    by_contra hne
    rw [initOffloadChannel, hzero, if_pos hne] at hinit
    cases hinit
  rw [initOffloadChannel_eq hmagic] at hinit
  cases hinit
  rfl

theorem locksFree_iff {memStart : ℕ} {mem mem' : Mem} {st : OffloadState}
    (hinit : initOffloadChannel memStart mem = (mem', some st))
    (hfits : st.Fits (mem (offloadChannelInfoPa + 16)) (mem (offloadChannelInfoPa + 24))) :
    st.LocksFree mem' ↔
      st.OutLocksClear (mem (offloadChannelInfoPa + 16)) (mem (offloadChannelInfoPa + 24)) mem := by
  have hmem := initOffloadChannel_some hinit
  obtain ⟨hnode, h⟩ := hfits
  generalize mem (offloadChannelInfoPa + 16) = nIpages at *
  generalize mem (offloadChannelInfoPa + 24) = nOpages at *
  subst hmem
  obtain ⟨node, size⟩ := st
  refine forall₂_congr fun i hi => ?_
  obtain ⟨k, rfl⟩ := Int.eq_ofNat_of_zero_le hnode
  obtain ⟨c, rfl⟩ := Int.eq_ofNat_of_zero_le (Int.lt_toNat.mp (Nat.zero_lt_of_lt hi)).le
  simp only [Int.toNat_natCast] at h hi ⊢
  have hareas := areas
  have hlock := slockPa_ocq h hi
  rw [unlocked_iff, unlocked_iff, inLock, outLock, channel, initLoop_inLock h hi, initLoop_outLock h hi,
    initLoop_out_free h hi, Function.update_of_ne (by omega)]
  exact and_iff_right (initLoop_in_free h hi _)

def oneChannel (left : ℕ) : Mem := mmapChannels 0x7E0000000000 3 3 1 1 fun _ => left

theorem oneChannel_config : Config 1 1 3 3 0x7E0000000000 := by
  refine ⟨by decide, by decide, ?_, by decide, by decide⟩
  rw [addresses.2.2.1]
  decide

theorem oneChannel_fits (left : ℕ) : OffloadState.Fits ⟨0, 1⟩ (oneChannel left (offloadChannelInfoPa + 16))
    (oneChannel left (offloadChannelInfoPa + 24)) := by
  have hm := Shared.mmapped oneChannel_config fun _ => left
  rw [oneChannel, hm.outPages, hm.inPages]
  exact ⟨le_rfl, oneChannel_config.holds Nat.one_pos⟩

theorem oneChannel_boots (left : ℕ) : (initOffloadChannel unikernelStart (oneChannel left)).2 = some ⟨0, 1⟩ := by
  have hm := Shared.mmapped oneChannel_config fun _ => left
  rw [oneChannel, initOffloadChannel_eq hm.magic, hm.channels, hm.nodes]
  rfl

theorem cleared_channel_unlocked : LocksFree ⟨0, 1⟩ (initOffloadChannel unikernelStart (oneChannel 0)).1 := by
  refine (locksFree_iff (Prod.ext rfl (oneChannel_boots 0)) (oneChannel_fits 0)).mpr fun i hi => .inl ?_
  obtain rfl : i = 0 := Nat.lt_one_iff.mp hi
  decide +kernel

theorem stale_lock_stays : ∃ st, (initOffloadChannel unikernelStart (oneChannel 1)).2 = some st ∧
    st.Fits (oneChannel 1 (offloadChannelInfoPa + 16)) (oneChannel 1 (offloadChannelInfoPa + 24)) ∧
    ¬ st.LocksFree (initOffloadChannel unikernelStart (oneChannel 1)).1 := by
  refine ⟨⟨0, 1⟩, oneChannel_boots 1, oneChannel_fits 1, fun hfree => ?_⟩
  have hout := (hfree 0 (by decide)).2.free
  revert hout
  decide +kernel

end Layout

end Azalea
