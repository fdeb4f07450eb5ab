import Azalea.Shm.Ownership

namespace Azalea

structure LockedShm where
  siLock : Bool
  info : ShmInfo

namespace LockedShm
variable {s s' : LockedShm} {key : ℤ} {size shmflg pid : ℕ}

-- a caller that finds the lock taken spins
def spinlockLock (s : LockedShm) : Option LockedShm := if s.siLock then none else some { s with siLock := true }

def spinlockUnlock (s : LockedShm) : LockedShm := { s with siLock := false }

def erroutWithLock (info : ShmInfo) : LockedShm × ℤ := (spinlockUnlock ⟨true, info⟩, -1)

def errout (s : LockedShm) : LockedShm × ℤ := (s, -1)

def shmget (s : LockedShm) (key : ℤ) (size shmflg pid : ℕ) : Option (LockedShm × ℤ) :=
  if key = ipcPrivate then some s.errout
  else s.spinlockLock.map fun s => s.info.underLock key size shmflg pid erroutWithLock fun info shmid =>
    (spinlockUnlock ⟨true, info⟩, shmid)

theorem underLock_unlocked (info : ShmInfo) (hk : key ≠ ipcPrivate) :
    info.underLock key size shmflg pid erroutWithLock (fun info shmid => (spinlockUnlock ⟨true, info⟩, shmid)) =
      (⟨false, (info.shmget key size shmflg pid).1⟩, (info.shmget key size shmflg pid).2) := by
  rw [ShmInfo.shmget, if_neg hk]
  unfold ShmInfo.underLock
  dsimp only
  generalize info.ready = info
  cases info.shmFind key with
  | none =>
    dsimp only
    split_ifs <;> simp only [erroutWithLock, spinlockUnlock]
  | some shmid =>
    dsimp only
    split_ifs <;> simp only [erroutWithLock, spinlockUnlock]

theorem shmget_eq (hk : key ≠ ipcPrivate) (hl : s.siLock = false) : s.shmget key size shmflg pid =
    some (⟨false, (s.info.shmget key size shmflg pid).1⟩, (s.info.shmget key size shmflg pid).2) := by
  rw [shmget, if_neg hk, spinlockLock, if_neg (by simp [hl]), Option.map_some, underLock_unlocked _ hk]

theorem shmget_spins (hk : key ≠ ipcPrivate) (hl : s.siLock = true) : s.shmget key size shmflg pid = none := by
  rw [shmget, if_neg hk, spinlockLock, if_pos hl, Option.map_none]

end LockedShm

namespace ShmInfo
variable {s : ShmInfo} {key : ℤ} {size shmflg pid : ℕ}

theorem Tabled.failed_get (h : s.Tabled) (hg : (s.shmget key size shmflg pid).2 = -1) :
    (s.shmget key size shmflg pid).1 = s := by
  have hanswered := shmget_answered (if_neg h.flag) key size shmflg pid
  generalize s.shmget key size shmflg pid = r at hanswered hg ⊢
  cases hanswered with
  | refused => rfl
  | created hk hfind hc =>
    obtain ⟨e, -, -, hcreate⟩ | ⟨i, -, -, -, hcreate⟩ := h.create_cases key size shmflg pid
    · rw [hcreate]
    · -- a created region has a slot number for its id
      have hid : (s.shmCreate key size shmflg pid).2 = i := congrArg Prod.snd hcreate
      dsimp only at hg
      rw [hid, if_neg (by omega)] at hg
      omega
  | reopened i =>
    dsimp only at hg
    omega
  | extended i =>
    dsimp only at hg
    omega

end ShmInfo

namespace LockedShm
variable {s s' : LockedShm} {key : ℤ} {size shmflg pid : ℕ}

theorem failed_shmget_atomic {s₀ : ShmInfo} (h : s₀.Fresh) {cs : List ShmCall} (hs : s.info = cs.foldl ShmInfo.call s₀)
    (hinit : s.info.shmInitFlag ≠ 0) (hg : s.shmget key size shmflg pid = some (s', -1)) :
    s' = s ∧ (key ≠ ipcPrivate → s'.siLock = false) := by
  have htabled : s.info.Tabled := by
    rw [hs] at hinit ⊢
    exact (ShmInfo.Kept.calls (.inl h) cs).resolve_left fun hf => hinit hf.1
  by_cases hk : key = ipcPrivate
  · rw [shmget, if_pos hk, errout] at hg
    cases hg
    exact ⟨rfl, fun hne => absurd hk hne⟩
  cases hl : s.siLock with
  | true =>
    rw [shmget_spins hk hl] at hg
    cases hg
  | false =>
    rw [shmget_eq hk hl] at hg
    obtain ⟨hinfo, hret⟩ := Prod.mk.inj (Option.some.inj hg)
    have hsame : (s.info.shmget key size shmflg pid).1 = s.info := htabled.failed_get hret
    rw [hsame, ← hl] at hinfo
    subst hinfo
    exact ⟨rfl, fun _ => hl⟩

theorem blank_failed_shmget : ∃ s',
    shmget ⟨false, ShmInfo.blank.call (.get 1 4096 ipcCreat 0)⟩ 2 (2 ^ 40) ipcCreat 0 = some (s', -1) ∧
      s' = ⟨false, ShmInfo.blank.call (.get 1 4096 ipcCreat 0)⟩ := by
  have hrun : ((ShmInfo.blank.call (.get 1 4096 ipcCreat 0)).shmget 2 (2 ^ 40) ipcCreat 0).2 = -1 ∧
      (ShmInfo.blank.call (.get 1 4096 ipcCreat 0)).shmInitFlag ≠ 0 := by decide +kernel
  generalize hinfo : ShmInfo.blank.call (.get 1 4096 ipcCreat 0) = info at hrun ⊢
  obtain ⟨hret, hinit⟩ := hrun
  have hg := @shmget_eq ⟨false, info⟩ 2 (2 ^ 40) ipcCreat 0 (by decide) rfl
  rw [hret] at hg
  have hs : info = [ShmCall.get 1 4096 ipcCreat 0].foldl ShmInfo.call ShmInfo.blank := by
    rw [List.foldl_cons, List.foldl_nil, hinfo]
  exact ⟨_, hg, (failed_shmget_atomic ShmInfo.blank_fresh hs hinit hg).1⟩

end LockedShm
end Azalea
