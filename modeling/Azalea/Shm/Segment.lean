import Azalea.Memory.Heap

namespace Azalea

@[simp] def ipcStartOffset : ℕ := 512 * 2 ^ 20

@[simp] def ipcSize : ℕ := 512 * 2 ^ 20

@[simp] def configShmSharedMemory : ℕ := configSharedMemory + ipcStartOffset

@[simp] def configArchShmMaxregions : ℕ := 1024

@[simp] def sizeofShmInfo : ℕ := 32 + 56 + configArchShmMaxregions * 88

@[simp] def ipcPrivate : ℤ := 0

@[simp] def ipcCreat : ℕ := 1 <<< 10

@[simp] def ipcExcl : ℕ := 1 <<< 11

@[simp] def ipcMode : ℕ := 0x01ff

@[simp] def srflagAvailable : BYTE := 0#8

@[simp] def srflagInuse : BYTE := 1#8

@[simp] def srflagUnlinked : BYTE := 2#8

@[simp] def enospc : ℤ := 28

structure ShmRegion where
  mode : ℕ
  segsz : ℕ
  lpid : ℕ
  cpid : ℕ
  nattch : ℕ
  flags : BYTE
  key : ℤ
  data : ℕ
deriving DecidableEq, Repr

namespace ShmRegion

def zero : ShmRegion := ⟨0, 0, 0, 0, 0, 0#8, 0, 0⟩

def InUse (r : ShmRegion) : Prop := r.flags &&& srflagInuse ≠ 0#8

instance (r : ShmRegion) : Decidable r.InUse := inferInstanceAs (Decidable (_ ≠ _))

def Unlinked (r : ShmRegion) : Prop := r.flags &&& srflagUnlinked ≠ 0#8

instance (r : ShmRegion) : Decidable r.Unlinked := inferInstanceAs (Decidable (_ ≠ _))

def withSegsz (r : ShmRegion) (size : ℕ) : ShmRegion := { r with segsz := size }

end ShmRegion

-- heap.mm is shm_free_mem_mgt; heap.handed records the blocks shm_alloc has handed out
structure ShmInfo where
  shmInitFlag : ℕ
  heap : Heap
  region : ℕ → ShmRegion
  mem : ℕ → BYTE

inductive ShmCmd where
  | stat (buf : ℕ)
  | set (mode : ℕ)
  | rmid
  | other
deriving DecidableEq, Repr

def memset (mem : ℕ → BYTE) (address : ℕ) (value : BYTE) (size : ℕ) : ℕ → BYTE :=
  fun a => if address ≤ a ∧ a < address + size then value else mem a

namespace ShmInfo

def setRegion (s : ShmInfo) (shmid : ℕ) (r : ShmRegion) : ShmInfo :=
  { s with region := Function.update s.region shmid r }

def shmInitialize (s : ShmInfo) : ShmInfo :=
  { s with
    region := fun i => if i < configArchShmMaxregions then .zero else s.region i
    heap := ⟨⟨0, 0, 0, 0, 0, s.heap.mm.blockIndex, s.heap.mm.bitmap⟩, []⟩ }

def shmFreeMemInit (s : ShmInfo) : ShmInfo :=
  let pageCount := sizeofShmInfo / pageMinSize + if sizeofShmInfo % pageMinSize > 0 then 1 else 0
  { s with heap := ⟨MM.initArea s.heap.mm.bitmap s.heap.mm.blockIndex
      (configShmSharedMemory + pageCount * pageMinSize) (configShmSharedMemory + ipcSize), []⟩ }

def shmAlloc (s : ShmInfo) (size : ℕ) : ShmInfo × ℕ :=
  let address := (s.heap.mm.azAlloc size).2
  ({ s with
      heap := s.heap.call (.alloc size)
      mem := if address = 0 then s.mem
        else memset s.mem address 0#8 (s.heap.mm.alignBuddyBlock size) }, address)

def shmFree (s : ShmInfo) (address : ℕ) : ShmInfo × Bool :=
  ({ s with heap := s.heap.call (.free address) }, (s.heap.mm.azFree address).2)

def shmGetBuddyBlockSize (size : ℕ) : ℕ :=
  match (List.range 32).find? (fun i => size < MM.pageShl i) with
  | some i => MM.pageShl i
  | none => 0

def shmDestroy (s : ShmInfo) (shmid : ℕ) : ShmInfo :=
  let data := (s.region shmid).data
  let s := if data ≠ 0 then (s.shmFree data).1 else s
  s.setRegion shmid .zero

def firstRegion (s : ShmInfo) (p : ShmRegion → Bool) : Option ℕ :=
  (List.range configArchShmMaxregions).find? fun i => p (s.region i)

def shmFind (s : ShmInfo) (key : ℤ) : Option ℕ := s.firstRegion fun r => r.key = key

def shmReserve (s : ShmInfo) (key : ℤ) (shmflg : ℕ) : ShmInfo × ℤ :=
  match s.firstRegion (fun r => r.flags = srflagAvailable) with
  | some i => (s.setRegion i { s.region i with
      key := key, flags := srflagInuse, mode := shmflg &&& ipcMode }, i)
  | none => (s, -enospc)

def shmExtend (s : ShmInfo) (shmid size : ℕ) : ShmInfo × ℤ :=
  let region := s.region shmid
  if region.segsz < size then
    if shmGetBuddyBlockSize region.segsz < size then (s, -enomem)
    else
      ({ s with mem := memset s.mem (region.data + region.segsz) 0#8 (size - region.segsz) }.setRegion
        shmid (region.withSegsz size), 1)
  else (s, 1)

def shmCreate (s : ShmInfo) (key : ℤ) (size shmflg pid : ℕ) : ShmInfo × ℤ :=
  let r := s.shmReserve key shmflg
  if r.2 < 0 then r
  else
    let shmid := r.2.toNat
    let a := r.1.shmAlloc size
    let s := a.1.setRegion shmid { a.1.region shmid with data := a.2 }
    if a.2 = 0 then (s.shmDestroy shmid, -enomem)
    else (s.setRegion shmid { s.region shmid with segsz := size, cpid := pid }, shmid)

def ready (s : ShmInfo) : ShmInfo :=
  if s.shmInitFlag = 0 then { s.shmInitialize.shmFreeMemInit with shmInitFlag := 1 } else s

def reopen (s : ShmInfo) (shmid : ℕ) : ShmInfo :=
  s.setRegion shmid { s.region shmid with flags := srflagInuse }

-- the section under si_lock, with the two labels it leaves by
def underLock {β : Type*} (s : ShmInfo) (key : ℤ) (size shmflg pid : ℕ) (erroutWithLock : ShmInfo → β)
    (unlock : ShmInfo → ℤ → β) : β :=
  let s := s.ready
  match s.shmFind key with
  | none =>
    if shmflg &&& ipcCreat ≠ 0 then
      let r := s.shmCreate key size shmflg pid
      if r.2 < 0 then erroutWithLock r.1 else unlock r.1 r.2
    else erroutWithLock s
  | some shmid =>
    if (s.region shmid).segsz < size then
      if shmflg &&& ipcCreat ≠ 0 then
        let r := s.shmExtend shmid size
        if r.2 < 0 then erroutWithLock r.1 else unlock (r.1.reopen shmid) shmid
      else erroutWithLock s
    else unlock (s.reopen shmid) shmid

def shmget (s : ShmInfo) (key : ℤ) (size shmflg pid : ℕ) : ShmInfo × ℤ :=
  if key = ipcPrivate then (s, -1) else s.underLock key size shmflg pid (fun s => (s, -1)) Prod.mk

def shmat (s : ShmInfo) (shmid : ℤ) (pid : ℕ) : ShmInfo × ℕ :=
  if shmid < 0 ∨ shmid ≥ configArchShmMaxregions then (s, 0)
  else
    let region := s.region shmid.toNat
    if ¬ region.InUse then (s, 0)
    else if region.data = 0 then (s, 0)
    else (s.setRegion shmid.toNat { region with nattch := (region.nattch + 1) % 2 ^ 16, lpid := pid },
      region.data)

def shmdt (s : ShmInfo) (shmaddr pid : ℕ) : ShmInfo × ℤ :=
  match s.firstRegion (fun r => r.data = shmaddr) with
  | none => (s, -1)
  | some shmid =>
    let region := s.region shmid
    if ¬ region.InUse then (s, -1)
    else if region.nattch ≤ 0 then (s, -1)
    else if region.nattch ≤ 1 then
      let region := { region with nattch := 0 }
      if region.Unlinked then ((s.setRegion shmid region).shmDestroy shmid, 0)
      else (s.setRegion shmid { region with lpid := pid }, 0)
    else (s.setRegion shmid { region with nattch := region.nattch - 1, lpid := pid }, 0)

def shmctl (s : ShmInfo) (shmid : ℤ) (cmd : ShmCmd) (pid : ℕ) : ShmInfo × ℤ :=
  if shmid < 0 ∨ shmid ≥ configArchShmMaxregions then (s, -1)
  else
    let id := shmid.toNat
    let region := s.region id
    if ¬ region.InUse then (s, -1)
    else match cmd with
      | .stat buf => if buf = 0 then (s, -1) else (s.setRegion id { region with lpid := pid }, 0)
      | .set mode => (s.setRegion id { region with mode := mode, lpid := pid }, 0)
      | .rmid =>
        if region.nattch > 0 then
          (s.setRegion id { region with flags := region.flags ||| srflagUnlinked, lpid := pid }, 0)
        else (s.shmDestroy id, 0)
      | .other => (s, -1)

end ShmInfo
end Azalea
