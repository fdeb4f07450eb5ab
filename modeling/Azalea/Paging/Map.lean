import Azalea.Memory.Heap
import Azalea.Paging.Table

namespace Azalea
open Word

-- tables and frames are reached through va(), the linear window over the unikernel's own memory
structure Space where
  gMemoryStart : ℕ
  gSharedMemory : ℕ
  heap : Heap
  mem : Mem

def zeroFill (mem : Mem) (address size : ℕ) : Mem :=
  fun a => if address ≤ a ∧ a < address + size then 0 else mem a

namespace Space

def pgd (s : Space) : ℕ := configKernelPagetableAddress s.gMemoryStart

def azAlloc (s : Space) (size : ℕ) : Space × ℕ :=
  let r := s.heap.mm.azAlloc size
  let mem := if r.2 = 0 then s.mem
    else zeroFill s.mem (pa s.gMemoryStart r.2) (s.heap.mm.alignBuddyBlock size)
  ({ s with heap := s.heap.call (.alloc size), mem := mem }, r.2)

def setEntry (s : Space) (entry base flags : ℕ) : Space :=
  { s with mem := setPageEntryData s.mem entry base flags }

def nextTable (s : Space) (entry : ℕ) : Space × Option ℕ :=
  if s.mem entry = 0 then
    match s.azAlloc pageSize4K with
    | (s, newPage) =>
      if newPage = 0 then (s, none)
      else
        let s := s.setEntry entry (pa s.gMemoryStart newPage) (pageFlagsDefault ||| pageFlagsUS)
        (s, some (clearLow 12 (s.mem entry)))
  else (s, some (clearLow 12 (s.mem entry)))

def lkMap (s : Space) (virtualAddress physicalAddress pageSize cache : ℕ) : Space × Bool :=
  let flags := (if cache = 0 then pageFlagsDefault else pageFlagsNocache) ||| pageFlagsUS
  match s.nextTable (slot s.pgd (pml4Index virtualAddress)) with
  | (s, none) => (s, false)
  | (s, some pdpt) =>
    match s.nextTable (slot pdpt (pdptIndex virtualAddress)) with
    | (s, none) => (s, false)
    | (s, some pd) =>
      match s.nextTable (slot pd (pdeIndex virtualAddress)) with
      | (s, none) => (s, false)
      | (s, some pt) =>
        if pageSize = pageSize4K then
          (s.setEntry (slot pt (pteIndex virtualAddress)) physicalAddress flags, true)
        else if pageSize = pageSize2M then
          (s.setEntry (slot pd (pdeIndex virtualAddress)) physicalAddress (flags ||| pageFlagsPS), true)
        else (s, true)

def lkUnmap (s : Space) (virtualAddress : ℕ) : Space × Bool :=
  let pdpt := clearLow 12 (s.mem (slot s.pgd (pml4Index virtualAddress)))
  let pd := clearLow 12 (s.mem (slot pdpt (pdptIndex virtualAddress)))
  let entry := s.mem (slot pd (pdeIndex virtualAddress))
  if large entry = true then (s.setEntry (slot pd (pdeIndex virtualAddress)) 0 0, true)
  else
    let pt := clearLow 12 entry
    (s.setEntry (slot pt (pteIndex virtualAddress)) 0 0, true)

def getPa (s : Space) (virtualAddress : ℕ) : Space × ℕ :=
  if virtualAddress = 0 then (s, 0)
  else if configHighHalfLimit < virtualAddress then
    (s, getPaHighHalf s.gMemoryStart s.gSharedMemory virtualAddress)
  else
    match s.nextTable (slot s.pgd (pml4Index virtualAddress)) with
    | (s, none) => (s, 0)
    | (s, some pdpt) =>
      match s.nextTable (slot pdpt (pdptIndex virtualAddress)) with
      | (s, none) => (s, 0)
      | (s, some pd) =>
        let entry := s.mem (slot pd (pdeIndex virtualAddress))
        if entry ≠ 0 ∧ large entry = true then (s, (clearLow 12 entry + virtualAddress % 2 ^ 21) % wordSize)
        else
          match s.nextTable (slot pd (pdeIndex virtualAddress)) with
          | (s, none) => (s, 0)
          | (s, some pt) =>
            match s.nextTable (slot pt (pteIndex virtualAddress)) with
            | (s, none) => (s, 0)
            | (s, some page) => (s, (page + virtualAddress % 2 ^ 12) % wordSize)

end Space
end Azalea
