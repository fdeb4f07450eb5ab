import Azalea.Config
import Azalea.Foundation.Bitmap

namespace Azalea

structure BITMAP where
  bitmap : Bitmap.Bytes
  bitmapCount : ℕ

structure MM where
  maxLevel : ℕ
  smallestBlock : ℕ
  usedSize : ℕ
  startAddr : ℕ
  endAddr : ℕ
  blockIndex : ℤ → BYTE
  bitmap : ℕ → BITMAP

namespace MM

-- the type of PAGE_MIN_SIZE << i is int, widened to QWORD where it is used
def pageShl (i : ℕ) : ℕ := intToQword (BitVec.toInt (4096#32 <<< i))

def levelCount (n : ℕ) : ℕ := if n = 0 then 0 else n.log2 + 1

def setLevel (mm : MM) (level : ℕ) (entry : BITMAP) : MM :=
  { mm with bitmap := Function.update mm.bitmap level entry }

def setBitmapFlag (mm : MM) (blockListIndex offset : ℕ) (flag : Bool) : MM :=
  let entry := mm.bitmap blockListIndex
  if flag then
    let count := if Bitmap.test entry.bitmap offset = false
      then (entry.bitmapCount + 1) % wordSize else entry.bitmapCount
    mm.setLevel blockListIndex ⟨Bitmap.insert entry.bitmap offset, count⟩
  else
    let count := if Bitmap.test entry.bitmap offset = true
      then (entry.bitmapCount + (wordSize - 1)) % wordSize else entry.bitmapCount
    mm.setLevel blockListIndex ⟨Bitmap.remove entry.bitmap offset, count⟩

def getBitmapFlag (mm : MM) (blockListIndex offset : ℕ) : Bool :=
  Bitmap.test (mm.bitmap blockListIndex).bitmap offset

def scan (bitmap : Bitmap.Bytes) (maxCount : ℕ) : ℕ → ℕ → Option ℕ
  | 0, _ => none
  | fuel + 1, i =>
    if i < maxCount then
      if 0 < (maxCount - i) / 64 ∧ Bitmap.wordIsZero bitmap (i / 8) = true then
        scan bitmap maxCount fuel (i + 64)
      else if Bitmap.test bitmap i = true then some i
      else scan bitmap maxCount fuel (i + 1)
    else none

def findFreeBlock (mm : MM) (blockListIndex : ℕ) : Option ℕ :=
  if (mm.bitmap blockListIndex).bitmapCount = 0 then none
  else
    let maxCount := mm.smallestBlock >>> blockListIndex
    scan (mm.bitmap blockListIndex).bitmap maxCount maxCount 0

def alignBuddyBlock (mm : MM) (size : ℕ) : ℕ :=
  match (List.range mm.maxLevel).find? (fun i => size ≤ pageShl i) with
  | some i => pageShl i
  | none => 0

def blockListIndex (mm : MM) (alignedSize : ℕ) : Option ℕ :=
  (List.range mm.maxLevel).find? (fun i => alignedSize ≤ pageShl i)

def splitBlock (mm : MM) (blIndex : ℕ) : ℕ → ℕ → MM × ℕ
  | 0, freeOffset => (mm, freeOffset)
  | n + 1, freeOffset =>
    let mm := mm.setBitmapFlag (blIndex + n) (freeOffset * 2) false
    let mm := mm.setBitmapFlag (blIndex + n) (freeOffset * 2 + 1) true
    splitBlock mm blIndex n (freeOffset * 2)

def allocBuddyBlock (mm : MM) (alignedSize : ℕ) : MM × Option ℕ :=
  match mm.blockListIndex alignedSize with
  | none => (mm, none)
  | some blIndex =>
    match (List.range' blIndex (mm.maxLevel - blIndex)).findSome?
        (fun i => (mm.findFreeBlock i).map (i, ·)) with
    | none => (mm, none)
    | some (i, freeOffset) =>
      let mm := mm.setBitmapFlag i freeOffset false
      let r := splitBlock mm blIndex (i - blIndex) freeOffset
      (r.1, some r.2)

def azAlloc (mm : MM) (size : ℕ) : MM × ℕ :=
  let alignedSize := mm.alignBuddyBlock size
  if alignedSize = 0 then (mm, 0)
  else if (mm.startAddr + mm.usedSize + alignedSize) % wordSize > mm.endAddr then (mm, 0)
  else
    match mm.allocBuddyBlock alignedSize with
    | (mm, none) => (mm, 0)
    | (mm, some blOffset) =>
      let blIndex := (mm.blockListIndex alignedSize).getD 0
      let relAddress := alignedSize * blOffset % wordSize
      let arrayOffset := toInt (relAddress / pageMinSize)
      ({ mm with
          blockIndex := Function.update mm.blockIndex arrayOffset (BitVec.ofNat 8 blIndex)
          usedSize := (mm.usedSize + alignedSize) % wordSize },
        (relAddress + mm.startAddr) % wordSize)

def buddyOf (blockOffset : ℕ) : ℕ :=
  if blockOffset % 2 = 0 then blockOffset + 1 else blockOffset - 1

def mergeBlock (mm : MM) : ℕ → ℕ → ℕ → MM
  | 0, _, _ => mm
  | n + 1, i, blockOffset =>
    let mm := mm.setBitmapFlag i blockOffset true
    let buddyBlockOffset := buddyOf blockOffset
    if mm.getBitmapFlag i buddyBlockOffset = false then mm
    else
      let mm := mm.setBitmapFlag i buddyBlockOffset false
      let mm := mm.setBitmapFlag i blockOffset false
      mergeBlock mm n (i + 1) (blockOffset / 2)

def freeBuddyBlock (mm : MM) (blockListIndex blockOffset : ℕ) : MM × Bool :=
  (mergeBlock mm (mm.maxLevel - blockListIndex) blockListIndex blockOffset, true)

def azFree (mm : MM) (address : ℕ) : MM × Bool :=
  if address = 0 then (mm, false)
  else
    let relAddress := (address + (wordSize - mm.startAddr)) % wordSize
    let arrayOffset := toInt (relAddress / pageMinSize)
    if mm.blockIndex arrayOffset = 0xFF#8 then (mm, false)
    else
      let blockListIndex := (mm.blockIndex arrayOffset).toNat
      let mm := { mm with blockIndex := Function.update mm.blockIndex arrayOffset 0xFF#8 }
      let blockSize := pageShl blockListIndex
      if blockSize = 0 then (mm, false)
      else
        -- bitmap_offset is an int; from 2^31 on it is negative, outside every level
        match mm.freeBuddyBlock blockListIndex (relAddress / blockSize % 2 ^ 32) with
        | (mm, true) =>
          ({ mm with usedSize := (mm.usedSize + (wordSize - blockSize)) % wordSize }, true)
        | (mm, false) => (mm, false)

def bitmapSize (freeMemSize : ℕ) : ℕ :=
  let smallestBlockSize := freeMemSize / pageMinSize
  let blockIndex := smallestBlockSize % 2 ^ 32
  let bitmapSize := ((List.range (levelCount smallestBlockSize)).map
    fun i => 16 + ((smallestBlockSize >>> i) + 7) / 8).sum % 2 ^ 32
  (blockIndex + bitmapSize + pageMinSize - 1) % 2 ^ 32 / pageMinSize

def initBitmap (prior : Bitmap.Bytes) (blockCount : ℕ) : BITMAP where
  bitmap := fun b =>
    if b < blockCount / 8 then 0#8
    else if b = blockCount / 8 ∧ blockCount % 8 ≠ 0 then
      if blockCount % 8 % 2 = 1 then 1#8 <<< (blockCount % 8 - 1) else 0#8
    else prior b
  bitmapCount := if blockCount % 8 % 2 = 1 then 1 else 0

-- prior is what the metadata area held before: free_mem_init clears the bitmap bytes only
def initPool (prior : ℕ → BITMAP) (priorIndex : ℤ → BYTE) (smallestBlock startAddr endAddr : ℕ) :
    MM where
  maxLevel := levelCount smallestBlock
  smallestBlock := smallestBlock
  usedSize := 0
  startAddr := startAddr
  endAddr := endAddr
  blockIndex := fun i => if 0 ≤ i ∧ i < smallestBlock then 0xFF#8 else priorIndex i
  bitmap := fun j => if j < levelCount smallestBlock
    then initBitmap (prior j).bitmap (smallestBlock >>> j) else prior j

def initArea (prior : ℕ → BITMAP) (priorIndex : ℤ → BYTE) (freeMemStart freeMemEnd : ℕ) : MM :=
  let freeMemSize := (freeMemEnd + (wordSize - freeMemStart)) % wordSize
  let bitmap := (bitmapSize freeMemSize + (512 - 1)) / 512 * 512
  let smallestBlock := (toInt (freeMemSize / pageMinSize + (wordSize - bitmap))).toNat
  let startAddr := (freeMemStart + intToQword (toInt (bitmap * pageMinSize))) % wordSize
  initPool prior priorIndex smallestBlock startAddr freeMemEnd

def freeMemInit (prior : ℕ → BITMAP) (priorIndex : ℤ → BYTE) (gMemoryStart gMemoryEnd : ℕ) : MM :=
  initArea prior priorIndex (va gMemoryStart (gMemoryStart + configKernelSize))
    (va gMemoryStart gMemoryEnd)

end MM
end Azalea
