import Mathlib.Tactic
import Azalea.Config
import Azalea.Foundation.Bytes

namespace Azalea

structure GdtEntry8 where
  lowerLimit : BitVec 16
  lowerBaseAddress : BitVec 16
  upperBaseAddress1 : BitVec 8
  typeAndLowerFlag : BitVec 8
  upperLimitAndUpperFlag : BitVec 8
  upperBaseAddress2 : BitVec 8

structure GdtEntry16 where
  lowerLimit : BitVec 16
  lowerBaseAddress : BitVec 16
  middleBaseAddress1 : BitVec 8
  typeAndLowerFlag : BitVec 8
  upperLimitAndUpperFlag : BitVec 8
  middleBaseAddress2 : BitVec 8
  upperBaseAddress : BitVec 32
  reserved : BitVec 32

structure Tss where
  rsp : ℕ → BitVec 64
  ist : ℕ → BitVec 64
  ioMapBaseAddress : BitVec 16

structure IdtEntry where
  lowerBaseAddress : BitVec 16
  segmentSelector : BitVec 16
  ist : BitVec 8
  typeAndFlags : BitVec 8
  middleBaseAddress : BitVec 16
  upperBaseAddress : BitVec 32
  reserved : BitVec 32

def gdtTypeCode : BitVec 8 := 0x0A
def gdtTypeData : BitVec 8 := 0x02
def gdtTypeTss : BitVec 8 := 0x09
def gdtFlagsLowerS : BitVec 8 := 0x10
def gdtFlagsLowerDpl0 : BitVec 8 := 0x00
def gdtFlagsLowerDpl3 : BitVec 8 := 0x60
def gdtFlagsLowerP : BitVec 8 := 0x80
def gdtFlagsUpperL : BitVec 8 := 0x20
def gdtFlagsUpperG : BitVec 8 := 0x80

def gdtFlagsLowerKernelCode : BitVec 8 := gdtTypeCode ||| gdtFlagsLowerS ||| gdtFlagsLowerDpl0 ||| gdtFlagsLowerP
def gdtFlagsLowerKernelData : BitVec 8 := gdtTypeData ||| gdtFlagsLowerS ||| gdtFlagsLowerDpl0 ||| gdtFlagsLowerP
def gdtFlagsLowerTss : BitVec 8 := gdtFlagsLowerDpl0 ||| gdtFlagsLowerP
def gdtFlagsLowerUserCode : BitVec 8 := gdtTypeCode ||| gdtFlagsLowerS ||| gdtFlagsLowerDpl3 ||| gdtFlagsLowerP
def gdtFlagsLowerUserData : BitVec 8 := gdtTypeData ||| gdtFlagsLowerS ||| gdtFlagsLowerDpl3 ||| gdtFlagsLowerP
def gdtFlagsUpperCode : BitVec 8 := gdtFlagsUpperG ||| gdtFlagsUpperL
def gdtFlagsUpperData : BitVec 8 := gdtFlagsUpperG ||| gdtFlagsUpperL
def gdtFlagsUpperTss : BitVec 8 := gdtFlagsUpperG

def gdtMaxEntry8Count : ℕ := 5

def sizeofTss : ℕ := 104

def gdtTableSize : ℕ := 8 * gdtMaxEntry8Count + 16 * maxProcessorCount

def gdtrStartAddress (gMemoryStart : ℕ) : ℕ := 0x242000 + gMemoryStart

def istStartAddress (gMemoryStart : ℕ) : ℕ := 0xA00000 + gMemoryStart

def istSize : ℕ := 0x100000

def setGdtEntry8 (baseAddress limit : BitVec 32) (upperFlags lowerFlags type : BitVec 8) : GdtEntry8 where
  lowerLimit := (limit &&& 0xFFFF).setWidth 16
  lowerBaseAddress := (baseAddress &&& 0xFFFF).setWidth 16
  upperBaseAddress1 := ((baseAddress >>> 16) &&& 0xFF).setWidth 8
  typeAndLowerFlag := lowerFlags ||| type
  upperLimitAndUpperFlag := ((limit >>> 16) &&& 0xFF).setWidth 8 ||| upperFlags
  upperBaseAddress2 := ((baseAddress >>> 24) &&& 0xFF).setWidth 8

def setGdtEntry16 (baseAddress : BitVec 64) (limit : BitVec 32) (upperFlags lowerFlags type : BitVec 8) : GdtEntry16 where
  lowerLimit := (limit &&& 0xFFFF).setWidth 16
  lowerBaseAddress := (baseAddress &&& 0xFFFF).setWidth 16
  middleBaseAddress1 := ((baseAddress >>> 16) &&& 0xFF).setWidth 8
  typeAndLowerFlag := lowerFlags ||| type
  upperLimitAndUpperFlag := ((limit >>> 16) &&& 0xFF).setWidth 8 ||| upperFlags
  middleBaseAddress2 := ((baseAddress >>> 24) &&& 0xFF).setWidth 8
  upperBaseAddress := (baseAddress >>> 32).setWidth 32
  reserved := 0

def setIdtEntry (handler : BitVec 64) (selector : BitVec 16) (ist flags type : BitVec 8) : IdtEntry where
  lowerBaseAddress := (handler &&& 0xFFFF).setWidth 16
  segmentSelector := selector
  ist := ist &&& 0x3
  typeAndFlags := type ||| flags
  middleBaseAddress := ((handler >>> 16) &&& 0xFFFF).setWidth 16
  upperBaseAddress := (handler >>> 32).setWidth 32
  reserved := 0

def packed (limit base : BitVec 16) (base' type upper base'' : BitVec 8) : BitVec 64 :=
  base'' ++ upper ++ type ++ base' ++ base ++ limit

def GdtEntry8.slot (e : GdtEntry8) : BitVec 64 :=
  packed e.lowerLimit e.lowerBaseAddress e.upperBaseAddress1 e.typeAndLowerFlag e.upperLimitAndUpperFlag e.upperBaseAddress2

def GdtEntry16.slot (e : GdtEntry16) : BitVec 64 :=
  packed e.lowerLimit e.lowerBaseAddress e.middleBaseAddress1 e.typeAndLowerFlag e.upperLimitAndUpperFlag
    e.middleBaseAddress2

def GdtEntry16.slot' (e : GdtEntry16) : BitVec 64 := e.reserved ++ e.upperBaseAddress

structure Segment where
  base : BitVec 64
  limit : BitVec 20
  access : BitVec 8
  flags : BitVec 4

def Segment.ofSlots (lo hi : BitVec 64) : Segment where
  base := hi.extractLsb' 0 32 ++ lo.extractLsb' 56 8 ++ lo.extractLsb' 32 8 ++ lo.extractLsb' 16 16
  limit := lo.extractLsb' 48 4 ++ lo.extractLsb' 0 16
  access := lo.extractLsb' 40 8
  flags := lo.extractLsb' 52 4

def IdtEntry.offset (e : IdtEntry) : BitVec 64 := e.upperBaseAddress ++ e.middleBaseAddress ++ e.lowerBaseAddress

def IdtEntry.present (e : IdtEntry) : Bool := e.typeAndFlags.getLsbD 7

def IdtEntry.slot (e : IdtEntry) : BitVec 3 := e.ist.setWidth 3

def Segment.isCode64 (s : Segment) : Bool :=
  s.access.getLsbD 7 && s.access.getLsbD 4 && s.access.getLsbD 3 && s.flags.getLsbD 1

def Segment.isTss64 (s : Segment) : Bool :=
  s.access.getLsbD 7 && s.access.extractLsb' 0 5 == 9 && decide (sizeofTss - 1 ≤ s.limit.toNat)

def gdtInit8 (gdt : ℕ → BitVec 64) : ℕ → BitVec 64
  | 0 => (setGdtEntry8 0 0 0 0 0).slot
  | 1 => (setGdtEntry8 0 0xFFFF gdtFlagsUpperCode gdtFlagsLowerKernelCode gdtTypeCode).slot
  | 2 => (setGdtEntry8 0 0xFFFF gdtFlagsUpperData gdtFlagsLowerKernelData gdtTypeData).slot
  | 3 => (setGdtEntry8 0 0xFFFF gdtFlagsUpperData gdtFlagsLowerUserData gdtTypeData).slot
  | 4 => (setGdtEntry8 0 0xFFFF gdtFlagsUpperCode gdtFlagsLowerUserCode gdtTypeCode).slot
  | i => gdt i

def tssEntry (gTss : BitVec 64) (i : ℕ) : GdtEntry16 :=
  setGdtEntry16 (gTss + BitVec.ofNat 64 (i * sizeofTss)) (BitVec.ofNat 32 (sizeofTss - 1)) gdtFlagsUpperTss gdtFlagsLowerTss
    gdtTypeTss

def setTssEntry (gTss : BitVec 64) (gdt : ℕ → BitVec 64) (i : ℕ) : ℕ → BitVec 64 :=
  Function.update (Function.update gdt (gdtMaxEntry8Count + i * 2) (tssEntry gTss i).slot) (gdtMaxEntry8Count + i * 2 + 1)
    (tssEntry gTss i).slot'

def gdtAndTssInit (gTss : BitVec 64) (gdt : ℕ → BitVec 64) : ℕ → BitVec 64 :=
  (List.range maxProcessorCount).foldl (setTssEntry gTss) (gdtInit8 gdt)

def istTop (gMemoryStart i : ℕ) : ℕ :=
  va gMemoryStart (istStartAddress gMemoryStart + istSize - istSize / maxProcessorCount * i)

def initializeTss (gMemoryStart : ℕ) (tss : ℕ → Tss) : ℕ → Tss :=
  (List.range maxProcessorCount).foldl (fun tss i => Function.update tss i
    { rsp := fun _ => 0
      ist := fun k => if k = 0 then BitVec.ofNat 64 (istTop gMemoryStart i) else 0
      ioMapBaseAddress := 0xFFFF }) tss

theorem setWidth_mask {w n : ℕ} (x : BitVec w) (h : n ≤ w) :
    (x &&& BitVec.ofNat w (2 ^ n - 1)).setWidth n = x.setWidth n := by
  ext i hi
  rw [BitVec.getElem_setWidth, BitVec.getElem_setWidth, BitVec.getLsbD_and, BitVec.getLsbD_ofNat,
    Nat.testBit_two_pow_sub_one]
  simp [hi, Nat.lt_of_lt_of_le hi h]

theorem setWidth_shift {w : ℕ} (x : BitVec w) (k n : ℕ) : (x >>> k).setWidth n = x.extractLsb' k n := by
  ext i hi
  simp

theorem setWidth_field {w n : ℕ} (x : BitVec w) (k : ℕ) (h : n ≤ w) :
    ((x >>> k) &&& BitVec.ofNat w (2 ^ n - 1)).setWidth n = x.extractLsb' k n :=
  (setWidth_mask _ h).trans (setWidth_shift x k n)

theorem setIdtEntry_offset (handler : BitVec 64) (selector : BitVec 16) (ist flags type : BitVec 8) :
    (setIdtEntry handler selector ist flags type).offset = handler := by
  have hlow : (handler &&& 0xFFFF).setWidth 16 = handler.extractLsb' 0 16 := setWidth_field handler 0 (by decide)
  have hmid : ((handler >>> 16) &&& 0xFFFF).setWidth 16 = handler.extractLsb' 16 16 :=
    setWidth_field handler 16 (by decide)
  have hup : (handler >>> 32).setWidth 32 = handler.extractLsb' 32 32 := setWidth_shift handler 32 32
  rw [IdtEntry.offset, setIdtEntry, hlow, hmid, hup]
  grind

section packed

variable (limit base : BitVec 16) (base' type upper base'' : BitVec 8)

theorem packed_limit : (packed limit base base' type upper base'').extractLsb' 0 16 = limit := by grind [packed]

theorem packed_base : (packed limit base base' type upper base'').extractLsb' 16 16 = base := by grind [packed]

theorem packed_base' : (packed limit base base' type upper base'').extractLsb' 32 8 = base' := by grind [packed]

theorem packed_type : (packed limit base base' type upper base'').extractLsb' 40 8 = type := by grind [packed]

theorem packed_upper : (packed limit base base' type upper base'').extractLsb' 48 4 = upper.extractLsb' 0 4 := by
  grind [packed]

theorem packed_base'' : (packed limit base base' type upper base'').extractLsb' 56 8 = base'' := by grind [packed]

theorem append_low (a b : BitVec 32) : (a ++ b : BitVec 64).extractLsb' 0 32 = b := by grind

end packed

theorem tssEntry_base (gTss : BitVec 64) (i : ℕ) :
    (Segment.ofSlots (tssEntry gTss i).slot (tssEntry gTss i).slot').base = gTss + BitVec.ofNat 64 (i * sizeofTss) := by
  generalize hb : gTss + BitVec.ofNat 64 (i * sizeofTss) = base
  have hlow : (base &&& 0xFFFF).setWidth 16 = base.extractLsb' 0 16 := setWidth_field base 0 (by decide)
  have hmid : ((base >>> 16) &&& 0xFF).setWidth 8 = base.extractLsb' 16 8 := setWidth_field base 16 (by decide)
  have hmid' : ((base >>> 24) &&& 0xFF).setWidth 8 = base.extractLsb' 24 8 := setWidth_field base 24 (by decide)
  have hup : (base >>> 32).setWidth 32 = base.extractLsb' 32 32 := setWidth_shift base 32 32
  rw [Segment.ofSlots, GdtEntry16.slot, GdtEntry16.slot', packed_base, packed_base', packed_base'', append_low]
  simp only [tssEntry, setGdtEntry16, hb, hlow, hmid, hmid', hup]
  grind

theorem tssEntry_access (gTss : BitVec 64) (i : ℕ) :
    (Segment.ofSlots (tssEntry gTss i).slot (tssEntry gTss i).slot').access = 0x89 := by
  rw [Segment.ofSlots, GdtEntry16.slot, packed_type]
  rfl

theorem tssEntry_limit (gTss : BitVec 64) (i : ℕ) :
    (Segment.ofSlots (tssEntry gTss i).slot (tssEntry gTss i).slot').limit = 103 := by
  have hlimit : (tssEntry gTss i).lowerLimit = 103 := by
    show (BitVec.ofNat 32 (sizeofTss - 1) &&& 0xFFFF).setWidth 16 = 103
    decide
  have hupper : (tssEntry gTss i).upperLimitAndUpperFlag = 0x80 := by
    show ((BitVec.ofNat 32 (sizeofTss - 1) >>> 16) &&& 0xFF).setWidth 8 ||| gdtFlagsUpperTss = 0x80
    decide
  rw [Segment.ofSlots, GdtEntry16.slot, packed_limit, packed_upper, hlimit, hupper]
  rfl

theorem gdtAndTssInit_low {gTss : BitVec 64} {gdt : ℕ → BitVec 64} {k : ℕ} (h : k < gdtMaxEntry8Count) :
    gdtAndTssInit gTss gdt k = gdtInit8 gdt k := by
  rw [gdtAndTssInit]
  generalize maxProcessorCount = n
  induction n with
  | zero => rfl
  | succ n ih =>
    rw [List.range_succ, List.foldl_append, List.foldl_cons, List.foldl_nil, setTssEntry,
      Function.update_of_ne (by omega), Function.update_of_ne (by omega), ih]

theorem foldl_setTssEntry {gTss : BitVec 64} {gdt : ℕ → BitVec 64} {n i : ℕ} (hi : i < n) :
    (List.range n).foldl (setTssEntry gTss) gdt (gdtMaxEntry8Count + i * 2) = (tssEntry gTss i).slot ∧
      (List.range n).foldl (setTssEntry gTss) gdt (gdtMaxEntry8Count + i * 2 + 1) = (tssEntry gTss i).slot' := by
  induction n with
  | zero => omega
  | succ n ih =>
    rw [List.range_succ, List.foldl_append, List.foldl_cons, List.foldl_nil, setTssEntry]
    rcases Nat.lt_succ_iff_lt_or_eq.mp hi with hlt | rfl
    · rw [Function.update_of_ne (by omega), Function.update_of_ne (by omega), Function.update_of_ne (by omega),
        Function.update_of_ne (by omega)]
      exact ih hlt
    · rw [Function.update_of_ne (by omega), Function.update_self, Function.update_self]
      exact ⟨rfl, rfl⟩

theorem initializeTss_ist {gMemoryStart i : ℕ} {tss : ℕ → Tss} (hi : i < maxProcessorCount) :
    (initializeTss gMemoryStart tss i).ist 0 = BitVec.ofNat 64 (istTop gMemoryStart i) := by
  rw [initializeTss]
  generalize maxProcessorCount = n at hi ⊢
  induction n with
  | zero => omega
  | succ n ih =>
    rw [List.range_succ, List.foldl_append, List.foldl_cons, List.foldl_nil]
    rcases Nat.lt_succ_iff_lt_or_eq.mp hi with hlt | rfl
    · rw [Function.update_of_ne (by omega)]
      exact ih hlt
    · rw [Function.update_self]
      rfl

theorem istTop_eq {gMemoryStart i : ℕ} (hg : gMemoryStart ≤ wordSize) (hi : i ≤ maxProcessorCount) :
    istTop gMemoryStart i = 0xFFFF8000C0B00000 - 3640 * i := by
  simp only [wordSize, maxProcessorCount] at hg hi
  simp only [istTop, va, istStartAddress, istSize, maxProcessorCount, configPageOffset, wordSize]
  omega

end Azalea
