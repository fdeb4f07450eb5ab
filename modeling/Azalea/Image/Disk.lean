import Azalea.Config

namespace Azalea
namespace Disk

@[simp] def bytesofsector : ℕ := 512

@[simp] def sector : ℕ := 512

@[simp] def totalCountOffset : ℕ := 0x83

def cInt (z : ℤ) : ℤ := (BitVec.ofInt 32 z).toInt

def copyLoop (source target : List BYTE) (iSourceFileSize : ℤ) : List BYTE × ℤ :=
  let vcBuffer := source.take bytesofsector
  let iSourceFileSize := cInt (iSourceFileSize + vcBuffer.length)
  if vcBuffer.length ≠ bytesofsector then (target ++ vcBuffer, iSourceFileSize)
  else copyLoop (source.drop bytesofsector) (target ++ vcBuffer) iSourceFileSize
termination_by source.length
decreasing_by
  simp only [vcBuffer, List.length_take, bytesofsector, List.length_drop] at *
  omega

def copyFile (source target : List BYTE) : List BYTE × ℤ := copyLoop source target 0

def adjustSize (iSourceSize : ℤ) : ℤ :=
  if iSourceSize.tmod bytesofsector ≠ 0 then 512 - iSourceSize.tmod bytesofsector else 0

def sectorCount (iSourceSize : ℤ) : ℤ := (cInt (iSourceSize + adjustSize iSourceSize)).tdiv bytesofsector

def adjustInSectorSize (target : List BYTE) (iSourceSize : ℤ) : List BYTE × ℤ :=
  (target ++ List.replicate (adjustSize iSourceSize).toNat 0#8, sectorCount iSourceSize)

def addPart (source target : List BYTE) : List BYTE × ℤ :=
  let c := copyFile source target
  adjustInSectorSize c.1 c.2

def ushort (usData : BitVec 16) : List BYTE := [usData.setWidth 8, (usData >>> 8).setWidth 8]

def writeAt (target : List BYTE) (lPosition : ℕ) (data : List BYTE) : List BYTE :=
  target.take lPosition ++ List.replicate (lPosition - target.length) 0#8 ++ data ++
    target.drop (lPosition + data.length)

def writeKernelInformation (target : List BYTE) (iTotalKernelSectorCount iKernel32SectorCount
    kernel64SectorCount uappSectorCount : ℤ) : List BYTE :=
  writeAt target totalCountOffset
    (ushort (.ofInt 16 iTotalKernelSectorCount) ++ ushort (.ofInt 16 iKernel32SectorCount) ++
      ushort (.ofInt 16 kernel64SectorCount) ++ ushort (.ofInt 16 uappSectorCount))

def imagemaker (bootloader kernel uapp : List BYTE) : List BYTE :=
  let k32 := addPart bootloader []
  let k64 := addPart kernel k32.1
  let app := addPart uapp k64.1
  writeKernelInformation app.1 (cInt (cInt (k32.2 + k64.2) + app.2)) k32.2 k64.2 app.2

structure Copy where
  offset : ℕ
  size : ℕ
deriving DecidableEq, Repr

def getUshort (buf : List BYTE) (offset : ℕ) : Option ℕ :=
  match buf[offset]?, buf[offset + 1]? with
  | some lo, some hi => some (hi ++ lo).toNat
  | _, _ => none

-- filesize is an unsigned int; none is a read past the end of buf
def readImage (img : List BYTE) : List BYTE := img.take (img.length % 2 ^ 32)

def copies (gTotal gKernel32 gKernel64 : ℕ) : Copy × Copy :=
  (⟨gKernel32 * sector, gKernel64 * sector⟩,
    ⟨gKernel32 * sector + gKernel64 * sector, intToQword (((gTotal : ℤ) - gKernel32 - gKernel64) * sector)⟩)

def lkload (img : List BYTE) : Option (Copy × Copy) := do
  let buf := readImage img
  let gTotal ← getUshort buf totalCountOffset
  let gKernel32 ← getUshort buf (totalCountOffset + 2)
  let gKernel64 ← getUshort buf (totalCountOffset + 4)
  some (copies gTotal gKernel32 gKernel64)

def Copy.Moves (r : Copy) (buf part : List BYTE) : Prop :=
  r.size = part.length ∧ (buf.drop r.offset).take r.size = part

instance (r : Copy) (buf part : List BYTE) : Decidable (r.Moves buf part) := inferInstanceAs (Decidable (_ ∧ _))

def padded (part : List BYTE) : List BYTE :=
  part ++ List.replicate ((sector - part.length % sector) % sector) 0#8

def RoundTrip (bootloader kernel uapp : List BYTE) : Prop :=
  let img := imagemaker bootloader kernel uapp
  ∃ r, lkload img = some r ∧ r.1.Moves (readImage img) (padded kernel) ∧ r.2.Moves (readImage img) (padded uapp)

theorem cInt_of_lt {n : ℕ} (h : n < 2 ^ 31) : cInt n = n := by
  rw [cInt, BitVec.ofInt_natCast]
  exact toInt_of_lt h

theorem ofInt_cInt (z : ℤ) : BitVec.ofInt 32 (cInt z) = BitVec.ofInt 32 z := BitVec.ofInt_toInt

theorem cInt_cInt_add (a b : ℤ) : cInt (cInt a + b) = cInt (a + b) := by
  rw [cInt, BitVec.ofInt_add, ofInt_cInt, ← BitVec.ofInt_add, cInt]

theorem ofInt_sixteen_cInt (z : ℤ) : BitVec.ofInt 16 (cInt z) = BitVec.ofInt 16 z := by
  apply BitVec.eq_of_toInt_eq
  rw [cInt, BitVec.toInt_ofInt, BitVec.toInt_ofInt, BitVec.toInt_ofInt]
  exact Int.bmod_bmod_of_dvd (by decide)

theorem copyLoop_eq (source target : List BYTE) (n : ℤ) :
    copyLoop source target n = (target ++ source, cInt (n + source.length)) := by
  fun_induction copyLoop source target n with
  | case1 source target n buf m hshort =>
    have hall : source.take bytesofsector = source := by
      refine List.take_of_length_le ?_
      simp only [buf, List.length_take] at hshort
      omega
    simp only [buf, m, hall]
  | case2 source target n buf m hfull ih =>
    have hlen : buf.length + (source.drop bytesofsector).length = source.length := by
      rw [← List.length_append, List.take_append_drop]
    rw [ih, List.append_assoc, List.take_append_drop, cInt_cInt_add, add_assoc, ← Nat.cast_add, hlen]

theorem copyFile_eq (source target : List BYTE) : copyFile source target = (target ++ source, cInt source.length) := by
  rw [copyFile, copyLoop_eq, zero_add]

theorem addPart_eq (source target : List BYTE) : addPart source target =
    (target ++ (source ++ List.replicate (adjustSize (cInt source.length)).toNat 0#8),
      sectorCount (cInt source.length)) := by
  rw [addPart, copyFile_eq, adjustInSectorSize, List.append_assoc]

def sectors (n : ℕ) : ℕ := (n + 511) / 512

theorem padded_length (part : List BYTE) : (padded part).length = sectors part.length * sector := by
  simp only [padded, List.length_append, List.length_replicate, sectors, sector]
  omega

theorem adjustSize_of_nat (n : ℕ) : adjustSize n = ((sector - n % sector) % sector : ℕ) := by
  have ht : (n : ℤ).tmod bytesofsector = (n % 512 : ℕ) := (Int.ofNat_tmod ..).symm
  rw [adjustSize, ht]
  simp only [sector]
  split <;> omega

theorem sectorCount_of_nat {n : ℕ} (h : n + 511 < 2 ^ 31) : sectorCount n = sectors n := by
  rw [sectorCount, adjustSize_of_nat, ← Nat.cast_add, cInt_of_lt (by simp only [sector]; omega)]
  simp only [bytesofsector, sector, sectors, ← Int.ofNat_tdiv]
  omega

theorem addPart_small {source : List BYTE} (h : source.length + 511 < 2 ^ 31) (target : List BYTE) :
    addPart source target = (target ++ padded source, (sectors source.length : ℤ)) := by
  rw [addPart_eq, cInt_of_lt (by omega), adjustSize_of_nat, sectorCount_of_nat h]
  rfl

theorem writeAt_length {target data : List BYTE} {i : ℕ} (h : i + data.length ≤ target.length) :
    (writeAt target i data).length = target.length := by
  simp only [writeAt, List.length_append, List.length_take, List.length_replicate, List.length_drop]
  omega

theorem writeAt_eq {target data : List BYTE} {i : ℕ} (h : i + data.length ≤ target.length) :
    writeAt target i data = target.take i ++ (data ++ target.drop (i + data.length)) := by
  rw [writeAt, Nat.sub_eq_zero_of_le (by omega), List.replicate_zero, List.append_nil, List.append_assoc]

theorem writeAt_drop {target data : List BYTE} {i j : ℕ} (h : i + data.length ≤ target.length)
    (hj : i + data.length ≤ j) : (writeAt target i data).drop j = target.drop j := by
  have hi : (target.take i).length = i := by rw [List.length_take]; omega
  rw [writeAt_eq h, List.drop_append, List.drop_append, hi, List.drop_of_length_le (by omega), List.nil_append,
    List.drop_of_length_le (by omega), List.nil_append, List.drop_drop]
  congr 1
  omega

theorem writeAt_getElem? {target data : List BYTE} {i j : ℕ} (h : i + data.length ≤ target.length)
    (hj : j < data.length) : (writeAt target i data)[i + j]? = data[j]? := by
  have hi : (target.take i).length = i := by rw [List.length_take]; omega
  rw [writeAt_eq h, List.getElem?_append_right (by omega), hi, Nat.add_sub_cancel_left,
    List.getElem?_append_left hj]

theorem writeAt_getElem?_of_lt {target data : List BYTE} {i j : ℕ} (h : i + data.length ≤ target.length)
    (hj : j < i) : (writeAt target i data)[j]? = target[j]? := by
  rw [writeAt_eq h, List.getElem?_append_left (by rw [List.length_take]; omega), List.getElem?_take_of_lt hj]

theorem ushort_append (u : BitVec 16) : (u >>> 8).setWidth 8 ++ u.setWidth 8 = u := by
  apply BitVec.eq_of_toNat_eq
  have hu := u.isLt
  have hlo : u.toNat % 2 ^ 8 < 2 ^ 8 := Nat.mod_lt _ (by decide)
  rw [BitVec.toNat_append, BitVec.toNat_setWidth, BitVec.toNat_setWidth, BitVec.toNat_ushiftRight,
    ← Nat.shiftLeft_add_eq_or_of_lt hlo, Nat.shiftLeft_eq, Nat.shiftRight_eq_div_pow]
  omega

theorem getUshort_readImage {img : List BYTE} {i : ℕ} {u : BitVec 16} (h : i + 1 < img.length % 2 ^ 32)
    (hlo : img[i]? = some (u.setWidth 8)) (hhi : img[i + 1]? = some ((u >>> 8).setWidth 8)) :
    getUshort (readImage img) i = some u.toNat := by
  simp only [getUshort, readImage, List.getElem?_take_of_lt h, List.getElem?_take_of_lt (Nat.lt_of_succ_lt h),
    hlo, hhi, ushort_append]

section Written

variable {body : List BYTE} {t b k a : ℤ}

theorem writeKernelInformation_length (hb : 0x8B ≤ body.length) :
    (writeKernelInformation body t b k a).length = body.length := writeAt_length hb

theorem writeKernelInformation_drop (hb : 0x8B ≤ body.length) {j : ℕ} (hj : 0x8B ≤ j) :
    (writeKernelInformation body t b k a).drop j = body.drop j := writeAt_drop hb hj

theorem lkload_written (hb : 0x8B ≤ body.length) (hf : 0x8B ≤ body.length % 2 ^ 32) :
    lkload (writeKernelInformation body t b k a) =
      some (copies (BitVec.ofInt 16 t).toNat (BitVec.ofInt 16 b).toNat (BitVec.ofInt 16 k).toNat) := by
  have hlen := @writeKernelInformation_length body t b k a hb
  have hbyte (j : ℕ) (hj : j < 8) : (writeKernelInformation body t b k a)[totalCountOffset + j]? =
      (ushort (.ofInt 16 t) ++ ushort (.ofInt 16 b) ++ ushort (.ofInt 16 k) ++ ushort (.ofInt 16 a))[j]? :=
    writeAt_getElem? hb hj
  have h0 : getUshort (readImage (writeKernelInformation body t b k a)) totalCountOffset = _ :=
    getUshort_readImage (by rw [hlen]; simp only [totalCountOffset]; omega) (hbyte 0 (by decide)) (hbyte 1 (by decide))
  have h2 : getUshort (readImage (writeKernelInformation body t b k a)) (totalCountOffset + 2) = _ :=
    getUshort_readImage (by rw [hlen]; simp only [totalCountOffset]; omega) (hbyte 2 (by decide)) (hbyte 3 (by decide))
  have h4 : getUshort (readImage (writeKernelInformation body t b k a)) (totalCountOffset + 4) = _ :=
    getUshort_readImage (by rw [hlen]; simp only [totalCountOffset]; omega) (hbyte 4 (by decide)) (hbyte 5 (by decide))
  simp only [lkload, h0, h2, h4, Option.bind_eq_bind, Option.bind_some]

theorem readImage_drop {j : ℕ} {img : List BYTE} (h : img.length < 2 ^ 32) : (readImage img).drop j = img.drop j := by
  rw [readImage, Nat.mod_eq_of_lt h, List.take_length]

end Written

theorem lkload_empty {img : List BYTE} (h : img.length % 2 ^ 32 = 0) : lkload img = none := by
  simp only [lkload, readImage, h, List.take_zero, getUshort, List.getElem?_nil, Option.bind_eq_bind, Option.bind_none]

def body (bootloader kernel uapp : List BYTE) : List BYTE := (addPart uapp (addPart kernel (addPart bootloader []).1).1).1

theorem imagemaker_eq (bootloader kernel uapp : List BYTE) : imagemaker bootloader kernel uapp =
    writeKernelInformation (body bootloader kernel uapp)
      (cInt (cInt (sectorCount (cInt bootloader.length) + sectorCount (cInt kernel.length)) +
        sectorCount (cInt uapp.length)))
      (sectorCount (cInt bootloader.length)) (sectorCount (cInt kernel.length)) (sectorCount (cInt uapp.length)) := by
  simp only [imagemaker, body, addPart_eq]

theorem cInt_emod (z : ℤ) : cInt z % 512 = z % 512 := by
  rw [cInt, BitVec.toInt_ofInt, Int.bmod_def]
  split <;> omega

theorem adjusted_mod (n : ℕ) : (n + (adjustSize (cInt n)).toNat) % 512 = 0 := by
  have hz := cInt_emod n
  have ht := Int.tmod_add_mul_tdiv (cInt n) 512
  have hlt := Int.tmod_lt_of_pos (cInt n) (show (0 : ℤ) < 512 by decide)
  have hd : ((bytesofsector : ℕ) : ℤ) = 512 := rfl
  rw [adjustSize, hd]
  split <;> omega

theorem body_eq (bootloader kernel uapp : List BYTE) : body bootloader kernel uapp =
    (bootloader ++ List.replicate (adjustSize (cInt bootloader.length)).toNat 0#8) ++
      (kernel ++ List.replicate (adjustSize (cInt kernel.length)).toNat 0#8) ++
        (uapp ++ List.replicate (adjustSize (cInt uapp.length)).toNat 0#8) := by
  simp only [body, addPart_eq, List.nil_append]

theorem body_length_mod (bootloader kernel uapp : List BYTE) : (body bootloader kernel uapp).length % 512 = 0 := by
  have hb := adjusted_mod bootloader.length
  have hk := adjusted_mod kernel.length
  have ha := adjusted_mod uapp.length
  simp only [body_eq, List.length_append, List.length_replicate]
  omega

theorem body_length_ge (bootloader kernel uapp : List BYTE) :
    bootloader.length ≤ (body bootloader kernel uapp).length := by
  simp only [body_eq, List.length_append]
  omega

def count (n : ℕ) : ℕ := (BitVec.ofInt 16 (sectorCount (cInt n))).toNat

theorem count_lt (n : ℕ) : count n < 2 ^ 16 := BitVec.isLt _

theorem count_of_small {n : ℕ} (h : sectors n < 2 ^ 16) : count n = sectors n := by
  have hn : n + 511 < 2 ^ 31 := by unfold sectors at h; omega
  rw [count, cInt_of_lt (by omega), sectorCount_of_nat hn, BitVec.ofInt_natCast, BitVec.toNat_ofNat,
    Nat.mod_eq_of_lt h]

def totalCount (m n p : ℕ) : ℕ :=
  (BitVec.ofInt 16 (sectorCount (cInt m) + sectorCount (cInt n) + sectorCount (cInt p))).toNat

theorem totalCount_lt (m n p : ℕ) : totalCount m n p < 2 ^ 16 := BitVec.isLt _

theorem totalCount_eq (m n p : ℕ) : totalCount m n p = (count m + count n + count p) % 2 ^ 16 := by
  simp only [totalCount, count, BitVec.ofInt_add, BitVec.toNat_add, Nat.mod_add_mod]

variable {bootloader kernel uapp : List BYTE}

theorem lkload_imagemaker (hb : 0x8B ≤ bootloader.length)
    (hf : (body bootloader kernel uapp).length % 2 ^ 32 ≠ 0) :
    lkload (imagemaker bootloader kernel uapp) =
      some (copies (totalCount bootloader.length kernel.length uapp.length) (count bootloader.length)
        (count kernel.length)) := by
  have hlen := body_length_ge bootloader kernel uapp
  have hmod := body_length_mod bootloader kernel uapp
  rw [imagemaker_eq, lkload_written (by omega) (by omega), cInt_cInt_add,
    ofInt_sixteen_cInt]
  rfl

theorem imagemaker_length (hb : 0x8B ≤ bootloader.length) :
    (imagemaker bootloader kernel uapp).length = (body bootloader kernel uapp).length := by
  rw [imagemaker_eq, writeKernelInformation_length (hb.trans (body_length_ge ..))]

theorem RoundTrip.body_length (h : RoundTrip bootloader kernel uapp) (hb : 0x8B ≤ bootloader.length) :
    (body bootloader kernel uapp).length % 2 ^ 32 ≠ 0 := by
  obtain ⟨r, hl, _⟩ := h
  intro hz
  rw [lkload_empty (by rw [imagemaker_length hb, hz])] at hl
  exact absurd hl (by simp)

theorem RoundTrip.moves (h : RoundTrip bootloader kernel uapp) (hb : 0x8B ≤ bootloader.length) :
    Copy.Moves ⟨count bootloader.length * sector, count kernel.length * sector⟩
        (readImage (imagemaker bootloader kernel uapp)) (padded kernel) ∧
      Copy.Moves ⟨count bootloader.length * sector + count kernel.length * sector,
          intToQword (((totalCount bootloader.length kernel.length uapp.length : ℤ) - count bootloader.length -
            count kernel.length) * sector)⟩
        (readImage (imagemaker bootloader kernel uapp)) (padded uapp) := by
  have hf := h.body_length hb
  obtain ⟨r, hl, hk, ha⟩ := h
  rw [lkload_imagemaker hb hf] at hl
  rw [← Option.some.inj hl] at hk ha
  exact ⟨hk, ha⟩

theorem Copy.Moves.length_le {r : Copy} {buf part : List BYTE} (h : r.Moves buf part) : part.length ≤ buf.length := by
  rw [← h.2, List.length_take, List.length_drop]
  omega

theorem Copy.Moves.head {r : Copy} {buf part : List BYTE} {x : BYTE} (h : r.Moves buf part) (hx : part[0]? = some x) :
    buf[r.offset]? = some x := by
  rw [← h.2, List.getElem?_take] at hx
  split at hx
  · rwa [List.getElem?_drop, Nat.add_zero] at hx
  · exact absurd hx (by simp)

theorem readImage_length_lt (img : List BYTE) : (readImage img).length < 2 ^ 32 := by
  have := Nat.mod_lt img.length (show 0 < 2 ^ 32 by decide)
  rw [readImage, List.length_take]
  omega

theorem RoundTrip.kernel_lt (h : RoundTrip bootloader kernel uapp) (hb : 0x8B ≤ bootloader.length) :
    sectors kernel.length < 2 ^ 16 := by
  have hsize := (h.moves hb).1.1
  have hlt := count_lt kernel.length
  rw [padded_length] at hsize
  simp only [sector] at hsize
  omega

theorem RoundTrip.sum_lt (h : RoundTrip bootloader kernel uapp) (hb : 0x8B ≤ bootloader.length)
    (hs : sectors bootloader.length < 2 ^ 16) :
    sectors bootloader.length + sectors kernel.length + sectors uapp.length < 2 ^ 16 := by
  have hk := h.kernel_lt hb
  have ha := (h.moves hb).2
  have hsize := ha.1
  have hlen := ha.length_le
  have hbuf := readImage_length_lt (imagemaker bootloader kernel uapp)
  have ht := totalCount_lt bootloader.length kernel.length uapp.length
  rw [count_of_small hs, count_of_small hk] at hsize
  rw [padded_length] at hsize hlen
  simp only [sector, intToQword, BitVec.toNat_ofInt] at hsize hlen
  omega

theorem roundTrip_of_small (hb : 0x8B ≤ bootloader.length)
    (h : sectors bootloader.length + sectors kernel.length + sectors uapp.length < 2 ^ 16) :
    RoundTrip bootloader kernel uapp := by
  have hm : sectors bootloader.length < 2 ^ 16 := by omega
  have hn : sectors kernel.length < 2 ^ 16 := by omega
  have hp : sectors uapp.length < 2 ^ 16 := by omega
  have hsmall {n : ℕ} (hn : sectors n < 2 ^ 16) : n + 511 < 2 ^ 31 := by unfold sectors at hn; omega
  have hbody : body bootloader kernel uapp = padded bootloader ++ (padded kernel ++ padded uapp) := by
    simp only [body, addPart_small (hsmall hm), addPart_small (hsmall hn), addPart_small (hsmall hp),
      List.nil_append, List.append_assoc]
  have hlen : (body bootloader kernel uapp).length =
      (sectors bootloader.length + sectors kernel.length + sectors uapp.length) * sector := by
    simp only [hbody, List.length_append, padded_length]
    ring
  have hpos : 1 ≤ sectors bootloader.length := by unfold sectors; omega
  simp only [sector] at hlen
  have hdrop : ∀ j, 0x8B ≤ j → (readImage (imagemaker bootloader kernel uapp)).drop j =
      (body bootloader kernel uapp).drop j := by
    intro j hj
    rw [readImage_drop (by rw [imagemaker_length hb]; omega), imagemaker_eq,
      writeKernelInformation_drop (by omega) hj]
  refine ⟨_, lkload_imagemaker hb (by omega), ?_, ?_⟩
  · simp only [copies, count_of_small hm, count_of_small hn]
    refine ⟨(padded_length kernel).symm, ?_⟩
    rw [hdrop _ (by simp only [sector]; omega), hbody, ← padded_length bootloader, ← padded_length kernel,
      List.drop_left, List.take_left]
  · have ht : totalCount bootloader.length kernel.length uapp.length =
        sectors bootloader.length + sectors kernel.length + sectors uapp.length := by
      rw [totalCount_eq, count_of_small hm, count_of_small hn, count_of_small hp, Nat.mod_eq_of_lt h]
    have hsz : intToQword (((totalCount bootloader.length kernel.length uapp.length : ℤ) -
        sectors bootloader.length - sectors kernel.length) * sector) = (padded uapp).length := by
      rw [ht, padded_length, ← intToQword_of_nat (n := sectors uapp.length * sector) (by simp only [sector]; omega)]
      congr 1
      push_cast
      ring
    simp only [copies, count_of_small hm, count_of_small hn]
    refine ⟨hsz, ?_⟩
    rw [hdrop _ (by simp only [sector]; omega), hbody, hsz, ← padded_length bootloader, ← padded_length kernel,
      ← List.append_assoc, ← List.length_append, List.drop_left, List.take_length]

theorem imagemaker_sector (hb : 0x8B ≤ bootloader.length) {j : ℕ} (hj : j * sector < bootloader.length) :
    (imagemaker bootloader kernel uapp)[j * sector]? = bootloader[j * sector]? := by
  have hbody : (body bootloader kernel uapp)[j * sector]? = bootloader[j * sector]? := by
    rw [body_eq, List.append_assoc, List.append_assoc, List.getElem?_append_left hj]
  have hlen : 0x8B ≤ (body bootloader kernel uapp).length := hb.trans (body_length_ge ..)
  rw [imagemaker_eq, ← hbody]
  rcases Nat.eq_zero_or_pos j with rfl | hpos
  · exact writeAt_getElem?_of_lt hlen (by decide)
  · rw [← Nat.add_zero (j * sector), ← List.getElem?_drop, ← List.getElem?_drop,
      writeKernelInformation_drop hlen (by simp only [sector]; omega)]

theorem not_moves_of_large {m n p : ℕ} (hb : 0x8B ≤ m) (hm : 2 ^ 16 ≤ sectors m) {r : Copy} {part : List BYTE}
    (hr : r.offset = count m * sector) (hp : part[0]? = some 1#8) :
    ¬ r.Moves (readImage (imagemaker (.replicate m 0#8) (.replicate n 1#8) (.replicate p 1#8))) part := by
  intro h
  have hx := h.head hp
  have hlt := count_lt m
  have hin : count m * sector < (List.replicate m (0#8)).length := by
    rw [List.length_replicate]
    simp only [sector]
    unfold sectors at hm
    omega
  have hb' : 0x8B ≤ (List.replicate m (0#8)).length := by rwa [List.length_replicate]
  rw [hr, readImage, List.getElem?_take] at hx
  split at hx
  · rw [imagemaker_sector hb' hin, List.getElem?_replicate] at hx
    rw [List.length_replicate] at hin
    rw [if_pos hin] at hx
    exact absurd hx (by decide)
  · exact absurd hx (by simp)

theorem padded_replicate_head {n : ℕ} (h : n ≠ 0) : (padded (.replicate n 1#8))[0]? = some 1#8 := by
  have hpos : 0 < n := Nat.pos_of_ne_zero h
  rw [padded, List.getElem?_append_left (by rwa [List.length_replicate]), List.getElem?_replicate, if_pos hpos]

theorem not_roundTrip_of_large {m n p : ℕ} (hb : 0x8B ≤ m) (hm : 2 ^ 16 ≤ sectors m) (h : n ≠ 0 ∨ p ≠ 0) :
    ¬ RoundTrip (.replicate m 0#8) (.replicate n 1#8) (.replicate p 1#8) := by
  intro hr
  obtain ⟨hk, ha⟩ := hr.moves (by rwa [List.length_replicate])
  rcases Nat.eq_zero_or_pos n with rfl | hn
  · have hp : p ≠ 0 := by simpa using h
    have h0 : count 0 = 0 := count_of_small (by decide)
    refine not_moves_of_large hb hm ?_ (padded_replicate_head hp) ha
    rw [List.length_replicate, List.length_replicate, h0, Nat.zero_mul, Nat.add_zero]
  · refine not_moves_of_large hb hm ?_ (padded_replicate_head (by omega)) hk
    rw [List.length_replicate]

def imageSize (m n p : ℕ) : ℕ :=
  m + (adjustSize (cInt m)).toNat + (n + (adjustSize (cInt n)).toNat) + (p + (adjustSize (cInt p)).toNat)

theorem body_length_eq (bootloader kernel uapp : List BYTE) : (body bootloader kernel uapp).length =
    imageSize bootloader.length kernel.length uapp.length := by
  simp only [body_eq, List.length_append, List.length_replicate, imageSize]

theorem roundTrip_nothing (hb : 0x8B ≤ bootloader.length) (hf : imageSize bootloader.length 0 0 % 2 ^ 32 ≠ 0) :
    RoundTrip bootloader [] [] := by
  have h0 : count 0 = 0 := count_of_small (by decide)
  have ht : totalCount bootloader.length 0 0 = count bootloader.length := by
    rw [totalCount_eq, h0, Nat.add_zero, Nat.mod_eq_of_lt (count_lt _)]
  refine ⟨_, lkload_imagemaker hb (by rwa [body_length_eq]), ?_, ?_⟩
  · simp only [copies, List.length_nil, h0]
    exact ⟨rfl, by rw [Nat.zero_mul, List.take_zero]; rfl⟩
  · have hz : intToQword (((count bootloader.length : ℤ) - count bootloader.length - (0 : ℕ)) * sector) = 0 := by
      rw [sub_self, Nat.cast_zero, sub_zero, zero_mul]
      rfl
    simp only [copies, List.length_nil, h0, ht]
    exact ⟨hz, by rw [hz, List.take_zero]; rfl⟩

theorem roundTrip_iff (m n p : ℕ) (hb : 0x8B ≤ m) :
    (∀ bootloader kernel uapp : List BYTE, bootloader.length = m → kernel.length = n → uapp.length = p →
        RoundTrip bootloader kernel uapp) ↔
      sectors m + sectors n + sectors p < 2 ^ 16 ∨ n = 0 ∧ p = 0 ∧ imageSize m 0 0 % 2 ^ 32 ≠ 0 := by
  constructor
  · intro h
    have hr := h (.replicate m 0#8) (.replicate n 1#8) (.replicate p 1#8) List.length_replicate
      List.length_replicate List.length_replicate
    have hb' : 0x8B ≤ (List.replicate m (0#8)).length := by rwa [List.length_replicate]
    by_cases hm : sectors m < 2 ^ 16
    · have hsum := hr.sum_lt hb' (by rwa [List.length_replicate])
      simp only [List.length_replicate] at hsum
      exact .inl hsum
    · have hnp : n = 0 ∧ p = 0 := by
        by_contra hne
        exact not_roundTrip_of_large hb (Nat.not_lt.1 hm) (by omega) hr
      obtain ⟨rfl, rfl⟩ := hnp
      have hlen := hr.body_length hb'
      rw [body_length_eq, List.length_replicate] at hlen
      exact .inr ⟨rfl, rfl, hlen⟩
  · rintro (hsum | ⟨hn, hp, hlen⟩) bootloader kernel uapp rfl rfl rfl
    · exact roundTrip_of_small hb hsum
    · rw [List.length_eq_zero_iff.1 hn, List.length_eq_zero_iff.1 hp]
      exact roundTrip_nothing hb hlen

theorem roundTrip_one_byte : 0x8B ≤ 512 ∧ RoundTrip (.replicate 512 0#8) [7#8] [] :=
  ⟨by decide, (roundTrip_iff 512 1 0 (by decide)).2 (.inl (by decide)) _ _ _ List.length_replicate rfl rfl⟩

theorem large_application_lost : sectors (65534 * 512) = 65534 ∧
    ¬ RoundTrip (.replicate 512 0#8) (.replicate 512 1#8) (.replicate (65534 * 512) 1#8) := by
  refine ⟨by decide, fun h => ?_⟩
  have hsum := h.sum_lt (by simp only [List.length_replicate]; decide) (by simp only [List.length_replicate]; decide)
  simp only [List.length_replicate] at hsum
  exact absurd hsum (by decide)

end Disk
end Azalea
