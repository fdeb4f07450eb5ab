import Azalea.Memory.Pool

namespace Azalea

structure IoPacket where
  magic : ℕ
  tid : ℕ
  ioFunctionType : ℕ
  param1 : ℕ
  param2 : ℕ
  param3 : ℕ
  param4 : ℕ
  param5 : ℕ
  param6 : ℕ
  ret : ℕ
deriving DecidableEq, Repr

@[simp] def offloadMagic : ℕ := 0x5D4C3B2A

@[simp] def proxyMagic : ℕ := 0x4D3C2B1A

def offloadTid (gUkid tid : ℤ) : ℤ := BitVec.toInt (BitVec.ofInt 32 (gUkid * 10000 + tid))

namespace IoPacket

-- what send_offload_message of the kernel stores: ret keeps what the slot held
def request (slot : IoPacket) (gUkid tid ioFunctionType : ℤ) (param1 param2 param3 param4 param5 param6 : ℕ) :
    IoPacket :=
  { slot with
    magic := offloadMagic
    tid := intToQword (offloadTid gUkid tid)
    ioFunctionType := intToQword ioFunctionType
    param1, param2, param3, param4, param5, param6 }

-- what send_offload_message of the proxy stores: the parameters keep what the slot held
def reply (slot : IoPacket) (tid ioFunctionType : ℤ) (ret : ℕ) : IoPacket :=
  { slot with
    magic := proxyMagic
    tid := intToQword tid
    ioFunctionType := intToQword ioFunctionType
    ret }

end IoPacket

theorem toInt_intToQword {i : ℤ} (hl : -2 ^ 31 ≤ i) (hu : i < 2 ^ 31) : toInt (intToQword i) = i := by
  rw [toInt_eq, intToQword, BitVec.toNat_ofInt]
  split_ifs <;> omega

theorem toInt_offloadTid (gUkid tid : ℤ) : toInt (intToQword (offloadTid gUkid tid)) = offloadTid gUkid tid := by
  refine toInt_intToQword ?_ ?_
  · exact BitVec.le_toInt _
  · exact BitVec.toInt_lt

end Azalea
