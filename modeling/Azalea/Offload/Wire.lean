import Azalea.Offload.Channel
import Azalea.Utility.Memcpy

namespace Azalea
namespace Wire

-- struct dirent of the kernel: its ino_t has 16 bits, the other members lie where the host has them
structure Dirent where
  dIno : BitVec 16
  dOff : BitVec 64
  dReclen : BitVec 16
  dType : BitVec 8
  dName : List (BitVec 8)
deriving DecidableEq, Repr

def sizeofDirent : ℕ := 280

def Dirent.ofMem (mem : Bytes.Mem 64) (p : QWORD) : Dirent where
  dIno := .ofNat 16 (Bytes.load mem p 2)
  dOff := .ofNat 64 (Bytes.load mem (p + .ofNat 64 8) 8)
  dReclen := .ofNat 16 (Bytes.load mem (p + .ofNat 64 16) 2)
  dType := mem (p + .ofNat 64 18)
  dName := ((List.range 256).map fun i => mem (p + .ofNat 64 (19 + i))).takeWhile (· ≠ 0)

structure Hostent where
  hName : Option (List (BitVec 8))
  hAlias : Option (List (BitVec 8))
  hAddrtype : BitVec 32
  hLength : BitVec 32
  hAddr : Option (List (BitVec 8))
deriving DecidableEq, Repr

def Hostent.Complete (e : Hostent) : Prop := e.hName.isSome ∧ e.hAlias.isSome ∧ e.hAddr.isSome

structure HostentBuffers where
  hName : List (BitVec 8)
  hAlias : List (BitVec 8)
  hAddrtype : BitVec 32
  hLength : BitVec 32
  hAddr : List (BitVec 8)

def HostentBuffers.hostent (g : HostentBuffers) : Hostent :=
  ⟨some g.hName, some g.hAlias, g.hAddrtype, g.hLength, some (g.hAddr.take g.hLength.toInt.toNat)⟩

structure Kernel where
  getPa : ℕ → ℕ
  azAlloc : ℕ
  hName : ℕ
  hAliases : ℕ
  hAddrtype : ℕ
  hLength : ℕ
  hAddr : ℕ
  gHp : HostentBuffers
  mem : Bytes.Mem 64
  dirent : QWORD
  dirent_high : 2 ^ 63 ≤ dirent.toNat
  dirent_end : dirent.toNat + sizeofDirent ≤ 2 ^ 64

@[simp] def message (ioFunctionType param1 param2 param3 param4 param5 param6 : ℕ) : OffloadCall :=
  ⟨BitVec.ofNat 32 ioFunctionType, param1, param2, param3, param4, param5, param6⟩

def send (refused : Prop) [Decidable refused] (ioFunctionType param1 param2 param3 param4 param5 param6 : ℕ) :
    Option OffloadCall :=
  if refused then none else some (message ioFunctionType param1 param2 param3 param4 param5 param6)

def intQword (i : BitVec 32) : ℕ := intToQword i.toInt

def offQword (o : BitVec 64) : ℕ := intToQword o.toInt

namespace Kernel
variable (k : Kernel)

def sysOffOpen (path : ℕ) (oflag mode : BitVec 32) : Option OffloadCall :=
  send (path = 0) 510 (k.getPa path) (intQword oflag) mode.toNat 0 0 0

def sysOffCreat (path : ℕ) (mode : BitVec 32) : Option OffloadCall :=
  send (path = 0) 528 (k.getPa path) mode.toNat 0 0 0 0

def sysOffIo (ioFunctionType : ℕ) (fd : BitVec 32) (buf : ℕ) (count : BitVec 64) : Option OffloadCall :=
  send (count = 0) ioFunctionType (intQword fd) (k.getPa buf) count.toNat 0 0 0

def sysOffRead := k.sysOffIo 507

def sysOffWrite := k.sysOffIo 508

def sysOffClose (fd : BitVec 32) : Option OffloadCall :=
  send (fd.toInt < 3) 511 (intQword fd) 0 0 0 0 0

def sysOffLseek (fd : BitVec 32) (offset : BitVec 64) (whence : BitVec 32) : Option OffloadCall :=
  send (fd.toInt < 3) 520 (intQword fd) (offQword offset) (intQword whence) 0 0 0

def sysOffLink (oldpath newpath : ℕ) : Option OffloadCall :=
  some (message 534 (k.getPa oldpath) (k.getPa newpath) 0 0 0 0)

def sysOffUnlink (path : ℕ) : Option OffloadCall := some (message 530 (k.getPa path) 0 0 0 0 0)

def sysOffStat (pathname buf : ℕ) : Option OffloadCall :=
  send (pathname = 0 ∨ buf = 0) 531 (k.getPa pathname) (k.getPa buf) 0 0 0 0

def getcwdBuf (buf : ℕ) : ℕ := if buf = 0 then k.azAlloc else buf

def sys3OffGetcwd (buf : ℕ) (size : BitVec 64) : Option OffloadCall :=
  send (buf = 0 ∧ size = 0) 903 (k.getPa (k.getcwdBuf buf)) size.toNat 0 0 0 0

def sysOffPointer (ioFunctionType : ℕ) (p : ℕ) : Option OffloadCall :=
  send (p = 0) ioFunctionType (k.getPa p) 0 0 0 0 0

def sys3OffSystem := k.sysOffPointer 904

def sysOffChdir := k.sysOffPointer 533

def sys3OffOpendir := k.sysOffPointer 905

def sysOffDir (ioFunctionType : ℕ) (dirp : BitVec 64) : Option OffloadCall :=
  send (dirp = 0) ioFunctionType dirp.toNat 0 0 0 0 0

def sys3OffClosedir := sysOffDir 906

def sys3OffReaddir := sysOffDir 907

def sys3OffRewinddir := sysOffDir 908

def sysOffGethostname (name : ℕ) (len : BitVec 64) : Option OffloadCall :=
  send (name = 0 ∨ len = 0) 601 (k.getPa name) len.toNat 0 0 0 0

def sysOffGethostbyname (name : ℕ) : Option OffloadCall :=
  send (name = 0) 602 (k.getPa name) (k.getPa k.hName) (k.getPa k.hAliases) (k.getPa k.hAddrtype) (k.getPa k.hLength)
    (k.getPa k.hAddr)

def sysOffSockaddr (ioFunctionType : ℕ) (sockfd : BitVec 32) (addr addrlen : ℕ) : Option OffloadCall :=
  send (addr = 0 ∨ addrlen = 0) ioFunctionType (intQword sockfd) (k.getPa addr) (k.getPa addrlen) 0 0 0

def sysOffGetsockname := k.sysOffSockaddr 603

def sysOffAccept := k.sysOffSockaddr 608

def sysOffSocket (domain type protocol : BitVec 32) : Option OffloadCall :=
  some (message 604 (intQword domain) (intQword type) (intQword protocol) 0 0 0)

def sysOffAddress (ioFunctionType : ℕ) (sockfd : BitVec 32) (addr : ℕ) (addrlen : BitVec 32) : Option OffloadCall :=
  send (addr = 0) ioFunctionType (intQword sockfd) (k.getPa addr) addrlen.toNat 0 0 0

def sysOffBind := k.sysOffAddress 605

def sysOffConnect := k.sysOffAddress 607

def sysOffListen (sockfd backlog : BitVec 32) : Option OffloadCall :=
  some (message 606 (intQword sockfd) (intQword backlog) 0 0 0 0)

end Kernel

inductive Call where
  | sysOpen (path : ℕ) (oflag mode : BitVec 32)
  | sysCreat (path : ℕ) (mode : BitVec 32)
  | sysRead (fd : BitVec 32) (buf : ℕ) (count : BitVec 64)
  | sysWrite (fd : BitVec 32) (buf : ℕ) (count : BitVec 64)
  | sysClose (fd : BitVec 32)
  | sysLseek (fd : BitVec 32) (offset : BitVec 64) (whence : BitVec 32)
  | sysLink (oldpath newpath : ℕ)
  | sysUnlink (path : ℕ)
  | sysStat (pathname buf : ℕ)
  | sys3Getcwd (buf : ℕ) (size : BitVec 64)
  | sys3System (command : ℕ)
  | sysChdir (path : ℕ)
  | sys3Opendir (name : ℕ)
  | sys3Closedir (dirp : BitVec 64)
  | sys3Readdir (dirp : BitVec 64)
  | sys3Rewinddir (dirp : BitVec 64)
  | sysGethostname (name : ℕ) (len : BitVec 64)
  | sysGethostbyname (name : ℕ)
  | sysGetsockname (sockfd : BitVec 32) (addr addrlen : ℕ)
  | sysSocket (domain type protocol : BitVec 32)
  | sysBind (sockfd : BitVec 32) (addr : ℕ) (addrlen : BitVec 32)
  | sysListen (sockfd backlog : BitVec 32)
  | sysConnect (sockfd : BitVec 32) (addr : ℕ) (addrlen : BitVec 32)
  | sysAccept (sockfd : BitVec 32) (addr addrlen : ℕ)
deriving DecidableEq, Repr

namespace Call

def request (k : Kernel) : Call → Option OffloadCall
  | sysOpen path oflag mode => k.sysOffOpen path oflag mode
  | sysCreat path mode => k.sysOffCreat path mode
  | sysRead fd buf count => k.sysOffRead fd buf count
  | sysWrite fd buf count => k.sysOffWrite fd buf count
  | sysClose fd => Kernel.sysOffClose fd
  | sysLseek fd offset whence => Kernel.sysOffLseek fd offset whence
  | sysLink oldpath newpath => k.sysOffLink oldpath newpath
  | sysUnlink path => k.sysOffUnlink path
  | sysStat pathname buf => k.sysOffStat pathname buf
  | sys3Getcwd buf size => k.sys3OffGetcwd buf size
  | sys3System command => k.sys3OffSystem command
  | sysChdir path => k.sysOffChdir path
  | sys3Opendir name => k.sys3OffOpendir name
  | sys3Closedir dirp => Kernel.sys3OffClosedir dirp
  | sys3Readdir dirp => Kernel.sys3OffReaddir dirp
  | sys3Rewinddir dirp => Kernel.sys3OffRewinddir dirp
  | sysGethostname name len => k.sysOffGethostname name len
  | sysGethostbyname name => k.sysOffGethostbyname name
  | sysGetsockname sockfd addr addrlen => k.sysOffGetsockname sockfd addr addrlen
  | sysSocket domain type protocol => Kernel.sysOffSocket domain type protocol
  | sysBind sockfd addr addrlen => k.sysOffBind sockfd addr addrlen
  | sysListen sockfd backlog => Kernel.sysOffListen sockfd backlog
  | sysConnect sockfd addr addrlen => k.sysOffConnect sockfd addr addrlen
  | sysAccept sockfd addr addrlen => k.sysOffAccept sockfd addr addrlen

@[simp] def scalars : Call → List ℤ
  | sysOpen _ oflag mode => [oflag.toInt, mode.toNat]
  | sysCreat _ mode => [mode.toNat]
  | sysRead fd _ count => [fd.toInt, count.toNat]
  | sysWrite fd _ count => [fd.toInt, count.toNat]
  | sysClose fd => [fd.toInt]
  | sysLseek fd offset whence => [fd.toInt, offset.toInt, whence.toInt]
  | sys3Getcwd _ size => [size.toNat]
  | sys3Closedir dirp => [dirp.toNat]
  | sys3Readdir dirp => [dirp.toNat]
  | sys3Rewinddir dirp => [dirp.toNat]
  | sysGethostname _ len => [len.toNat]
  | sysGetsockname sockfd _ _ => [sockfd.toInt]
  | sysSocket domain type protocol => [domain.toInt, type.toInt, protocol.toInt]
  | sysBind sockfd _ addrlen => [sockfd.toInt, addrlen.toNat]
  | sysListen sockfd backlog => [sockfd.toInt, backlog.toInt]
  | sysConnect sockfd _ addrlen => [sockfd.toInt, addrlen.toNat]
  | sysAccept sockfd _ _ => [sockfd.toInt]
  | sysLink _ _ | sysUnlink _ | sysStat _ _ | sys3System _ | sysChdir _ | sys3Opendir _ | sysGethostbyname _ => []

end Call

-- the local variables of the handlers: count of read and write and len of gethostname are int there
inductive Job where
  | sysOpen (path : ℕ) (oflag mode : BitVec 32)
  | sysCreat (path : ℕ) (mode : BitVec 32)
  | sysRead (fd : BitVec 32) (pa : ℕ) (count : BitVec 32)
  | sysWrite (fd : BitVec 32) (pa : ℕ) (count : BitVec 32)
  | sysClose (fd : BitVec 32)
  | sysLseek (fd : BitVec 32) (offset : BitVec 64) (whence : BitVec 32)
  | sysLink (oldpath newpath : ℕ)
  | sysUnlink (path : ℕ)
  | sysStat (pathname buf : ℕ)
  | sys3Getcwd (buf : ℕ) (size : BitVec 64)
  | sys3System (command : ℕ)
  | sysChdir (path : ℕ)
  | sys3Opendir (name : ℕ)
  | sys3Closedir (dirp : BitVec 64)
  | sys3Readdir (dirp : BitVec 64)
  | sys3Rewinddir (dirp : BitVec 64)
  | sysGethostname (name : ℕ) (len : BitVec 32)
  | sysGethostbyname (name hName hAliase hAddrtype hLength hAddr : ℕ)
  | sysGetsockname (sockfd : BitVec 32) (addr addrlen : ℕ)
  | sysSocket (domain type protocol : BitVec 32)
  | sysBind (sockfd : BitVec 32) (addr : ℕ) (addrlen : BitVec 32)
  | sysListen (sockfd backlog : BitVec 32)
  | sysConnect (sockfd : BitVec 32) (addr : ℕ) (addrlen : BitVec 32)
  | sysAccept (sockfd : BitVec 32) (addr addrlen : ℕ)
deriving DecidableEq, Repr

namespace Job

-- what the host does: the int, the 64-bit or the pointer result of the call, access(path, F_OK) == 0, errno != 0;
-- a pointer is NULL or one into the proxy's mem, and hostent is what gethostbyname's points to
structure Host where
  iret : BitVec 32
  lret : BitVec 64
  pret : QWORD
  access : Bool
  errno : Bool
  mem : Bytes.Mem 64
  hostent : Hostent
  pret_user : pret.toNat < 2 ^ 47
  hostent_addr : ∀ a ∈ hostent.hAddr, a.length = hostent.hLength.toInt.toNat

section Handlers
variable (getVa : ℕ → ℕ) (pkt : IoPacket)

@[simp] def sysOffOpen : Job := .sysOpen (getVa pkt.param1) (.ofNat 32 pkt.param2) (.ofNat 32 pkt.param3)

@[simp] def sysOffCreat : Job := .sysCreat (getVa pkt.param1) (.ofNat 32 pkt.param2)

@[simp] def sysOffRead : Job := .sysRead (.ofNat 32 pkt.param1) pkt.param2 (.ofNat 32 pkt.param3)

@[simp] def sysOffWrite : Job := .sysWrite (.ofNat 32 pkt.param1) pkt.param2 (.ofNat 32 pkt.param3)

@[simp] def sysOffClose : Job := .sysClose (.ofNat 32 pkt.param1)

@[simp] def sysOffLseek : Job := .sysLseek (.ofNat 32 pkt.param1) (.ofNat 64 pkt.param2) (.ofNat 32 pkt.param3)

@[simp] def sysOffLink : Job := .sysLink (getVa pkt.param1) (getVa pkt.param2)

@[simp] def sysOffUnlink : Job := .sysUnlink (getVa pkt.param1)

@[simp] def sysOffStat : Job := .sysStat (getVa pkt.param1) (getVa pkt.param2)

@[simp] def sys3OffGetcwd : Job := .sys3Getcwd (getVa pkt.param1) (.ofNat 64 pkt.param2)

@[simp] def sys3OffSystem : Job := .sys3System (getVa pkt.param1)

@[simp] def sysOffChdir : Job := .sysChdir (getVa pkt.param1)

@[simp] def sys3OffOpendir : Job := .sys3Opendir (getVa pkt.param1)

@[simp] def sys3OffClosedir : Job := .sys3Closedir (.ofNat 64 pkt.param1)

@[simp] def sys3OffReaddir : Job := .sys3Readdir (.ofNat 64 pkt.param1)

@[simp] def sys3OffRewinddir : Job := .sys3Rewinddir (.ofNat 64 pkt.param1)

@[simp] def sysOffGethostname : Job := .sysGethostname (getVa pkt.param1) (.ofNat 32 pkt.param2)

@[simp] def sysOffGethostbyname : Job :=
  .sysGethostbyname (getVa pkt.param1) (getVa pkt.param2) (getVa pkt.param3) (getVa pkt.param4) (getVa pkt.param5)
    (getVa pkt.param6)

@[simp] def sysOffGetsockname : Job := .sysGetsockname (.ofNat 32 pkt.param1) (getVa pkt.param2) (getVa pkt.param3)

@[simp] def sysOffSocket : Job := .sysSocket (.ofNat 32 pkt.param1) (.ofNat 32 pkt.param2) (.ofNat 32 pkt.param3)

@[simp] def sysOffBind : Job := .sysBind (.ofNat 32 pkt.param1) (getVa pkt.param2) (.ofNat 32 pkt.param3)

@[simp] def sysOffListen : Job := .sysListen (.ofNat 32 pkt.param1) (.ofNat 32 pkt.param2)

@[simp] def sysOffConnect : Job := .sysConnect (.ofNat 32 pkt.param1) (getVa pkt.param2) (.ofNat 32 pkt.param3)

@[simp] def sysOffAccept : Job := .sysAccept (.ofNat 32 pkt.param1) (getVa pkt.param2) (getVa pkt.param3)

end Handlers

def handler : ℕ → Option ((ℕ → ℕ) → IoPacket → Job)
  | 507 => some fun _ => sysOffRead
  | 508 => some fun _ => sysOffWrite
  | 520 => some fun _ => sysOffLseek
  | 510 => some sysOffOpen
  | 528 => some sysOffCreat
  | 511 => some fun _ => sysOffClose
  | 534 => some sysOffLink
  | 530 => some sysOffUnlink
  | 601 => some sysOffGethostname
  | 602 => some sysOffGethostbyname
  | 603 => some sysOffGetsockname
  | 604 => some fun _ => sysOffSocket
  | 605 => some sysOffBind
  | 606 => some fun _ => sysOffListen
  | 607 => some sysOffConnect
  | 608 => some sysOffAccept
  | 531 => some sysOffStat
  | 903 => some sys3OffGetcwd
  | 904 => some sys3OffSystem
  | 533 => some sysOffChdir
  | 905 => some sys3OffOpendir
  | 906 => some fun _ => sys3OffClosedir
  | 907 => some fun _ => sys3OffReaddir
  | 908 => some fun _ => sys3OffRewinddir
  | _ => none

def ofPacket (getVa : ℕ → ℕ) (pkt : IoPacket) : Option Job := (handler pkt.ioFunctionType).map fun run => run getVa pkt

@[simp] def scalars : Job → List ℤ
  | sysOpen _ oflag mode => [oflag.toInt, mode.toNat]
  | sysCreat _ mode => [mode.toNat]
  | sysRead fd _ count => [fd.toInt, count.toInt]
  | sysWrite fd _ count => [fd.toInt, count.toInt]
  | sysClose fd => [fd.toInt]
  | sysLseek fd offset whence => [fd.toInt, offset.toInt, whence.toInt]
  | sys3Getcwd _ size => [size.toNat]
  | sys3Closedir dirp => [dirp.toNat]
  | sys3Readdir dirp => [dirp.toNat]
  | sys3Rewinddir dirp => [dirp.toNat]
  | sysGethostname _ len => [len.toInt]
  | sysGetsockname sockfd _ _ => [sockfd.toInt]
  | sysSocket domain type protocol => [domain.toInt, type.toInt, protocol.toInt]
  | sysBind sockfd _ addrlen => [sockfd.toInt, addrlen.toNat]
  | sysListen sockfd backlog => [sockfd.toInt, backlog.toInt]
  | sysConnect sockfd _ addrlen => [sockfd.toInt, addrlen.toNat]
  | sysAccept sockfd _ _ => [sockfd.toInt]
  | sysLink _ _ | sysUnlink _ | sysStat _ _ | sys3System _ | sysChdir _ | sys3Opendir _
  | sysGethostbyname _ _ _ _ _ _ => []

@[simp] def answer (h : Host) : Job → ℕ
  | sysRead _ _ _ | sysWrite _ _ _ | sysLseek _ _ _ => offQword h.lret
  | sys3Getcwd _ _ | sys3Opendir _ | sysGethostbyname _ _ _ _ _ _ => h.pret.toNat
  | sys3Readdir _ => if h.pret = 0 ∧ h.errno then intToQword (-1) else h.pret.toNat
  | sys3Rewinddir _ => 0
  | sysClose fd => if 2 < fd.toInt then intQword h.iret else intToQword (-1)
  | sysUnlink _ => if h.access then intQword h.iret else 0
  | _ => intQword h.iret

end Job

inductive Return where
  | int (r : BitVec 32)
  | long (r : BitVec 64)
  | pointer (p : ℕ)
  | dirent (d : Option Dirent)
  | hostent (e : Option Hostent)
  | void
deriving DecidableEq, Repr

def HostentBuffers.copy (g : HostentBuffers) (ret : Hostent) : HostentBuffers where
  hName := ret.hName.getD g.hName
  hAlias := ret.hAlias.getD g.hAlias
  hAddrtype := ret.hAddrtype
  hLength := ret.hLength
  hAddr := match ret.hAddr with
    | some addr => if 0 < ret.hLength.toInt then addr ++ g.hAddr.drop addr.length else g.hAddr
    | none => g.hAddr

@[simp] def Job.served (h : Job.Host) (k : Kernel) : Job → Kernel
  | sysGethostbyname _ _ _ _ _ _ => if h.pret = 0 then k else { k with gHp := k.gHp.copy h.hostent }
  | _ => k

namespace Call

@[simp] def result (k : Kernel) (ret : ℕ) : Call → Return
  | sysRead _ _ _ | sysWrite _ _ _ | sysLseek _ _ _ => .long (.ofNat 64 ret)
  | sys3Getcwd buf _ => .pointer (if ret = 0 then 0 else k.getcwdBuf buf)
  | sys3Opendir _ => .pointer ret
  | sys3Readdir _ => .dirent (if ret ≠ 0 ∧ ret ≠ intToQword (-1)
      then some (.ofMem (lkMemcpy k.mem k.dirent (.ofNat 64 ret) sizeofDirent) k.dirent) else none)
  | sys3Rewinddir _ => .void
  | sysGethostbyname _ => .hostent (some k.gHp.hostent)
  | _ => .int (.ofNat 32 ret)

@[simp] def converted (k : Kernel) (h : Job.Host) : Call → Return
  | sysRead _ _ _ | sysWrite _ _ _ | sysLseek _ _ _ => .long h.lret
  | sys3Getcwd buf _ => .pointer (if h.pret = 0 then 0 else k.getcwdBuf buf)
  | sys3Opendir _ => .pointer h.pret.toNat
  | sys3Readdir _ => .dirent (if h.pret = 0 then none else some (.ofMem h.mem h.pret))
  | sys3Rewinddir _ => .void
  | sysGethostbyname _ => .hostent (if h.pret = 0 then none else some h.hostent)
  | _ => .int h.iret

end Call

section Casts

@[simp] theorem ofNat_intQword (i : BitVec 32) : BitVec.ofNat 32 (intQword i) = i := by
  apply BitVec.eq_of_toInt_eq
  exact toInt_intToQword (BitVec.le_toInt i) BitVec.toInt_lt

@[simp] theorem offQword_eq (o : BitVec 64) : offQword o = o.toNat := by
  rw [offQword, intToQword, BitVec.ofInt_toInt]

end Casts

section Objects
variable {mem mem' : Bytes.Mem 64} {p q : QWORD} {k : Kernel} {h : Job.Host}

end Objects

def Carries (k : Kernel) (getVa : ℕ → ℕ) (h : Job.Host) (slot reply : IoPacket) (gUkid tid : ℤ) (m : OffloadCall)
    (c : Call) : Prop :=
  ∃ job, Job.ofPacket getVa (slot.ofCall gUkid tid m) = some job ∧ job.scalars = c.scalars ∧
    c.result (job.served h k) (reply.ofReply ((slot.ofCall gUkid tid m).answered (job.answer h))).ret = c.converted k h

section Carries
variable {k : Kernel} {getVa : ℕ → ℕ} {h : Job.Host} {slot reply : IoPacket} {gUkid tid : ℤ} {c : Call}
  {m : OffloadCall} {n param1 param2 param3 param4 param5 param6 : ℕ} {refused : Prop} [Decidable refused]

end Carries

def emptySlot : IoPacket := ⟨0, 0, 0, 0, 0, 0, 0, 0, 0, 0⟩

def failing : Job.Host where
  iret := -1
  lret := -1
  pret := 0
  access := false
  errno := false
  mem := fun x => if x = 0x5000 then 7 else 0
  hostent := ⟨some [104], none, 2, 4, some [127, 0, 0, 1]⟩
  pret_user := by decide
  hostent_addr := by decide

def found : Job.Host := { failing with pret := 0x5000, pret_user := by decide }

end Wire
end Azalea
