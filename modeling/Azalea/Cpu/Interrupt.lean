import Mathlib.Tactic
import Azalea.Cpu.Context
import Azalea.Cpu.Descriptor

namespace Azalea
open Amd64 Bytes Stack

structure Isr where
  args : Code
  handler : Symbol
  errorCode : Bool
  deriving DecidableEq

def Isr.code (s : Isr) : Code :=
  saveContext ++ (s.args ++ (.call s.handler ::
    (loadContext ++ ((if s.errorCode then [.addImm 8 .rsp] else []) ++ [.iretq]))))

def exceptionIsr (n : BitVec 64) : Isr := ⟨[.movImm n .rdi], .lkCommonExceptionHandler, false⟩

def faultIsr (n : BitVec 64) : Isr := ⟨[.movImm n .rdi, .load 8 .rbp .rsi], .lkCommonExceptionHandler, true⟩

def interruptIsr (n : BitVec 64) (handler : Symbol) : Isr := ⟨[.movImm n .rdi, .load 8 .rbp .rsi], handler, false⟩

def isrDivideError : Isr := exceptionIsr 0
def isrDebug : Isr := exceptionIsr 1
def isrNmi : Isr := exceptionIsr 2
def isrBreakPoint : Isr := exceptionIsr 3
def isrOverflow : Isr := exceptionIsr 4
def isrBoundRangeExceeded : Isr := exceptionIsr 5
def isrInvalidOpcode : Isr :=
  ⟨[.movImm 6 .rdi, .load 8 .rbp .rsi, .mov .rbp .rdx], .lkCommonExceptionHandler, false⟩
def isrDeviceNotAvailable : Isr := exceptionIsr 7
def isrDoubleFault : Isr := faultIsr 8
def isrCoprocessorSegmentOverrun : Isr := exceptionIsr 9
def isrInvalidTss : Isr := faultIsr 10
def isrSegmentNotPresent : Isr := faultIsr 11
def isrStackSegmentFault : Isr := faultIsr 12
def isrGeneralProtection (qemu : Bool) : Isr :=
  ⟨[.movImm 13 .rdi, .load 8 .rbp .rsi, .load 16 .rbp .rdx],
    if qemu then .lkGeneralProtectionHandler else .lkCommonExceptionHandler, true⟩
def isrPageFault : Isr := ⟨[.fromCr2 .rdi, .load 8 .rbp .rsi, .load 16 .rbp .rdx], .pagefaultHandler, true⟩
def isr15 : Isr := exceptionIsr 15
def isrFpuError : Isr := exceptionIsr 16
def isrAlignmentCheck : Isr := faultIsr 17
def isrMachineCheck : Isr := exceptionIsr 18
def isrSimdError : Isr := exceptionIsr 19
def isrEtcException : Isr := exceptionIsr 20
def isrTimer : Isr := interruptIsr 32 .timerHandler
def isrSlavePic : Isr := exceptionIsr 34
def isrSerial2 : Isr := exceptionIsr 35
def isrSerial1 : Isr := exceptionIsr 36
def isrParallel2 : Isr := exceptionIsr 37
def isrFloppy : Isr := exceptionIsr 38
def isrParallel1 : Isr := exceptionIsr 39
def isrRtc : Isr := exceptionIsr 40
def isrReserved : Isr := exceptionIsr 41
def isrNotUsed1 : Isr := exceptionIsr 42
def isrNotUsed2 : Isr := exceptionIsr 43
def isrMouse : Isr := exceptionIsr 44
def isrCoprocessor : Isr := exceptionIsr 45
def isrHdd1 : Isr := exceptionIsr 46
def isrHdd2 : Isr := exceptionIsr 47
def isrLapicTimer : Isr := interruptIsr 48 .timerHandler
def isrIpi : Isr := interruptIsr 49 .ipiHandler
def isrSignal : Isr := interruptIsr 50 .signalHandler
def isrEtcInterrupt : Isr := exceptionIsr 51

def idtMaxEntryCount : ℕ := 100

def idtTypeInterrupt : BitVec 8 := 0x0E

def idtFlagsKernel : BitVec 8 := 0x80

def idtEntries (qemu : Bool) : List (ℕ × Isr × BitVec 8) :=
  [(0, isrDivideError, 1), (1, isrDebug, 1), (2, isrNmi, 1), (3, isrBreakPoint, 1), (4, isrOverflow, 1),
    (5, isrBoundRangeExceeded, 1), (6, isrInvalidOpcode, 1), (7, isrDeviceNotAvailable, 1), (8, isrDoubleFault, 1),
    (9, isrCoprocessorSegmentOverrun, 0), (10, isrInvalidTss, 1), (11, isrSegmentNotPresent, 1),
    (12, isrStackSegmentFault, 1), (13, isrGeneralProtection qemu, 1), (14, isrPageFault, 1), (15, isr15, 1),
    (16, isrFpuError, 1), (17, isrAlignmentCheck, 1), (18, isrMachineCheck, 1), (19, isrSimdError, 1),
    (20, isrEtcException, 1)] ++
  ((List.range' 21 (32 - 21)).map fun i => (i, isrEtcException, 1)) ++
  [(32, isrTimer, 1), (34, isrSlavePic, 1), (35, isrSerial2, 1), (36, isrSerial1, 1), (37, isrParallel2, 1),
    (38, isrFloppy, 1), (39, isrParallel1, 1), (40, isrRtc, 1), (41, isrReserved, 1), (42, isrNotUsed1, 1),
    (43, isrNotUsed2, 1), (44, isrMouse, 1), (45, isrCoprocessor, 1), (46, isrHdd1, 1), (47, isrHdd2, 1),
    (48, isrLapicTimer, 0), (49, isrIpi, 0), (50, isrSignal, 0)] ++
  ((List.range' 51 (idtMaxEntryCount - 51)).map fun i => (i, isrEtcInterrupt, 1))

def idtInit (qemu : Bool) (address : Isr → BitVec 64) (entry : ℕ → IdtEntry) : ℕ → IdtEntry :=
  (idtEntries qemu).foldl (fun entry e => Function.update entry e.1
    (setIdtEntry (address e.2.1) 0x08 e.2.2 idtFlagsKernel idtTypeInterrupt)) entry

structure DescriptorTables where
  gdt : ℕ → BitVec 64
  gdtLimit : ℕ
  idt : ℕ → IdtEntry
  idtLimit : ℕ
  tss : BitVec 64 → Tss

def DescriptorTables.segment (t : DescriptorTables) (selector : ℕ) : Option Segment :=
  if selector + 7 ≤ t.gdtLimit then some (.ofSlots (t.gdt (selector / 8)) 0) else none

def DescriptorTables.task (t : DescriptorTables) (selector : ℕ) : Option Segment :=
  if selector + 15 ≤ t.gdtLimit then some (.ofSlots (t.gdt (selector / 8)) (t.gdt (selector / 8 + 1))) else none

def DescriptorTables.interruptStack (t : DescriptorTables) (tr : ℕ) (ist : BitVec 3) (c : Cpu) : Option (BitVec 64) :=
  if ist = 0 then some c.rsp
  else do
    let task ← t.task tr
    if task.isTss64 then some ((t.tss task.base).ist (ist.toNat - 1)) else none

def DescriptorTables.raise (t : DescriptorTables) (tr v : ℕ) (error : Option (BitVec 64)) (c : Cpu) : Option Cpu := do
  let e := t.idt v
  let code ← t.segment e.segmentSelector.toNat
  let stack ← t.interruptStack tr e.slot c
  if 16 * v + 15 ≤ t.idtLimit ∧ e.present ∧ code.isCode64 then
    some (deliver c stack e.segmentSelector e.offset error)
  else none

theorem DescriptorTables.interruptStack_of {t : DescriptorTables} {tr : ℕ} {task : Segment} {top : BitVec 64}
    (htask : t.task tr = some task) (htss : task.isTss64 = true) (htop : (t.tss task.base).ist 0 = top) (c : Cpu) :
    t.interruptStack tr 1 c = some top := by
  have hne : ¬ (1 : BitVec 3) = 0 := by decide
  rw [DescriptorTables.interruptStack, if_neg hne, htask]
  exact (if_pos htss).trans (congrArg some htop)

theorem DescriptorTables.raise_of {t : DescriptorTables} {tr v : ℕ} {c : Cpu} {e : IdtEntry} {code : Segment}
    {stack : BitVec 64}
    (he : t.idt v = e) (hcode : t.segment e.segmentSelector.toNat = some code)
    (hstack : t.interruptStack tr e.slot c = some stack) (hlimit : 16 * v + 15 ≤ t.idtLimit) (hp : e.present = true)
    (hl : code.isCode64 = true) (error : Option (BitVec 64)) :
    t.raise tr v error c = some (deliver c stack e.segmentSelector e.offset error) := by
  rw [DescriptorTables.raise, he, hcode, hstack]
  exact if_pos ⟨hlimit, hp, hl⟩

def pushesErrorCode (v : ℕ) : Bool := v ∈ [8, 10, 11, 12, 13, 14, 17, 21, 29, 30]

def gTssAddress (gMemoryStart : ℕ) : BitVec 64 :=
  BitVec.ofNat 64 (va gMemoryStart (gdtrStartAddress gMemoryStart) + 16 + gdtTableSize)

def gdtTss : ℕ := 0x28

def kernelTables (qemu : Bool) (gMemoryStart : ℕ) (address : Isr → BitVec 64) (gdt : ℕ → BitVec 64) (idt : ℕ → IdtEntry)
    (tss : ℕ → Tss) : DescriptorTables where
  gdt := gdtAndTssInit (gTssAddress gMemoryStart) gdt
  gdtLimit := gdtTableSize - 1
  idt := idtInit qemu address idt
  idtLimit := idtMaxEntryCount * 16 - 1
  tss := fun base => initializeTss gMemoryStart tss ((base - gTssAddress gMemoryStart).toNat / sizeofTss)

theorem foldl_update_of_not_mem {ι β γ : Type*} [DecidableEq ι] {l : List (ι × β)} {g : β → γ} {f : ι → γ} {k : ι}
    (h : k ∉ l.map Prod.fst) : l.foldl (fun f e => Function.update f e.1 (g e.2)) f k = f k := by
  induction l generalizing f with
  | nil => rfl
  | cons e l ih =>
    obtain ⟨he, hl⟩ := not_or.mp (List.mem_cons.not.mp h)
    exact (ih hl).trans (Function.update_of_ne he _ _)

theorem foldl_update_of_mem {ι β γ : Type*} [DecidableEq ι] {l : List (ι × β)} {g : β → γ} {f : ι → γ} {k : ι} {b : β}
    (hn : (l.map Prod.fst).Nodup) (h : (k, b) ∈ l) : l.foldl (fun f e => Function.update f e.1 (g e.2)) f k = g b := by
  induction l generalizing f with
  | nil => cases h
  | cons e l ih =>
    obtain ⟨hout, hn⟩ := List.nodup_cons.mp hn
    rcases List.mem_cons.mp h with rfl | h
    · exact (foldl_update_of_not_mem hout).trans (Function.update_self ..)
    · exact ih hn h

theorem idtEntries_nodup (qemu : Bool) : ((idtEntries qemu).map Prod.fst).Nodup := by
  cases qemu <;> decide +kernel

theorem idtEntries_lt (qemu : Bool) : ∀ e ∈ idtEntries qemu, e.1 < idtMaxEntryCount := by
  cases qemu <;> decide +kernel

theorem idtEntries_errorCode (qemu : Bool) :
    ∀ e ∈ idtEntries qemu, e.1 ∉ [21, 29, 30] → e.2.1.errorCode = pushesErrorCode e.1 := by
  cases qemu <;> decide +kernel

theorem idtEntries_args (qemu : Bool) :
    ∀ e ∈ idtEntries qemu, ∀ i ∈ e.2.1.args, ∃ r ∈ [Reg.rdi, .rsi, .rdx], i.dst = some r := by
  cases qemu <;> decide +kernel

theorem idtEntries_ist (qemu : Bool) : ∀ e ∈ idtEntries qemu, e.2.2 = 0 ∨ e.2.2 = 1 := by
  cases qemu <;> decide +kernel

section tables

variable {qemu : Bool} {gMemoryStart i v : ℕ} {address : Isr → BitVec 64} {gdt : ℕ → BitVec 64} {idt : ℕ → IdtEntry}
  {tss : ℕ → Tss} {s : Isr} {ist : BitVec 8}

theorem idtInit_of_mem (h : (v, s, ist) ∈ idtEntries qemu) :
    idtInit qemu address idt v = setIdtEntry (address s) 0x08 ist idtFlagsKernel idtTypeInterrupt :=
  foldl_update_of_mem (g := fun b : Isr × BitVec 8 => setIdtEntry (address b.1) 0x08 b.2 idtFlagsKernel idtTypeInterrupt)
    (idtEntries_nodup qemu) h

theorem kernelTables_segment : ∃ code, (kernelTables qemu gMemoryStart address gdt idt tss).segment 8 = some code ∧
    code.isCode64 = true := by
  have hgdt : gdtAndTssInit (gTssAddress gMemoryStart) gdt 1 = gdtInit8 gdt 1 := gdtAndTssInit_low (by decide)
  refine ⟨.ofSlots (gdtInit8 gdt 1) 0, ?_, by rw [gdtInit8]; decide⟩
  have hlimit : 8 + 7 ≤ gdtTableSize - 1 := by decide
  simp only [DescriptorTables.segment, kernelTables, if_pos hlimit, show 8 / 8 = 1 from rfl, hgdt]

theorem kernelTables_task (hi : i < maxProcessorCount) :
    ∃ task, (kernelTables qemu gMemoryStart address gdt idt tss).task (gdtTss + 16 * i) = some task ∧
      task.isTss64 = true ∧ task.base = gTssAddress gMemoryStart + BitVec.ofNat 64 (i * sizeofTss) := by
  have hslot : (gdtTss + 16 * i) / 8 = gdtMaxEntry8Count + i * 2 := by
    rw [gdtTss, gdtMaxEntry8Count]
    omega
  have hlimit : gdtTss + 16 * i + 15 ≤ gdtTableSize - 1 := by
    rw [gdtTss, gdtTableSize, gdtMaxEntry8Count]
    omega
  have hgdt : gdtAndTssInit (gTssAddress gMemoryStart) gdt (gdtMaxEntry8Count + i * 2) = _ ∧
    gdtAndTssInit (gTssAddress gMemoryStart) gdt (gdtMaxEntry8Count + i * 2 + 1) = _ := foldl_setTssEntry hi
  refine ⟨_, by simp only [DescriptorTables.task, kernelTables, if_pos hlimit, hslot, hgdt.1, hgdt.2], ?_, tssEntry_base _ _⟩
  rw [Segment.isTss64, tssEntry_access, tssEntry_limit]
  decide

theorem kernelTables_tss (base : BitVec 64) : (kernelTables qemu gMemoryStart address gdt idt tss).tss base =
    initializeTss gMemoryStart tss ((base - gTssAddress gMemoryStart).toNat / sizeofTss) := by
  rw [kernelTables]

theorem kernelTables_idt :
    (kernelTables qemu gMemoryStart address gdt idt tss).idt = idtInit qemu address idt := by rw [kernelTables]

theorem kernelTables_idtLimit :
    (kernelTables qemu gMemoryStart address gdt idt tss).idtLimit = idtMaxEntryCount * 16 - 1 := by rw [kernelTables]

theorem interruptStack_kernelTables (hi : i < maxProcessorCount) (c : Cpu) :
    (kernelTables qemu gMemoryStart address gdt idt tss).interruptStack (gdtTss + 16 * i) 1 c =
      some (BitVec.ofNat 64 (istTop gMemoryStart i)) := by
  obtain ⟨task, htask, htss, hbase⟩ := @kernelTables_task qemu gMemoryStart i address gdt idt tss hi
  have hindex : (task.base - gTssAddress gMemoryStart).toNat / sizeofTss = i := by
    rw [hbase, add_sub_cancel_left, BitVec.toNat_ofNat, sizeofTss]
    simp only [maxProcessorCount] at hi
    omega
  refine DescriptorTables.interruptStack_of htask htss ?_ c
  rw [kernelTables_tss, hindex]
  exact initializeTss_ist hi

theorem raise_kernelTables (hi : i < maxProcessorCount) (h : (v, s, ist) ∈ idtEntries qemu) (error : Option (BitVec 64))
    (c : Cpu) : (kernelTables qemu gMemoryStart address gdt idt tss).raise (gdtTss + 16 * i) v error c =
      some (deliver c (if ist = 0 then c.rsp else BitVec.ofNat 64 (istTop gMemoryStart i)) 0x08 (address s) error) := by
  obtain ⟨code, hcode, hlong⟩ := @kernelTables_segment qemu gMemoryStart address gdt idt tss
  have hv := idtEntries_lt qemu _ h
  have hlimit : 16 * v + 15 ≤ (kernelTables qemu gMemoryStart address gdt idt tss).idtLimit := by
    rw [kernelTables_idtLimit]
    omega
  have hentry : (kernelTables qemu gMemoryStart address gdt idt tss).idt v =
      setIdtEntry (address s) 0x08 ist idtFlagsKernel idtTypeInterrupt := by rw [kernelTables_idt, idtInit_of_mem h]
  have hstack : (kernelTables qemu gMemoryStart address gdt idt tss).interruptStack (gdtTss + 16 * i)
      ((ist &&& 3).setWidth 3) c = some (if ist = 0 then c.rsp else BitVec.ofNat 64 (istTop gMemoryStart i)) := by
    rcases idtEntries_ist qemu _ h with rfl | rfl
    · rw [if_pos rfl]
      exact if_pos (by decide)
    · rw [if_neg (by decide), show (1 &&& 3 : BitVec 8).setWidth 3 = 1 from by decide]
      exact interruptStack_kernelTables hi c
  have hpresent : (setIdtEntry (address s) 0x08 ist idtFlagsKernel idtTypeInterrupt).present = true := by
    show (idtTypeInterrupt ||| idtFlagsKernel).getLsbD 7 = true
    decide
  have hraise := DescriptorTables.raise_of hentry hcode hstack hlimit hpresent hlong error
  rwa [setIdtEntry_offset] at hraise

end tables

def Isr.enter (env : Symbol → Cpu → Cpu) (link : BitVec 64) (s : Isr) (c : Cpu) : Cpu :=
  (run env link (saveContext ++ s.args) c).pushWord link

def resumed (c e : Cpu) : Cpu := { c with cr2 := e.cr2, mem := e.mem }

section stub

variable {env : Symbol → Cpu → Cpu} {link : BitVec 64} {s : Isr} {c d e : Cpu} {ws : List (BitVec 64)}

theorem Isr.run_code (env : Symbol → Cpu → Cpu) (link : BitVec 64) (s : Isr) (c : Cpu) : run env link s.code c =
    run env link (loadContext ++ ((if s.errorCode then [.addImm 8 .rsp] else []) ++ [.iretq]))
      (env s.handler (s.enter env link c)) := by
  rw [Isr.code, ← List.append_assoc, run_append, run_cons]
  rfl

theorem Isr.enter_eq (env : Symbol → Cpu → Cpu) (link : BitVec 64) (c : Cpu)
    (hargs : ∀ i ∈ s.args, ∃ r ∈ [Reg.rdi, .rsi, .rdx], i.dst = some r) :
    ∃ g : Reg → BitVec 64, s.enter env link c = { saved c with reg := g }.pushWord link ∧
      ∀ r ∉ [Reg.rdi, .rsi, .rdx], g r = (saved c).reg r := by
  obtain ⟨g, hg, hout⟩ := run_of_dst env link (saved c) hargs
  refine ⟨g, ?_, hout⟩
  rw [Isr.enter, run_append, run_saveContext, hg]

theorem Isr.enter_stack (env : Symbol → Cpu → Cpu) (link : BitVec 64)
    (hargs : ∀ i ∈ s.args, ∃ r ∈ [Reg.rdi, .rsi, .rdx], i.dst = some r) (h : c.Stack ws)
    (hn : ws.length ≤ 6) : (s.enter env link c).Stack (link :: (context c ++ ws)) := by
  obtain ⟨g, hg, hout⟩ := Isr.enter_eq env link c hargs
  have hlen : (context c).length = 19 := rfl
  rw [hg]
  refine Cpu.Stack.pushWord ?_ link (by rw [List.length_append]; omega)
  have hs := saved_stack h (by omega)
  rwa [Cpu.Stack, Cpu.rsp, ← hout .rsp (by decide)] at hs

theorem Isr.run_return {error : Option (BitVec 64)} {rip cs rflags rsp ss : BitVec 64} (herr : error.isSome = s.errorCode)
    (h : c.Stack (error.toList ++ [rip, cs, rflags, rsp, ss])) :
    run env link ((if s.errorCode then [.addImm 8 .rsp] else []) ++ [.iretq]) c =
      { ((c.set .rsp rsp).setSeg .cs (cs.setWidth 16)).setSeg .ss (ss.setWidth 16) with rip := rip, rflags := rflags } := by
  rw [← herr]
  cases error with
  | none =>
    show exec env link c .iretq = _
    exact exec_iretq h
  | some x =>
    show exec env link (exec env link c (.addImm 8 .rsp)) .iretq = _
    have hdrop : (exec env link c (.addImm 8 .rsp)).Stack [rip, cs, rflags, rsp, ss] := h.drop
    rw [exec_iretq hdrop]
    refine Cpu.eq_of_reg (fun r => ?_) rfl rfl rfl rfl rfl
    rcases eq_or_ne r .rsp with rfl | hr
    · rfl
    · exact (Cpu.reg_set_of_ne hr).trans ((Cpu.reg_set_of_ne hr).trans (Cpu.reg_set_of_ne hr).symm)

theorem Isr.resume {error : Option (BitVec 64)} {rip cs rflags rsp ss : BitVec 64} (herr : error.isSome = s.errorCode)
    (h : e.Stack (context d ++ (error.toList ++ [rip, cs, rflags, rsp, ss]))) :
    run env link (loadContext ++ ((if s.errorCode then [.addImm 8 .rsp] else []) ++ [.iretq])) e =
      { e with
        reg := fun r => if r = .rsp then rsp else d.reg r
        seg := fun
          | .cs => cs.setWidth 16
          | .ss => ss.setWidth 16
          | s => d.seg s
        rip := rip
        rflags := rflags } := by
  rw [run_append, run_loadContext h, Isr.run_return herr (loaded_stack h)]
  refine Cpu.eq_of_reg (fun r => ?_) (funext fun x => ?_) rfl rfl rfl rfl
  · rcases eq_or_ne r .rsp with rfl | hr
    · rfl
    · exact (Cpu.reg_set_of_ne hr).trans (if_neg hr |>.trans (if_neg hr).symm)
  · cases x with
    | cs => rfl
    | ss => rfl
    | ds => exact setWidth_low16 _ _
    | es => exact setWidth_low16 _ _
    | fs => exact setWidth_setWidth _
    | gs => exact setWidth_setWidth _

theorem Isr.enter_rsp (env : Symbol → Cpu → Cpu) (link : BitVec 64) (c : Cpu)
    (hargs : ∀ i ∈ s.args, ∃ r ∈ [Reg.rdi, .rsi, .rdx], i.dst = some r) : (s.enter env link c).rsp = below c.rsp 20 := by
  obtain ⟨g, hg, hout⟩ := Isr.enter_eq env link c hargs
  have hsp : g .rsp = below c.rsp 19 := hout .rsp (by decide)
  rw [hg]
  show g .rsp - 8 = below c.rsp 20
  rw [hsp, sub_eight, below_add]

theorem Isr.enter_mem (env : Symbol → Cpu → Cpu) (link : BitVec 64) (c : Cpu)
    (hargs : ∀ i ∈ s.args, ∃ r ∈ [Reg.rdi, .rsi, .rdx], i.dst = some r) :
    (s.enter env link c).mem = pushed c.mem c.rsp ((context c).reverse ++ [link]) := by
  obtain ⟨g, hg, hout⟩ := Isr.enter_eq env link c hargs
  have hsp : g .rsp = below c.rsp 19 := hout .rsp (by decide)
  rw [hg, pushed_append]
  show setWord (pushed c.mem c.rsp (context c).reverse) (g .rsp - 8) link = _
  rw [hsp]
  rfl

variable {error : Option (BitVec 64)} {stack entry : BitVec 64} {selector : BitVec 16}

theorem Isr.resume_deliver (herr : error.isSome = s.errorCode)
    (h : e.Stack (context (deliver c stack selector entry error) ++
      (error.toList ++ [c.rip, (c.seg .cs).setWidth 64, c.rflags, c.rsp, (c.seg .ss).setWidth 64]))) :
    run env link (loadContext ++ ((if s.errorCode then [.addImm 8 .rsp] else []) ++ [.iretq])) e = resumed c e := by
  rw [Isr.resume herr h]
  refine Cpu.eq_of_reg (fun r => ?_) (funext fun x => ?_) rfl rfl rfl rfl
  · rcases eq_or_ne r .rsp with rfl | hr
    · rfl
    · exact (if_neg hr).trans (deliver_reg hr ..)
  · cases x with
    | cs => exact setWidth_setWidth _
    | ss => exact setWidth_setWidth _
    | _ => rfl

theorem Isr.return_stack (hargs : ∀ i ∈ s.args, ∃ r ∈ [Reg.rdi, .rsi, .rdx], i.dst = some r)
    (hret : Returns 0 25 (env s.handler) (s.enter env link (deliver c stack selector entry error))) :
    (env s.handler (s.enter env link (deliver c stack selector entry error))).Stack
      (context (deliver c stack selector entry error) ++
        (error.toList ++ [c.rip, (c.seg .cs).setWidth 64, c.rflags, c.rsp, (c.seg .ss).setWidth 64])) := by
  have hcontext : (context (deliver c stack selector entry error)).length = 19 := rfl
  have herror : error.toList.length ≤ 1 := by cases error <;> simp
  have henter := Isr.enter_stack env link hargs (deliver_stack c stack selector entry error)
    (by rw [List.length_append]; exact Nat.add_le_add_right herror 5)
  refine hret.stack_zero henter (by decide) ?_
  rw [List.length_append, List.length_append, hcontext]
  exact Nat.add_le_add_left (Nat.add_le_add_right herror 5) 19

theorem Isr.run_deliver (hargs : ∀ i ∈ s.args, ∃ r ∈ [Reg.rdi, .rsi, .rdx], i.dst = some r)
    (herr : error.isSome = s.errorCode)
    (hret : Returns 0 25 (env s.handler) (s.enter env link (deliver c stack selector entry error))) :
    run env link s.code (deliver c stack selector entry error) =
      resumed c (env s.handler (s.enter env link (deliver c stack selector entry error))) := by
  rw [Isr.run_code, Isr.resume_deliver herr (Isr.return_stack hargs hret)]

theorem Isr.enter_deliver_mem {x : BitVec 64} (hargs : ∀ i ∈ s.args, ∃ r ∈ [Reg.rdi, .rsi, .rdx], i.dst = some r)
    (hx : ¬ Within (below (stack &&& ~~~15) (25 + error.toList.length)) (8 * (25 + error.toList.length)) x) :
    (s.enter env link (deliver c stack selector entry error)).mem x = c.mem x := by
  have herror : error.toList.length ≤ 1 := by cases error <;> simp
  have hmem : (deliver c stack selector entry error).mem = pushed c.mem (stack &&& ~~~15)
      ([(c.seg .ss).setWidth 64, c.rsp, c.rflags, (c.seg .cs).setWidth 64, c.rip] ++ error.toList) := rfl
  have hrsp : (deliver c stack selector entry error).rsp = below (stack &&& ~~~15)
      ([(c.seg .ss).setWidth 64, c.rsp, c.rflags, (c.seg .cs).setWidth 64, c.rip] ++ error.toList).length := rfl
  have hlen : ([(c.seg .ss).setWidth 64, c.rsp, c.rflags, (c.seg .cs).setWidth 64, c.rip] ++ error.toList ++
      ((context (deliver c stack selector entry error)).reverse ++ [link])).length = 25 + error.toList.length := by
    simp only [List.length_append, List.length_reverse, List.length_cons, List.length_nil,
      show (context (deliver c stack selector entry error)).length = 19 from rfl]
    omega
  rw [Isr.enter_mem env link _ hargs, hmem, hrsp, ← pushed_append]
  refine pushed_of_not_within ?_ ?_ <;> rw [hlen]
  · omega
  · exact hx

theorem Isr.run_nested {t : Isr} {c' : Cpu} {error' : Option (BitVec 64)} {entry' : BitVec 64} {selector' : BitVec 16}
    (hs : ∀ i ∈ s.args, ∃ r ∈ [Reg.rdi, .rsi, .rdx], i.dst = some r)
    (ht : ∀ i ∈ t.args, ∃ r ∈ [Reg.rdi, .rsi, .rdx], i.dst = some r) (herrs : error'.isSome = s.errorCode)
    (herrt : error'.isSome = t.errorCode) (hlen : error.toList.length = error'.toList.length)
    (hret : Returns 0 25 (env t.handler) (t.enter env link (deliver c' stack selector' entry' error')))
    (hrsp : (env s.handler (s.enter env link (deliver c stack selector entry error))).rsp =
      (s.enter env link (deliver c stack selector entry error)).rsp + 8)
    (hmem : ∀ x, Within ((s.enter env link (deliver c stack selector entry error)).rsp + 8) (8 * 25) x →
      (env s.handler (s.enter env link (deliver c stack selector entry error))).mem x =
        (run env link t.code (deliver c' stack selector' entry' error')).mem x) :
    run env link s.code (deliver c stack selector entry error) =
      resumed c' (env s.handler (s.enter env link (deliver c stack selector entry error))) := by
  have hsp : (s.enter env link (deliver c stack selector entry error)).rsp =
      (t.enter env link (deliver c' stack selector' entry' error')).rsp := by
    rw [Isr.enter_rsp env link _ hs, Isr.enter_rsp env link _ ht, deliver_rsp, deliver_rsp, hlen]
  have hcontext : (context (deliver c' stack selector' entry' error')).length = 19 := rfl
  have herror : error'.toList.length ≤ 1 := by cases error' <;> simp
  have hstack := Isr.return_stack ht hret
  rw [Isr.run_deliver ht herrt hret] at hmem
  rw [hsp] at hrsp hmem
  rw [Cpu.Stack, hret.rsp, ← hrsp] at hstack
  have hwords : (context (deliver c' stack selector' entry' error') ++ (error'.toList ++
      [c'.rip, (c'.seg .cs).setWidth 64, c'.rflags, c'.rsp, (c'.seg .ss).setWidth 64])).length ≤ 25 := by
    rw [List.length_append, List.length_append, hcontext]
    exact Nat.add_le_add_left (Nat.add_le_add_right herror 5) 19
  have hover := hstack.congr (by omega) fun x hx => hmem x (hrsp ▸ hx.mono (by omega))
  rw [Isr.run_code, Isr.resume_deliver herrs hover]

end stub

section system

variable {qemu : Bool} {gMemoryStart i u v : ℕ} {address : Isr → BitVec 64} {gdt : ℕ → BitVec 64} {idt : ℕ → IdtEntry}
  {tss : ℕ → Tss} {s t : Isr} {ist : BitVec 8}

def errorOf (v : ℕ) (error : BitVec 64) : Option (BitVec 64) := if pushesErrorCode v then some error else none

theorem errorOf_isSome (v : ℕ) (error : BitVec 64) : (errorOf v error).isSome = pushesErrorCode v := by
  rw [errorOf]
  cases pushesErrorCode v <;> rfl

theorem errorOf_length (v : ℕ) (error : BitVec 64) : (errorOf v error).toList.length ≤ 1 := by
  rw [errorOf]
  cases pushesErrorCode v <;> simp

theorem errorOf_length_eq {u v : ℕ} (h : pushesErrorCode u = pushesErrorCode v) (error error' : BitVec 64) :
    (errorOf u error).toList.length = (errorOf v error').toList.length := by
  rw [errorOf, errorOf, h]
  cases pushesErrorCode v <;> rfl

theorem enter_mem_of_not_within {env : Symbol → Cpu → Cpu} {link stack entry x : BitVec 64} {selector : BitVec 16} {c : Cpu}
    (h : (v, s, ist) ∈ idtEntries qemu) (error : BitVec 64) (hx : ¬ Within (below (stack &&& ~~~15) 26) (8 * 26) x) :
    (s.enter env link (deliver c stack selector entry (errorOf v error))).mem x = c.mem x := by
  refine Isr.enter_deliver_mem (idtEntries_args qemu _ h) fun hw => hx (within_below_mono ?_ (by decide) hw)
  exact Nat.add_le_add_left (errorOf_length v error) 25

def busyCpu : Cpu where
  reg r := if r = .rsp then 0x7FF008 else BitVec.ofNat 64 (0x100 + r.ctorIdx)
  seg s := if s = .cs then 0x08 else 0x10
  rip := 0x401000
  rflags := 0x202
  cr2 := 0
  mem x := x.setWidth 8

def idleTables : DescriptorTables :=
  kernelTables false 0 (fun _ => 0) (fun _ => 0) (fun _ => setIdtEntry 0 0 0 0 0) (fun _ => ⟨fun _ => 0, fun _ => 0, 0⟩)

theorem returns_drop (k n : ℕ) (c : Cpu) : Returns k n Cpu.drop c :=
  ⟨rfl, fun _ hr => Cpu.reg_drop fun he => absurd (he ▸ hr) (by decide), rfl, fun _ _ => rfl⟩

def answering (c : Cpu) : Cpu := c.drop.set .rax 7

-- the second exception finds the interrupt stack empty and writes over the frame of the first
theorem nested_exception_resumes {env : Symbol → Cpu → Cpu} {link : BitVec 64} {c c' d d' : Cpu} (error error' : BitVec 64)
    (hi : i < maxProcessorCount) (hu : (u, s, 1) ∈ idtEntries qemu) (hv : (v, t, 1) ∈ idtEntries qemu)
    (hu' : u ∉ [21, 29, 30]) (hv' : v ∉ [21, 29, 30]) (herr : pushesErrorCode u = pushesErrorCode v)
    (hd : (kernelTables qemu gMemoryStart address gdt idt tss).raise (gdtTss + 16 * i) u (errorOf u error) c = some d)
    (hd' : (kernelTables qemu gMemoryStart address gdt idt tss).raise (gdtTss + 16 * i) v (errorOf v error') c' = some d')
    (hret : Returns 0 25 (env t.handler) (t.enter env link d'))
    (hrsp : (env s.handler (s.enter env link d)).rsp = (s.enter env link d).rsp + 8)
    (hmem : ∀ x, Within ((s.enter env link d).rsp + 8) (8 * 25) x →
      (env s.handler (s.enter env link d)).mem x = (run env link t.code d').mem x) :
    run env link s.code d = resumed c' (env s.handler (s.enter env link d)) := by
  have herrv := (errorOf_isSome v error').trans (idtEntries_errorCode qemu _ hv hv').symm
  have herru := (errorOf_isSome v error').trans (herr.symm.trans (idtEntries_errorCode qemu _ hu hu').symm)
  obtain rfl := Option.some_injective _ ((raise_kernelTables hi hu _ c).symm.trans hd)
  obtain rfl := Option.some_injective _ ((raise_kernelTables hi hv _ c').symm.trans hd')
  exact Isr.run_nested (idtEntries_args qemu _ hu) (idtEntries_args qemu _ hv) herru herrv
    (errorOf_length_eq herr error error') hret hrsp hmem

def dividing : Cpu := { busyCpu with rip := 0x1000 }

def divideError : Cpu := deliver dividing (BitVec.ofNat 64 (istTop 0 0)) 0x08 0 none

def dividingTimer (f : Symbol) (c : Cpu) : Cpu :=
  if f = .timerHandler then { c.drop with mem := (isrDivideError.enter (fun _ => Cpu.drop) 0 divideError).mem } else c.drop

theorem nested_exception_resumes_timer : ∃ d, idleTables.raise gdtTss 32 none busyCpu = some d ∧
    (run dividingTimer 0 isrTimer.code d).rip = 0x1000 := by
  have hu : (32, isrTimer, 1) ∈ idtEntries false := by decide +kernel
  have hv : (0, isrDivideError, 1) ∈ idtEntries false := by decide +kernel
  have hi : 0 < maxProcessorCount := by decide
  have hargs := idtEntries_args false _ hv
  have hret : Returns 0 25 (dividingTimer isrDivideError.handler) (isrDivideError.enter dividingTimer 0 divideError) :=
    returns_drop 0 25 _
  have hrun : (run dividingTimer 0 isrDivideError.code divideError).mem =
      (isrDivideError.enter (fun _ => Cpu.drop) 0 divideError).mem := by
    rw [divideError, Isr.run_deliver hargs rfl hret, ← divideError, Isr.enter_mem _ _ _ hargs,
      ← Isr.enter_mem dividingTimer _ _ hargs]
    rfl
  have hd : idleTables.raise gdtTss 32 none busyCpu = some _ := raise_kernelTables hi hu none busyCpu
  have hd' : idleTables.raise gdtTss 0 none dividing = some divideError := raise_kernelTables hi hv none dividing
  refine ⟨_, hd, ?_⟩
  rw [nested_exception_resumes 0 0 hi hu hv (by decide) (by decide) (by decide) hd hd' hret rfl fun x _ =>
    (congrFun hrun x).symm]
  rfl

theorem align_toNat (a : BitVec 64) : (a &&& (~~~15 : BitVec 64)).toNat = a.toNat / 16 * 16 := by
  have ha := a.isLt
  have heq : a &&& (~~~15 : BitVec 64) = (a >>> 4) <<< 4 := by
    ext k hk
    have hmask : (15 : BitVec 64)[k] = decide (k < 4) := by
      show (15#64)[k] = decide (k < 4)
      rw [← BitVec.getLsbD_eq_getElem, BitVec.getLsbD_ofNat, show 15 = 2 ^ 4 - 1 from rfl, Nat.testBit_two_pow_sub_one]
      simp [hk]
    rw [BitVec.getElem_and, BitVec.getElem_not, BitVec.getElem_shiftLeft, hmask]
    rcases Nat.lt_or_ge k 4 with hlt | hge
    · simp [hlt]
    · simp [Nat.not_lt.mpr hge, Nat.add_sub_cancel' hge, BitVec.getLsbD_eq_getElem hk]
  rw [heq, BitVec.toNat_shiftLeft, BitVec.toNat_ushiftRight, Nat.shiftRight_eq_div_pow, Nat.shiftLeft_eq]
  omega

theorem within_istTop {x : BitVec 64} (hg : gMemoryStart ≤ wordSize) (hi : i < maxProcessorCount)
    (h : Within (below (BitVec.ofNat 64 (istTop gMemoryStart i) &&& ~~~15) 26) (8 * 26) x) :
    0xFFFF8000C0B00000 ≤ x.toNat + 3640 * i + 223 ∧ x.toNat + 3640 * i < 0xFFFF8000C0B00000 := by
  rw [istTop_eq hg hi.le] at h
  have htop := align_toNat (BitVec.ofNat 64 (0xFFFF8000C0B00000 - 3640 * i))
  rw [BitVec.toNat_ofNat, Nat.mod_eq_of_lt (by omega)] at htop
  simp only [maxProcessorCount] at hi
  have hx := within_below_toNat (by omega) h
  omega

theorem interrupt_stacks_apart {j : ℕ} {env : Symbol → Cpu → Cpu} {link : BitVec 64} {c c' d d' : Cpu}
    (error error' : BitVec 64) (hg : gMemoryStart ≤ wordSize) (hi : i < maxProcessorCount) (hj : j < maxProcessorCount)
    (hij : i ≠ j) (hu : (u, s, 1) ∈ idtEntries qemu) (hv : (v, t, 1) ∈ idtEntries qemu)
    (hd : (kernelTables qemu gMemoryStart address gdt idt tss).raise (gdtTss + 16 * i) u (errorOf u error) c = some d)
    (hd' : (kernelTables qemu gMemoryStart address gdt idt tss).raise (gdtTss + 16 * j) v (errorOf v error') c' = some d')
    (x : BitVec 64) : (s.enter env link d).mem x = c.mem x ∨ (t.enter env link d').mem x = c'.mem x := by
  obtain rfl := Option.some_injective _ ((raise_kernelTables hi hu _ c).symm.trans hd)
  obtain rfl := Option.some_injective _ ((raise_kernelTables hj hv _ c').symm.trans hd')
  by_cases hx : Within (below (BitVec.ofNat 64 (istTop gMemoryStart i) &&& ~~~15) 26) (8 * 26) x
  · right
    refine enter_mem_of_not_within hv error' fun hw => ?_
    have hlow := within_istTop hg hi hx
    have hhigh := within_istTop hg hj hw
    omega
  · left
    exact enter_mem_of_not_within hu error hx

theorem interrupt_stacks_apart_timer : ∃ d d', idleTables.raise gdtTss 32 none busyCpu = some d ∧
    idleTables.raise (gdtTss + 16) 14 (some 2) busyCpu = some d' ∧
    ∀ x, (isrTimer.enter (fun _ => Cpu.drop) 0 d).mem x = x.setWidth 8 ∨
      (isrPageFault.enter (fun _ => Cpu.drop) 0 d').mem x = x.setWidth 8 := by
  have hu : (32, isrTimer, 1) ∈ idtEntries false := by decide +kernel
  have hv : (14, isrPageFault, 1) ∈ idtEntries false := by decide +kernel
  have hi : 0 < maxProcessorCount := by decide
  have hj : 1 < maxProcessorCount := by decide
  have hd : idleTables.raise gdtTss 32 none busyCpu = some _ := raise_kernelTables hi hu none busyCpu
  have hd' : idleTables.raise (gdtTss + 16) 14 (some 2) busyCpu = some _ := raise_kernelTables hj hv (some 2) busyCpu
  exact ⟨_, _, hd, hd', interrupt_stacks_apart 0 2 (Nat.zero_le _) hi hj (by decide) hu hv hd hd'⟩

def reportedVector (v : ℕ) : ℕ := if v < 20 then v else if v < 32 then 20 else min v 51

theorem idtEntries_cases (qemu : Bool) : ∀ e ∈ idtEntries qemu,
    (e.2.1.args = [.movImm (BitVec.ofNat 64 (reportedVector e.1)) .rdi] ∧
      e.1 ∉ [6, 8, 10, 11, 12, 13, 14, 17, 32, 48, 49, 50]) ∨
    (e.2.1.args = [.movImm (BitVec.ofNat 64 (reportedVector e.1)) .rdi, .load 8 .rbp .rsi] ∧
      e.1 ∉ [6, 13, 14, 21, 29, 30]) ∨
    (e.2.1.args = [.movImm 6 .rdi, .load 8 .rbp .rsi, .mov .rbp .rdx] ∧ e.1 = 6) ∨
    (e.2.1.args = [.movImm 13 .rdi, .load 8 .rbp .rsi, .load 16 .rbp .rdx] ∧ e.1 = 13) ∨
    (e.2.1.args = [.fromCr2 .rdi, .load 8 .rbp .rsi, .load 16 .rbp .rdx] ∧ e.1 = 14) := by
  cases qemu <;> decide +kernel

theorem isr_arguments (hi : i < maxProcessorCount) (h : (v, s, ist) ∈ idtEntries qemu) (hv : v ∉ [21, 29, 30])
    (error link : BitVec 64) (env : Symbol → Cpu → Cpu) (c : Cpu) :
    ∃ d, (kernelTables qemu gMemoryStart address gdt idt tss).raise (gdtTss + 16 * i) v (errorOf v error) c = some d ∧
      (s.enter env link d).reg .rdi = (if v = 14 then c.cr2 else BitVec.ofNat 64 (reportedVector v)) ∧
      (pushesErrorCode v = true → (s.enter env link d).reg .rsi = error) ∧
      (v ∈ [6, 32, 48, 49, 50] → (s.enter env link d).reg .rsi = c.rip) ∧
      (v ∈ [13, 14] → (s.enter env link d).reg .rdx = c.rip) := by
  refine ⟨_, raise_kernelTables hi h _ c, ?_⟩
  generalize (if ist = 0 then c.rsp else BitVec.ofNat 64 (istTop gMemoryStart i)) = stack
  have hstack := deliver_stack c stack 0x08 (address s) (errorOf v error)
  have hcr2 : (deliver c stack 0x08 (address s) (errorOf v error)).cr2 = c.cr2 := rfl
  generalize deliver c stack 0x08 (address s) (errorOf v error) = d at hstack hcr2 ⊢
  have hreg : ∀ r ≠ .rsp, (s.enter env link d).reg r = (run env link s.args (saved d)).reg r := fun r hr => by
    rw [Isr.enter, Cpu.reg_pushWord hr, run_append, run_saveContext]
  have hrbp : (saved d).reg .rbp + 8 = d.rsp := sub_add_cancel _ _
  have hrbp' : (saved d).reg .rbp + 16 = d.rsp + 8 := by rw [← hrbp, add_assoc]; rfl
  have hframe := saved_frame hstack (by
    have herror := errorOf_length v error
    simp only [List.length_append, List.length_cons, List.length_nil]
    omega)
  have herror : pushesErrorCode v = true → Holds (saved d).mem d.rsp [error, c.rip] := fun hp => by
    rw [errorOf, if_pos hp] at hframe
    exact ⟨hframe.1, hframe.2.1, trivial⟩
  have hrip : pushesErrorCode v = false → word (saved d).mem d.rsp = c.rip := fun hp => by
    rw [errorOf, hp] at hframe
    exact hframe.1
  rw [hreg .rdi (by decide), hreg .rsi (by decide), hreg .rdx (by decide)]
  rcases idtEntries_cases qemu _ h with ⟨ha, hn⟩ | ⟨ha, hn⟩ | ⟨ha, rfl⟩ | ⟨ha, rfl⟩ | ⟨ha, rfl⟩
  · rw [ha]
    simp only [pushesErrorCode, List.mem_cons, List.not_mem_nil, or_false, not_or, decide_eq_true_eq] at hn hv ⊢
    refine ⟨(if_neg hn.2.2.2.2.2.2.1).symm, fun hp => ?_, fun hm => ?_, fun hm => ?_⟩ <;> omega
  · rw [ha]
    have hsi : (run env link [.movImm (BitVec.ofNat 64 (reportedVector v)) .rdi, .load 8 .rbp .rsi] (saved d)).reg .rsi =
        word (saved d).mem d.rsp := congrArg (word (saved d).mem) hrbp
    rw [hsi]
    simp only [List.mem_cons, List.not_mem_nil, or_false, not_or] at hn ⊢
    refine ⟨(if_neg hn.2.2.1).symm, fun hp => (herror hp).1, fun hm => hrip ?_, fun hm => ?_⟩
    · rcases hm with rfl | rfl | rfl | rfl | rfl
      · exact absurd rfl hn.1
      all_goals decide
    · omega
  · rw [ha]
    refine ⟨rfl, fun hp => absurd hp (by decide), fun _ => ?_, fun hm => absurd hm (by decide)⟩
    exact (congrArg (word (saved d).mem) hrbp).trans (hrip (by decide))
  · rw [ha]
    refine ⟨rfl, fun hp => ?_, fun hm => absurd hm (by decide), fun _ => ?_⟩
    · exact (congrArg (word (saved d).mem) hrbp).trans (herror hp).1
    · exact (congrArg (word (saved d).mem) hrbp').trans (herror (by decide)).2.1
  · rw [ha]
    refine ⟨hcr2, fun hp => ?_, fun hm => absurd hm (by decide), fun _ => ?_⟩
    · exact (congrArg (word (saved d).mem) hrbp).trans (herror hp).1
    · exact (congrArg (word (saved d).mem) hrbp').trans (herror (by decide)).2.1

theorem isr_arguments_fault : ∃ d,
    idleTables.raise gdtTss 14 (some 2) { busyCpu with cr2 := 0x5000 } = some d ∧
    (isrPageFault.enter (fun _ => Cpu.drop) 0 d).reg .rdi = 0x5000 ∧
    (isrPageFault.enter (fun _ => Cpu.drop) 0 d).reg .rsi = 2 ∧
    (isrPageFault.enter (fun _ => Cpu.drop) 0 d).reg .rdx = 0x401000 := by
  have h : (14, isrPageFault, 1) ∈ idtEntries false := by decide +kernel
  obtain ⟨d, hd, hdi, hsi, -, hdx⟩ := isr_arguments (i := 0) (by decide) h (by decide) 2 0 (fun _ => Cpu.drop)
    { busyCpu with cr2 := 0x5000 }
  exact ⟨d, hd, hdi, hsi (by decide), hdx (by decide)⟩

end system

end Azalea
