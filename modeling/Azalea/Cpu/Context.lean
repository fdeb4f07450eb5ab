import Mathlib.Tactic
import Azalea.Foundation.Amd64

namespace Azalea
open Amd64 Bytes Stack

inductive Symbol where
  | lkCommonExceptionHandler
  | lkGeneralProtectionHandler
  | pagefaultHandler
  | timerHandler
  | ipiHandler
  | signalHandler
  | processSystemcall
  | releaseThreadSpl
  deriving DecidableEq, Repr

abbrev Code := List (Instr Symbol)

def kernelDataSegment : BitVec 16 := 0x10

def saveContext : Code :=
  [.push .rbp, .mov .rsp .rbp,
    .push .rax, .push .rbx, .push .rcx, .push .rdx, .push .rdi, .push .rsi, .push .r8, .push .r9, .push .r10, .push .r11,
    .push .r12, .push .r13, .push .r14, .push .r15,
    .fromSeg .ds .rax, .push .rax, .fromSeg .es .rax, .push .rax, .pushSeg .fs, .pushSeg .gs,
    .movImm16 kernelDataSegment .rax, .toSeg .rax .ds, .toSeg .rax .es, .toSeg .rax .gs, .toSeg .rax .fs]

def loadContext : Code :=
  [.popSeg .gs, .popSeg .fs, .pop .rax, .toSeg .rax .es, .pop .rax, .toSeg .rax .ds,
    .pop .r15, .pop .r14, .pop .r13, .pop .r12, .pop .r11, .pop .r10, .pop .r9, .pop .r8, .pop .rsi, .pop .rdi, .pop .rdx,
    .pop .rcx, .pop .rbx, .pop .rax, .pop .rbp]

def frame (reg : Reg → BitVec 64) (gs fs es ds : BitVec 64) : List (BitVec 64) :=
  [gs, fs, es, ds, reg .r15, reg .r14, reg .r13, reg .r12, reg .r11, reg .r10, reg .r9, reg .r8, reg .rsi, reg .rdi,
    reg .rdx, reg .rcx, reg .rbx, reg .rax, reg .rbp]

def context (c : Cpu) : List (BitVec 64) :=
  frame c.reg ((c.seg .gs).setWidth 64) ((c.seg .fs).setWidth 64)
    (low16 (low16 (c.reg .rax) (c.seg .ds)) (c.seg .es)) (low16 (c.reg .rax) (c.seg .ds))

def loaded (c : Cpu) (reg : Reg → BitVec 64) (gs fs es ds : BitVec 64) : Cpu :=
  { c with
    reg := fun r => if r = .rsp then above c.rsp 19 else reg r
    seg := fun
      | .gs => gs.setWidth 16
      | .fs => fs.setWidth 16
      | .es => es.setWidth 16
      | .ds => ds.setWidth 16
      | s => c.seg s }

variable {env : Symbol → Cpu → Cpu} {link : BitVec 64} {c : Cpu} {ws : List (BitVec 64)}

def gpRegs : List Reg := [.rax, .rbx, .rcx, .rdx, .rdi, .rsi, .r8, .r9, .r10, .r11, .r12, .r13, .r14, .r15]

def saved (c : Cpu) : Cpu :=
  { c with
    reg := fun
      | .rsp => below c.rsp 19
      | .rbp => c.rsp - 8
      | .rax => low16 (low16 (low16 (c.reg .rax) (c.seg .ds)) (c.seg .es)) kernelDataSegment
      | r => c.reg r
    seg := fun
      | .cs => c.seg .cs
      | .ss => c.seg .ss
      | _ => kernelDataSegment
    mem := pushed c.mem c.rsp (context c).reverse }

theorem run_saveContext : run env link saveContext c = saved c := by
  have hcode : saveContext = [.push .rbp, .mov .rsp .rbp] ++ (gpRegs.map .push ++ saveContext.drop 16) := rfl
  rw [hcode, run_append, run_append, run_push (by decide)]
  refine Cpu.eq_of_reg (fun r => ?_) (funext fun s => ?_) rfl rfl rfl ?_
  · cases r with
    | rsp =>
      show below (c.rsp - 8) 14 - 8 - 8 - 8 - 8 = below c.rsp 19
      simp only [sub_eight, below_add]
    | _ => rfl
  · cases s with
    | cs => rfl
    | ss => rfl
    | _ => exact setWidth_low16 _ _
  · have hwords : (context c).reverse = c.reg .rbp :: (gpRegs.map c.reg ++ [low16 (c.reg .rax) (c.seg .ds),
        low16 (low16 (c.reg .rax) (c.seg .ds)) (c.seg .es), (c.seg .fs).setWidth 64, (c.seg .gs).setWidth 64]) := rfl
    show _ = pushed c.mem c.rsp (context c).reverse
    rw [hwords, pushed, pushed_append]
    rfl

theorem saved_stack (h : c.Stack ws) (hn : ws.length ≤ 2 ^ 32) : (saved c).Stack (context c ++ ws) := by
  have hlen : (context c).reverse.length = 19 := rfl
  have hs := h.pushWords (l := (context c).reverse) (by omega)
  rwa [List.reverse_reverse] at hs

theorem saved_frame (h : c.Stack ws) (hn : ws.length ≤ 2 ^ 32) : Holds (saved c).mem c.rsp ws := by
  have hs := (saved_stack h hn).split.2
  rwa [show (saved c).rsp = below c.rsp 19 from rfl, show (context c).length = 19 from rfl, above_below] at hs

theorem mem_of_ne_rsp {r : Reg} (h : r ≠ .rsp) : r ∈ gpRegs.reverse ++ [.rbp] := by
  cases r <;> first | decide | exact absurd rfl h

theorem run_loadContext {v : Reg → BitVec 64} {gs fs es ds : BitVec 64} (h : c.Stack (frame v gs fs es ds ++ ws)) :
    run env link loadContext c = loaded c v gs fs es ds := by
  have hcode : loadContext = .popSeg .gs :: .popSeg .fs :: .pop .rax :: .toSeg .rax .es :: .pop .rax :: .toSeg .rax .ds ::
    (gpRegs.reverse ++ [Reg.rbp]).map .pop := rfl
  have hax : Reg.rsp ≠ .rax := by decide
  have hfs := h.drop.setSeg .gs (gs.setWidth 16)
  have hes := hfs.drop.setSeg .fs (fs.setWidth 16)
  have hds := (hes.drop.set hax es).setSeg .es (es.setWidth 16)
  have hregs := (hds.drop.set hax ds).setSeg .ds (ds.setWidth 16)
  rw [hcode, run_popSeg_cons h, run_popSeg_cons hfs, run_pop_cons hes, run_toSeg_cons, Cpu.reg_set, run_pop_cons hds,
    run_toSeg_cons, Cpu.reg_set, run_pop (v := v) (w := ws) (by decide) (by decide) hregs]
  refine Cpu.eq_of_reg (fun r => ?_) (funext fun s => ?_) rfl rfl rfl rfl
  · rcases eq_or_ne r .rsp with rfl | hr
    · show above (c.rsp + 8 + 8 + 8 + 8) 15 = above c.rsp 19
      simp only [add_eight, above_add]
    · exact (if_neg hr).trans ((if_pos (mem_of_ne_rsp hr)).trans (if_neg hr).symm)
  · cases s <;> rfl

theorem loaded_stack {v : Reg → BitVec 64} {gs fs es ds : BitVec 64} (h : c.Stack (frame v gs fs es ds ++ ws)) :
    (loaded c v gs fs es ds).Stack ws := h.split.2

end Azalea
