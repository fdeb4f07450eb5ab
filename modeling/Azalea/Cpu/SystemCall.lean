import Mathlib.Tactic
import Azalea.Cpu.Interrupt

namespace Azalea
open Amd64 Bytes Stack

def systemcallParameters : Code :=
  [.load (-40) .rbp .rdi, .load (-48) .rbp .rsi, .load (-32) .rbp .rdx, .load (-72) .rbp .rcx, .load (-56) .rbp .r8,
    .load (-64) .rbp .r9, .load (-8) .rbp .rax]

def systemcall (entrypoint : BitVec 64) (c : Cpu) : Cpu := syscall c 0x08 0x10 entrypoint 0x200

def systemcallEnter (env : Symbol → Cpu → Cpu) (link : BitVec 64) (c : Cpu) : Cpu :=
  (run env link (saveContext ++ (systemcallParameters ++ [.push .rax])) c).pushWord link

variable {env : Symbol → Cpu → Cpu} {link : BitVec 64} {c : Cpu}

theorem run_systemcallParameters (env : Symbol → Cpu → Cpu) (link : BitVec 64) (c : Cpu) :
    run env link systemcallParameters (saved c) = { saved c with
      reg := fun
        | .rcx => c.reg .r10
        | .rax => c.reg .rax
        | r => (saved c).reg r } := by
  have h : Holds (saved c).mem (below c.rsp 19) (context c) := (List.append_nil (context c)) ▸
    saved_stack (Cpu.Stack.nil c) (Nat.zero_le _)
  have hslot {k : ℕ} {v off : BitVec 64} (hk : (context c)[k]? = some v)
      (hoff : c.rsp - 8 + off = above (below c.rsp 19) k) : word (saved c).mem (c.rsp - 8 + off) = v := hoff ▸ h.get hk
  refine Cpu.eq_of_reg (fun r => ?_) rfl rfl rfl rfl rfl
  cases r with
  | rdi => exact hslot (k := 13) rfl (by simp only [above, below]; bv_omega)
  | rsi => exact hslot (k := 12) rfl (by simp only [above, below]; bv_omega)
  | rdx => exact hslot (k := 14) rfl (by simp only [above, below]; bv_omega)
  | rcx => exact hslot (k := 9) rfl (by simp only [above, below]; bv_omega)
  | r8 => exact hslot (k := 11) rfl (by simp only [above, below]; bv_omega)
  | r9 => exact hslot (k := 10) rfl (by simp only [above, below]; bv_omega)
  | rax => exact hslot (k := 17) rfl (by simp only [above, below]; bv_omega)
  | _ => rfl

theorem systemcallEnter_eq (env : Symbol → Cpu → Cpu) (link : BitVec 64) (c : Cpu) : systemcallEnter env link c =
    ((run env link systemcallParameters (saved c)).pushWord (c.reg .rax)).pushWord link := by
  rw [systemcallEnter, run_append, run_append, run_saveContext, run_systemcallParameters]
  rfl

theorem systemcallEnter_stack (env : Symbol → Cpu → Cpu) (link : BitVec 64) (c : Cpu) :
    (systemcallEnter env link c).Stack (link :: ([c.reg .rax] ++ context c)) := by
  have hlen : (context c).length = 19 := rfl
  have h : (saved c).Stack (context c) := (List.append_nil (context c)) ▸ saved_stack (Cpu.Stack.nil c) (Nat.zero_le _)
  rw [systemcallEnter_eq, run_systemcallParameters]
  exact Cpu.Stack.pushWord (Cpu.Stack.pushWord h _ (by omega)) _ (by rw [List.length_cons]; omega)

theorem systemcall_parameters (env : Symbol → Cpu → Cpu) (link entrypoint : BitVec 64) (c : Cpu) :
    (∀ r ∈ [Reg.rdi, .rsi, .rdx, .r8, .r9], (systemcallEnter env link (systemcall entrypoint c)).reg r = c.reg r) ∧
    (systemcallEnter env link (systemcall entrypoint c)).reg .rcx = c.reg .r10 ∧
    (systemcallEnter env link (systemcall entrypoint c)).Stack [link, c.reg .rax] := by
  have hreg : ∀ r ≠ .rsp, (systemcallEnter env link (systemcall entrypoint c)).reg r =
      (run env link systemcallParameters (saved (systemcall entrypoint c))).reg r := fun r hr => by
    rw [systemcallEnter_eq, Cpu.reg_pushWord hr, Cpu.reg_pushWord hr]
  have hstack := systemcallEnter_stack env link (systemcall entrypoint c)
  refine ⟨fun r hr => ?_, ?_, ?_⟩
  · rw [hreg r fun h => absurd (h ▸ hr) (by decide), run_systemcallParameters]
    simp only [List.mem_cons, List.not_mem_nil, or_false] at hr
    rcases hr with rfl | rfl | rfl | rfl | rfl <;> rfl
  · rw [hreg .rcx (by decide), run_systemcallParameters]
    rfl
  · exact ⟨hstack.1, hstack.2.1, trivial⟩

end Azalea
