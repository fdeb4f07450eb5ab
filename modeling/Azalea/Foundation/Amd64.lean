import Mathlib.Data.BitVec
import Mathlib.Tactic
import Azalea.Foundation.Stack

namespace Amd64
open Bytes Stack

inductive Reg where
  | rax | rbx | rcx | rdx | rsi | rdi | rbp | rsp | r8 | r9 | r10 | r11 | r12 | r13 | r14 | r15
  deriving DecidableEq, Repr

inductive Seg where
  | cs | ss | ds | es | fs | gs
  deriving DecidableEq, Repr

structure Regs where
  reg : Reg → BitVec 64
  seg : Seg → BitVec 16
  rip : BitVec 64
  rflags : BitVec 64
  cr2 : BitVec 64

structure Cpu extends Regs where
  mem : Mem 64

inductive Instr (σ : Type) where
  | push (r : Reg)
  | pop (r : Reg)
  | pushSeg (s : Seg)
  | popSeg (s : Seg)
  | popfq
  | mov (src dst : Reg)
  | movImm (v : BitVec 64) (dst : Reg)
  | movImm16 (v : BitVec 16) (dst : Reg)
  | fromSeg (s : Seg) (dst : Reg)
  | toSeg (src : Reg) (s : Seg)
  | fromCr2 (dst : Reg)
  | load (off : BitVec 64) (base dst : Reg)
  | store (src : Reg) (off : BitVec 64) (base : Reg)
  | addImm (v : BitVec 64) (dst : Reg)
  | call (f : σ)
  | jmp (r : Reg)
  | ret
  | iretq
  deriving DecidableEq

def low16 (r : BitVec 64) (v : BitVec 16) : BitVec 64 := (r >>> 16) <<< 16 ||| v.setWidth 64

def addFlags (a b f : BitVec 64) : BitVec 64 :=
  let s := a + b
  let parity := ((List.range 8).filter fun i => s.getLsbD i).length % 2 = 0
  let carry := 2 ^ 64 ≤ a.toNat + b.toNat
  let half := 2 ^ 4 ≤ a.toNat % 2 ^ 4 + b.toNat % 2 ^ 4
  let overflow := a.msb = b.msb ∧ s.msb ≠ a.msb
  (f &&& ~~~0x8D5) ||| (if carry then 1 else 0) ||| (if parity then 4 else 0) ||| (if half then 0x10 else 0) |||
    (if s = 0 then 0x40 else 0) ||| (if s.msb then 0x80 else 0) ||| (if overflow then 0x800 else 0)

namespace Cpu

variable (c : Cpu)

def rsp : BitVec 64 := c.reg .rsp

def set (r : Reg) (v : BitVec 64) : Cpu := { c with reg := fun r' => if r' = r then v else c.reg r' }

def setSeg (s : Seg) (v : BitVec 16) : Cpu := { c with seg := fun s' => if s' = s then v else c.seg s' }

def top : BitVec 64 := word c.mem c.rsp

def pushWord (v : BitVec 64) : Cpu := { c.set .rsp (c.rsp - 8) with mem := setWord c.mem (c.rsp - 8) v }

def pushWords (vs : List (BitVec 64)) : Cpu :=
  { c.set .rsp (below c.rsp vs.length) with mem := pushed c.mem c.rsp vs }

def drop : Cpu := c.set .rsp (c.rsp + 8)

def Stack (ws : List (BitVec 64)) : Prop := Holds c.mem c.rsp ws

variable {c} {r r' : Reg} {v : BitVec 64}

theorem eq_of_reg {d : Cpu} (hreg : ∀ r, c.reg r = d.reg r) (hseg : c.seg = d.seg) (hrip : c.rip = d.rip)
    (hrflags : c.rflags = d.rflags) (hcr2 : c.cr2 = d.cr2) (hmem : c.mem = d.mem) : c = d := by
  obtain ⟨⟨reg, seg, rip, rflags, cr2⟩, mem⟩ := c
  obtain rfl : reg = d.reg := funext hreg
  subst hseg hrip hrflags hcr2 hmem
  rfl

@[simp] theorem reg_set : (c.set r v).reg r = v := if_pos rfl

@[simp] theorem reg_set_of_ne (h : r' ≠ r) : (c.set r v).reg r' = c.reg r' := if_neg h

@[simp] theorem reg_pushWord (h : r ≠ .rsp) : (c.pushWord v).reg r = c.reg r := if_neg h

@[simp] theorem reg_drop (h : r ≠ .rsp) : c.drop.reg r = c.reg r := if_neg h

@[simp] theorem reg_pushWords {vs : List (BitVec 64)} (h : r ≠ .rsp) : (c.pushWords vs).reg r = c.reg r := if_neg h

@[simp] theorem rsp_pushWords {vs : List (BitVec 64)} : (c.pushWords vs).rsp = below c.rsp vs.length := rfl

@[simp] theorem set_rsp_self : c.set .rsp c.rsp = c := by
  refine eq_of_reg (fun r => ?_) rfl rfl rfl rfl rfl
  rcases eq_or_ne r .rsp with rfl | hr
  · exact reg_set
  · exact reg_set_of_ne hr

@[simp] theorem pushWords_nil : c.pushWords [] = c := by
  rw [pushWords, List.length_nil, below_zero, set_rsp_self]
  rfl

theorem pushWords_pushWord (v : BitVec 64) (vs : List (BitVec 64)) :
    (c.pushWord v).pushWords vs = c.pushWords (v :: vs) := by
  refine eq_of_reg (fun r => ?_) rfl rfl rfl rfl rfl
  rcases eq_or_ne r .rsp with rfl | hr
  · show below (c.rsp - 8) vs.length = below c.rsp (vs.length + 1)
    rw [sub_eight, below_add, Nat.add_comm]
  · rw [reg_pushWords hr, reg_pushWord hr, reg_pushWords hr]

namespace Stack

variable {s : Seg} {x : BitVec 16} {ws : List (BitVec 64)}

theorem top_eq (h : c.Stack (v :: ws)) : c.top = v := h.1

theorem drop (h : c.Stack (v :: ws)) : c.drop.Stack ws := h.2

theorem nil (c : Cpu) : c.Stack [] := trivial

theorem pushWords (h : c.Stack ws) {l : List (BitVec 64)} (hn : 8 * (l.length + ws.length) ≤ 2 ^ 64) :
    (c.pushWords l).Stack (l.reverse ++ ws) := by
  refine (holds_pushed (by omega)).append ?_
  rw [List.length_reverse, above_below]
  exact h.congr (by omega) fun x hx => pushed_of_within hn hx

theorem pushWord (h : c.Stack ws) (v : BitVec 64) (hn : 8 * (1 + ws.length) ≤ 2 ^ 64) : (c.pushWord v).Stack (v :: ws) :=
  h.pushWords (l := [v]) hn

theorem set (h : c.Stack ws) (hr : .rsp ≠ r) (v : BitVec 64) : (c.set r v).Stack ws := by
  rwa [Stack, rsp, reg_set_of_ne hr]

theorem setSeg (h : c.Stack ws) (s : Seg) (x : BitVec 16) : (c.setSeg s x).Stack ws := h

end Stack
end Cpu

-- RIP is written by transfers of control only. What a callee does up to its return is a function of the state at its
-- first instruction; link is the address of the instruction after the call
def exec {σ : Type} (env : σ → Cpu → Cpu) (link : BitVec 64) (c : Cpu) : Instr σ → Cpu
  | .push r => c.pushWord (c.reg r)
  | .pop r => c.drop.set r c.top
  | .pushSeg s => c.pushWord ((c.seg s).setWidth 64)
  | .popSeg s => c.drop.setSeg s (c.top.setWidth 16)
  | .popfq => { c.drop with rflags := c.top }
  | .mov src dst => c.set dst (c.reg src)
  | .movImm v dst => c.set dst v
  | .movImm16 v dst => c.set dst (low16 (c.reg dst) v)
  | .fromSeg s dst => c.set dst (low16 (c.reg dst) (c.seg s))
  | .toSeg src s => c.setSeg s ((c.reg src).setWidth 16)
  | .fromCr2 dst => c.set dst c.cr2
  | .load off base dst => c.set dst (word c.mem (c.reg base + off))
  | .store src off base => { c with mem := setWord c.mem (c.reg base + off) (c.reg src) }
  | .addImm v dst => { c.set dst (c.reg dst + v) with rflags := addFlags (c.reg dst) v c.rflags }
  | .call f => env f (c.pushWord link)
  | .jmp r => { c with rip := c.reg r }
  | .ret => { c.drop with rip := c.top }
  | .iretq =>
    let back := c.drop.drop.drop
    { (back.set .rsp back.top).setSeg .cs (c.drop.top.setWidth 16) |>.setSeg .ss (back.drop.top.setWidth 16) with
      rip := c.top
      rflags := c.drop.drop.top }

def run {σ : Type} (env : σ → Cpu → Cpu) (link : BitVec 64) (code : List (Instr σ)) (c : Cpu) : Cpu :=
  code.foldl (exec env link) c

def deliver (c : Cpu) (stack : BitVec 64) (selector : BitVec 16) (entry : BitVec 64) (error : Option (BitVec 64)) : Cpu :=
  let frame := [(c.seg .ss).setWidth 64, c.rsp, c.rflags, (c.seg .cs).setWidth 64, c.rip]
  { ((c.set .rsp (stack &&& ~~~15)).pushWords (frame ++ error.toList)).setSeg .cs selector with
    rip := entry
    rflags := c.rflags &&& ~~~0x14300 }

def syscall (c : Cpu) (cs ss : BitVec 16) (lstar fmask : BitVec 64) : Cpu :=
  { (((c.set .rcx c.rip).set .r11 c.rflags).setSeg .cs cs).setSeg .ss ss with
    rip := lstar, rflags := c.rflags &&& ~~~fmask }

def Instr.dst {σ : Type} : Instr σ → Option Reg
  | .mov _ d | .movImm _ d | .movImm16 _ d | .fromSeg _ d | .fromCr2 d | .load _ _ d => some d
  | _ => none

def calleeSaved : List Reg := [.rbx, .rbp, .r12, .r13, .r14, .r15]

structure Returns (k n : ℕ) (f : Cpu → Cpu) (c : Cpu) : Prop where
  rsp : (f c).rsp = c.rsp + 8
  saved : ∀ r ∈ calleeSaved, (f c).reg r = c.reg r
  seg : (f c).seg = c.seg
  mem : ∀ x, Within (above (c.rsp + 8) k) (8 * n) x → (f c).mem x = c.mem x

variable {σ : Type} {env : σ → Cpu → Cpu} {link : BitVec 64} {c : Cpu} {f : Cpu → Cpu} {n : ℕ}

theorem run_append (l l' : List (Instr σ)) (c : Cpu) : run env link (l ++ l') c = run env link l' (run env link l c) :=
  List.foldl_append

theorem run_cons (i : Instr σ) (l : List (Instr σ)) (c : Cpu) : run env link (i :: l) c = run env link l (exec env link c i) :=
  rfl

theorem run_pop_cons {r : Reg} {v : BitVec 64} {ws : List (BitVec 64)} (h : c.Stack (v :: ws)) (l : List (Instr σ)) :
    run env link (.pop r :: l) c = run env link l (c.drop.set r v) := by
  rw [run_cons, exec, h.top_eq]

theorem run_popSeg_cons {s : Seg} {v : BitVec 64} {ws : List (BitVec 64)} (h : c.Stack (v :: ws)) (l : List (Instr σ)) :
    run env link (.popSeg s :: l) c = run env link l (c.drop.setSeg s (v.setWidth 16)) := by
  rw [run_cons, exec, h.top_eq]

theorem run_toSeg_cons (r : Reg) (s : Seg) (l : List (Instr σ)) (c : Cpu) :
    run env link (.toSeg r s :: l) c = run env link l (c.setSeg s ((c.reg r).setWidth 16)) := rfl

theorem run_push {rs : List Reg} (h : .rsp ∉ rs) : run env link (rs.map .push) c =
    c.pushWords (rs.map c.reg) := by
  induction rs generalizing c with
  | nil => exact Cpu.pushWords_nil.symm
  | cons r rs ih =>
    obtain ⟨hr, hrs⟩ := not_or.mp (List.mem_cons.not.mp h)
    have hmap : rs.map (c.pushWord (c.reg r)).reg = rs.map c.reg :=
      List.map_congr_left fun r' hr' => Cpu.reg_pushWord (ne_of_mem_of_not_mem hr' hrs)
    rw [List.map_cons, run_cons, show exec env link c (.push r) = c.pushWord (c.reg r) from rfl, ih hrs, hmap,
      Cpu.pushWords_pushWord]
    rfl

theorem run_pop {rs : List Reg} {v : Reg → BitVec 64} {w : List (BitVec 64)} (hrs : rs.Nodup) (h : .rsp ∉ rs)
    (hs : c.Stack (rs.map v ++ w)) : run env link (rs.map .pop) c =
      { c with reg := fun r => if r = .rsp then above c.rsp rs.length else if r ∈ rs then v r else c.reg r } := by
  induction rs generalizing c with
  | nil =>
    refine Cpu.eq_of_reg (fun r => ?_) rfl rfl rfl rfl rfl
    rcases eq_or_ne r .rsp with rfl | hr
    · simp [run, Cpu.rsp, above]
    · simp [run, hr]
  | cons r rs ih =>
    obtain ⟨hr, hrs'⟩ := not_or.mp (List.mem_cons.not.mp h)
    obtain ⟨hout, hnodup⟩ := List.nodup_cons.mp hrs
    have hsp : (c.drop.set r c.top).rsp = c.rsp + 8 := Cpu.reg_set_of_ne hr
    have hih := ih (c := c.drop.set r c.top) hnodup hrs' (hs.drop.set hr _)
    rw [List.map_cons, run_cons, show exec env link c (.pop r) = c.drop.set r c.top from rfl, hih, hsp, add_eight, above_add,
      Nat.add_comm, ← List.length_cons (a := r)]
    refine Cpu.eq_of_reg (fun r' => ?_) rfl rfl rfl rfl rfl
    rcases eq_or_ne r' .rsp with rfl | hsp'
    · rfl
    · rcases eq_or_ne r' r with rfl | hr'
      · simp only [if_neg hsp', if_neg hout, List.mem_cons_self, if_true, Cpu.reg_set, hs.top_eq]
      · simp only [if_neg hsp', List.mem_cons, hr', false_or, Cpu.reg_set_of_ne hr', Cpu.reg_drop hsp']

theorem run_of_dst (env : σ → Cpu → Cpu) (link : BitVec 64) (c : Cpu) {l : List (Instr σ)} {rs : List Reg}
    (h : ∀ i ∈ l, ∃ r ∈ rs, i.dst = some r) :
    ∃ g : Reg → BitVec 64, run env link l c = { c with reg := g } ∧ ∀ r ∉ rs, g r = c.reg r := by
  induction l generalizing c with
  | nil => exact ⟨c.reg, rfl, fun _ _ => rfl⟩
  | cons i l ih =>
    obtain ⟨r, hr, hi⟩ := h i List.mem_cons_self
    obtain ⟨v, hv⟩ : ∃ v, exec env link c i = c.set r v := by
      cases i <;> simp only [Instr.dst, reduceCtorEq, Option.some.injEq] at hi
      all_goals subst hi; exact ⟨_, rfl⟩
    obtain ⟨g, hg, hout⟩ := ih (c.set r v) fun j hj => h j (List.mem_cons_of_mem i hj)
    refine ⟨g, by rw [run_cons, hv, hg]; rfl, fun r' hr' => ?_⟩
    exact (hout r' hr').trans (Cpu.reg_set_of_ne fun he => hr' (he ▸ hr))

theorem Returns.stack {k : ℕ} (h : Returns k n f c) {v : BitVec 64} {l vs : List (BitVec 64)}
    (hs : c.Stack (v :: (l ++ vs))) (hk : l.length = k) (hn : 8 * n ≤ 2 ^ 64) (hl : vs.length ≤ n) :
    Holds (f c).mem (above (f c).rsp k) vs := by
  subst hk
  rw [h.rsp]
  exact hs.2.split.2.congr (by omega) fun x hx => h.mem x (hx.mono (by omega))

theorem Returns.stack_zero (h : Returns 0 n f c) {v : BitVec 64} {vs : List (BitVec 64)} (hs : c.Stack (v :: vs))
    (hn : 8 * n ≤ 2 ^ 64) (hl : vs.length ≤ n) : (f c).Stack vs := by
  have h := h.stack (l := []) hs rfl hn hl
  rwa [above, Nat.mul_zero, show BitVec.ofNat 64 0 = 0 from rfl, add_zero] at h

theorem deliver_stack (c : Cpu) (stack : BitVec 64) (selector : BitVec 16) (entry : BitVec 64)
    (error : Option (BitVec 64)) : (deliver c stack selector entry error).Stack
      (error.toList ++ [c.rip, (c.seg .cs).setWidth 64, c.rflags, c.rsp, (c.seg .ss).setWidth 64]) := by
  have h := Cpu.Stack.nil (c.set .rsp (stack &&& ~~~15))
  have hlen : 8 * (5 + 0) ≤ 2 ^ 64 := by decide
  have hlen' : 8 * (6 + 0) ≤ 2 ^ 64 := by decide
  cases error with
  | none => exact h.pushWords (l := [(c.seg .ss).setWidth 64, c.rsp, c.rflags, (c.seg .cs).setWidth 64, c.rip]) hlen
  | some e =>
    exact h.pushWords (l := [(c.seg .ss).setWidth 64, c.rsp, c.rflags, (c.seg .cs).setWidth 64, c.rip, e]) hlen'

theorem deliver_rsp (c : Cpu) (stack : BitVec 64) (selector : BitVec 16) (entry : BitVec 64) (error : Option (BitVec 64)) :
    (deliver c stack selector entry error).rsp = below (stack &&& ~~~15) (5 + error.toList.length) := by
  show below (stack &&& ~~~15) (_ ++ error.toList).length = _
  rw [List.length_append]
  rfl

theorem deliver_reg {r : Reg} (hr : r ≠ .rsp) (c : Cpu) (stack : BitVec 64) (selector : BitVec 16) (entry : BitVec 64)
    (error : Option (BitVec 64)) : (deliver c stack selector entry error).reg r = c.reg r :=
  (Cpu.reg_pushWords hr).trans (Cpu.reg_set_of_ne hr)

theorem exec_iretq {rip cs rflags rsp ss : BitVec 64} {ws : List (BitVec 64)}
    (h : c.Stack (rip :: cs :: rflags :: rsp :: ss :: ws)) : exec env link c .iretq =
      { ((c.set .rsp rsp).setSeg .cs (cs.setWidth 16)).setSeg .ss (ss.setWidth 16) with rip := rip, rflags := rflags } := by
  rw [exec, h.top_eq, h.drop.top_eq, h.drop.drop.top_eq, h.drop.drop.drop.top_eq, h.drop.drop.drop.drop.top_eq]
  refine Cpu.eq_of_reg (fun r => ?_) rfl rfl rfl rfl rfl
  rcases eq_or_ne r .rsp with rfl | hr
  · rfl
  · exact (Cpu.reg_set_of_ne hr).trans
      ((Cpu.reg_drop hr).trans ((Cpu.reg_drop hr).trans ((Cpu.reg_drop hr).trans (Cpu.reg_set_of_ne hr).symm)))

@[simp] theorem setWidth_setWidth (v : BitVec 16) : (v.setWidth 64).setWidth 16 = v := by
  ext i hi
  simp

@[simp] theorem setWidth_low16 (r : BitVec 64) (v : BitVec 16) : (low16 r v).setWidth 16 = v := by
  ext i hi
  simp [low16]

end Amd64
