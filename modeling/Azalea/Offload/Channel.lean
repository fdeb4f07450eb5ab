import Azalea.Foundation.Exchange
import Azalea.Foundation.Fifo
import Azalea.Offload.Packet

namespace Azalea
open Fifo

abbrev CircularQueue := Buffer IoPacket

namespace CircularQueue

def cqInit (cq : CircularQueue) (size : ℕ) : CircularQueue := { cq with head := 0, tail := 0, size := size }

-- head and tail are int, size is unsigned long
def cqAvailData (cq : CircularQueue) : ℕ := intToQword ((cq.head : ℤ) - cq.tail) &&& (cq.size - 1)

def cqFreeSpace (cq : CircularQueue) : ℕ := cq.size - 1 - cq.cqAvailData

structure Sized (cq : CircularQueue) : Prop where
  bounded : cq.Bounded
  power : ∃ k, 1 ≤ k ∧ k ≤ 30 ∧ cq.size = 2 ^ k

theorem cqInit_sized (cq : CircularQueue) {k : ℕ} (h1 : 1 ≤ k) (h2 : k ≤ 30) : (cq.cqInit (2 ^ k)).Sized :=
  ⟨⟨Nat.two_pow_pos k, Nat.two_pow_pos k⟩, k, h1, h2, rfl⟩

theorem cqAvailData_eq {cq : CircularQueue} (h : cq.Sized) : cq.cqAvailData = cq.length := by
  obtain ⟨⟨hhead, htail⟩, k, -, hk, hsize⟩ := h
  rw [cqAvailData, hsize, Nat.and_two_pow_sub_one_eq_mod, Buffer.length, distance]
  have hlt : 2 ^ k ≤ 2 ^ 30 := Nat.pow_le_pow_right (by decide) hk
  split_ifs with hle
  · rw [← Int.natCast_sub hle, intToQword_of_nat (by omega), Nat.mod_eq_of_lt (by omega)]
  · have hword : intToQword ((cq.head : ℤ) - cq.tail) = 2 ^ 64 - (cq.tail - cq.head) := by
      rw [intToQword, BitVec.toNat_ofInt]
      omega
    have hsplit : 2 ^ 64 - (cq.tail - cq.head) = (cq.head + 2 ^ k - cq.tail) + 2 ^ k * (2 ^ (64 - k) - 1) := by
      rw [Nat.mul_sub, ← pow_add, Nat.add_sub_cancel' (by omega : k ≤ 64)]
      omega
    rw [hword, hsplit, Nat.add_mul_mod_self_left, Nat.mod_eq_of_lt (by omega), hsize]

theorem avail_pos {cq : CircularQueue} (h : cq.Sized) (ha : cq.cqAvailData ≠ 0) : 0 < cq.length := by
  rw [cqAvailData_eq h] at ha
  omega

theorem free_room {cq : CircularQueue} (h : cq.Sized) (hf : cq.cqFreeSpace ≠ 0) : cq.length + 1 < cq.size := by
  rw [cqFreeSpace, cqAvailData_eq h] at hf
  omega

end CircularQueue

structure OffloadCall where
  ioFunctionType : BitVec 32
  param1 : ℕ
  param2 : ℕ
  param3 : ℕ
  param4 : ℕ
  param5 : ℕ
  param6 : ℕ
deriving DecidableEq, Repr

structure Reply where
  tid : BitVec 32
  ioFunctionType : BitVec 32
  ret : ℕ
deriving DecidableEq, Repr

namespace IoPacket

def ofCall (slot : IoPacket) (gUkid tid : ℤ) (c : OffloadCall) : IoPacket :=
  slot.request gUkid tid c.ioFunctionType.toInt c.param1 c.param2 c.param3 c.param4 c.param5 c.param6

def ofReply (slot : IoPacket) (r : Reply) : IoPacket := slot.reply r.tid.toInt r.ioFunctionType.toInt r.ret

def call (p : IoPacket) : OffloadCall :=
  ⟨BitVec.ofNat 32 p.ioFunctionType, p.param1, p.param2, p.param3, p.param4, p.param5, p.param6⟩

def answered (p : IoPacket) (ret : ℕ) : Reply := ⟨BitVec.ofNat 32 p.tid, BitVec.ofNat 32 p.ioFunctionType, ret⟩

end IoPacket

def threadOf (gUkid tid : ℤ) : ℕ := ((tid - gUkid * 10000) % 2 ^ 32).toNat

inductive Phase where
  | idle
  | sending (c : OffloadCall)
  | receiving (c : OffloadCall)
  | returned (c : OffloadCall) (ret : ℕ)
deriving DecidableEq, Repr

inductive Sender where
  | unlocked
  | locked (tid : ℕ) (c : OffloadCall)
  | checked (tid : ℕ) (c : OffloadCall)
  | written (tid : ℕ) (c : OffloadCall)
deriving DecidableEq, Repr

inductive Watch where
  | polling
  | available
  | copied (pkt : IoPacket)
  | adding (pkt : IoPacket)
deriving DecidableEq, Repr

inductive Answer where
  | unlocked
  | locked (r : Reply)
  | checked (r : Reply)
  | written (r : Reply)
deriving DecidableEq, Repr

inductive Receiver where
  | unlocked
  | locked (tid : ℕ) (c : OffloadCall)
  | taken (tid : ℕ) (c : OffloadCall) (ret : ℕ)
deriving DecidableEq, Repr

structure Channel where
  ocq : CircularQueue
  icq : CircularQueue
  thread : ℕ → Phase
  sender : Sender
  watch : Watch
  jobs : List IoPacket
  done : List Reply
  answer : Answer
  receiver : Receiver
  executed : ℕ → List (OffloadCall × ℕ)

namespace Channel

def setThread (s : Channel) (t : ℕ) (phase : Phase) : Channel :=
  { s with thread := Function.update s.thread t phase }

def initChannel (ocq icq : CircularQueue) (ocqSize icqSize : ℕ) : Channel where
  ocq := ocq.cqInit ocqSize
  icq := icq.cqInit icqSize
  thread := fun _ => .idle
  sender := .unlocked
  watch := .polling
  jobs := []
  done := []
  answer := .unlocked
  receiver := .unlocked
  executed := fun _ => []

inductive Step (gUkid : ℤ) (s : Channel) : Channel → Prop
  | call (t : ℕ) (c : OffloadCall) : t < maxThreadId →
      (s.thread t = .idle ∨ ∃ c' ret, s.thread t = .returned c' ret) → Step gUkid s (s.setThread t (.sending c))
  | sendLock (t : ℕ) (c : OffloadCall) : s.thread t = .sending c → s.sender = .unlocked →
      Step gUkid s { s with sender := .locked t c }
  | sendCheck (t : ℕ) (c : OffloadCall) : s.sender = .locked t c → s.ocq.cqFreeSpace ≠ 0 →
      Step gUkid s { s with sender := .checked t c }
  -- the queue stays full for 1000 checks: unlock, schedule, retry
  | sendYield (t : ℕ) (c : OffloadCall) : s.sender = .locked t c → s.ocq.cqFreeSpace = 0 →
      Step gUkid s { s with sender := .unlocked }
  | sendWrite (t : ℕ) (c : OffloadCall) : s.sender = .checked t c →
      Step gUkid s { s with
        ocq := s.ocq.write ((s.ocq.data s.ocq.head).ofCall gUkid t c)
        sender := .written t c }
  | sendPublish (t : ℕ) (c : OffloadCall) : s.sender = .written t c →
      Step gUkid s { s.setThread t (.receiving c) with
        ocq := s.ocq.publish
        sender := .unlocked
        executed := Function.update s.executed t [] }
  | watchCheck : s.watch = .polling → s.ocq.cqAvailData ≠ 0 → Step gUkid s { s with watch := .available }
  | watchCopy : s.watch = .available → Step gUkid s { s with watch := .copied (s.ocq.data s.ocq.tail) }
  | watchAdvance (p : IoPacket) : s.watch = .copied p →
      Step gUkid s { s with ocq := s.ocq.advance, watch := .adding p }
  | watchAdd (p : IoPacket) : s.watch = .adding p →
      Step gUkid s { s with watch := .polling, jobs := p :: s.jobs }
  | execute (p : IoPacket) (ret : ℕ) (l₁ l₂ : List IoPacket) : s.jobs = l₁ ++ p :: l₂ →
      Step gUkid s { s with
        jobs := l₁ ++ l₂
        done := p.answered ret :: s.done
        executed := Function.update s.executed (threadOf gUkid (toInt p.tid))
          (s.executed (threadOf gUkid (toInt p.tid)) ++ [(p.call, ret)]) }
  | answerLock (r : Reply) (l₁ l₂ : List Reply) : s.done = l₁ ++ r :: l₂ → s.answer = .unlocked →
      Step gUkid s { s with done := l₁ ++ l₂, answer := .locked r }
  | answerCheck (r : Reply) : s.answer = .locked r → s.icq.cqFreeSpace ≠ 0 →
      Step gUkid s { s with answer := .checked r }
  | answerWrite (r : Reply) : s.answer = .checked r →
      Step gUkid s { s with
        icq := s.icq.write ((s.icq.data s.icq.head).ofReply r)
        answer := .written r }
  | answerPublish (r : Reply) : s.answer = .written r →
      Step gUkid s { s with icq := s.icq.publish, answer := .unlocked }
  | recvLock (t : ℕ) (c : OffloadCall) : s.thread t = .receiving c → s.receiver = .unlocked →
      Step gUkid s { s with receiver := .locked t c }
  | recvMatch (t : ℕ) (c : OffloadCall) : s.receiver = .locked t c → s.icq.cqAvailData ≠ 0 →
      toInt (s.icq.data s.icq.tail).tid = offloadTid gUkid t →
      Step gUkid s { s with receiver := .taken t c (s.icq.data s.icq.tail).ret }
  -- nothing there, or the packet of another thread: unlock, schedule or schedule_to, retry
  | recvYield (t : ℕ) (c : OffloadCall) : s.receiver = .locked t c →
      (s.icq.cqAvailData = 0 ∨ toInt (s.icq.data s.icq.tail).tid ≠ offloadTid gUkid t) →
      Step gUkid s { s with receiver := .unlocked }
  | recvReturn (t : ℕ) (c : OffloadCall) (ret : ℕ) : s.receiver = .taken t c ret →
      Step gUkid s { s.setThread t (.returned c ret) with
        icq := s.icq.advance
        receiver := .unlocked }

end Channel
end Azalea
