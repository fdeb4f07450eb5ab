import Azalea.Foundation.Run
import Azalea.Offload.Channel

namespace Azalea
open Fifo

def consoleChannelCqElementNum : ℕ := 4

def consoleMagic : ℕ := 0x5D4C3B2A

structure ConsoleQueue where
  head : ℤ
  tail : ℤ
  size : ℕ
  data : ℤ → IoPacket

namespace ConsoleQueue

def cqAvailData (cq : ConsoleQueue) : ℤ :=
  toInt (intToQword (cq.head - cq.tail) &&& (cq.size + wordSize - 1) % wordSize)

def cqFreeSpace (cq : ConsoleQueue) : ℤ :=
  toInt ((cq.size + wordSize - 1 + wordSize - intToQword cq.cqAvailData) % wordSize)

def cqInit (cq : ConsoleQueue) : ℕ → ConsoleQueue
  | 0 => { cq with head := 0 }
  | 1 => { cq with tail := 0 }
  | _ => { cq with size := consoleChannelCqElementNum }

def next (cq : ConsoleQueue) (i : ℤ) : ℤ := toInt (intToQword (i + 1) % cq.size)

def write (cq : ConsoleQueue) (pkt : IoPacket) : ConsoleQueue := { cq with data := Function.update cq.data cq.head pkt }

def publish (cq : ConsoleQueue) : ConsoleQueue := { cq with head := cq.next cq.head }

def advance (cq : ConsoleQueue) : ConsoleQueue := { cq with tail := cq.next cq.tail }

structure Ready (cq : ConsoleQueue) : Prop where
  size : cq.size = consoleChannelCqElementNum
  head : 0 ≤ cq.head ∧ cq.head < 4
  tail : 0 ≤ cq.tail ∧ cq.tail < 4

def buffer (cq : ConsoleQueue) : CircularQueue := ⟨cq.head.toNat, cq.tail.toNat, cq.size, fun i => cq.data i⟩

theorem cqInit_ready {cq : ConsoleQueue} (hhead : cq.head = 0) (htail : cq.tail = 0) {n : ℕ} (hn : 2 ≤ n) :
    (cq.cqInit n).Ready ∧ (cq.cqInit n).buffer.contents = [] := by
  obtain ⟨m, rfl⟩ := Nat.exists_eq_add_of_le' hn
  refine ⟨⟨rfl, ?_, ?_⟩, ?_⟩
  · simp [cqInit, hhead]
  · simp [cqInit, htail]
  · simp [cqInit, buffer, Buffer.contents, Buffer.length, distance, hhead, htail]

namespace Ready
variable {cq : ConsoleQueue} {pkt : IoPacket}

theorem bounded (h : cq.Ready) : cq.buffer.Bounded := by
  obtain ⟨hsize, hhead, htail⟩ := h
  simp only [consoleChannelCqElementNum] at hsize
  exact ⟨show cq.head.toNat < cq.size by omega, show cq.tail.toNat < cq.size by omega⟩

theorem sized (h : cq.Ready) : cq.buffer.Sized := ⟨h.bounded, 2, by decide, by decide, h.size⟩

theorem length_lt (h : cq.Ready) : cq.buffer.length < 4 := by
  have hlt := Buffer.length_lt h.bounded
  rwa [show cq.buffer.size = 4 from h.size] at hlt

theorem cqAvailData_eq (h : cq.Ready) : cq.cqAvailData = cq.buffer.length := by
  have hlt := h.length_lt
  have hbuffer : intToQword (cq.head - cq.tail) &&& (cq.size + wordSize - 1) % wordSize = cq.buffer.cqAvailData := by
    rw [CircularQueue.cqAvailData, h.size]
    simp only [buffer, Int.toNat_of_nonneg h.head.1, Int.toNat_of_nonneg h.tail.1, h.size]
    rfl
  rw [cqAvailData, hbuffer, CircularQueue.cqAvailData_eq h.sized, toInt_of_lt (by omega)]

theorem cqFreeSpace_eq (h : cq.Ready) : cq.cqFreeSpace = 3 - cq.buffer.length := by
  have hlt := h.length_lt
  rw [cqFreeSpace, h.cqAvailData_eq, intToQword_of_nat (by omega), h.size]
  simp only [consoleChannelCqElementNum, wordSize]
  rw [show (4 + 2 ^ 64 - 1 + 2 ^ 64 - cq.buffer.length) % 2 ^ 64 = 3 - cq.buffer.length by omega, toInt_of_lt (by omega)]
  omega

theorem next_eq (h : cq.Ready) {i : ℤ} (h0 : 0 ≤ i) (h4 : i < 4) :
    cq.next i = cq.buffer.next i.toNat ∧ 0 ≤ cq.next i ∧ cq.next i < 4 := by
  lift i to ℕ using h0
  have hnext : cq.next i = ((i + 1) % 4 : ℕ) := by
    rw [next, h.size, ← Nat.cast_succ, intToQword_of_nat (by omega)]
    exact toInt_of_lt (by simp only [consoleChannelCqElementNum]; omega)
  refine ⟨?_, by omega, by omega⟩
  rw [hnext, Buffer.next, show cq.buffer.size = 4 from h.size, Int.toNat_natCast]

theorem write (h : cq.Ready) : (cq.write pkt).Ready := ⟨h.size, h.head, h.tail⟩

theorem publish (h : cq.Ready) : cq.publish.Ready := ⟨h.size, (h.next_eq h.head.1 h.head.2).2, h.tail⟩

theorem advance (h : cq.Ready) : cq.advance.Ready := ⟨h.size, h.head, (h.next_eq h.tail.1 h.tail.2).2⟩

theorem write_buffer (h : cq.Ready) : (cq.write pkt).buffer = cq.buffer.write pkt := by
  have hhead : (cq.head.toNat : ℤ) = cq.head := Int.toNat_of_nonneg h.head.1
  simp only [buffer, ConsoleQueue.write, Buffer.write, Buffer.mk.injEq, true_and]
  funext i
  rcases eq_or_ne i cq.head.toNat with rfl | hne
  · rw [Function.update_self, hhead, Function.update_self]
  · rw [Function.update_of_ne hne, Function.update_of_ne (by omega)]

theorem publish_buffer (h : cq.Ready) : cq.publish.buffer = cq.buffer.publish := by
  simp only [buffer, ConsoleQueue.publish, Buffer.publish, Buffer.mk.injEq, and_true]
  rw [(h.next_eq h.head.1 h.head.2).1, Int.toNat_natCast]
  rfl

theorem advance_buffer (h : cq.Ready) : cq.advance.buffer = cq.buffer.advance := by
  simp only [buffer, ConsoleQueue.advance, Buffer.advance, Buffer.mk.injEq, and_true, true_and]
  rw [(h.next_eq h.tail.1 h.tail.2).1, Int.toNat_natCast]
  rfl

theorem data_tail (h : cq.Ready) : cq.buffer.data cq.buffer.tail = cq.data cq.tail :=
  congrArg cq.data (Int.toNat_of_nonneg h.tail.1)

theorem data_head (h : cq.Ready) : cq.buffer.data cq.buffer.head = cq.data cq.head :=
  congrArg cq.data (Int.toNat_of_nonneg h.head.1)

end Ready

end ConsoleQueue

def IoPacket.consoleRequest (slot : IoPacket) (tid : BitVec 32) (c : OffloadCall) : IoPacket :=
  { slot with
    magic := proxyMagic
    tid := intToQword tid.toInt
    ioFunctionType := intToQword c.ioFunctionType.toInt
    param1 := c.param1
    param2 := c.param2
    param3 := c.param3
    param4 := c.param4
    param5 := c.param5
    param6 := c.param6 }

namespace Console

inductive Kernel where
  | waiting
  | initIn (n : ℕ)
  | initOut (n : ℕ)
  | ready
deriving DecidableEq, Repr

inductive Sender where
  | unlocked
  | locked (tid : BitVec 32) (c : OffloadCall)
  | checked (tid : BitVec 32) (c : OffloadCall)
  | written (tid : BitVec 32) (c : OffloadCall)
deriving DecidableEq, Repr

inductive Pc where
  | mapping
  | polling
  | available
  | handling
  | fetched (pkt : IoPacket)
  | executing (pkt : IoPacket)
  | stopped
deriving DecidableEq, Repr

def dispatch (ioFunctionType : ℕ) : Pc :=
  if ioFunctionType = 1 ∨ ioFunctionType = 2 ∨ ioFunctionType = 3 then .handling
  else if ioFunctionType = intToQword (-9) then .stopped
  else .polling

end Console

structure Console where
  info : ℕ
  inCq : ConsoleQueue
  outCq : ConsoleQueue
  kernel : Console.Kernel
  sender : Console.Sender
  proxy : Console.Pc
  sent : List IoPacket
  dispatched : List IoPacket
  consumed : List IoPacket

namespace Console

inductive Step (id : ℕ) (mayPoll : Console → Prop) (s : Console) : Console → Prop
  | publishMagic : s.proxy = .mapping → Step id mayPoll s { s with info := consoleMagic + id, proxy := .polling }
  | seeMagic : s.kernel = .waiting → s.info = consoleMagic + id → Step id mayPoll s { s with kernel := .initIn 0 }
  -- console_channel->in is the proxy's out_cq, console_channel->out its in_cq
  | initIn (n : ℕ) : s.kernel = .initIn n →
      Step id mayPoll s { s with
        outCq := s.outCq.cqInit n
        kernel := if n < 2 then .initIn (n + 1) else .initOut 0 }
  | initOut (n : ℕ) : s.kernel = .initOut n →
      Step id mayPoll s { s with
        inCq := s.inCq.cqInit n
        kernel := if n < 2 then .initOut (n + 1) else .ready }
  | sendLock (tid : BitVec 32) (c : OffloadCall) : s.kernel = .ready → s.sender = .unlocked →
      Step id mayPoll s { s with sender := .locked tid c }
  | sendCheck (tid : BitVec 32) (c : OffloadCall) : s.sender = .locked tid c → s.inCq.cqFreeSpace ≠ 0 →
      Step id mayPoll s { s with sender := .checked tid c }
  | sendWrite (tid : BitVec 32) (c : OffloadCall) : s.sender = .checked tid c →
      Step id mayPoll s { s with
        inCq := s.inCq.write ((s.inCq.data s.inCq.head).consoleRequest tid c)
        sender := .written tid c }
  | sendPublish (tid : BitVec 32) (c : OffloadCall) : s.sender = .written tid c →
      Step id mayPoll s { s with
        inCq := s.inCq.publish
        sender := .unlocked
        sent := s.sent ++ [s.inCq.data s.inCq.head] }
  | poll : s.proxy = .polling → mayPoll s →
      Step id mayPoll s { s with proxy := if s.inCq.cqAvailData ≠ 0 then .available else .polling }
  | dispatch : s.proxy = .available →
      Step id mayPoll s { s with
        proxy := dispatch (s.inCq.data s.inCq.tail).ioFunctionType
        dispatched := s.dispatched ++ [s.inCq.data s.inCq.tail] }
  | fetch : s.proxy = .handling → Step id mayPoll s { s with proxy := .fetched (s.inCq.data s.inCq.tail) }
  | advance (pkt : IoPacket) : s.proxy = .fetched pkt →
      Step id mayPoll s { s with
        inCq := s.inCq.advance
        proxy := .executing pkt
        consumed := s.consumed ++ [pkt] }
  | answer (pkt : IoPacket) (ret : ℕ) : s.proxy = .executing pkt → s.outCq.cqFreeSpace ≠ 0 →
      Step id mayPoll s { s with
        outCq := (s.outCq.write ((s.outCq.data s.outCq.head).ofReply (pkt.answered ret))).publish
        proxy := .polling }
  | receive (tid : BitVec 32) (c : OffloadCall) : s.kernel = .ready → s.outCq.cqAvailData ≠ 0 →
      toInt (s.outCq.data s.outCq.tail).tid = tid.toInt →
      toInt (s.outCq.data s.outCq.tail).ioFunctionType = c.ioFunctionType.toInt →
      Step id mayPoll s { s with outCq := s.outCq.advance }

structure Silent (s : Console) : Prop where
  sender : s.sender = .unlocked
  sent : s.sent = []
  dispatched : s.dispatched = []
  consumed : s.consumed = []

structure Start (s : Console) : Prop extends s.Silent where
  kernel : s.kernel = .waiting
  proxy : s.proxy = .mapping

structure Sound (s : Console) : Prop where
  written : ∀ pkt ∈ s.dispatched, pkt ∈ s.sent
  kept : s.kernel = .ready → s.sent = s.consumed ++ s.inCq.buffer.contents
  taken : s.consumed.Sublist s.dispatched

def MayPoll (s : Console) : Prop := s.kernel = .ready ∨ s.inCq.cqAvailData = 0

def inFlight (s : Console) : List IoPacket :=
  match s.proxy with
  | .handling | .fetched _ => [s.inCq.data s.inCq.tail]
  | _ => []

structure Early (s : Console) : Prop extends s.Silent where
  proxy : s.proxy = .mapping ∨ s.proxy = .polling
  head : ∀ n, s.kernel = .initOut n → 0 < n → s.inCq.head = 0
  tail : ∀ n, s.kernel = .initOut n → 1 < n → s.inCq.tail = 0

structure Live (s : Console) : Prop where
  queue : s.inCq.Ready
  written : ∀ pkt ∈ s.dispatched, pkt ∈ s.sent
  kept : s.sent = s.consumed ++ s.inCq.buffer.contents
  taken : (s.consumed ++ s.inFlight).Sublist s.dispatched
  room : ∀ tid c, s.sender = .checked tid c ∨ s.sender = .written tid c → s.inCq.buffer.length < 3
  avail : s.proxy = .available ∨ s.proxy = .handling ∨ (∃ pkt, s.proxy = .fetched pkt) → 0 < s.inCq.buffer.length
  fetched : ∀ pkt, s.proxy = .fetched pkt → pkt = s.inCq.data s.inCq.tail

def Inv (s : Console) : Prop := s.kernel ≠ .ready ∧ s.Early ∨ s.kernel = .ready ∧ s.Live

theorem Start.inv {s : Console} (h : s.Start) : s.Inv := by
  refine .inl ⟨by simp [h.kernel], h.toSilent, .inl h.proxy, ?_, ?_⟩
  · intro n hn
    simp [h.kernel] at hn
  · intro n hn
    simp [h.kernel] at hn

theorem Inv.sound {s : Console} (h : s.Inv) : s.Sound := by
  rcases h with ⟨hne, h⟩ | ⟨_, h⟩
  · exact ⟨by simp [h.dispatched], fun hready => absurd hready hne, by simp [h.consumed]⟩
  · exact ⟨h.written, fun _ => h.kept, (List.sublist_append_left _ _).trans h.taken⟩

theorem Early.ready {s : Console} (h : s.Early) {n : ℕ} (hk : s.kernel = .initOut n) (hn : ¬ n < 2) :
    Live { s with inCq := s.inCq.cqInit n, kernel := .ready } := by
  obtain ⟨hready, hempty⟩ := ConsoleQueue.cqInit_ready (h.head n hk (by omega)) (h.tail n hk (by omega))
    (Nat.not_lt.mp hn)
  refine ⟨hready, by simp [h.dispatched], by simp [h.sent, h.consumed, hempty], ?_, ?_, ?_, ?_⟩
  · rcases h.proxy with hp | hp <;> simp [inFlight, hp, h.consumed]
  · simp [h.sender]
  · rcases h.proxy with hp | hp <;> simp [hp]
  · rcases h.proxy with hp | hp <;> simp [hp]

namespace Live
variable {s : Console} (h : s.Live)
include h

theorem sendWrite {tid : BitVec 32} {c : OffloadCall} (hs : s.sender = .checked tid c) (pkt : IoPacket) :
    Live { s with inCq := s.inCq.write pkt, sender := .written tid c } := by
  have hroom := h.room tid c (.inl hs)
  have hlen : (s.inCq.write pkt).buffer.length = s.inCq.buffer.length := by
    rw [h.queue.write_buffer]
    rfl
  have htail : 0 < s.inCq.buffer.length → (s.inCq.write pkt).data (s.inCq.write pkt).tail = s.inCq.data s.inCq.tail := by
    intro h0
    rw [← h.queue.write.data_tail, h.queue.write_buffer, Buffer.write_tail h.queue.bounded h0, h.queue.data_tail]
  have hflight : inFlight { s with inCq := s.inCq.write pkt, sender := .written tid c } = s.inFlight := by
    unfold inFlight
    dsimp only
    cases hp : s.proxy with
    | handling => simp [htail (h.avail (by simp [hp]))]
    | fetched pkt => simp [htail (h.avail (by simp [hp]))]
    | _ => rfl
  refine ⟨h.queue.write, h.written, ?_, ?_, ?_, ?_, ?_⟩
  · rw [h.queue.write_buffer, Buffer.write_contents h.queue.bounded]
    exact h.kept
  · rw [hflight]
    exact h.taken
  · intro tid' c' _
    rw [hlen]
    exact hroom
  · intro hp
    rw [hlen]
    exact h.avail hp
  · intro pkt' hp
    rw [htail (h.avail (.inr (.inr ⟨pkt', hp⟩)))]
    exact h.fetched pkt' hp

theorem sendPublish {tid : BitVec 32} {c : OffloadCall} (hs : s.sender = .written tid c) :
    Live { s with
      inCq := s.inCq.publish
      sender := .unlocked
      sent := s.sent ++ [s.inCq.data s.inCq.head] } := by
  have hroom : s.inCq.buffer.length + 1 < s.inCq.buffer.size := by
    have hlt := h.room tid c (.inr hs)
    rw [show s.inCq.buffer.size = 4 from h.queue.size]
    omega
  have hlen := Buffer.publish_length h.queue.bounded hroom
  refine ⟨h.queue.publish, ?_, ?_, h.taken, by simp, ?_, h.fetched⟩
  · exact fun pkt hp => List.mem_append_left _ (h.written pkt hp)
  · rw [h.queue.publish_buffer, Buffer.publish_contents h.queue.bounded hroom, h.queue.data_head, h.kept,
      List.append_assoc]
  · intro _
    rw [h.queue.publish_buffer, hlen]
    omega

theorem advance {pkt : IoPacket} (hp : s.proxy = .fetched pkt) :
    Live { s with inCq := s.inCq.advance, proxy := .executing pkt, consumed := s.consumed ++ [pkt] } := by
  have h0 := h.avail (.inr (.inr ⟨pkt, hp⟩))
  have hpkt := h.fetched pkt hp
  have hlen := Buffer.advance_length h.queue.bounded h0
  refine ⟨h.queue.advance, h.written, ?_, ?_, ?_, by simp, by simp⟩
  · rw [h.queue.advance_buffer, List.append_assoc, h.kept, Buffer.contents_eq_cons h.queue.bounded h0,
      h.queue.data_tail, ← hpkt]
    rfl
  · have htaken := h.taken
    simp only [inFlight, hp, ← hpkt] at htaken
    simpa [inFlight] using htaken
  · intro tid c hs
    have hroom := h.room tid c hs
    rw [h.queue.advance_buffer]
    omega

theorem dispatched (hp : s.proxy = .available) :
    Live { s with
      proxy := dispatch (s.inCq.data s.inCq.tail).ioFunctionType
      dispatched := s.dispatched ++ [s.inCq.data s.inCq.tail] } := by
  have h0 := h.avail (.inl hp)
  have hmem : s.inCq.data s.inCq.tail ∈ s.sent := by
    rw [h.kept, Buffer.contents_eq_cons h.queue.bounded h0, h.queue.data_tail]
    simp
  have htaken : s.consumed.Sublist s.dispatched := (List.sublist_append_left _ _).trans h.taken
  refine ⟨h.queue, ?_, h.kept, ?_, h.room, fun _ => h0, ?_⟩
  · intro pkt hpkt
    rcases List.mem_append.mp hpkt with hpkt | hpkt
    · exact h.written pkt hpkt
    · rw [List.mem_singleton.mp hpkt]
      exact hmem
  · unfold inFlight dispatch
    dsimp only
    split_ifs
    · exact htaken.append_right _
    · simpa using htaken.trans (List.sublist_append_left _ _)
    · simpa using htaken.trans (List.sublist_append_left _ _)
  · intro pkt hpkt
    unfold dispatch at hpkt
    dsimp only at hpkt
    split_ifs at hpkt

theorem loop {info : ℕ} {outCq : ConsoleQueue} {pc : Pc}
    (hpc : pc = .polling ∨ pc = .available ∧ 0 < s.inCq.buffer.length) :
    Live { s with info := info, outCq := outCq, proxy := pc } := by
  have htaken : s.consumed.Sublist s.dispatched := (List.sublist_append_left _ _).trans h.taken
  refine ⟨h.queue, h.written, h.kept, ?_, h.room, ?_, ?_⟩
  · rcases hpc with rfl | ⟨rfl, -⟩ <;> simpa [inFlight] using htaken
  · rcases hpc with rfl | ⟨rfl, h0⟩
    · simp
    · exact fun _ => h0
  · rcases hpc with rfl | ⟨rfl, -⟩ <;> simp

end Live

namespace Inv
variable {id : ℕ} {s s' : Console}

theorem step (h : s.Inv) (hs : Step id MayPoll s s') : s'.Inv := by
  rcases h with ⟨hne, h⟩ | ⟨hready, h⟩
  · -- before the end of cq_init only the two boots and empty polls move
    have hproxy : ∀ {pc : Pc}, s.proxy = pc → pc = .mapping ∨ pc = .polling := fun he => he ▸ h.proxy
    have hsender : ∀ {sender : Sender}, s.sender = sender → sender = .unlocked := fun he => he ▸ h.sender
    cases hs with
    | publishMagic _ => exact .inl ⟨hne, { h with proxy := .inr rfl }⟩
    | seeMagic _ _ => exact .inl ⟨by simp, { h with head := by simp, tail := by simp }⟩
    | initIn n hk =>
      refine .inl ⟨?_, { h with head := ?_, tail := ?_ }⟩
      · dsimp only
        split_ifs <;> simp
      · intro m hm hlt
        dsimp only at hm
        split_ifs at hm
        cases hm
        exact absurd hlt (Nat.lt_irrefl 0)
      · intro m hm hlt
        dsimp only at hm
        split_ifs at hm
        cases hm
        omega
    | initOut n hk =>
      by_cases hn : n < 2
      · rw [if_pos hn]
        refine .inl ⟨by simp, { h with head := ?_, tail := ?_ }⟩
        · intro m hm hlt
          interval_cases n
          · rfl
          · exact h.head 1 hk (by omega)
        · intro m hm hlt
          cases hm
          interval_cases n
          · omega
          · rfl
      · rw [if_neg hn]
        exact .inr ⟨rfl, h.ready hk hn⟩
    | sendLock tid c hk _ => exact absurd hk hne
    | sendCheck tid c hs _ => exact absurd (hsender hs) (by simp)
    | sendWrite tid c hs => exact absurd (hsender hs) (by simp)
    | sendPublish tid c hs => exact absurd (hsender hs) (by simp)
    | poll _ hmay =>
      rw [hmay.resolve_left hne]
      exact .inl ⟨hne, { h with proxy := .inr rfl }⟩
    | dispatch hp => exact absurd (hproxy hp) (by simp)
    | fetch hp => exact absurd (hproxy hp) (by simp)
    | advance pkt hp => exact absurd (hproxy hp) (by simp)
    | answer pkt ret hp _ => exact absurd (hproxy hp) (by simp)
    | receive tid c hk _ _ _ => exact absurd hk hne
  · cases hs with
    | publishMagic _ => exact .inr ⟨hready, h.loop (.inl rfl)⟩
    | seeMagic hk _ => exact absurd (hready.symm.trans hk) (by simp)
    | initIn n hk => exact absurd (hready.symm.trans hk) (by simp)
    | initOut n hk => exact absurd (hready.symm.trans hk) (by simp)
    | sendLock tid c _ _ => exact .inr ⟨hready, { h with room := by simp }⟩
    | sendCheck tid c _ hfree =>
      rw [h.queue.cqFreeSpace_eq] at hfree
      have hlt := h.queue.length_lt
      exact .inr ⟨hready, { h with room := fun _ _ _ => by dsimp only; omega }⟩
    | sendWrite tid c hs => exact .inr ⟨hready, h.sendWrite hs _⟩
    | sendPublish tid c hs => exact .inr ⟨hready, h.sendPublish hs⟩
    | poll _ _ =>
      refine .inr ⟨hready, h.loop ?_⟩
      split_ifs with havail
      · rw [h.queue.cqAvailData_eq] at havail
        exact .inr ⟨rfl, by omega⟩
      · exact .inl rfl
    | dispatch hp => exact .inr ⟨hready, h.dispatched hp⟩
    | fetch hp =>
      have htaken := h.taken
      simp only [inFlight, hp] at htaken
      exact .inr ⟨hready, h.queue, h.written, h.kept, by simpa [inFlight] using htaken, h.room,
        fun _ => h.avail (.inr (.inl hp)), fun pkt hpkt => (Pc.fetched.inj hpkt).symm⟩
    | advance pkt hp => exact .inr ⟨hready, h.advance hp⟩
    | answer pkt ret _ _ => exact .inr ⟨hready, h.loop (.inl rfl)⟩
    | receive tid c _ _ _ _ => exact .inr ⟨hready, { h with }⟩

end Inv

theorem run_handshake {id : ℕ} {s s' : Console} (hs : s.Start) (hr : Relation.ReflTransGen (Step id MayPoll) s s') :
    s'.Sound := by
  have hinv : s'.Inv := @Run.invariant _ _ Inv _ _ (fun h hs => h.step hs) hs.inv hr
  exact hinv.sound

def stalePacket : IoPacket := ⟨proxyMagic, 7, 2, 1, 0, 0, 0, 0, 0, 0⟩

def leftover (head tail : ℤ) : Console where
  info := 0
  inCq := ⟨head, tail, consoleChannelCqElementNum, fun _ => stalePacket⟩
  outCq := ⟨0, 0, consoleChannelCqElementNum, fun _ => stalePacket⟩
  kernel := .waiting
  sender := .unlocked
  proxy := .mapping
  sent := []
  dispatched := []
  consumed := []

theorem leftover_start (head tail : ℤ) : (leftover head tail).Start := ⟨⟨rfl, rfl, rfl, rfl⟩, rfl, rfl⟩

def printCall : OffloadCall := ⟨1, 0x1000, 1, 0, 0, 0, 0⟩

theorem init_first_sound : ∃ s, Relation.ReflTransGen (Step 3 MayPoll) (leftover 2 2) s ∧
    s.consumed = [stalePacket.consoleRequest 9 printCall] ∧ s.Sound := by
  obtain ⟨s, hrun, hconsumed⟩ : ∃ s, Relation.ReflTransGen (Step 3 MayPoll) (leftover 2 2) s ∧
      s.consumed = [stalePacket.consoleRequest 9 printCall] := by
    exact ⟨_, .head (.publishMagic rfl) <| .head (.poll rfl (.inr (by decide +kernel))) <| .head (.seeMagic rfl rfl) <|
      .head (.initIn 0 rfl) <| .head (.initIn 1 rfl) <| .head (.initIn 2 rfl) <| .head (.initOut 0 rfl) <|
      .head (.initOut 1 rfl) <| .head (.initOut 2 rfl) <| .head (.sendLock 9 printCall rfl rfl) <|
      .head (.sendCheck 9 printCall rfl (by decide +kernel)) <| .head (.sendWrite 9 printCall rfl) <|
      .head (.sendPublish 9 printCall rfl) <| .head (.poll (by decide +kernel) (.inl rfl)) <|
      .head (.dispatch (by decide +kernel)) <| .head (.fetch (by decide +kernel)) <| .head (.advance _ rfl) .refl, rfl⟩
  exact ⟨s, hrun, hconsumed, run_handshake (leftover_start 2 2) hrun⟩

theorem stale_packet_dispatched : ∃ s, Relation.ReflTransGen (Step 3 fun _ => True) (leftover 1 0) s ∧
    s.kernel = .ready ∧ s.dispatched = [stalePacket] ∧ s.sent = [stalePacket.consoleRequest 9 printCall] ∧
    s.inCq.cqAvailData = 0 ∧ ¬ s.Sound := by
  refine ⟨_, .head (.publishMagic rfl) <| .head (.poll rfl trivial) <| .head (.dispatch (by decide +kernel)) <|
      .head (.fetch (by decide +kernel)) <| .head (.seeMagic rfl rfl) <| .head (.initIn 0 rfl) <| .head (.initIn 1 rfl) <|
      .head (.initIn 2 rfl) <| .head (.initOut 0 rfl) <| .head (.initOut 1 rfl) <| .head (.initOut 2 rfl) <|
      .head (.sendLock 9 printCall rfl rfl) <| .head (.sendCheck 9 printCall rfl (by decide +kernel)) <|
      .head (.sendWrite 9 printCall rfl) <| .head (.sendPublish 9 printCall rfl) <| .head (.advance _ rfl) .refl,
      rfl, rfl, rfl, by decide +kernel, fun h => ?_⟩
  exact absurd (h.written stalePacket (by decide +kernel)) (by decide +kernel)

end Console

end Azalea
