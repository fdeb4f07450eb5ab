import Azalea.Offload.Channel

namespace Azalea
open Fifo

theorem threadOf_offloadTid {gUkid : ℤ} {t : ℕ} (h : t < maxThreadId) :
    threadOf gUkid (offloadTid gUkid t) = t := by
  simp only [maxThreadId, maxProcessorCount, configNumThread] at h
  rw [threadOf, offloadTid, BitVec.toInt_ofInt, Int.bmod_def]
  split_ifs <;> omega

theorem toInt_intToQword_toInt (b : BitVec 32) : toInt (intToQword b.toInt) = b.toInt :=
  toInt_intToQword (BitVec.le_toInt b) BitVec.toInt_lt

def IoPacket.request? (gUkid : ℤ) (p : IoPacket) : ℕ × OffloadCall := (threadOf gUkid (toInt p.tid), p.call)

def IoPacket.reply? (gUkid : ℤ) (p : IoPacket) : ℕ × ℕ := (threadOf gUkid (toInt p.tid), p.ret)

def Reply.value (gUkid : ℤ) (r : Reply) : ℕ × ℕ := (threadOf gUkid r.tid.toInt, r.ret)

theorem request?_ofCall (gUkid : ℤ) (slot : IoPacket) {t : ℕ} (c : OffloadCall) (ht : t < maxThreadId) :
    (slot.ofCall gUkid t c).request? gUkid = (t, c) := by
  have htype : BitVec.ofNat 32 (intToQword c.ioFunctionType.toInt) = c.ioFunctionType :=
    BitVec.eq_of_toInt_eq (toInt_intToQword_toInt c.ioFunctionType)
  simp only [IoPacket.request?, IoPacket.ofCall, IoPacket.request, IoPacket.call, toInt_offloadTid,
    threadOf_offloadTid ht, htype]

theorem reply?_ofReply (gUkid : ℤ) (slot : IoPacket) (r : Reply) :
    (slot.ofReply r).reply? gUkid = r.value gUkid := by
  simp only [IoPacket.reply?, IoPacket.ofReply, IoPacket.reply, toInt_intToQword_toInt, Reply.value]

def Phase.status : Phase → Exchange.Status OffloadCall ℕ
  | .idle => .idle
  | .sending _ => .idle
  | .receiving c => .waiting c
  | .returned c ret => .returned c ret

def Watch.held : Watch → List IoPacket
  | .adding p => [p]
  | _ => []

def Answer.held : Answer → List Reply
  | .unlocked => []
  | .locked r => [r]
  | .checked r => [r]
  | .written r => [r]

namespace Channel
variable {gUkid : ℤ} {s s' : Channel}

def exchange (gUkid : ℤ) (s : Channel) : Exchange.State ℕ OffloadCall ℕ where
  status := fun t => (s.thread t).status
  requests := s.ocq.contents.map (IoPacket.request? gUkid)
  jobs := ↑((s.watch.held ++ s.jobs).map (IoPacket.request? gUkid))
  done := ↑((s.answer.held ++ s.done).map (Reply.value gUkid))
  replies := s.icq.contents.map (IoPacket.reply? gUkid)
  executed := s.executed

def SenderOk (gUkid : ℤ) (s : Channel) : Prop :=
  match s.sender with
  | .unlocked => True
  | .locked t c => s.thread t = .sending c
  | .checked t c => s.thread t = .sending c ∧ s.ocq.length + 1 < s.ocq.size
  | .written t c => s.thread t = .sending c ∧ s.ocq.length + 1 < s.ocq.size ∧
      (s.ocq.data s.ocq.head).request? gUkid = (t, c)

def WatchOk (s : Channel) : Prop :=
  match s.watch with
  | .available => 0 < s.ocq.length
  | .copied p => 0 < s.ocq.length ∧ s.ocq.data s.ocq.tail = p
  | _ => True

def AnswerOk (gUkid : ℤ) (s : Channel) : Prop :=
  match s.answer with
  | .checked _ => s.icq.length + 1 < s.icq.size
  | .written r => s.icq.length + 1 < s.icq.size ∧ (s.icq.data s.icq.head).reply? gUkid = r.value gUkid
  | _ => True

def ReceiverOk (gUkid : ℤ) (s : Channel) : Prop :=
  match s.receiver with
  | .unlocked => True
  | .locked t c => s.thread t = .receiving c
  | .taken t c ret => s.thread t = .receiving c ∧ 0 < s.icq.length ∧
      (s.icq.data s.icq.tail).reply? gUkid = (t, ret)

structure Inv (gUkid : ℤ) (s : Channel) : Prop where
  ocq : s.ocq.Sized
  icq : s.icq.Sized
  ids : ∀ t, s.thread t ≠ .idle → t < maxThreadId
  sender : s.SenderOk gUkid
  watch : s.WatchOk
  answer : s.AnswerOk gUkid
  receiver : s.ReceiverOk gUkid

theorem SenderOk.frame (h : s.SenderOk gUkid) (hs : s'.sender = s.sender) (hq : s'.ocq.size = s.ocq.size)
    (hlen : s'.ocq.length ≤ s.ocq.length) (hhead : s'.ocq.data s'.ocq.head = s.ocq.data s.ocq.head)
    (ht : ∀ t c, s.thread t = .sending c → s'.thread t = .sending c) : s'.SenderOk gUkid := by
  unfold SenderOk at *
  rw [hs, hq, hhead]
  cases hc : s.sender with
  | unlocked => trivial
  | locked t c =>
    rw [hc] at h
    exact ht t c h
  | checked t c =>
    rw [hc] at h
    exact ⟨ht t c h.1, by have := h.2; omega⟩
  | written t c =>
    rw [hc] at h
    exact ⟨ht t c h.1, by have := h.2.1; omega, h.2.2⟩

theorem WatchOk.frame (h : s.WatchOk) (hs : s'.watch = s.watch) (hlen : s.ocq.length ≤ s'.ocq.length)
    (htail : 0 < s.ocq.length → s'.ocq.data s'.ocq.tail = s.ocq.data s.ocq.tail) : s'.WatchOk := by
  unfold WatchOk at *
  rw [hs]
  cases hc : s.watch with
  | polling => trivial
  | available =>
    rw [hc] at h
    exact Nat.lt_of_lt_of_le h hlen
  | copied p =>
    rw [hc] at h
    exact ⟨Nat.lt_of_lt_of_le h.1 hlen, (htail h.1).trans h.2⟩
  | adding p => trivial

theorem AnswerOk.frame (h : s.AnswerOk gUkid) (hs : s'.answer = s.answer) (hq : s'.icq.size = s.icq.size)
    (hlen : s'.icq.length ≤ s.icq.length) (hhead : s'.icq.data s'.icq.head = s.icq.data s.icq.head) :
    s'.AnswerOk gUkid := by
  unfold AnswerOk at *
  rw [hs, hq, hhead]
  cases hc : s.answer with
  | unlocked => trivial
  | locked r => trivial
  | checked r =>
    rw [hc] at h
    exact Nat.lt_of_le_of_lt (Nat.succ_le_succ hlen) h
  | written r =>
    rw [hc] at h
    exact ⟨Nat.lt_of_le_of_lt (Nat.succ_le_succ hlen) h.1, h.2⟩

theorem ReceiverOk.frame (h : s.ReceiverOk gUkid) (hs : s'.receiver = s.receiver)
    (hlen : s.icq.length ≤ s'.icq.length)
    (htail : 0 < s.icq.length → s'.icq.data s'.icq.tail = s.icq.data s.icq.tail)
    (ht : ∀ t c, s.thread t = .receiving c → s'.thread t = .receiving c) : s'.ReceiverOk gUkid := by
  unfold ReceiverOk at *
  rw [hs]
  cases hc : s.receiver with
  | unlocked => trivial
  | locked t c =>
    rw [hc] at h
    exact ht t c h
  | taken t c ret =>
    rw [hc] at h
    refine ⟨ht t c h.1, Nat.lt_of_lt_of_le h.2.1 hlen, ?_⟩
    rw [htail h.2.1]
    exact h.2.2

theorem setThread_of_ne {t u : ℕ} {phase old : Phase} (hu : s.thread u = old) (hne : s.thread t ≠ old) :
    (s.setThread t phase).thread u = old := by
  refine (Function.update_of_ne ?_ _ _).trans hu
  rintro rfl
  exact hne hu

theorem setThread_ids {t : ℕ} {phase : Phase} (h : s.Inv gUkid) (ht : t < maxThreadId) (u : ℕ)
    (hu : (s.setThread t phase).thread u ≠ .idle) : u < maxThreadId := by
  by_cases he : u = t
  · exact he ▸ ht
  · have hold : (s.setThread t phase).thread u = s.thread u := Function.update_of_ne he _ _
    exact h.ids u (hold ▸ hu)

namespace Inv
variable {t : ℕ} {c : OffloadCall} {p : IoPacket} {r : Reply} {ret : ℕ}

theorem call (h : s.Inv gUkid) (ht : t < maxThreadId)
    (hidle : s.thread t = .idle ∨ ∃ c' ret, s.thread t = .returned c' ret) :
    (s.setThread t (.sending c)).Inv gUkid := by
  have hsend : ∀ c', s.thread t ≠ .sending c' := by
    rintro c' he
    rcases hidle with hi | ⟨_, _, hi⟩ <;> rw [hi] at he <;> contradiction
  have hrecv : ∀ c', s.thread t ≠ .receiving c' := by
    rintro c' he
    rcases hidle with hi | ⟨_, _, hi⟩ <;> rw [hi] at he <;> contradiction
  exact ⟨h.ocq, h.icq, setThread_ids h ht,
    h.sender.frame rfl rfl le_rfl rfl fun u c' hu => setThread_of_ne hu (hsend c'),
    h.watch, h.answer,
    h.receiver.frame rfl le_rfl (fun _ => rfl) fun u c' hu => setThread_of_ne hu (hrecv c')⟩

theorem sized_write {q : CircularQueue} (h : q.Sized) (x : IoPacket) : CircularQueue.Sized (q.write x) :=
  ⟨Buffer.write_bounded h.bounded, h.power⟩

theorem sized_publish {q : CircularQueue} (h : q.Sized) : CircularQueue.Sized q.publish :=
  ⟨Buffer.publish_bounded h.bounded, h.power⟩

theorem sized_advance {q : CircularQueue} (h : q.Sized) : CircularQueue.Sized q.advance :=
  ⟨Buffer.advance_bounded h.bounded, h.power⟩

theorem sending (h : s.Inv gUkid) (hs : s.sender = .checked t c ∨ s.sender = .written t c) :
    s.thread t = .sending c ∧ t < maxThreadId ∧ s.ocq.length + 1 < s.ocq.size := by
  have hok := h.sender
  unfold SenderOk at hok
  have hthread : s.thread t = .sending c ∧ s.ocq.length + 1 < s.ocq.size := by
    rcases hs with hs | hs <;> rw [hs] at hok
    · exact hok
    · exact ⟨hok.1, hok.2.1⟩
  exact ⟨hthread.1, h.ids t (by rw [hthread.1]; simp), hthread.2⟩

theorem slot_written (h : s.Inv gUkid) (hs : s.sender = .written t c) :
    (s.ocq.data s.ocq.head).request? gUkid = (t, c) := by
  have hok := h.sender
  unfold SenderOk at hok
  rw [hs] at hok
  exact hok.2.2

theorem copied (h : s.Inv gUkid) (hs : s.watch = .copied p) :
    0 < s.ocq.length ∧ s.ocq.data s.ocq.tail = p := by
  have hok := h.watch
  unfold WatchOk at hok
  rwa [hs] at hok

theorem answering (h : s.Inv gUkid) (hs : s.answer = .written r) :
    s.icq.length + 1 < s.icq.size ∧ (s.icq.data s.icq.head).reply? gUkid = r.value gUkid := by
  have hok := h.answer
  unfold AnswerOk at hok
  rwa [hs] at hok

theorem answer_room (h : s.Inv gUkid) (hs : s.answer = .checked r) : s.icq.length + 1 < s.icq.size := by
  have hok := h.answer
  unfold AnswerOk at hok
  rwa [hs] at hok

theorem taken (h : s.Inv gUkid) (hs : s.receiver = .taken t c ret) :
    s.thread t = .receiving c ∧ 0 < s.icq.length ∧ (s.icq.data s.icq.tail).reply? gUkid = (t, ret) := by
  have hok := h.receiver
  unfold ReceiverOk at hok
  rwa [hs] at hok

theorem sendWrite (h : s.Inv gUkid) (hs : s.sender = .checked t c) :
    Inv gUkid { s with
      ocq := s.ocq.write ((s.ocq.data s.ocq.head).ofCall gUkid t c)
      sender := .written t c } := by
  obtain ⟨hthread, ht, hroom⟩ := h.sending (.inl hs)
  refine ⟨sized_write h.ocq _, h.icq, h.ids, ⟨hthread, hroom, ?_⟩, ?_, h.answer, h.receiver⟩
  · exact (congrArg _ (Buffer.write_head s.ocq _)).trans (request?_ofCall gUkid _ c ht)
  · exact h.watch.frame rfl le_rfl fun h0 => Buffer.write_tail h.ocq.bounded h0 _

theorem sendPublish (h : s.Inv gUkid) (hs : s.sender = .written t c) :
    Inv gUkid { s.setThread t (.receiving c) with
      ocq := s.ocq.publish
      sender := .unlocked
      executed := Function.update s.executed t [] } := by
  obtain ⟨hthread, ht, hroom⟩ := h.sending (.inr hs)
  have hlen := Buffer.publish_length h.ocq.bounded hroom
  refine ⟨sized_publish h.ocq, h.icq, setThread_ids h ht, trivial, ?_, h.answer, ?_⟩
  · exact h.watch.frame rfl (by change _ ≤ s.ocq.publish.length; omega) fun _ => rfl
  · exact h.receiver.frame rfl le_rfl (fun _ => rfl) fun u c' hu => setThread_of_ne hu (by rw [hthread]; simp)

theorem watchAdvance (h : s.Inv gUkid) (hs : s.watch = .copied p) :
    Inv gUkid { s with ocq := s.ocq.advance, watch := .adding p } := by
  have hlen := Buffer.advance_length h.ocq.bounded (h.copied hs).1
  refine ⟨sized_advance h.ocq, h.icq, h.ids, ?_, trivial, h.answer, h.receiver⟩
  exact h.sender.frame rfl rfl (by change s.ocq.advance.length ≤ _; omega) rfl fun _ _ hu => hu

theorem answerWrite (h : s.Inv gUkid) (hs : s.answer = .checked r) :
    Inv gUkid { s with
      icq := s.icq.write ((s.icq.data s.icq.head).ofReply r)
      answer := .written r } := by
  refine ⟨h.ocq, sized_write h.icq _, h.ids, h.sender, h.watch, ⟨h.answer_room hs, ?_⟩, ?_⟩
  · exact (congrArg _ (Buffer.write_head s.icq _)).trans (reply?_ofReply gUkid _ r)
  · exact h.receiver.frame rfl le_rfl (fun h0 => Buffer.write_tail h.icq.bounded h0 _) fun _ _ hu => hu

theorem answerPublish (h : s.Inv gUkid) (hs : s.answer = .written r) :
    Inv gUkid { s with icq := s.icq.publish, answer := .unlocked } := by
  have hlen := Buffer.publish_length h.icq.bounded (h.answering hs).1
  refine ⟨h.ocq, sized_publish h.icq, h.ids, h.sender, h.watch, trivial, ?_⟩
  exact h.receiver.frame rfl (by change _ ≤ s.icq.publish.length; omega) (fun _ => rfl) fun _ _ hu => hu

theorem recvReturn (h : s.Inv gUkid) (hs : s.receiver = .taken t c ret) :
    Inv gUkid { s.setThread t (.returned c ret) with icq := s.icq.advance, receiver := .unlocked } := by
  obtain ⟨hthread, h0, -⟩ := h.taken hs
  have hlen := Buffer.advance_length h.icq.bounded h0
  refine ⟨h.ocq, sized_advance h.icq, setThread_ids h (h.ids t (by rw [hthread]; simp)), ?_, h.watch, ?_, trivial⟩
  · exact h.sender.frame rfl rfl le_rfl rfl fun u c' hu => setThread_of_ne hu (by rw [hthread]; simp)
  · exact h.answer.frame rfl rfl (by change s.icq.advance.length ≤ _; omega) rfl

theorem step (h : s.Inv gUkid) (hs : Step gUkid s s') : s'.Inv gUkid := by
  cases hs with
  | call t c ht hidle => exact h.call ht hidle
  | sendLock t c hc hl => exact ⟨h.ocq, h.icq, h.ids, hc, h.watch, h.answer, h.receiver⟩
  | sendCheck t c hl hf =>
    have hok := h.sender
    unfold SenderOk at hok
    rw [hl] at hok
    exact ⟨h.ocq, h.icq, h.ids, ⟨hok, CircularQueue.free_room h.ocq hf⟩, h.watch, h.answer, h.receiver⟩
  | sendYield t c hl hf => exact ⟨h.ocq, h.icq, h.ids, trivial, h.watch, h.answer, h.receiver⟩
  | sendWrite t c hc => exact h.sendWrite hc
  | sendPublish t c hw => exact h.sendPublish hw
  | watchCheck hp ha =>
    exact ⟨h.ocq, h.icq, h.ids, h.sender, CircularQueue.avail_pos h.ocq ha, h.answer, h.receiver⟩
  | watchCopy ha =>
    have hok := h.watch
    unfold WatchOk at hok
    rw [ha] at hok
    exact ⟨h.ocq, h.icq, h.ids, h.sender, ⟨hok, rfl⟩, h.answer, h.receiver⟩
  | watchAdvance p hc => exact h.watchAdvance hc
  | watchAdd p ha => exact ⟨h.ocq, h.icq, h.ids, h.sender, trivial, h.answer, h.receiver⟩
  | execute p ret l₁ l₂ hj => exact ⟨h.ocq, h.icq, h.ids, h.sender, h.watch, h.answer, h.receiver⟩
  | answerLock r l₁ l₂ hd hu => exact ⟨h.ocq, h.icq, h.ids, h.sender, h.watch, trivial, h.receiver⟩
  | answerCheck r hl hf =>
    exact ⟨h.ocq, h.icq, h.ids, h.sender, h.watch, CircularQueue.free_room h.icq hf, h.receiver⟩
  | answerWrite r hc => exact h.answerWrite hc
  | answerPublish r hw => exact h.answerPublish hw
  | recvLock t c hc hu => exact ⟨h.ocq, h.icq, h.ids, h.sender, h.watch, h.answer, hc⟩
  | recvMatch t c hl ha htid =>
    have hok := h.receiver
    unfold ReceiverOk at hok
    rw [hl] at hok
    have ht := h.ids t (by rw [hok]; simp)
    refine ⟨h.ocq, h.icq, h.ids, h.sender, h.watch, h.answer, hok, CircularQueue.avail_pos h.icq ha, ?_⟩
    rw [IoPacket.reply?, htid, threadOf_offloadTid ht]
  | recvYield t c hl hm => exact ⟨h.ocq, h.icq, h.ids, h.sender, h.watch, h.answer, trivial⟩
  | recvReturn t c ret ht => exact h.recvReturn ht

end Inv

theorem status_setThread (s : Channel) (t : ℕ) (phase : Phase) :
    (fun u => ((s.setThread t phase).thread u).status) =
      Function.update (fun u => (s.thread u).status) t phase.status :=
  Function.comp_update Phase.status s.thread t phase

theorem coe_append_cons {α β : Type*} (f : α → β) (l l₁ l₂ : List α) (x : α) :
    (((l ++ (l₁ ++ x :: l₂)).map f : List β) : Multiset β) = f x ::ₘ ↑((l ++ (l₁ ++ l₂)).map f) := by
  rw [← List.append_assoc, ← List.append_assoc, Multiset.cons_coe, ← List.map_cons, Multiset.coe_eq_coe]
  exact List.perm_middle.map f

section Simulation
variable {t : ℕ} {c : OffloadCall} {p : IoPacket} {r : Reply} {ret : ℕ}

theorem simulates_call (hidle : s.thread t = .idle ∨ ∃ c' ret, s.thread t = .returned c' ret) :
    Exchange.Step (s.exchange gUkid) ((s.setThread t (.sending c)).exchange gUkid) := by
  have he : (s.setThread t (.sending c)).exchange gUkid =
      { s.exchange gUkid with status := Function.update (s.exchange gUkid).status t .idle } := by
    rw [exchange, status_setThread]
    rfl
  rw [he]
  refine Exchange.Step.leave t fun r hr => ?_
  change (s.thread t).status = _ at hr
  rcases hidle with hi | ⟨_, _, hi⟩ <;> rw [hi] at hr <;> contradiction

theorem simulates_sendPublish (h : s.Inv gUkid) (hs : s.sender = .written t c) :
    Exchange.Step (s.exchange gUkid) (exchange gUkid { s.setThread t (.receiving c) with
      ocq := s.ocq.publish
      sender := .unlocked
      executed := Function.update s.executed t [] }) := by
  obtain ⟨hthread, -, hroom⟩ := h.sending (.inr hs)
  have hsend := @Exchange.Step.send _ _ _ _ (s.exchange gUkid) t c (by
    intro r hr
    change (s.thread t).status = _ at hr
    rw [hthread] at hr
    contradiction)
  have he : exchange gUkid { s.setThread t (.receiving c) with
      ocq := s.ocq.publish
      sender := .unlocked
      executed := Function.update s.executed t [] } =
      { s.exchange gUkid with
        status := Function.update (s.exchange gUkid).status t (.waiting c)
        requests := (s.exchange gUkid).requests ++ [(t, c)]
        executed := Function.update (s.exchange gUkid).executed t [] } := by
    simp only [exchange, status_setThread, Buffer.publish_contents h.ocq.bounded hroom, List.map_append,
      List.map_singleton, h.slot_written hs]
    rfl
  exact he ▸ hsend

theorem simulates_watchAdvance (h : s.Inv gUkid) (hs : s.watch = .copied p) :
    Exchange.Step (s.exchange gUkid) (exchange gUkid { s with ocq := s.ocq.advance, watch := .adding p }) := by
  obtain ⟨h0, hp⟩ := h.copied hs
  have htake := @Exchange.Step.take _ _ _ _ (s.exchange gUkid) (p.request? gUkid)
    (s.ocq.advance.contents.map (IoPacket.request? gUkid)) (by
      change s.ocq.contents.map _ = _
      rw [Buffer.contents_eq_cons h.ocq.bounded h0, hp, List.map_cons])
  have he : exchange gUkid { s with ocq := s.ocq.advance, watch := .adding p } =
      { s.exchange gUkid with
        requests := s.ocq.advance.contents.map (IoPacket.request? gUkid)
        jobs := p.request? gUkid ::ₘ (s.exchange gUkid).jobs } := by
    simp only [exchange, hs]
    rfl
  exact he ▸ htake

theorem simulates_execute {l₁ l₂ : List IoPacket} (hj : s.jobs = l₁ ++ p :: l₂) :
    Exchange.Step (s.exchange gUkid) (exchange gUkid { s with
      jobs := l₁ ++ l₂
      done := p.answered ret :: s.done
      executed := Function.update s.executed (threadOf gUkid (toInt p.tid))
        (s.executed (threadOf gUkid (toInt p.tid)) ++ [(p.call, ret)]) }) := by
  have hexec := @Exchange.Step.execute _ _ _ _ (s.exchange gUkid) (threadOf gUkid (toInt p.tid)) p.call ret
    ↑((s.watch.held ++ (l₁ ++ l₂)).map (IoPacket.request? gUkid)) (by
      simp only [exchange, hj, coe_append_cons]
      rfl)
  have hdone : (((s.answer.held ++ p.answered ret :: s.done).map (Reply.value gUkid) : List _) : Multiset _) =
      (threadOf gUkid (toInt p.tid), ret) ::ₘ ↑((s.answer.held ++ s.done).map (Reply.value gUkid)) :=
    coe_append_cons (Reply.value gUkid) s.answer.held [] s.done (p.answered ret)
  have he : exchange gUkid { s with
      jobs := l₁ ++ l₂
      done := p.answered ret :: s.done
      executed := Function.update s.executed (threadOf gUkid (toInt p.tid))
        (s.executed (threadOf gUkid (toInt p.tid)) ++ [(p.call, ret)]) } =
      { s.exchange gUkid with
        jobs := ↑((s.watch.held ++ (l₁ ++ l₂)).map (IoPacket.request? gUkid))
        done := (threadOf gUkid (toInt p.tid), ret) ::ₘ (s.exchange gUkid).done
        executed := Function.update (s.exchange gUkid).executed (threadOf gUkid (toInt p.tid))
          ((s.exchange gUkid).executed (threadOf gUkid (toInt p.tid)) ++ [(p.call, ret)]) } := by
    simp only [exchange, hdone]
  exact he ▸ hexec

theorem simulates_answerLock {l₁ l₂ : List Reply} (hd : s.done = l₁ ++ r :: l₂) (hu : s.answer = .unlocked) :
    exchange gUkid { s with done := l₁ ++ l₂, answer := .locked r } = s.exchange gUkid := by
  have hdone := coe_append_cons (Reply.value gUkid) [] l₁ l₂ r
  simp only [exchange, hu, hd]
  exact congrArg (fun done => Exchange.State.mk _ _ _ done _ _) hdone.symm

theorem simulates_answerPublish (h : s.Inv gUkid) (hs : s.answer = .written r) :
    Exchange.Step (s.exchange gUkid) (exchange gUkid { s with icq := s.icq.publish, answer := .unlocked }) := by
  obtain ⟨hroom, hslot⟩ := h.answering hs
  have hanswer := @Exchange.Step.answer _ _ _ _ (s.exchange gUkid) (r.value gUkid)
    ↑(s.done.map (Reply.value gUkid)) (by
      simp only [exchange, hs]
      rfl)
  have he : exchange gUkid { s with icq := s.icq.publish, answer := .unlocked } =
      { s.exchange gUkid with
        done := ↑(s.done.map (Reply.value gUkid))
        replies := (s.exchange gUkid).replies ++ [r.value gUkid] } := by
    simp only [exchange, Buffer.publish_contents h.icq.bounded hroom, List.map_append, List.map_singleton, hslot]
    rfl
  exact he ▸ hanswer

theorem simulates_recvReturn (h : s.Inv gUkid) (hs : s.receiver = .taken t c ret) :
    Exchange.Step (s.exchange gUkid) (exchange gUkid
      { s.setThread t (.returned c ret) with icq := s.icq.advance, receiver := .unlocked }) := by
  obtain ⟨hthread, h0, hslot⟩ := h.taken hs
  have hreceive := @Exchange.Step.receive _ _ _ _ (s.exchange gUkid) t c ret
    (s.icq.advance.contents.map (IoPacket.reply? gUkid)) (by
      change s.icq.contents.map _ = _
      rw [Buffer.contents_eq_cons h.icq.bounded h0, List.map_cons, hslot])
    (congrArg Phase.status hthread)
  have he : exchange gUkid { s.setThread t (.returned c ret) with icq := s.icq.advance, receiver := .unlocked } =
      { s.exchange gUkid with
        status := Function.update (s.exchange gUkid).status t (.returned c ret)
        replies := s.icq.advance.contents.map (IoPacket.reply? gUkid) } := by
    simp only [exchange, status_setThread]
    rfl
  exact he ▸ hreceive

theorem Inv.simulates (h : s.Inv gUkid) (hs : Step gUkid s s') :
    s'.exchange gUkid = s.exchange gUkid ∨ Exchange.Step (s.exchange gUkid) (s'.exchange gUkid) := by
  cases hs with
  | call t c _ hidle => exact .inr (simulates_call hidle)
  | sendLock t c _ _ => exact .inl rfl
  | sendCheck t c _ _ => exact .inl rfl
  | sendYield t c _ _ => exact .inl rfl
  | sendWrite t c _ =>
    refine .inl ?_
    simp only [exchange, Buffer.write_contents h.ocq.bounded]
  | sendPublish t c hw => exact .inr (simulates_sendPublish h hw)
  | watchCheck hp _ =>
    refine .inl ?_
    simp only [exchange, hp]
    rfl
  | watchCopy ha =>
    refine .inl ?_
    simp only [exchange, ha]
    rfl
  | watchAdvance p hc => exact .inr (simulates_watchAdvance h hc)
  | watchAdd p ha =>
    refine .inl ?_
    simp only [exchange, ha]
    rfl
  | execute p ret l₁ l₂ hj => exact .inr (simulates_execute hj)
  | answerLock r l₁ l₂ hd hu => exact .inl (simulates_answerLock hd hu)
  | answerCheck r hl _ =>
    refine .inl ?_
    simp only [exchange, hl]
    rfl
  | answerWrite r hc =>
    refine .inl ?_
    simp only [exchange, Buffer.write_contents h.icq.bounded, hc]
    rfl
  | answerPublish r hw => exact .inr (simulates_answerPublish h hw)
  | recvLock t c _ _ => exact .inl rfl
  | recvMatch t c _ _ _ => exact .inl rfl
  | recvYield t c _ _ => exact .inl rfl
  | recvReturn t c ret ht => exact .inr (simulates_recvReturn h ht)

end Simulation

structure Delivers (gUkid : ℤ) (s s' : Channel) : Prop where
  requests : s'.ocq.contents = s.ocq.contents ∨
    (∃ t c p, s.sender = .written t c ∧ p.request? gUkid = (t, c) ∧
      s'.ocq.contents = s.ocq.contents ++ [p]) ∨
    ∃ p, s.watch = .copied p ∧ s.ocq.contents = p :: s'.ocq.contents
  replies : s'.icq.contents = s.icq.contents ∨
    (∃ r p, s.answer = .written r ∧ p.reply? gUkid = r.value gUkid ∧
      s'.icq.contents = s.icq.contents ++ [p]) ∨
    ∃ t c ret p, s.receiver = .taken t c ret ∧ p.reply? gUkid = (t, ret) ∧
      s.icq.contents = p :: s'.icq.contents

theorem Inv.delivers (h : s.Inv gUkid) (hs : Step gUkid s s') : s.Delivers gUkid s' := by
  cases hs with
  | sendWrite t c hc => exact ⟨.inl (Buffer.write_contents h.ocq.bounded _), .inl rfl⟩
  | sendPublish t c hw =>
    exact ⟨.inr (.inl ⟨t, c, _, hw, h.slot_written hw,
      Buffer.publish_contents h.ocq.bounded (h.sending (.inr hw)).2.2⟩), .inl rfl⟩
  | watchAdvance p hc =>
    obtain ⟨h0, rfl⟩ := h.copied hc
    exact ⟨.inr (.inr ⟨_, hc, Buffer.contents_eq_cons h.ocq.bounded h0⟩), .inl rfl⟩
  | answerWrite r hc => exact ⟨.inl rfl, .inl (Buffer.write_contents h.icq.bounded _)⟩
  | answerPublish r hw =>
    exact ⟨.inl rfl, .inr (.inl ⟨r, _, hw, (h.answering hw).2,
      Buffer.publish_contents h.icq.bounded (h.answering hw).1⟩)⟩
  | recvReturn t c ret ht =>
    exact ⟨.inl rfl, .inr (.inr ⟨t, c, ret, _, ht, (h.taken ht).2.2,
      Buffer.contents_eq_cons h.icq.bounded (h.taken ht).2.1⟩)⟩
  | _ => exact ⟨.inl rfl, .inl rfl⟩

section Run
variable {ocq icq : CircularQueue} {a b : ℕ}

theorem initChannel_inv (ha : 1 ≤ a) (ha' : a ≤ 30) (hb : 1 ≤ b) (hb' : b ≤ 30) :
    (initChannel ocq icq (2 ^ a) (2 ^ b)).Inv gUkid :=
  ⟨ocq.cqInit_sized ha ha', icq.cqInit_sized hb hb', fun _ ht => absurd rfl ht, trivial, trivial, trivial, trivial⟩

theorem initChannel_exchange : (initChannel ocq icq a b).exchange gUkid = Exchange.initial ℕ OffloadCall ℕ := rfl

theorem Inv.run (h : s.Inv gUkid) (hc : Exchange.Coherent (s.exchange gUkid))
    (hr : Relation.ReflTransGen (Step gUkid) s s') : s'.Inv gUkid ∧ Exchange.Coherent (s'.exchange gUkid) := by
  refine @Run.invariant Channel (Step gUkid)
    (fun s => s.Inv gUkid ∧ Exchange.Coherent (s.exchange gUkid)) s s' ?_ ⟨h, hc⟩ hr
  rintro s s' ⟨h, hc⟩ hs
  refine ⟨h.step hs, ?_⟩
  rcases h.simulates hs with he | hstep
  · rwa [he]
  · exact hc.step hstep

theorem offload_calls_answered (ha : 1 ≤ a) (ha' : a ≤ 30) (hb : 1 ≤ b) (hb' : b ≤ 30)
    (hr : Relation.ReflTransGen (Step gUkid) (initChannel ocq icq (2 ^ a) (2 ^ b)) s) :
    Exchange.Coherent (s.exchange gUkid) ∧
      (∀ t c ret, s.thread t = .returned c ret → s.executed t = [(c, ret)]) ∧
      ∀ s', Step gUkid s s' → s.Delivers gUkid s' := by
  obtain ⟨h, hc⟩ := (initChannel_inv ha ha' hb hb').run
    (initChannel_exchange ▸ Exchange.Coherent.initial_coherent) hr
  refine ⟨hc, fun t c ret ht => ?_, fun s' hs => h.delivers hs⟩
  exact hc.returned t c ret (congrArg Phase.status ht)

end Run

def readCall : OffloadCall := ⟨507#32, 3, 0x2000000000, 16, 0, 0, 0⟩

def smallQueue : CircularQueue := ⟨0, 0, 2, fun _ => ⟨0, 0, 0, 0, 0, 0, 0, 0, 0, 0⟩⟩

theorem round_trip_run : ∃ s, Relation.ReflTransGen (Step 1) (initChannel smallQueue smallQueue (2 ^ 1) (2 ^ 1)) s ∧
    s.thread 300 = .returned readCall 16 := by
  have hsent := (((((Relation.ReflTransGen.refl (r := Step 1)
    (a := initChannel smallQueue smallQueue (2 ^ 1) (2 ^ 1))).tail
    (.call 300 readCall (by decide) (.inl rfl))).tail (.sendLock 300 readCall rfl rfl)).tail
    (.sendCheck 300 readCall rfl (by decide +kernel))).tail (.sendWrite 300 readCall rfl)).tail
    (.sendPublish 300 readCall rfl)
  have hqueued := (((hsent.tail (.watchCheck rfl (by decide +kernel))).tail (.watchCopy rfl)).tail
    (.watchAdvance _ rfl)).tail (.watchAdd _ rfl)
  have hanswered := ((((hqueued.tail (.execute _ 16 [] [] rfl)).tail (.answerLock _ [] [] rfl rfl)).tail
    (.answerCheck _ rfl (by decide +kernel))).tail (.answerWrite _ rfl)).tail (.answerPublish _ rfl)
  have hreturned := ((hanswered.tail (.recvLock 300 readCall rfl rfl)).tail
    (.recvMatch 300 readCall rfl (by decide +kernel) (by decide +kernel))).tail (.recvReturn 300 readCall _ rfl)
  exact ⟨_, hreturned, rfl⟩

theorem round_trip_answered : ∃ s,
    Relation.ReflTransGen (Step 1) (initChannel smallQueue smallQueue (2 ^ 1) (2 ^ 1)) s ∧
      s.thread 300 = .returned readCall 16 ∧ s.executed 300 = [(readCall, 16)] := by
  obtain ⟨s, hr, hs⟩ := round_trip_run
  exact ⟨s, hr, hs, (offload_calls_answered (by decide) (by decide) (by decide) (by decide) hr).2.1 _ _ _ hs⟩

end Channel
end Azalea
