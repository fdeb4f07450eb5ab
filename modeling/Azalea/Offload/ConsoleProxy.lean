import Azalea.Offload.Console
import Azalea.Offload.Iovec

namespace Azalea
open Fifo

structure ConsoleHost where
  gKernelMemBasePa : ℕ
  gMmapKernelMemBaseVa : ℕ
  gChannelMemBasePa : ℕ
  gMmapChannelMemBaseVa : ℕ
  iovec : ℕ → Option Iovec
  string : ℕ → Bool
  write : ℕ → BitVec 32 → ℕ → ℕ → ℤ
  getchar : BitVec 32

structure ConsoleProxy where
  inCq : ConsoleQueue
  outCq : ConsoleQueue
  gConsoleProxyRunnable : Bool

namespace ConsoleProxy

inductive Outcome where
  | done (p : ConsoleProxy)
  | waiting (p : ConsoleProxy)
  | fault (p : ConsoleProxy)

def Outcome.bind (o : Outcome) (f : ConsoleProxy → Outcome) : Outcome :=
  match o with
  | .done p => f p
  | .waiting p => .waiting p
  | .fault p => .fault p

def packet (p : ConsoleProxy) : IoPacket := p.inCq.data p.inCq.tail

end ConsoleProxy

-- taken: what receive_console_message takes from the queue before the check that ends the wait
def sendConsoleMessage (taken : ℕ) (r : Reply) (outCq : ConsoleQueue) : Option ConsoleQueue :=
  let outCq := ConsoleQueue.advance^[taken] outCq
  if outCq.cqFreeSpace = 0 then none else some (outCq.write ((outCq.data outCq.head).ofReply r)).publish

namespace ConsoleHost
variable (h : ConsoleHost)

def getVa (pa : ℕ) : ℕ :=
  if pa = 0 then 0
  else if h.gKernelMemBasePa < pa then (h.gMmapKernelMemBaseVa + (pa - h.gKernelMemBasePa)) % wordSize
  else (h.gMmapChannelMemBaseVa + (pa + (wordSize - h.gChannelMemBasePa))) % wordSize

def entry (iov i : ℕ) : Option Iovec := h.iovec ((iov + 16 * i) % wordSize)

def writeLoop (fd : BitVec 32) (iov : ℕ) : ℕ → ℕ → ℤ → Option ℤ
  | 0, _, writebytes => some writebytes
  | n + 1, i, writebytes =>
    match h.entry iov i with
    | none => none
    | some v =>
      let count := h.write i fd (h.getVa v.iovBase) v.iovLen
      if count = -1 then some (-1)
      else if intToQword count < v.iovLen then some (writebytes + count)
      else writeLoop fd iov n (i + 1) (writebytes + count)

def doConsoleOffWriteV (fd : BitVec 32) (iovPa : ℕ) (iovcnt : ℤ) : Option ℤ :=
  h.writeLoop fd (h.getVa iovPa) iovcnt.toNat 0 0

def printLoop (iov : ℕ) : ℕ → ℕ → Option ℤ
  | 0, _ => some 0
  | n + 1, i =>
    match h.entry iov i with
    | none => none
    | some v => if h.getVa v.iovBase = 0 ∨ h.string (h.getVa v.iovBase) then printLoop iov n (i + 1) else none

def doPrintV (iovPa : ℕ) (iovcnt : ℤ) : Option ℤ :=
  if h.getVa iovPa = 0 then some (-1) else h.printLoop (h.getVa iovPa) iovcnt.toNat 0

def answer (taken : ℕ) (r : Reply) (p : ConsoleProxy) : ConsoleProxy.Outcome :=
  (sendConsoleMessage taken r p.outCq).elim (.waiting p) fun outCq => .done { p with outCq := outCq }

-- the handlers empty the slot before they do the work
def handle (work : IoPacket → Option ℤ) (taken : ℕ) (p : ConsoleProxy) : ConsoleProxy.Outcome :=
  match work p.packet with
  | none => .fault { p with inCq := p.inCq.advance }
  | some ret => answer taken (p.packet.answered (intToQword ret)) { p with inCq := p.inCq.advance }

def printWork (pkt : IoPacket) : Option ℤ := h.doPrintV pkt.param1 (toInt pkt.param2)

def writeWork (pkt : IoPacket) : Option ℤ :=
  h.doConsoleOffWriteV (.ofNat 32 pkt.param1) pkt.param2 (toInt pkt.param3)

def getchWork (_ : IoPacket) : Option ℤ := some h.getchar.toInt

def consolePrint := handle h.printWork

def consoleOffWrite := handle h.writeWork

def consoleGetch := handle h.getchWork

def turn (taken : ℕ) (p : ConsoleProxy) : ConsoleProxy.Outcome :=
  if p.inCq.cqAvailData ≠ 0 then
    if p.packet.ioFunctionType = 1 then h.consolePrint taken p
    else if p.packet.ioFunctionType = 2 then h.consoleOffWrite taken p
    else if p.packet.ioFunctionType = 3 then h.consoleGetch taken p
    else if p.packet.ioFunctionType = intToQword (-9) then .done { p with gConsoleProxyRunnable := false }
    else .done p
  else .done p

def consoleProxy : List ℕ → ConsoleProxy → ConsoleProxy.Outcome
  | [], p => .done p
  | taken :: turns, p =>
    if p.gConsoleProxyRunnable then (h.turn taken p).bind (consoleProxy turns) else .done p

def Full (fd : BitVec 32) (iov i : ℕ) : Prop :=
  ∃ v, h.entry iov i = some v ∧ h.write i fd (h.getVa v.iovBase) v.iovLen ≠ -1 ∧
    v.iovLen ≤ intToQword (h.write i fd (h.getVa v.iovBase) v.iovLen)

structure Writable (fd : BitVec 32) (iov n : ℕ) : Prop where
  entries : ∀ i < n, (∀ j < i, h.Full fd iov j) → (h.entry iov i).isSome

structure Printable (iov n : ℕ) : Prop where
  entries : ∀ i < n, ∃ v, h.entry iov i = some v ∧ (h.getVa v.iovBase = 0 ∨ h.string (h.getVa v.iovBase))

inductive Serves (pkt : IoPacket) : Prop
  | print : pkt.ioFunctionType = 1 →
      (h.getVa pkt.param1 ≠ 0 → h.Printable (h.getVa pkt.param1) (toInt pkt.param2).toNat) → Serves pkt
  | write : pkt.ioFunctionType = 2 →
      h.Writable (.ofNat 32 pkt.param1) (h.getVa pkt.param2) (toInt pkt.param3).toNat → Serves pkt
  | getch : pkt.ioFunctionType = 3 → Serves pkt

end ConsoleHost

structure IoPacket.Carries (r pkt : IoPacket) : Prop where
  tid : toInt r.tid = toInt pkt.tid
  whole : intToQword (toInt pkt.tid) = pkt.tid → r.tid = pkt.tid
  ioFunctionType : r.ioFunctionType = pkt.ioFunctionType

structure ConsoleProxy.Answered (p : ConsoleProxy) (taken : ℕ) (p' : ConsoleProxy) : Prop where
  consumed : p'.inCq = p.inCq.advance
  request : p.inCq.buffer.contents = p.packet :: p'.inCq.buffer.contents
  reply : ∃ r, p'.outCq.buffer.contents = p.outCq.buffer.contents.drop taken ++ [r] ∧ r.Carries p.packet
  runnable : p'.gConsoleProxyRunnable = p.gConsoleProxyRunnable

theorem ConsoleQueue.contents_length (cq : ConsoleQueue) : cq.buffer.contents.length = cq.buffer.length := by
  simp [Buffer.contents]

namespace ConsoleQueue.Ready
variable {cq : ConsoleQueue} (h : cq.Ready)
include h

theorem avail_pos (ha : cq.cqAvailData ≠ 0) : 0 < cq.buffer.length := by
  rw [h.cqAvailData_eq] at ha
  omega

theorem contents_advance (h0 : 0 < cq.buffer.length) :
    cq.buffer.contents = cq.data cq.tail :: cq.advance.buffer.contents := by
  rw [Buffer.contents_eq_cons h.bounded h0, h.advance_buffer, h.data_tail]

theorem taken {n : ℕ} (hn : n ≤ cq.buffer.length) :
    (ConsoleQueue.advance^[n] cq).Ready ∧ (ConsoleQueue.advance^[n] cq).buffer.contents = cq.buffer.contents.drop n ∧
      (ConsoleQueue.advance^[n] cq).buffer.length = cq.buffer.length - n := by
  induction n with
  | zero => exact ⟨h, rfl, rfl⟩
  | succ n ih =>
    obtain ⟨hready, hdrop, hlen⟩ := ih (Nat.le_of_succ_le hn)
    have hcons := hready.contents_advance (by omega)
    have htail : (ConsoleQueue.advance^[n] cq).advance.buffer.contents = cq.buffer.contents.drop (n + 1) := by
      rw [← List.tail_drop, ← hdrop, hcons, List.tail_cons]
    rw [Function.iterate_succ_apply']
    refine ⟨hready.advance, htail, ?_⟩
    rw [← contents_length, htail, List.length_drop, contents_length]

theorem append (hroom : cq.buffer.length < 3) (pkt : IoPacket) :
    (cq.write pkt).publish.buffer.contents = cq.buffer.contents ++ [pkt] := by
  have hbounded := Buffer.write_bounded (x := pkt) h.bounded
  have hsize : (cq.buffer.write pkt).size = 4 := h.size
  have hlen : (cq.buffer.write pkt).length = cq.buffer.length := rfl
  rw [h.write.publish_buffer, h.write_buffer, Buffer.publish_contents hbounded (by omega),
    Buffer.write_contents h.bounded, Buffer.write_head]

theorem sendConsoleMessage {n : ℕ} (hn : n ≤ cq.buffer.length) (hroom : cq.buffer.length - n < 3) (r : Reply) :
    ∃ outCq slot, Azalea.sendConsoleMessage n r cq = some outCq ∧
      outCq.buffer.contents = cq.buffer.contents.drop n ++ [IoPacket.ofReply slot r] := by
  obtain ⟨hready, hdrop, hlen⟩ := h.taken hn
  have hfree : (ConsoleQueue.advance^[n] cq).cqFreeSpace ≠ 0 := by
    rw [hready.cqFreeSpace_eq]
    omega
  refine ⟨_, (ConsoleQueue.advance^[n] cq).data (ConsoleQueue.advance^[n] cq).head, ?_,
    (hready.append (by omega) _).trans (by rw [hdrop])⟩
  rw [Azalea.sendConsoleMessage]
  exact if_neg hfree

end ConsoleQueue.Ready

theorem IoPacket.ofReply_carries {pkt : IoPacket} (h : pkt.ioFunctionType < 2 ^ 31) (slot : IoPacket) (ret : ℕ) :
    (slot.ofReply (pkt.answered ret)).Carries pkt where
  tid := toInt_intToQword (BitVec.le_toInt _) BitVec.toInt_lt
  whole hint := hint
  ioFunctionType := intToQword_toInt_of_lt h

namespace ConsoleHost
variable {h : ConsoleHost}

theorem printLoop_isSome {iov n i : ℕ} : (h.printLoop iov n i).isSome ↔ ∀ j, i ≤ j → j < i + n →
    ∃ v, h.entry iov j = some v ∧ (h.getVa v.iovBase = 0 ∨ h.string (h.getVa v.iovBase)) := by
  induction n generalizing i with
  | zero => exact iff_of_true rfl fun j hl hu => by omega
  | succ n ih =>
    have hsplit : (∀ j, i ≤ j → j < i + (n + 1) →
        ∃ v, h.entry iov j = some v ∧ (h.getVa v.iovBase = 0 ∨ h.string (h.getVa v.iovBase))) ↔
        (∃ v, h.entry iov i = some v ∧ (h.getVa v.iovBase = 0 ∨ h.string (h.getVa v.iovBase))) ∧
          (h.printLoop iov n (i + 1)).isSome := by
      rw [ih]
      constructor
      · exact fun hall => ⟨hall i le_rfl (by omega), fun j hl hu => hall j (by omega) (by omega)⟩
      · rintro ⟨hfirst, hrest⟩ j hl hu
        rcases Nat.eq_or_lt_of_le hl with rfl | hlt
        · exact hfirst
        · exact hrest j hlt (by omega)
    rw [hsplit, printLoop]
    cases he : h.entry iov i with
    | none => simp
    | some v =>
      simp only [Option.some.injEq, exists_eq_left']
      split_ifs with hs
      · exact (and_iff_right hs).symm
      · exact iff_of_false (by simp) fun hall => hs hall.1

theorem writeLoop_isSome {fd : BitVec 32} {iov n i : ℕ} {writebytes : ℤ} :
    (h.writeLoop fd iov n i writebytes).isSome ↔ ∀ j, i ≤ j → j < i + n →
      (∀ l, i ≤ l → l < j → h.Full fd iov l) → (h.entry iov j).isSome := by
  induction n generalizing i writebytes with
  | zero => exact iff_of_true rfl fun j hl hu => by omega
  | succ n ih =>
    rw [writeLoop]
    cases he : h.entry iov i with
    | none =>
      refine iff_of_false (by simp) fun hall => ?_
      have hfirst := hall i le_rfl (by omega) fun l hl hu => by omega
      simp [he] at hfirst
    | some v =>
      dsimp only
      -- a failed or a short write ends the loop: no later entry is read
      have hstop : ¬ h.Full fd iov i → ∀ j, i ≤ j → (∀ l, i ≤ l → l < j → h.Full fd iov l) → (h.entry iov j).isSome := by
        intro hnot j hl hfull
        rcases Nat.eq_or_lt_of_le hl with rfl | hlt
        · rw [he]
          rfl
        · exact absurd (hfull i le_rfl hlt) hnot
      split_ifs with herr hshort
      · refine iff_of_true rfl fun j hl _ => hstop ?_ j hl
        rintro ⟨w, hw, hne, -⟩
        obtain rfl : v = w := Option.some.inj (he.symm.trans hw)
        exact hne herr
      · refine iff_of_true rfl fun j hl _ => hstop ?_ j hl
        rintro ⟨w, hw, -, hle⟩
        obtain rfl : v = w := Option.some.inj (he.symm.trans hw)
        omega
      · rw [ih]
        have hfirst : h.Full fd iov i := ⟨v, he, herr, Nat.not_lt.mp hshort⟩
        constructor
        · intro hrest j hl hu hfull
          rcases Nat.eq_or_lt_of_le hl with rfl | hlt
          · rw [he]
            rfl
          · exact hrest j hlt (by omega) fun l hll hlu => hfull l (by omega) hlu
        · intro hall j hl hu hfull
          refine hall j (by omega) (by omega) fun l hll hlu => ?_
          rcases Nat.eq_or_lt_of_le hll with rfl | hlt
          · exact hfirst
          · exact hfull l hlt hlu

theorem printWork_isSome {pkt : IoPacket} : (h.printWork pkt).isSome ↔
    (h.getVa pkt.param1 ≠ 0 → h.Printable (h.getVa pkt.param1) (toInt pkt.param2).toNat) := by
  rw [printWork, doPrintV]
  split_ifs with hnull
  · exact iff_of_true rfl fun hne => absurd hnull hne
  · rw [printLoop_isSome]
    exact ⟨fun hall _ => ⟨fun i hi => hall i (Nat.zero_le i) (by omega)⟩,
      fun hall j _ hj => (hall hnull).entries j (by omega)⟩

theorem writeWork_isSome {pkt : IoPacket} : (h.writeWork pkt).isSome ↔
    h.Writable (.ofNat 32 pkt.param1) (h.getVa pkt.param2) (toInt pkt.param3).toNat := by
  rw [writeWork, doConsoleOffWriteV, writeLoop_isSome]
  constructor
  · exact fun hall => ⟨fun i hi hfull => hall i (Nat.zero_le i) (by omega) fun l _ hl => hfull l hl⟩
  · exact fun hall j _ hj hfull => hall.entries j (by omega) fun l hl => hfull l (Nat.zero_le l) hl

theorem serves_iff {pkt : IoPacket} : h.Serves pkt ↔ (pkt.ioFunctionType = 1 ∧ (h.printWork pkt).isSome) ∨
    (pkt.ioFunctionType = 2 ∧ (h.writeWork pkt).isSome) ∨ pkt.ioFunctionType = 3 := by
  rw [printWork_isSome, writeWork_isSome]
  constructor
  · rintro (⟨ht, hp⟩ | ⟨ht, hw⟩ | ht)
    · exact .inl ⟨ht, hp⟩
    · exact .inr (.inl ⟨ht, hw⟩)
    · exact .inr (.inr ht)
  · rintro (⟨ht, hp⟩ | ⟨ht, hw⟩ | ht)
    · exact .print ht hp
    · exact .write ht hw
    · exact .getch ht

section Turn
variable {p : ConsoleProxy} {taken : ℕ}

theorem answer_some {r : Reply} {outCq : ConsoleQueue} (hsend : sendConsoleMessage taken r p.outCq = some outCq) :
    answer taken r p = .done { p with outCq := outCq } := by
  rw [answer, hsend, Option.elim_some]

theorem answer_none {r : Reply} (hsend : sendConsoleMessage taken r p.outCq = none) :
    answer taken r p = .waiting p := by
  rw [answer, hsend, Option.elim_none]

theorem handle_answers {work : IoPacket → Option ℤ} (hin : p.inCq.Ready) (hout : p.outCq.Ready)
    (havail : p.inCq.cqAvailData ≠ 0) (htaken : taken ≤ p.outCq.buffer.length)
    (hroom : p.outCq.buffer.length - taken < 3) (htype : p.packet.ioFunctionType < 2 ^ 31) :
    (∃ p', handle work taken p = .done p' ∧ p.Answered taken p') ↔ (work p.packet).isSome := by
  rw [handle]
  cases hw : work p.packet with
  | none => exact iff_of_false (fun ⟨p', hp', _⟩ => ConsoleProxy.Outcome.noConfusion hp') (by simp)
  | some ret =>
    obtain ⟨outCq, slot, hsend, hcontents⟩ := hout.sendConsoleMessage htaken hroom (p.packet.answered (intToQword ret))
    have hdone := answer_some (p := { p with inCq := p.inCq.advance }) hsend
    refine iff_of_true ⟨_, hdone, rfl, ?_, ?_, rfl⟩ rfl
    · exact hin.contents_advance (hin.avail_pos havail)
    · exact ⟨_, hcontents, IoPacket.ofReply_carries htype slot _⟩

theorem turn_kept (htype : p.packet.ioFunctionType ∉ [1, 2, 3]) :
    ∃ p', h.turn taken p = .done p' ∧ p'.inCq = p.inCq ∧ p'.outCq = p.outCq := by
  simp only [List.mem_cons, List.not_mem_nil, or_false, not_or] at htype
  obtain ⟨h1, h2, h3⟩ := htype
  rw [turn, if_neg h1, if_neg h2, if_neg h3]
  split_ifs
  · exact ⟨_, rfl, rfl, rfl⟩
  · exact ⟨_, rfl, rfl, rfl⟩
  · exact ⟨_, rfl, rfl, rfl⟩

theorem turn_unanswered (htype : p.packet.ioFunctionType ∉ [1, 2, 3]) :
    ¬ ∃ p', h.turn taken p = .done p' ∧ p.Answered taken p' := by
  rintro ⟨p', hp', hanswered⟩
  obtain ⟨q, hq, hkept, -⟩ := @turn_kept h p taken htype
  obtain rfl : q = p' := ConsoleProxy.Outcome.done.inj (hq.symm.trans hp')
  have hcons := hanswered.request
  rw [hkept] at hcons
  exact List.cons_ne_self _ _ hcons.symm

theorem turn_answers_iff (hin : p.inCq.Ready) (hout : p.outCq.Ready) (havail : p.inCq.cqAvailData ≠ 0)
    (htaken : taken ≤ p.outCq.buffer.length) (hroom : p.outCq.buffer.length - taken < 3) :
    (∃ p', h.turn taken p = .done p' ∧ p.Answered taken p') ↔ h.Serves p.packet := by
  rw [serves_iff]
  by_cases h1 : p.packet.ioFunctionType = 1
  · rw [turn, if_pos havail, if_pos h1, consolePrint, handle_answers hin hout havail htaken hroom (by omega)]
    simp [h1]
  by_cases h2 : p.packet.ioFunctionType = 2
  · rw [turn, if_pos havail, if_neg h1, if_pos h2, consoleOffWrite,
      handle_answers hin hout havail htaken hroom (by omega)]
    simp [h2]
  by_cases h3 : p.packet.ioFunctionType = 3
  · rw [turn, if_pos havail, if_neg h1, if_neg h2, if_pos h3, consoleGetch,
      handle_answers hin hout havail htaken hroom (by omega)]
    exact iff_of_true rfl (.inr (.inr h3))
  · exact iff_of_false (turn_unanswered (by simp [h1, h2, h3])) (by omega)

theorem consoleProxy_kept {turns : List ℕ} (htype : p.packet.ioFunctionType ∉ [1, 2, 3]) :
    ∃ p', h.consoleProxy turns p = .done p' ∧ p'.inCq = p.inCq ∧ p'.outCq = p.outCq := by
  induction turns generalizing p with
  | nil => exact ⟨p, rfl, rfl, rfl⟩
  | cons taken turns ih =>
    rw [consoleProxy]
    split_ifs
    · obtain ⟨q, hturn, hin, hout⟩ := @turn_kept h p taken htype
      obtain ⟨p', hrun, hin', hout'⟩ := @ih q (by rwa [ConsoleProxy.packet, hin])
      rw [hturn]
      exact ⟨p', hrun, hin'.trans hin, hout'.trans hout⟩
    · exact ⟨p, rfl, rfl, rfl⟩

end Turn

section Steps
variable {id : ℕ} {mayPoll : Console → Prop} {s : Console} {p' : ConsoleProxy}

def view (s : Console) : ConsoleProxy := ⟨s.inCq, s.outCq, true⟩

structure Reached (s : Console) (p : ConsoleProxy) : Prop where
  inCq : s.inCq = p.inCq
  outCq : s.outCq = p.outCq
  proxy : s.proxy = if p.gConsoleProxyRunnable then .polling else .stopped

theorem handle_steps {work : IoPacket → Option ℤ} (hp : s.proxy = .available)
    (htype : Console.dispatch (s.inCq.data s.inCq.tail).ioFunctionType = .handling)
    (hturn : handle work 0 (view s) = .done p') :
    ∃ s', Relation.ReflTransGen (Console.Step id mayPoll) s s' ∧ Reached s' p' := by
  rw [handle] at hturn
  cases hw : work (view s).packet with
  | none =>
    rw [hw] at hturn
    cases hturn
  | some ret =>
    rw [hw] at hturn
    by_cases hfree : s.outCq.cqFreeSpace = 0
    · have hnone : sendConsoleMessage 0 ((view s).packet.answered (intToQword ret)) s.outCq = none := if_pos hfree
      have hwait := answer_none (p := { view s with inCq := s.inCq.advance }) hnone
      cases hwait.symm.trans hturn
    · have hsend : sendConsoleMessage 0 ((view s).packet.answered (intToQword ret)) s.outCq = some _ := if_neg hfree
      have hdone := answer_some (p := { view s with inCq := s.inCq.advance }) hsend
      cases hdone.symm.trans hturn
      have hdispatch : Relation.ReflTransGen (Console.Step id mayPoll) s _ := .single (.dispatch hp)
      have hfetch := hdispatch.tail (.fetch htype)
      have hadvance := hfetch.tail (.advance _ rfl)
      exact ⟨_, hadvance.tail (.answer _ (intToQword ret) rfl hfree), rfl, rfl, rfl⟩

theorem turn_steps {h : ConsoleHost} (hp : s.proxy = .available) (havail : s.inCq.cqAvailData ≠ 0)
    (hturn : h.turn 0 (view s) = .done p') :
    ∃ s', Relation.ReflTransGen (Console.Step id mayPoll) s s' ∧ Reached s' p' := by
  have hstep : Relation.ReflTransGen (Console.Step id mayPoll) s _ := .single (.dispatch hp)
  change (view s).inCq.cqAvailData ≠ 0 at havail
  rw [turn, if_pos havail] at hturn
  split_ifs at hturn with h1 h2 h3 hexit
  · exact handle_steps hp (if_pos (.inl h1)) hturn
  · exact handle_steps hp (if_pos (.inr (.inl h2))) hturn
  · exact handle_steps hp (if_pos (.inr (.inr h3))) hturn
  · cases hturn
    exact ⟨_, hstep, rfl, rfl, (if_neg (by tauto)).trans (if_pos hexit)⟩
  · cases hturn
    exact ⟨_, hstep, rfl, rfl, (if_neg (by tauto)).trans (if_neg hexit)⟩

end Steps

def readyQueue (head : ℤ) (pkt : IoPacket) : ConsoleQueue := ⟨head, 0, consoleChannelCqElementNum, fun _ => pkt⟩

theorem readyQueue_ready {head : ℤ} (h0 : 0 ≤ head) (h4 : head < 4) (pkt : IoPacket) : (readyQueue head pkt).Ready :=
  ⟨rfl, ⟨h0, h4⟩, le_rfl, show (0 : ℤ) < 4 by decide⟩

def bareHost : ConsoleHost := ⟨0, 0, 0, 0, fun _ => none, fun _ => false, fun _ _ _ _ => -1, 0x41⟩

def oneRequest (ioFunctionType : ℕ) : ConsoleProxy :=
  ⟨readyQueue 1 ⟨proxyMagic, 7, ioFunctionType, 0, 0, 0, 0, 0, 0, 0⟩, readyQueue 0 Console.stalePacket, true⟩

theorem getch_answered : ∃ p', bareHost.turn 0 (oneRequest 3) = .done p' ∧ (oneRequest 3).Answered 0 p' :=
  (turn_answers_iff (readyQueue_ready (by decide) (by decide) _) (readyQueue_ready (by decide) (by decide) _)
    (by decide) (by decide) (by decide)).mpr (.getch rfl)

theorem exit_not_answered : (oneRequest (intToQword (-9))).inCq.Ready ∧ (oneRequest (intToQword (-9))).outCq.Ready ∧
    (oneRequest (intToQword (-9))).inCq.cqAvailData ≠ 0 ∧
    ¬ ∃ p', bareHost.turn 0 (oneRequest (intToQword (-9))) = .done p' ∧ (oneRequest (intToQword (-9))).Answered 0 p' :=
  ⟨readyQueue_ready (by decide) (by decide) _, readyQueue_ready (by decide) (by decide) _, by decide,
    turn_unanswered (by decide)⟩

end ConsoleHost

end Azalea
