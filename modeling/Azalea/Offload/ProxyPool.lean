import Azalea.Offload.PoolJobs
import Azalea.Offload.Protocol
import Azalea.Offload.Wire

namespace Azalea
open Crowd Relation

namespace Adder

variable {α : Type*}

def inserted : Adder α → Bool
  | .signalling => true
  | .returned .completed => true
  | _ => false

def carries (heap : Chain.Heap α) (x : α) : Adder α → Prop
  | .called y => y = x
  | .initialized y => y = x
  | .running y => y = x
  | .inserting p => (heap p).map Chain.Cell.value = some x
  | _ => True

end Adder

theorem ThreadPool.AddJobStep.turn {α : Type*} {s s' : ThreadPool α} (hs : AddJobStep s s') :
    ∃ a b, Turn a b s.adders s'.adders ∧ a.isReturned = false ∧
      (∀ x, a.carries s.jobs.heap x → b.carries s'.jobs.heap x) ∧ (s'.accepted = s.accepted → b.inserted = a.inserted) := by
  cases hs with
  | malloc ht =>
    refine ⟨_, _, ht, rfl, fun x hx => ?_, fun _ => rfl⟩
    change ((s.jobs.alloc _ _).heap _).map _ = _
    rw [Chain.Store.heap_alloc_self]
    exact congrArg some hx
  | insert ht => exact ⟨_, _, ht, rfl, fun _ _ => trivial, fun ha => by simp at ha⟩
  | insertWaiting ht => exact ⟨_, _, ht, rfl, fun _ _ => trivial, fun ha => by simp at ha⟩
  | initialized ht => exact ⟨_, _, ht, rfl, fun _ hx => hx, fun _ => rfl⟩
  | live ht => exact ⟨_, _, ht, rfl, fun _ hx => hx, fun _ => rfl⟩
  | uninitialized ht | stopped ht | waitIssued ht | unavailable ht | signal ht =>
    exact ⟨_, _, ht, rfl, fun _ _ => trivial, fun _ => rfl⟩

inductive Progress
  | calling
  | replying (r : Reply)
  | sending
  | replied
deriving DecidableEq

structure OffloadProxy where
  channel : Channel
  pool : ThreadPool IoPacket
  progress : ℕ → Progress
  issued : Bool
  -- no code reads this: requests the proxy has given up
  unanswered : List IoPacket

namespace OffloadProxy

def initProxy (ocq icq : CircularQueue) (ocqSize icqSize poolSize : ℕ) : OffloadProxy where
  channel := Channel.initChannel ocq icq ocqSize icqSize
  pool := ThreadPool.createPool IoPacket poolSize
  progress := fun _ => .calling
  issued := false
  unanswered := []

inductive Step (gUkid : ℤ) (getVa : ℕ → ℕ) (s : OffloadProxy) : OffloadProxy → Prop
  | channel {ch} (h : Channel.Step gUkid s.channel ch) (hj : ch.jobs = s.channel.jobs) (hd : ch.done = s.channel.done)
      (ha : ch.answer = .unlocked → s.channel.answer = .unlocked) : Step gUkid getVa s { s with channel := ch }
  | pool {pool} (h : ThreadPool.Step s.pool pool) (ha : pool.adders.length = s.pool.adders.length)
      (hf : pool.finished = s.pool.finished) : Step gUkid getVa s { s with pool := pool }
  | addJob {pkt} (hw : s.channel.watch = .adding pkt) (hi : s.issued = false) (ho : s.pool.owner = .outside) :
      Step gUkid getVa s { s with
        pool := { s.pool with adders := s.pool.adders ++ [.called pkt] }
        issued := true }
  | added {pkt} (hw : s.channel.watch = .adding pkt) (hi : s.issued = true)
      (hr : s.pool.adders.getLast? = some (.returned .completed)) :
      Step gUkid getVa s { s with channel := { s.channel with watch := .polling }, issued := false }
  | again {pkt} (hw : s.channel.watch = .adding pkt) (hi : s.issued = true)
      (hr : s.pool.adders.getLast? = some (.returned .waitIssued)) : Step gUkid getVa s { s with issued := false }
  | lost {pkt status} (hw : s.channel.watch = .adding pkt) (hi : s.issued = true)
      (hr : s.pool.adders.getLast? = some (.returned status)) (hc : status ≠ .completed) (hs : status ≠ .waitIssued) :
      Step gUkid getVa s { s with
        channel := { s.channel with watch := .polling }
        issued := false
        unanswered := pkt :: s.unanswered }
  | execute {p pkt job} (host : Wire.Job.Host) (hl : (p, pkt) ∈ s.pool.loads) (hp : s.progress p = .calling)
      (hj : Wire.Job.ofPacket getVa pkt = some job) :
      Step gUkid getVa s { s with
        channel := { s.channel with
          executed := Function.update s.channel.executed (threadOf gUkid (toInt pkt.tid))
            (s.channel.executed (threadOf gUkid (toInt pkt.tid)) ++ [(pkt.call, job.answer host)]) }
        progress := Function.update s.progress p (.replying (pkt.answered (job.answer host))) }
  -- the default of the switch sends no reply
  | unknown {p pkt} (hl : (p, pkt) ∈ s.pool.loads) (hp : s.progress p = .calling) (hj : Wire.Job.ofPacket getVa pkt = none) :
      Step gUkid getVa s { s with
        progress := Function.update s.progress p .replied
        unanswered := pkt :: s.unanswered }
  | answerLock {p pkt r} (hl : (p, pkt) ∈ s.pool.loads) (hp : s.progress p = .replying r)
      (hu : s.channel.answer = .unlocked) :
      Step gUkid getVa s { s with
        channel := { s.channel with answer := .locked r }
        progress := Function.update s.progress p .sending }
  | publish {p pkt r} (hl : (p, pkt) ∈ s.pool.loads) (hp : s.progress p = .sending) (hw : s.channel.answer = .written r) :
      Step gUkid getVa s { s with
        channel := { s.channel with icq := s.channel.icq.publish, answer := .unlocked }
        progress := Function.update s.progress p .replied }
  | finish {p es} {c : Chain.Cell IoPacket} (he : Turn (.running p) (.finishing p) s.pool.executors es)
      (hc : s.pool.jobs.heap p = some c) (hp : s.progress p = .replied) :
      Step gUkid getVa s { s with
        pool := { s.pool with executors := es, finished := s.pool.finished ++ [c.value] }
        progress := Function.update s.progress p .calling }

def pendingOf (pkt : IoPacket) : Progress → Option IoPacket
  | .calling => some pkt
  | _ => none

def replyOf : Progress → Option Reply
  | .replying r => some r
  | _ => none

def pending (progress : ℕ → Progress) (y : ℕ × IoPacket) : Option IoPacket := pendingOf y.2 (progress y.1)

def reply (progress : ℕ → Progress) (y : ℕ × IoPacket) : Option Reply := replyOf (progress y.1)

def inserted (s : OffloadProxy) : Bool := s.issued && s.pool.adders.getLast?.any Adder.inserted

def watching (s : OffloadProxy) : Watch := if s.inserted then .polling else s.channel.watch

def asChannel (s : OffloadProxy) (jobs : List IoPacket) (done : List Reply) : Channel :=
  { s.channel with watch := s.watching, jobs := jobs, done := done }

structure Calls (s : OffloadProxy) : Prop where
  returned : s.issued = false → ∀ a ∈ s.pool.adders, a.isReturned = true
  issued : s.issued = true → ∃ pkt as a, s.channel.watch = .adding pkt ∧ s.pool.adders = as ++ [a] ∧
    (∀ b ∈ as, b.isReturned = true) ∧ a.carries s.pool.jobs.heap pkt

structure Refines (s : OffloadProxy) (q : List (ℕ × IoPacket)) (jobs : List IoPacket) (done : List Reply) : Prop where
  closed : s.pool.Closed
  jobInv : s.pool.JobInv q
  jobs : jobs.Perm (q.map Prod.snd ++ (s.pool.loads.filterMap (pending s.progress) ++ (s.unanswered ++ s.pool.dropped)))
  done : done.Perm (s.pool.loads.filterMap (reply s.progress))
  calls : s.Calls
  progress : ∀ p, s.progress p ≠ .calling → p ∈ s.pool.loads.map Prod.fst

variable {gUkid : ℤ} {getVa : ℕ → ℕ} {s s' : OffloadProxy} {q : List (ℕ × IoPacket)} {jobs : List IoPacket}
  {done : List Reply}

def CallsStep (s : OffloadProxy) (pool : ThreadPool IoPacket) : Prop :=
  Calls { s with pool := pool } ∧ (pool.accepted = s.pool.accepted → inserted { s with pool := pool } = s.inserted)

def Simulated (gUkid : ℤ) (s s' : OffloadProxy) (jobs : List IoPacket) (done : List Reply) : Prop :=
  ∃ q' jobs' done', ReflTransGen (Channel.Step gUkid) (s.asChannel jobs done) (s'.asChannel jobs' done') ∧
    s'.Refines q' jobs' done'

theorem asChannel_of_not_issued (h : s.issued = false) (jobs : List IoPacket) (done : List Reply) :
    s.asChannel jobs done = { s.channel with jobs := jobs, done := done } := by
  simp [asChannel, watching, inserted, h]

theorem cons_append_perm {α : Type*} (x : α) (l₁ l₂ l₃ : List α) : (x :: (l₁ ++ (l₂ ++ l₃))).Perm (l₁ ++ (l₂ ++ x :: l₃)) := by
  rw [← List.append_assoc, ← List.append_assoc]
  exact List.perm_middle.symm

theorem filterMap_update {β : Type*} (f : IoPacket → Progress → Option β) (progress : ℕ → Progress) (v : Progress) {p : ℕ}
    {l : List (ℕ × IoPacket)} (hp : p ∉ l.map Prod.fst) :
    l.filterMap (fun y => f y.2 (Function.update progress p v y.1)) = l.filterMap fun y => f y.2 (progress y.1) := by
  refine List.filterMap_congr fun y hy => ?_
  rw [Function.update_of_ne (ne_of_mem_of_not_mem (List.mem_map_of_mem hy) hp)]

theorem update_self_of_eq {progress : ℕ → Progress} {p : ℕ} {v : Progress} (h : progress p = v) :
    Function.update progress p v = progress := by
  rw [← h]
  exact Function.update_eq_self p progress

theorem asChannel_step (h : s.issued = false) {ch : Channel}
    (hs : Channel.Step gUkid { s.channel with jobs := jobs, done := done } { ch with jobs := jobs, done := done }) :
    ReflTransGen (Channel.Step gUkid) (s.asChannel jobs done) (asChannel { s with channel := ch } jobs done) := by
  rw [asChannel_of_not_issued h, asChannel_of_not_issued (s := { s with channel := ch }) h]
  exact .single hs

namespace Refines

theorem not_issued (h : s.Refines q jobs done) (hw : ∀ pkt, s.channel.watch ≠ .adding pkt) : s.issued = false := by
  cases hi : s.issued with
  | false => rfl
  | true =>
    obtain ⟨pkt, -, -, hp, -⟩ := h.calls.issued hi
    exact absurd hp (hw pkt)

theorem channel_frame (h : s.Refines q jobs done) {ch : Channel}
    (hw : s.issued = true → ch.watch = s.channel.watch) : Refines { s with channel := ch } q jobs done := by
  refine ⟨h.closed, h.jobInv, h.jobs, h.done, ⟨h.calls.returned, fun hi => ?_⟩, h.progress⟩
  obtain ⟨pkt, as, a, hp, hrest⟩ := h.calls.issued hi
  exact ⟨pkt, as, a, (hw hi).trans hp, hrest⟩

theorem channel (h : s.Refines q jobs done) {ch : Channel} (hs : Channel.Step gUkid s.channel ch)
    (hj : ch.jobs = s.channel.jobs) (hd : ch.done = s.channel.done)
    (ha : ch.answer = .unlocked → s.channel.answer = .unlocked) :
    Simulated gUkid s { s with channel := ch } jobs done := by
  cases hs with
  | watchCheck hp hav =>
    have hi := h.not_issued (by simp [hp])
    exact ⟨q, jobs, done, asChannel_step hi (.watchCheck hp hav), h.channel_frame (by simp [hi])⟩
  | watchCopy hp =>
    have hi := h.not_issued (by simp [hp])
    exact ⟨q, jobs, done, asChannel_step hi (.watchCopy hp), h.channel_frame (by simp [hi])⟩
  | watchAdvance pkt hp =>
    have hi := h.not_issued (by simp [hp])
    exact ⟨q, jobs, done, asChannel_step hi (.watchAdvance pkt hp), h.channel_frame (by simp [hi])⟩
  | watchAdd pkt hp => exact absurd hj (by simp)
  | execute pkt ret l₁ l₂ hl =>
    have hlen := congrArg List.length hj
    simp [hl] at hlen
  | answerLock r l₁ l₂ hl hu =>
    have hlen := congrArg List.length hd
    simp [hl] at hlen
  | answerPublish r hw =>
    have hu := ha rfl
    rw [hw] at hu
    cases hu
  | call t c ht hi => exact ⟨q, jobs, done, .single (.call t c ht hi), h.channel_frame fun _ => rfl⟩
  | sendLock t c ht hu => exact ⟨q, jobs, done, .single (.sendLock t c ht hu), h.channel_frame fun _ => rfl⟩
  | sendCheck t c ht hu => exact ⟨q, jobs, done, .single (.sendCheck t c ht hu), h.channel_frame fun _ => rfl⟩
  | sendYield t c ht hu => exact ⟨q, jobs, done, .single (.sendYield t c ht hu), h.channel_frame fun _ => rfl⟩
  | sendWrite t c ht => exact ⟨q, jobs, done, .single (.sendWrite t c ht), h.channel_frame fun _ => rfl⟩
  | sendPublish t c ht => exact ⟨q, jobs, done, .single (.sendPublish t c ht), h.channel_frame fun _ => rfl⟩
  | answerCheck r hl hf => exact ⟨q, jobs, done, .single (.answerCheck r hl hf), h.channel_frame fun _ => rfl⟩
  | answerWrite r hc => exact ⟨q, jobs, done, .single (.answerWrite r hc), h.channel_frame fun _ => rfl⟩
  | recvLock t c ht hu => exact ⟨q, jobs, done, .single (.recvLock t c ht hu), h.channel_frame fun _ => rfl⟩
  | recvMatch t c hl hav ht => exact ⟨q, jobs, done, .single (.recvMatch t c hl hav ht), h.channel_frame fun _ => rfl⟩
  | recvYield t c hl hm => exact ⟨q, jobs, done, .single (.recvYield t c hl hm), h.channel_frame fun _ => rfl⟩
  | recvReturn t c ret ht => exact ⟨q, jobs, done, .single (.recvReturn t c ret ht), h.channel_frame fun _ => rfl⟩

theorem pending_of_queued (h : s.Refines q jobs done) {y : ℕ × IoPacket} (hy : y ∈ q) : s.progress y.1 = .calling := by
  by_contra hp
  obtain ⟨-, -, hdisj⟩ := List.nodup_append.mp h.jobInv.nodup
  exact hdisj y.1 (List.mem_map_of_mem hy) y.1 (h.progress y.1 hp) rfl

theorem pool_frame (h : s.Refines q jobs done) {pool : ThreadPool IoPacket} {q' : List (ℕ × IoPacket)} (hc : pool.Closed)
    (hj : pool.JobInv q') (hcalls : Calls { s with pool := pool }) (hf : pool.finished = s.pool.finished)
    (ha : pool.accepted = s.pool.accepted) (hflow : ThreadPool.Flow s.pool pool q q') :
    Refines { s with pool := pool } q' jobs done := by
  cases hflow with
  | silent hl hd => exact ⟨hc, hj, by rw [hl, hd]; exact h.jobs, by rw [hl]; exact h.done, hcalls, by rw [hl]; exact h.progress⟩
  | @take y q' hq hl hd =>
    have hy := h.pending_of_queued (y := y) (hq ▸ List.mem_cons_self)
    have hp : pending s.progress y = some y.2 := by simp [pending, hy, pendingOf]
    have hr : reply s.progress y = none := by simp [reply, hy, replyOf]
    have hpend := hl.filterMap (pending s.progress)
    have hrep := hl.filterMap (reply s.progress)
    rw [List.filterMap_cons_some hp] at hpend
    rw [List.filterMap_cons_none hr] at hrep
    refine ⟨hc, hj, h.jobs.trans ?_, h.done.trans hrep.symm, hcalls, fun p hp => ?_⟩
    · rw [hq, hd]
      exact List.perm_middle.symm.trans
        (List.Perm.append_left _ (hpend.symm.append_right (s.unanswered ++ s.pool.dropped)))
    · exact (hl.map Prod.fst).mem_iff.mpr (List.mem_cons_of_mem _ (h.progress p hp))
  | insert _ _ _ _ _ hacc =>
    have hlen := congrArg List.length (hacc.symm.trans ha)
    simp at hlen
  | finish hl hfin =>
    have hlen := congrArg List.length (hfin.symm.trans hf)
    simp at hlen
  | @drain y q' hq hl hd =>
    refine ⟨hc, hj, h.jobs.trans ?_, by rw [hl]; exact h.done, hcalls, by rw [hl]; exact h.progress⟩
    have hperm := List.perm_append_singleton y.2
      (q'.map Prod.snd ++ (s.pool.loads.filterMap (pending s.progress) ++ (s.unanswered ++ s.pool.dropped)))
    rw [hq, hl, hd]
    simpa using hperm.symm

theorem inserted_eq {as : List (Adder IoPacket)} {a : Adder IoPacket} (hi : s.issued = true)
    (ha : s.pool.adders = as ++ [a]) : s.inserted = a.inserted := by
  simp [inserted, hi, ha]

theorem call_turn (h : s.Refines q jobs done) {a b : Adder IoPacket} {l : List (Adder IoPacket)}
    (ht : Turn a b s.pool.adders l) (ha : a.isReturned = false) : s.issued = true ∧ ∃ pkt as,
      s.channel.watch = .adding pkt ∧ s.pool.adders = as ++ [a] ∧ l = as ++ [b] ∧ (∀ b ∈ as, b.isReturned = true) ∧
      a.carries s.pool.jobs.heap pkt := by
  cases hi : s.issued with
  | false => exact absurd (h.calls.returned hi a ht.mem_left) (by simp [ha])
  | true =>
    obtain ⟨pkt, as, a', hw, had, has, hcar⟩ := h.calls.issued hi
    rw [had] at ht
    obtain ⟨rfl, rfl⟩ := ht.last fun hm => by simp [has a hm] at ha
    exact ⟨rfl, pkt, as, hw, had, rfl, has, hcar⟩

theorem carries_kept (h : s.Refines q jobs done) {pool : ThreadPool IoPacket} {q' : List (ℕ × IoPacket)}
    (hj : pool.JobInv q') (hs : ThreadPool.Step s.pool pool) (had : pool.adders = s.pool.adders) {a : Adder IoPacket}
    {pkt : IoPacket} (ha : a ∈ s.pool.adders) (hcar : a.carries s.pool.jobs.heap pkt) : a.carries pool.jobs.heap pkt := by
  cases a with
  | inserting p =>
    have hmem : p ∈ s.pool.adders.filterMap Adder.cell := List.mem_filterMap.mpr ⟨_, ha, rfl⟩
    obtain ⟨-, x, hx⟩ := h.jobInv.inserting p hmem
    obtain ⟨-, y, hy⟩ := hj.inserting p (had ▸ hmem)
    have hxy := hs.keeps p _ _ hx hy
    change (pool.jobs.heap p).map _ = _
    change (s.pool.jobs.heap p).map _ = _ at hcar
    rw [hx] at hcar
    rw [hy, Option.map_some, hxy]
    exact hcar
  | _ => exact hcar

theorem calls_same (h : s.Refines q jobs done) {pool : ThreadPool IoPacket} {q' : List (ℕ × IoPacket)}
    (hj : pool.JobInv q') (hs : ThreadPool.Step s.pool pool) (had : pool.adders = s.pool.adders) : s.CallsStep pool := by
  refine ⟨⟨fun hi => by rw [had]; exact h.calls.returned hi, fun hi => ?_⟩, fun _ => by simp only [inserted, had]⟩
  obtain ⟨pkt, as, a, hw, hadd, has, hcar⟩ := h.calls.issued hi
  refine ⟨pkt, as, a, hw, had.trans hadd, has, ?_⟩
  exact h.carries_kept hj hs had (hadd ▸ List.mem_append_right _ List.mem_cons_self) hcar

theorem calls_turn (h : s.Refines q jobs done) {pool : ThreadPool IoPacket} (hs : ThreadPool.AddJobStep s.pool pool) :
    s.CallsStep pool := by
  obtain ⟨a, b, ht, ha, hcar, hins⟩ := hs.turn
  obtain ⟨hi, pkt, as, hw, had, had', has, hx⟩ := h.call_turn ht ha
  refine ⟨⟨fun hi' => absurd (hi'.symm.trans hi) Bool.false_ne_true, fun _ => ⟨pkt, as, b, hw, had', has, hcar pkt hx⟩⟩, fun hacc => ?_⟩
  rw [inserted_eq hi had, inserted_eq (s := { s with pool := pool }) hi had']
  exact hins hacc

theorem calls_step (h : s.Refines q jobs done) {pool : ThreadPool IoPacket} {q' : List (ℕ × IoPacket)}
    (hj : pool.JobInv q') (hs : ThreadPool.Step s.pool pool) (ha : pool.adders.length = s.pool.adders.length) :
    s.CallsStep pool := by
  have hsame := h.calls_same hj hs
  cases hs with
  | prompt hs =>
    cases hs with
    | works hs =>
      cases hs with
      | executor hs =>
        obtain ⟨-, -, -, -, had, -⟩ := hs.turn
        exact hsame had
      | addJob hs => exact h.calls_turn hs
    | call x => simp at ha
    | owner hs => exact hsame (by cases hs <;> rfl)
  | spurious he => exact hsame rfl

theorem asChannel_eq {pool : ThreadPool IoPacket} (hi : inserted { s with pool := pool } = s.inserted) :
    asChannel { s with pool := pool } jobs done = s.asChannel jobs done := by
  simp only [asChannel, watching, hi]

theorem pool (h : s.Refines q jobs done) {pool : ThreadPool IoPacket} (hs : ThreadPool.Step s.pool pool)
    (ha : pool.adders.length = s.pool.adders.length) (hf : pool.finished = s.pool.finished) :
    Simulated gUkid s { s with pool := pool } jobs done := by
  obtain ⟨q', hj, hflow⟩ := h.jobInv.conserves h.closed hs
  have hc := h.closed.step hs
  obtain ⟨hcalls, hins⟩ := h.calls_step hj hs ha
  by_cases hacc : pool.accepted = s.pool.accepted
  · refine ⟨q', jobs, done, ?_, h.pool_frame hc hj hcalls hf hacc hflow⟩
    rw [asChannel_eq (hins hacc)]
  · cases hflow with
    | silent _ _ ha => exact absurd ha hacc
    | take _ _ _ ha => exact absurd ha hacc
    | drain _ _ _ ha => exact absurd ha hacc
    | finish _ hfin =>
      have hlen := congrArg List.length (hfin.symm.trans hf)
      simp at hlen
    | @insert r y c ht hb hy hl hd =>
      obtain ⟨hi, pkt, as, hw, had, had', -, hcar⟩ := h.call_turn ht rfl
      obtain rfl : y = pkt := Option.some.inj (hy.symm.trans hcar)
      have hbefore : s.inserted = false := inserted_eq hi had
      have hafter : inserted { s with pool := pool } = true := by
        rw [inserted_eq (s := { s with pool := pool }) hi had']
        rcases hb with rfl | rfl <;> rfl
      refine ⟨_, y :: jobs, done, ?_, hc, hj, ?_, by rw [hl]; exact h.done, hcalls, by rw [hl]; exact h.progress⟩
      · have hwatch : (s.asChannel jobs done).watch = .adding y := by simp [asChannel, watching, hbefore, hw]
        have heq : asChannel { s with pool := pool } (y :: jobs) done =
            { s.asChannel jobs done with watch := .polling, jobs := y :: jobs } := by
          simp [asChannel, watching, hafter]
        rw [heq]
        exact .single (.watchAdd y hwatch)
      · rw [hl, hd, List.map_append, List.append_assoc]
        exact (h.jobs.cons y).trans List.perm_middle.symm

theorem addJob (h : s.Refines q jobs done) {pkt : IoPacket} (hw : s.channel.watch = .adding pkt) (hi : s.issued = false)
    (ho : s.pool.owner = .outside) :
    Simulated gUkid s { s with
      pool := { s.pool with adders := s.pool.adders ++ [.called pkt] }, issued := true } jobs done := by
  have hs : ThreadPool.Step s.pool { s.pool with adders := s.pool.adders ++ [.called pkt] } :=
    .call pkt (by rw [ho]; rfl)
  have heq : asChannel { s with
      pool := { s.pool with adders := s.pool.adders ++ [.called pkt] }, issued := true } jobs done =
      s.asChannel jobs done := by
    simp [asChannel, watching, inserted, Adder.inserted, hi]
  refine ⟨q, jobs, done, by rw [heq], h.closed.step hs, ?_, h.jobs, h.done, ?_, h.progress⟩
  · exact h.jobInv.frame { inserting := by simp [Adder.cell] }
  · exact ⟨Bool.noConfusion, fun _ => ⟨pkt, _, _, hw, rfl, h.calls.returned hi, rfl⟩⟩

theorem call_returned (h : s.Refines q jobs done) {status : ThreadPoolStatus} (hi : s.issued = true)
    (hr : s.pool.adders.getLast? = some (.returned status)) : ∀ a ∈ s.pool.adders, a.isReturned = true := by
  obtain ⟨pkt, as, a, -, had, has, -⟩ := h.calls.issued hi
  rw [had, List.getLast?_concat] at hr
  obtain rfl := Option.some.inj hr
  intro b hb
  rw [had] at hb
  rcases List.mem_append.mp hb with hb | hb
  · exact has b hb
  · obtain rfl := List.mem_singleton.mp hb
    rfl

theorem added (h : s.Refines q jobs done) (hi : s.issued = true)
    (hr : s.pool.adders.getLast? = some (.returned .completed)) :
    Simulated gUkid s { s with channel := { s.channel with watch := .polling }, issued := false } jobs done := by
  have heq : asChannel { s with channel := { s.channel with watch := .polling }, issued := false } jobs done =
      s.asChannel jobs done := by
    simp [asChannel, watching, inserted, hi, hr, Adder.inserted]
  refine ⟨q, jobs, done, by rw [heq], h.closed, h.jobInv, h.jobs, h.done, ⟨fun _ => ?_, Bool.noConfusion⟩, h.progress⟩
  exact h.call_returned hi hr

theorem again (h : s.Refines q jobs done) (hi : s.issued = true)
    (hr : s.pool.adders.getLast? = some (.returned .waitIssued)) : Simulated gUkid s { s with issued := false } jobs done := by
  have heq : asChannel { s with issued := false } jobs done = s.asChannel jobs done := by
    simp [asChannel, watching, inserted, hi, hr, Adder.inserted]
  refine ⟨q, jobs, done, by rw [heq], h.closed, h.jobInv, h.jobs, h.done, ⟨fun _ => ?_, Bool.noConfusion⟩, h.progress⟩
  exact h.call_returned hi hr

theorem lost (h : s.Refines q jobs done) {pkt : IoPacket} {status : ThreadPoolStatus} (hw : s.channel.watch = .adding pkt)
    (hi : s.issued = true) (hr : s.pool.adders.getLast? = some (.returned status)) (hc : status ≠ .completed) :
    Simulated gUkid s { s with
      channel := { s.channel with watch := .polling }, issued := false, unanswered := pkt :: s.unanswered } jobs done := by
  have hins : s.inserted = false := by
    cases status <;> first | exact absurd rfl hc | simp [inserted, hi, hr, Adder.inserted]
  have hwatch : (s.asChannel jobs done).watch = .adding pkt := by simp [asChannel, watching, hins, hw]
  refine ⟨q, pkt :: jobs, done, ?_, h.closed, h.jobInv, ?_, h.done, ⟨fun _ => h.call_returned hi hr, Bool.noConfusion⟩, h.progress⟩
  · have heq : asChannel { s with
        channel := { s.channel with watch := .polling }, issued := false, unanswered := pkt :: s.unanswered }
        (pkt :: jobs) done = { s.asChannel jobs done with watch := .polling, jobs := pkt :: jobs } := by
      simp [asChannel, watching, inserted]
    rw [heq]
    exact .single (.watchAdd pkt hwatch)
  · exact (h.jobs.cons pkt).trans (cons_append_perm ..)

theorem split (h : s.Refines q jobs done) {p : ℕ} {pkt : IoPacket} (hl : (p, pkt) ∈ s.pool.loads) : ∃ l,
    s.pool.loads.Perm ((p, pkt) :: l) ∧ ∀ v,
      (s.pool.loads.filterMap (pending (Function.update s.progress p v))).Perm
        ((pendingOf pkt v).toList ++ l.filterMap (pending s.progress)) ∧
      (s.pool.loads.filterMap (reply (Function.update s.progress p v))).Perm
        ((replyOf v).toList ++ l.filterMap (reply s.progress)) := by
  obtain ⟨l₁, l₂, heq⟩ := List.append_of_mem hl
  have hperm : s.pool.loads.Perm ((p, pkt) :: (l₁ ++ l₂)) := heq ▸ List.perm_middle
  have hnodup := (hperm.map Prod.fst).nodup_iff.mp (List.nodup_append.mp h.jobInv.nodup).2.1
  have hout : p ∉ (l₁ ++ l₂).map Prod.fst := (List.nodup_cons.mp hnodup).1
  refine ⟨l₁ ++ l₂, hperm, fun v => ⟨(hperm.filterMap _).trans ?_, (hperm.filterMap _).trans ?_⟩⟩
  · rw [List.filterMap_cons]
    have hsame : (l₁ ++ l₂).filterMap (pending (Function.update s.progress p v)) =
        (l₁ ++ l₂).filterMap (pending s.progress) := filterMap_update pendingOf s.progress v hout
    have hself : pending (Function.update s.progress p v) (p, pkt) = pendingOf pkt v := by simp [pending]
    rw [hsame, hself]
    cases pendingOf pkt v <;> rfl
  · rw [List.filterMap_cons]
    have hsame : (l₁ ++ l₂).filterMap (reply (Function.update s.progress p v)) =
        (l₁ ++ l₂).filterMap (reply s.progress) := filterMap_update (fun _ => replyOf) s.progress v hout
    have hself : reply (Function.update s.progress p v) (p, pkt) = replyOf v := by simp [reply]
    rw [hsame, hself]
    cases replyOf v <;> rfl

theorem advance (h : s.Refines q jobs done) {p : ℕ} {pkt : IoPacket} (hl : (p, pkt) ∈ s.pool.loads) (v : Progress)
    {ch : Channel} (hw : ch.watch = s.channel.watch) {unanswered jobs' : List IoPacket} {done' : List Reply}
    (hj : jobs'.Perm (q.map Prod.snd ++ (s.pool.loads.filterMap (pending (Function.update s.progress p v)) ++
      (unanswered ++ s.pool.dropped))))
    (hd : done'.Perm (s.pool.loads.filterMap (reply (Function.update s.progress p v)))) :
    Refines { s with channel := ch, progress := Function.update s.progress p v, unanswered := unanswered } q jobs' done' := by
  refine ⟨h.closed, h.jobInv, hj, hd, ⟨h.calls.returned, fun hi => ?_⟩, fun r hr => ?_⟩
  · obtain ⟨x, as, a, hx, hrest⟩ := h.calls.issued hi
    exact ⟨x, as, a, hw.trans hx, hrest⟩
  · by_cases hrp : r = p
    · rw [hrp]
      exact List.mem_map_of_mem (f := Prod.fst) hl
    · exact h.progress r fun hc => hr ((Function.update_of_ne hrp _ _).trans hc)

theorem execute (h : s.Refines q jobs done) {p : ℕ} {pkt : IoPacket} (ret : ℕ) (hl : (p, pkt) ∈ s.pool.loads)
    (hp : s.progress p = .calling) :
    Simulated gUkid s { s with
      channel := { s.channel with
        executed := Function.update s.channel.executed (threadOf gUkid (toInt pkt.tid))
          (s.channel.executed (threadOf gUkid (toInt pkt.tid)) ++ [(pkt.call, ret)]) }
      progress := Function.update s.progress p (.replying (pkt.answered ret)) } jobs done := by
  obtain ⟨l, -, hsplit⟩ := h.split hl
  obtain ⟨hpend, hrep⟩ := hsplit .calling
  obtain ⟨hpend', hrep'⟩ := hsplit (.replying (pkt.answered ret))
  rw [update_self_of_eq hp] at hpend hrep
  have hjobs := (h.jobs.trans (List.Perm.append_left _ (hpend.append_right _))).trans List.perm_middle
  obtain ⟨l₁, l₂, rfl⟩ := List.append_of_mem (hjobs.mem_iff.mpr List.mem_cons_self)
  have hrest := (List.perm_middle.symm.trans hjobs).cons_inv
  refine ⟨q, l₁ ++ l₂, pkt.answered ret :: done, .single (.execute pkt ret l₁ l₂ rfl), h.advance hl _ ?_ ?_ ?_⟩
  · rfl
  · exact hrest.trans (List.Perm.append_left _ (hpend'.symm.append_right _))
  · exact ((h.done.trans hrep).cons _).trans hrep'.symm

theorem unknown (h : s.Refines q jobs done) {p : ℕ} {pkt : IoPacket} (hl : (p, pkt) ∈ s.pool.loads)
    (hp : s.progress p = .calling) :
    Simulated gUkid s { s with
      progress := Function.update s.progress p .replied, unanswered := pkt :: s.unanswered } jobs done := by
  obtain ⟨l, -, hsplit⟩ := h.split hl
  obtain ⟨hpend, hrep⟩ := hsplit .calling
  obtain ⟨hpend', hrep'⟩ := hsplit .replied
  rw [update_self_of_eq hp] at hpend hrep
  have hjobs := (h.jobs.trans (List.Perm.append_left _ (hpend.append_right _))).trans List.perm_middle
  refine ⟨q, jobs, done, .refl, h.advance hl _ rfl ?_ ((h.done.trans hrep).trans hrep'.symm)⟩
  refine (hjobs.trans (cons_append_perm ..)).trans (List.Perm.append_left _ ?_)
  exact hpend'.symm.append_right _

theorem answerLock (h : s.Refines q jobs done) {p : ℕ} {pkt : IoPacket} {r : Reply} (hl : (p, pkt) ∈ s.pool.loads)
    (hp : s.progress p = .replying r) (hu : s.channel.answer = .unlocked) :
    Simulated gUkid s { s with
      channel := { s.channel with answer := .locked r }, progress := Function.update s.progress p .sending } jobs done := by
  obtain ⟨l, -, hsplit⟩ := h.split hl
  obtain ⟨hpend, hrep⟩ := hsplit (.replying r)
  obtain ⟨hpend', hrep'⟩ := hsplit .sending
  rw [update_self_of_eq hp] at hpend hrep
  have hdone := h.done.trans hrep
  obtain ⟨l₁, l₂, rfl⟩ := List.append_of_mem (hdone.mem_iff.mpr List.mem_cons_self)
  have hrest := (List.perm_middle.symm.trans hdone).cons_inv
  refine ⟨q, jobs, l₁ ++ l₂, .single (.answerLock r l₁ l₂ rfl hu), h.advance hl _ ?_ ?_ (hrest.trans hrep'.symm)⟩
  · rfl
  · exact h.jobs.trans (List.Perm.append_left _ ((hpend.trans hpend'.symm).append_right _))

theorem publish (h : s.Refines q jobs done) {p : ℕ} {pkt : IoPacket} {r : Reply} (hl : (p, pkt) ∈ s.pool.loads)
    (hp : s.progress p = .sending) (hw : s.channel.answer = .written r) :
    Simulated gUkid s { s with
      channel := { s.channel with icq := s.channel.icq.publish, answer := .unlocked }
      progress := Function.update s.progress p .replied } jobs done := by
  obtain ⟨l, -, hsplit⟩ := h.split hl
  obtain ⟨hpend, hrep⟩ := hsplit .sending
  obtain ⟨hpend', hrep'⟩ := hsplit .replied
  rw [update_self_of_eq hp] at hpend hrep
  refine ⟨q, jobs, done, .single (.answerPublish r hw), h.advance hl _ ?_ ?_ ((h.done.trans hrep).trans hrep'.symm)⟩
  · rfl
  · exact h.jobs.trans (List.Perm.append_left _ ((hpend.trans hpend'.symm).append_right _))

theorem finish (h : s.Refines q jobs done) {p : ℕ} {es : List Executor} {c : Chain.Cell IoPacket}
    (he : Turn (.running p) (.finishing p) s.pool.executors es) (hc : s.pool.jobs.heap p = some c)
    (hp : s.progress p = .replied) :
    Simulated gUkid s { s with
      pool := { s.pool with executors := es, finished := s.pool.finished ++ [c.value] }
      progress := Function.update s.progress p .calling } jobs done := by
  have hs : ThreadPool.ExecutorStep s.pool { s.pool with executors := es, finished := s.pool.finished ++ [c.value] } :=
    .execute he hc
  have hloads := ThreadPool.JobInv.loads_executed he hc
  have hmem : (p, c.value) ∈ s.pool.loads := hloads.mem_iff.mpr List.mem_cons_self
  obtain ⟨l, hperm, hsplit⟩ := h.split hmem
  obtain ⟨hpend, hrep⟩ := hsplit .replied
  rw [update_self_of_eq hp] at hpend hrep
  have hl := (hloads.symm.trans hperm).cons_inv
  have hnodup := (hloads.map Prod.fst).nodup_iff.mp (List.nodup_append.mp h.jobInv.nodup).2.1
  have hout := (List.nodup_cons.mp hnodup).1
  have hpend' := filterMap_update pendingOf s.progress .calling hout
  have hrep' := filterMap_update (fun _ => replyOf) s.progress .calling hout
  refine ⟨q, jobs, done, .refl, h.closed.step (.executor hs), h.jobInv.executed he hc, h.jobs.trans ?_, h.done.trans ?_, ?_,
    fun r hr => ?_⟩
  · refine List.Perm.append_left _ (List.Perm.append_right _ (hpend.trans ?_))
    exact (hpend' ▸ hl.filterMap (pending s.progress)).symm
  · exact hrep.trans (hrep' ▸ hl.filterMap (reply s.progress)).symm
  · exact ⟨h.calls.returned, h.calls.issued⟩
  · by_cases hrp : r = p
    · subst hrp
      exact absurd (Function.update_self ..) hr
    · have hmem := h.progress r fun hc => hr ((Function.update_of_ne hrp _ _).trans hc)
      exact (List.mem_cons.mp ((hloads.map Prod.fst).mem_iff.mp hmem)).resolve_left hrp

theorem step (h : s.Refines q jobs done) (hs : Step gUkid getVa s s') : Simulated gUkid s s' jobs done := by
  cases hs with
  | channel hs hj hd ha => exact h.channel hs hj hd ha
  | pool hs ha hf => exact h.pool hs ha hf
  | addJob hw hi ho => exact h.addJob hw hi ho
  | added _ hi hr => exact h.added hi hr
  | again _ hi hr => exact h.again hi hr
  | lost hw hi hr hc _ => exact h.lost hw hi hr hc
  | execute host hl hp _ => exact h.execute _ hl hp
  | unknown hl hp _ => exact h.unknown hl hp
  | answerLock hl hp hu => exact h.answerLock hl hp hu
  | publish hl hp hw => exact h.publish hl hp hw
  | finish he hc hp => exact h.finish he hc hp

end Refines

theorem initProxy_refines (ocq icq : CircularQueue) (a b n : ℕ) : (initProxy ocq icq a b n).Refines [] [] [] where
  closed := ThreadPool.closed_createPool n
  jobInv := .createPool n
  jobs := .refl _
  done := .refl _
  calls := ⟨fun _ _ h => absurd h List.not_mem_nil, Bool.noConfusion⟩
  progress _ h := absurd rfl h

theorem proxy_calls_answered {ocq icq : CircularQueue} {a b : ℕ} (n : ℕ) (ha : 1 ≤ a) (ha' : a ≤ 30) (hb : 1 ≤ b)
    (hb' : b ≤ 30) (hr : ReflTransGen (Step gUkid getVa) (initProxy ocq icq (2 ^ a) (2 ^ b) n) s) :
    ∃ q jobs done, s.Refines q jobs done ∧
      ReflTransGen (Channel.Step gUkid) (Channel.initChannel ocq icq (2 ^ a) (2 ^ b)) (s.asChannel jobs done) ∧
      Exchange.Coherent ((s.asChannel jobs done).exchange gUkid) ∧
      ∀ t c ret, s.channel.thread t = .returned c ret → s.channel.executed t = [(c, ret)] := by
  have hsim := Run.simulates (r := fun s ch => ∃ q jobs done, ch = s.asChannel jobs done ∧ s.Refines q jobs done)
    (t := Channel.Step gUkid) (c := Channel.initChannel ocq icq (2 ^ a) (2 ^ b)) ?_
    ⟨[], [], [], rfl, initProxy_refines ocq icq _ _ n⟩ hr
  · obtain ⟨_, hrun, q, jobs, done, rfl, href⟩ := hsim
    obtain ⟨-, hc⟩ := (Channel.initChannel_inv ha ha' hb hb').run
      (Channel.initChannel_exchange ▸ Exchange.Coherent.initial_coherent) hrun
    exact ⟨q, jobs, done, href, hrun, hc, fun t c ret ht => hc.returned t c ret (congrArg Phase.status ht)⟩
  · rintro s s' _ ⟨q, jobs, done, rfl, href⟩ hs
    obtain ⟨q', jobs', done', hrun, href'⟩ := href.step hs
    exact ⟨_, hrun, q', jobs', done', rfl, href'⟩

theorem proxy_round_trip : ∃ s, ReflTransGen (Step 1 id)
    (initProxy Channel.smallQueue Channel.smallQueue (2 ^ 1) (2 ^ 1) 1) s ∧
      s.channel.thread 300 = .returned Channel.readCall 16 := by
  have h := ReflTransGen.refl (r := Step 1 id) (a := initProxy Channel.smallQueue Channel.smallQueue (2 ^ 1) (2 ^ 1) 1)
  have h := h.tail (.pool (.owner (.pthreadCreate rfl)) rfl rfl)
  have h := h.tail (.pool (.owner (.created rfl)) rfl rfl)
  have h := h.tail (.pool (.executor (.start (.here _) rfl)) rfl rfl)
  have h := h.tail (.pool (.executor (.loop (.here _) (by decide))) rfl rfl)
  have h := h.tail (.pool (.executor (.rest (.here _) rfl rfl (.inl rfl))) rfl rfl)
  have h := h.tail (.pool (.executor (.register (.here _))) rfl rfl)
  have h := h.tail (.pool (.owner (.initialized rfl rfl)) rfl rfl)
  have h := h.tail (.channel (.call 300 Channel.readCall (by decide) (.inl rfl)) rfl rfl id)
  have h := h.tail (.channel (.sendLock 300 Channel.readCall rfl rfl) rfl rfl id)
  have h := h.tail (.channel (.sendCheck 300 Channel.readCall rfl (by decide +kernel)) rfl rfl id)
  have h := h.tail (.channel (.sendWrite 300 Channel.readCall rfl) rfl rfl id)
  have h := h.tail (.channel (.sendPublish 300 Channel.readCall rfl) rfl rfl id)
  have h := h.tail (.channel (.watchCheck rfl (by decide +kernel)) rfl rfl id)
  have h := h.tail (.channel (.watchCopy rfl) rfl rfl id)
  have h := h.tail (.channel (.watchAdvance _ rfl) rfl rfl id)
  have h := h.tail (.addJob rfl rfl rfl)
  have h := h.tail (.pool (.addJob (.initialized (.here _) rfl)) rfl rfl)
  have h := h.tail (.pool (.addJob (.live (.here _) (by decide))) rfl rfl)
  have h := h.tail (.pool (.addJob (.malloc (p := 1) (.here _) (by decide) (by decide) rfl)) rfl rfl)
  have h := h.tail (.pool (.addJob (.insertWaiting (.here _) rfl rfl (by decide))) rfl rfl)
  have h := h.tail (.pool (.addJob (.signal (.here _) (.inl (.here _)))) rfl rfl)
  have h := h.tail (.added rfl rfl rfl)
  have h := h.tail (.pool (.executor (.unregister (.here _))) rfl rfl)
  have h := h.tail (.pool (.executor (.loop (.here _) (by decide))) rfl rfl)
  have h := h.tail (.pool (.executor (.take (.here _) rfl rfl (by decide) rfl rfl)) rfl rfl)
  have h := h.tail (.execute { Wire.failing with lret := 16 } (.head _) rfl rfl)
  have h := h.tail (.answerLock (.head _) rfl rfl)
  have h := h.tail (.channel (.answerCheck _ rfl (by decide +kernel)) rfl rfl nofun)
  have h := h.tail (.channel (.answerWrite _ rfl) rfl rfl nofun)
  have h := h.tail (.publish (.head _) rfl rfl)
  have h := h.tail (.finish (.here _) rfl rfl)
  have h := h.tail (.channel (.recvLock 300 Channel.readCall rfl rfl) rfl rfl id)
  have h := h.tail (.channel (.recvMatch 300 Channel.readCall rfl (by decide +kernel) (by decide +kernel)) rfl rfl id)
  exact ⟨_, h.tail (.channel (.recvReturn 300 Channel.readCall _ rfl) rfl rfl id), rfl⟩

theorem proxy_calls_answered_of_run : ∃ s, ReflTransGen (Step 1 id)
    (initProxy Channel.smallQueue Channel.smallQueue (2 ^ 1) (2 ^ 1) 1) s ∧
      s.channel.thread 300 = .returned Channel.readCall 16 ∧ s.channel.executed 300 = [(Channel.readCall, 16)] := by
  obtain ⟨s, hr, ht⟩ := proxy_round_trip
  obtain ⟨-, -, -, -, -, -, hx⟩ := proxy_calls_answered 1 (by decide) (by decide) (by decide) (by decide) hr
  exact ⟨s, hr, ht, hx 300 _ _ ht⟩

end OffloadProxy
end Azalea
