import Azalea.Foundation.Chain
import Azalea.Foundation.Crowd
import Azalea.Foundation.Run

namespace Azalea
open Crowd

inductive ThreadPoolStatus
  | memoryUnavailable
  | poolNotInitialized
  | poolStopped
  | waitIssued
  | completed
  deriving DecidableEq

inductive Executor
  | starting
  | looping
  | entering
  -- the queue was empty or the pool suspended, queuemutex is released, condmutex not yet taken
  | idle
  | asleep
  | woken
  | running (job : ℕ)
  | finishing (job : ℕ)
  -- these two hold queuemutex
  | removing
  | removed
  | stopping
  | exited (removed : Bool)
  deriving DecidableEq

inductive Adder (α : Type*)
  | called (x : α)
  | initialized (x : α)
  | running (x : α)
  | inserting (job : ℕ)
  | signalling
  | returned (status : ThreadPoolStatus)

inductive Owner
  | outside
  | creating (threads : ℕ)
  | initializing
  | signalling
  | completing
  | ending
  | asleep
  | completed
  | suspending
  | comparing (waiting : ℕ)
  | stopping
  | joining (thread : ℕ)
  | draining
  | destroyed
  deriving DecidableEq

structure ThreadPool (α : Type*) where
  numThreads : ℕ
  removeThreads : ℕ
  waitingThreads : ℕ
  isInitialized : Bool
  queuemutex : Bool
  run : ℕ
  threadId : ℕ
  jobs : Chain.Store α
  suspend : Bool
  jobCount : ℕ
  executors : List Executor
  adders : List (Adder α)
  owner : Owner
  -- no code reads these: the jobs inserted, taken, run and thrown away so far
  accepted : List α
  started : List α
  finished : List α
  dropped : List α

namespace Executor

def wake : Executor → Executor
  | .asleep => .woken
  | e => e

def cell : Executor → Option ℕ
  | .running p => some p
  | .finishing p => some p
  | _ => none

def isExited : Executor → Bool
  | .exited _ => true
  | _ => false

def registered : Executor → Bool
  | .asleep => true
  | .woken => true
  | _ => false

def counted : Executor → Bool
  | .removed => false
  | .exited b => !b
  | _ => true

def awake : Executor → Bool
  | .starting => true
  | .looping => true
  | .entering => true
  | .woken => true
  | .running _ => true
  | .finishing _ => true
  | _ => false

end Executor

namespace Adder

variable {α : Type*}

def cell : Adder α → Option ℕ
  | .inserting p => some p
  | _ => none

def isReturned : Adder α → Bool
  | .returned _ => true
  | _ => false

end Adder

namespace Owner

def endSignal : Owner → Owner
  | .asleep => .completed
  | o => o

def toCreate : Owner → ℕ
  | .creating n => n
  | _ => 0

def closing : Owner → Bool
  | .stopping => true
  | .joining _ => true
  | .draining => true
  | .destroyed => true
  | _ => false

def drained : Owner → Bool
  | .draining => true
  | .destroyed => true
  | _ => false

end Owner

def Signalled (l l' : List Executor) : Prop := Turn .asleep .woken l l' ∨ .asleep ∉ l ∧ l' = l

namespace ThreadPool

variable {α : Type*}

def createPool (α : Type*) (numThreads : ℕ) : ThreadPool α where
  numThreads := numThreads
  removeThreads := 0
  waitingThreads := 0
  isInitialized := decide (numThreads < 1)
  queuemutex := false
  run := 1
  threadId := 0
  jobs := ⟨fun _ => none, 0, 0⟩
  suspend := false
  jobCount := 0
  executors := []
  adders := []
  owner := if numThreads < 1 then .outside else .creating numThreads
  accepted := []
  started := []
  finished := []
  dropped := []

def register (s : ThreadPool α) : ThreadPool α :=
  let s := { s with waitingThreads := s.waitingThreads + 1 }
  if s.suspend = false ∧ s.waitingThreads = s.numThreads then
    if s.isInitialized then { s with owner := s.owner.endSignal } else { s with isInitialized := true }
  else s

inductive ExecutorStep (s : ThreadPool α) : ThreadPool α → Prop
  | start {es} (he : Turn .starting .looping s.executors es) (hq : s.queuemutex = false) :
      ExecutorStep s { s with threadId := s.threadId + 1, executors := es }
  | loop {es} (he : Turn .looping .entering s.executors es) (hr : s.run ≠ 0) : ExecutorStep s { s with executors := es }
  | leave {es} (he : Turn .looping .stopping s.executors es) (hr : s.run = 0) : ExecutorStep s { s with executors := es }
  | remove {es} (he : Turn .entering .removing s.executors es) (hq : s.queuemutex = false) (hr : 0 < s.removeThreads) :
      ExecutorStep s { s with queuemutex := true, executors := es }
  | rest {es} (he : Turn .entering .idle s.executors es) (hq : s.queuemutex = false) (hr : s.removeThreads = 0)
      (hf : s.jobs.front = 0 ∨ s.suspend = true) : ExecutorStep s { s with executors := es }
  | take {es} {c : Chain.Cell α} (he : Turn .entering (.running s.jobs.front) s.executors es) (hq : s.queuemutex = false)
      (hr : s.removeThreads = 0) (hf : s.jobs.front ≠ 0) (hs : s.suspend = false)
      (hc : s.jobs.heap s.jobs.front = some c) :
      ExecutorStep s { s with
        jobs := s.jobs.pop
        jobCount := s.jobCount - 1
        executors := es
        started := s.started ++ [c.value] }
  | register {es} (he : Turn .idle .asleep s.executors es) : ExecutorStep s { s.register with executors := es }
  | unregister {es} (he : Turn .woken .looping s.executors es) :
      ExecutorStep s { s with
        waitingThreads := if 0 < s.waitingThreads then s.waitingThreads - 1 else s.waitingThreads
        executors := es }
  | execute {es p} {c : Chain.Cell α} (he : Turn (.running p) (.finishing p) s.executors es)
      (hc : s.jobs.heap p = some c) :
      ExecutorStep s { s with executors := es, finished := s.finished ++ [c.value] }
  | release {es p} (he : Turn (.finishing p) .looping s.executors es) :
      ExecutorStep s { s with jobs := s.jobs.free p, executors := es }
  | discount {es} (he : Turn .removing .removed s.executors es) :
      ExecutorStep s { s with numThreads := s.numThreads - 1, executors := es }
  | quit {es} (he : Turn .removed (.exited true) s.executors es) (hr : s.run ≠ 0) :
      ExecutorStep s { s with removeThreads := s.removeThreads - 1, queuemutex := false, executors := es }
  -- the pool was stopped in between: queuemutex stays locked
  | quitStopped {es} (he : Turn .removed (.exited true) s.executors es) (hr : s.run = 0) :
      ExecutorStep s { s with executors := es }
  | stop {es} (he : Turn .stopping (.exited false) s.executors es) (hr : s.run = 0) :
      ExecutorStep s { s with executors := es }
  -- run was set again in between: the thread takes its exit for a removal
  | stopLate {es} (he : Turn .stopping (.exited false) s.executors es) (hr : s.run ≠ 0) :
      ExecutorStep s { s with removeThreads := s.removeThreads - 1, queuemutex := false, executors := es }

inductive AddJobStep (s : ThreadPool α) : ThreadPool α → Prop
  | uninitialized {x as} (ha : Turn (.called x) (.returned .poolNotInitialized) s.adders as) (hi : s.isInitialized = false) :
      AddJobStep s { s with adders := as }
  | initialized {x as} (ha : Turn (.called x) (.initialized x) s.adders as) (hi : s.isInitialized = true) :
      AddJobStep s { s with adders := as }
  | stopped {x as} (ha : Turn (.initialized x) (.returned .poolStopped) s.adders as) (hr : s.run = 0) :
      AddJobStep s { s with adders := as }
  | live {x as} (ha : Turn (.initialized x) (.running x) s.adders as) (hr : s.run ≠ 0) :
      AddJobStep s { s with adders := as }
  | waitIssued {x as} (ha : Turn (.running x) (.returned .waitIssued) s.adders as) (hr : s.run = 2) :
      AddJobStep s { s with adders := as }
  | unavailable {x as} (ha : Turn (.running x) (.returned .memoryUnavailable) s.adders as) (hr : s.run ≠ 2) :
      AddJobStep s { s with adders := as }
  | malloc {x as p} (ha : Turn (.running x) (.inserting p) s.adders as) (hr : s.run ≠ 2) (hp : p ≠ 0)
      (hf : s.jobs.heap p = none) : AddJobStep s { s with jobs := s.jobs.alloc p x, adders := as }
  -- waiting_threads is read without condmutex
  | insert {as p} {c : Chain.Cell α} (ha : Turn (.inserting p) (.returned .completed) s.adders as)
      (hq : s.queuemutex = false) (hc : s.jobs.heap p = some c) (hw : s.waitingThreads = 0) :
      AddJobStep s { s with
        jobs := s.jobs.push p
        jobCount := s.jobCount + 1
        adders := as
        accepted := s.accepted ++ [c.value] }
  | insertWaiting {as p} {c : Chain.Cell α} (ha : Turn (.inserting p) .signalling s.adders as)
      (hq : s.queuemutex = false) (hc : s.jobs.heap p = some c) (hw : 0 < s.waitingThreads) :
      AddJobStep s { s with
        queuemutex := true
        jobs := s.jobs.push p
        jobCount := s.jobCount + 1
        adders := as
        accepted := s.accepted ++ [c.value] }
  | signal {as es} (ha : Turn .signalling (.returned .completed) s.adders as) (he : Signalled s.executors es) :
      AddJobStep s { s with queuemutex := false, executors := es, adders := as }

inductive OwnerStep (s : ThreadPool α) : ThreadPool α → Prop
  -- num_threads is a uint64_t
  | addThreads {n} (ho : s.owner = .outside) (hr : s.run ≠ 0) (hn : 1 ≤ n) (hw : s.numThreads + n < 2 ^ 64) :
      OwnerStep s { s with numThreads := s.numThreads + n, owner := .creating n }
  | pthreadCreate {n} (ho : s.owner = .creating (n + 1)) :
      OwnerStep s { s with executors := s.executors ++ [.starting], owner := .creating n }
  | pthreadFail {n} (ho : s.owner = .creating (n + 1)) :
      OwnerStep s { s with numThreads := s.numThreads - 1, owner := .creating n }
  | created (ho : s.owner = .creating 0) : OwnerStep s { s with owner := .initializing }
  | initialized (ho : s.owner = .initializing) (hi : s.isInitialized = true) : OwnerStep s { s with owner := .outside }
  | removeThread (ho : s.owner = .outside) (hi : s.isInitialized = true) (hr : s.run ≠ 0) (hq : s.queuemutex = false) :
      OwnerStep s { s with removeThreads := s.removeThreads + 1, owner := .signalling }
  | removeSignal {es} (ho : s.owner = .signalling) (he : Signalled s.executors es) :
      OwnerStep s { s with executors := es, owner := .outside }
  | waitToComplete (ho : s.owner = .outside) (hi : s.isInitialized = true) (hr : s.run ≠ 0) :
      OwnerStep s { s with run := 2, owner := .completing }
  | allIdle (ho : s.owner = .completing) (hw : s.numThreads = s.waitingThreads) : OwnerStep s { s with owner := .completed }
  | notIdle (ho : s.owner = .completing) (hw : s.numThreads ≠ s.waitingThreads) : OwnerStep s { s with owner := .ending }
  | endWait (ho : s.owner = .ending) : OwnerStep s { s with owner := .asleep }
  | endSpurious (ho : s.owner = .asleep) : OwnerStep s { s with owner := .completed }
  | complete (ho : s.owner = .completed) : OwnerStep s { s with run := 1, owner := .outside }
  | suspendPool (ho : s.owner = .outside) (hi : s.isInitialized = true) (hr : s.run ≠ 0) (hs : s.suspend = false)
      (hq : s.queuemutex = false) : OwnerStep s { s with suspend := true, owner := .suspending }
  | readWaiting (ho : s.owner = .suspending) : OwnerStep s { s with owner := .comparing s.waitingThreads }
  | compare {w} (ho : s.owner = .comparing w) :
      OwnerStep s { s with owner := if w < s.numThreads then .suspending else .outside }
  | resumePool (ho : s.owner = .outside) (hi : s.isInitialized = true) (hr : s.run ≠ 0) (hs : s.suspend = true) :
      OwnerStep s { s with suspend := false, executors := s.executors.map Executor.wake }
  -- destroy_pool frees the pool, so no add_job_to_pool may be going on
  | destroyPool (ho : s.owner = .outside) (hi : s.isInitialized = true) (ha : ∀ a ∈ s.adders, a.isReturned = true) :
      OwnerStep s { s with run := 0, owner := .stopping }
  | broadcast (ho : s.owner = .stopping) :
      OwnerStep s { s with executors := s.executors.map Executor.wake, owner := .joining 0 }
  | join {i e} (ho : s.owner = .joining i) (hi : s.executors[i]? = some e) (he : e.isExited = true) :
      OwnerStep s { s with owner := .joining (i + 1) }
  | joined {i} (ho : s.owner = .joining i) (hi : s.executors.length ≤ i) : OwnerStep s { s with owner := .draining }
  | drain {c : Chain.Cell α} (ho : s.owner = .draining) (hf : s.jobs.front ≠ 0) (hc : s.jobs.heap s.jobs.front = some c) :
      OwnerStep s { s with
        jobs := { s.jobs.free s.jobs.front with front := c.next }
        dropped := s.dropped ++ [c.value] }
  | destroyed (ho : s.owner = .draining) (hf : s.jobs.front = 0) : OwnerStep s { s with owner := .destroyed }

inductive Works (s s' : ThreadPool α) : Prop
  | executor (h : ExecutorStep s s')
  | addJob (h : AddJobStep s s')

inductive Prompt (s : ThreadPool α) : ThreadPool α → Prop
  | works {s'} (h : Works s s') : Prompt s s'
  | call (x : α) (ho : s.owner.closing = false) : Prompt s { s with adders := s.adders ++ [.called x] }
  | owner {s'} (h : OwnerStep s s') : Prompt s s'

inductive Step (s : ThreadPool α) : ThreadPool α → Prop
  | prompt {s'} (h : Prompt s s') : Step s s'
  -- pthread_cond_wait may return without a signal
  | spurious {es} (he : Turn .asleep .woken s.executors es) : Step s { s with executors := es }

namespace Step

variable {s s' : ThreadPool α}

theorem executor (h : ExecutorStep s s') : Step s s' := .prompt (.works (.executor h))

theorem addJob (h : AddJobStep s s') : Step s s' := .prompt (.works (.addJob h))

theorem call (x : α) (ho : s.owner.closing = false) : Step s { s with adders := s.adders ++ [.called x] } :=
  .prompt (.call x ho)

theorem owner (h : OwnerStep s s') : Step s s' := .prompt (.owner h)

theorem elim {P : ThreadPool α → ThreadPool α → Prop} (hexec : ∀ {s'}, ExecutorStep s s' → P s s')
    (hadd : ∀ {s'}, AddJobStep s s' → P s s') (howner : ∀ {s'}, OwnerStep s s' → P s s')
    (hcall : ∀ x, s.owner.closing = false → P s { s with adders := s.adders ++ [.called x] })
    (hspur : ∀ {es}, Turn .asleep .woken s.executors es → P s { s with executors := es }) (h : Step s s') : P s s' := by
  cases h with
  | prompt h =>
    cases h with
    | works h =>
      cases h with
      | executor h => exact hexec h
      | addJob h => exact hadd h
    | call x ho => exact hcall x ho
    | owner h => exact howner h
  | spurious he => exact hspur he

end Step

end ThreadPool
end Azalea
