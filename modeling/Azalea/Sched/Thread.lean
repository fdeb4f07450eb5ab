import Azalea.Config
import Azalea.Foundation.Shelf

namespace Azalea

@[simp] def configStackSize : ℕ := 0x10000

@[simp] def configTcbSize : ℕ := 0x1000

@[simp] def runnableMax : ℕ := 2048

@[simp] def threadInfiniteTimeQuantum : ℤ := 0

@[simp] def threadDefaultTimeQuantum : ℤ := threadInfiniteTimeQuantum

@[simp] def threadDefaultTimeSlice : ℤ := 10

@[simp] def threadIdleThreadTimeSlice : ℤ := 10

@[simp] def noCore : ℕ := 0xFFFF

inductive ThreadState
  | notalloc
  | created
  | running
  | ready
  | blocked
  | exited
  deriving DecidableEq, Repr

structure Intention where
  ready : Bool
  blocked : Bool
  exited : Bool
  deriving DecidableEq, Repr

namespace Intention

def empty : Intention := ⟨false, false, false⟩

def onlyReady : Intention := ⟨true, false, false⟩

def onlyBlocked : Intention := ⟨false, true, false⟩

def onlyExited : Intention := ⟨false, false, true⟩

def or (a b : Intention) : Intention := ⟨a.ready || b.ready, a.blocked || b.blocked, a.exited || b.exited⟩

end Intention

structure TCB where
  stackBase : ℕ
  runningCore : ℕ
  state : ThreadState
  intention : Intention
  timeSlice : ℤ
  remainingTimeSlice : ℤ
  timeQuantum : ℤ
  remainingTimeQuantum : ℤ
  coreMask : BitVec 256
  -- the low half of the pointer that follows the mask: what a core above 255 reads as its mask word
  schedList : BitVec 32
  refc : ℤ
  deriving DecidableEq

namespace TCB

def coreIsAllowed (a : TCB) (cid : ℕ) : Bool :=
  if cid < 256 then !a.coreMask.getLsbD cid else !a.schedList.getLsbD (cid - 256)

def availableNext (a : TCB) : Bool := decide (0 < a.remainingTimeSlice) && decide (a.state = .ready)

-- a core outside core_set_t is written past its end
def setCore (core : ℤ) : Option (BitVec 256) :=
  if core = -1 then some 0
  else if 0 ≤ core ∧ core < 256 then some (~~~(1#256 <<< core.toNat))
  else none

end TCB

inductive Place
  | migrating
  | runnable (c : ℕ)
  | blocked (c : ℕ)
  | localTcb (c : ℕ)
  | globalTcb
  deriving DecidableEq, Repr

def Place.Scheduled : Place → Prop
  | .migrating | .runnable _ | .blocked _ => True
  | .localTcb _ | .globalTcb => False

inductive Life
  | create (t stack : ℕ) (core : ℤ)
  | exit (t : ℕ)
  | destroy (t stack : ℕ) (state : ThreadState) (refc : ℤ) (running : Bool)
  deriving DecidableEq

structure Sched where
  tcb : ℕ → TCB
  tcbList : Place → List ℕ
  count : Place → ℕ
  runningThread : ℕ → ℕ
  tcbBaseAddr : ℕ
  gMigratingListAddr : BitVec 32
  -- a record of what was done, read by no function
  log : List Life

-- the time spent, the rounds a selection may take, and the outcome of each spinlock_trylock
structure Env where
  consumed : ℤ
  rounds : ℕ
  trySelect : ℕ → ℕ → Bool
  tryMigrate : Bool
  tryGlobal : ℕ → Bool

namespace Sched

variable (s : Sched) (env : Env) (c t : ℕ) (p q : Place)

def modify (f : TCB → TCB) : Sched := { s with tcb := Function.update s.tcb t (f (s.tcb t)) }

def countInc : Sched := { s with count := Function.update s.count p ((s.count p + 1) % wordSize) }

def countDec : Sched :=
  { s with count := Function.update s.count p ((s.count p + wordSize - 1) % wordSize) }

def dlListDel : Sched := { s with tcbList := Shelf.remove s.tcbList t }

def dlListAddTail : Sched := { s with tcbList := Shelf.insert s.tcbList p t }

def transfer : Sched := (((s.countDec p).dlListDel t).dlListAddTail t q).countInc q

def isRunning : Bool := (List.range maxProcessorCount).any fun c => s.runningThread c == t

def threadExit : Sched :=
  { s.modify t fun a => { a with state := .exited, intention := { a.intention with exited := false } } with
    log := s.log ++ [.exit t] }

def initTcbDestroy : Sched :=
  let a := s.tcb t
  { s.modify t fun a =>
      { a with
        stackBase := (s.tcbBaseAddr + pageMinSize * (t - maxProcessorCount) + configTcbSize) % wordSize
        state := .notalloc
        runningCore := noCore } with
    log := s.log ++ [.destroy t ((a.stackBase + wordSize - configStackSize) % wordSize) a.state a.refc
      (s.isRunning t)] }

def initTcbCreate (stack : ℕ) (core : ℤ) : Sched :=
  { s.modify t fun a =>
      { a with
        stackBase := (stack + configStackSize) % wordSize
        remainingTimeSlice := threadDefaultTimeSlice
        remainingTimeQuantum := threadDefaultTimeQuantum } with
    log := s.log ++ [.create t stack core] }

def spliceLocal : Sched :=
  { s with
    tcbList := Shelf.splice s.tcbList (.localTcb c) .globalTcb
    count := Function.update s.count .globalTcb ((s.count .globalTcb + s.count (.localTcb c)) % wordSize) }

def destroyTcb : Sched :=
  if 1 < s.count (.localTcb c) ∧ env.tryGlobal t then
    ((s.dlListAddTail t .globalTcb).countInc .globalTcb).initTcbDestroy t
  else if 4 < s.count (.localTcb c) then
    let s := ((s.spliceLocal c).initTcbDestroy t).dlListAddTail t (.localTcb c)
    { s with count := Function.update s.count (.localTcb c) 1 }
  else
    ((s.initTcbDestroy t).dlListAddTail t (.localTcb c)).countInc (.localTcb c)

-- none is the NULL the function returns
def getTcb : Option Sched :=
  if maxThreadId ≤ t then none
  else if (s.tcb t).state = .notalloc then none
  else some (s.modify t fun a => { a with refc := a.refc + 1 })

-- none: debug_halt, debug_niy, a loop on a bad reference count or a NULL dereference
def putTcb : Option Sched :=
  let s := s.modify t fun a => { a with refc := a.refc - 1 }
  if (s.tcb t).refc = 0 then
    if (s.tcb t).state = .exited then some (s.destroyTcb env c t)
    else if (s.tcb t).state = .notalloc then some s
    else none
  else some s

def refillTimeSlice : Option Sched :=
  let a := s.tcb t
  if a.remainingTimeSlice ≤ 0 then
    if a.timeQuantum = threadInfiniteTimeQuantum then
      some (s.modify t fun a => { a with remainingTimeSlice := a.timeSlice })
    else if a.remainingTimeQuantum - a.timeSlice < 0 then none
    else some (s.modify t fun a =>
      { a with
        remainingTimeQuantum := a.remainingTimeQuantum - a.timeSlice
        remainingTimeSlice := a.timeSlice })
  else some s

def initTcbAlloc : Sched :=
  s.modify t fun a =>
    { a with
      refc := 1
      timeSlice := threadDefaultTimeSlice
      remainingTimeSlice := threadDefaultTimeSlice
      timeQuantum := threadDefaultTimeQuantum
      remainingTimeQuantum := threadDefaultTimeQuantum
      intention := .empty
      runningCore := noCore
      coreMask := 0
      state := .created
      schedList := 0 }

def allocTcb : Option (ℕ × Sched) :=
  if s.count (.localTcb c) ≠ 0 then
    match s.tcbList (.localTcb c) with
    | [] => none
    | t :: _ =>
      let s := (s.dlListDel t).countDec (.localTcb c)
      if 0 < (s.tcb t).refc then none else some (t, s.initTcbAlloc t)
  else
    match s.tcbList .globalTcb with
    | [] => none
    | t :: _ => some (t, ((s.dlListDel t).countDec .globalTcb).initTcbAlloc t)

def createThread (core : ℤ) (stack : ℕ) : Option (ℕ × Sched) := do
  let (t, s) ← s.allocTcb c
  let s := (s.getTcb t).getD s
  let s := s.initTcbCreate t stack core
  let s := s.modify t fun a => { a with runningCore := (core % 2 ^ 16).toNat }
  let mask ← TCB.setCore core
  let s := s.modify t fun a => { a with coreMask := mask }
  let s := (s.dlListAddTail t .migrating).countInc .migrating
  let s := s.modify t fun a => { a with schedList := s.gMigratingListAddr, state := .ready }
  let s ← s.putTcb env c t
  some (t, s)

def threadSuspend : Option Sched := do
  let s ← s.getTcb t
  (s.modify t fun a => { a with intention := a.intention.or .onlyBlocked }).putTcb env c t

def threadWakeUp : Option Sched := do
  let s ← s.getTcb t
  (s.modify t fun a => { a with intention := a.intention.or .onlyReady }).putTcb env c t

def freeTcb (tcbBaseAddr : ℕ) (gGlobalTcbListAddr : BitVec 32) (t : ℕ) : TCB where
  stackBase := (tcbBaseAddr + pageMinSize * (t - maxProcessorCount) + configTcbSize) % wordSize
  runningCore := noCore
  state := .notalloc
  intention := .empty
  timeSlice := threadDefaultTimeSlice
  remainingTimeSlice := threadDefaultTimeSlice
  timeQuantum := threadDefaultTimeQuantum
  remainingTimeQuantum := threadDefaultTimeQuantum
  coreMask := 0
  schedList := gGlobalTcbListAddr
  refc := 0

def idleTcb (idleThreadAddress i : ℕ) : TCB where
  stackBase := (idleThreadAddress + configTcbSize * i + configTcbSize) % wordSize
  runningCore := i
  state := .running
  intention := .empty
  timeSlice := threadIdleThreadTimeSlice
  remainingTimeSlice := threadIdleThreadTimeSlice
  timeQuantum := threadDefaultTimeQuantum
  remainingTimeQuantum := threadIdleThreadTimeSlice
  coreMask := 0
  schedList := 0
  refc := 1

structure Layout where
  tcbBaseAddr : ℕ
  idleThreadAddress : ℕ
  gMigratingListAddr : BitVec 32
  gGlobalTcbListAddr : BitVec 32

def threadInit (l : Layout) : Sched where
  tcb t := if t < maxProcessorCount then idleTcb l.idleThreadAddress t
    else freeTcb l.tcbBaseAddr l.gGlobalTcbListAddr t
  tcbList p := if p = .globalTcb then List.range' maxProcessorCount configNumThread else []
  count p := if p = .globalTcb then configNumThread else 0
  runningThread c := c
  tcbBaseAddr := l.tcbBaseAddr
  gMigratingListAddr := l.gMigratingListAddr
  log := []

end Sched

end Azalea
