import Azalea.Sched.Thread

namespace Azalea

namespace Sched

set_option linter.style.nameCheck false

variable (s : Sched) (env : Env) (c cid t : ℕ)

def setState (st : ThreadState) : Sched := s.modify t fun a => { a with state := st }

def setRunning (c t : ℕ) : Sched := { s with runningThread := Function.update s.runningThread c t }

def setRunningCore : Sched := s.modify t fun a => { a with runningCore := cid }

def block : Sched :=
  (s.modify t fun a => { a with state := .blocked, intention := { a.intention with blocked := false } }).transfer
    t (.runnable c) (.blocked c)

def unblock : Sched :=
  (s.modify t fun a =>
    { a with state := .ready, intention := { a.intention with ready := false, blocked := false } }).transfer
    t (.blocked c) (.runnable c)

def adopt : Sched := (s.transfer t .migrating (.runnable c)).setRunningCore cid t

def retire (p : Place) : Option Sched := (((s.threadExit t).countDec p).dlListDel t).putTcb env c t

inductive Scan
  | returned (s : Sched)
  | scanned (found : Option ℕ) (s : Sched)

def scan (round : ℕ) : List ℕ → Option ℕ → Sched → Option Scan
  | [], found, s => some (.scanned found s)
  | t :: ts, found, s =>
    let a := s.tcb t
    if a.intention.exited then
      if s.runningThread c = t then (s.refillTimeSlice cid).map .returned
      else (s.retire env c t (.runnable c)).bind (scan round ts found)
    else if a.intention.blocked then scan round ts found (s.block c t)
    else if a.availableNext then
      if a.coreIsAllowed cid then
        match found with
        | none => scan round ts (some t) (s.setState t .running)
        | some _ => scan round ts found s
      else if env.trySelect round t then scan round ts found (s.transfer t (.runnable c) .migrating)
      else scan round ts found s
    else scan round ts found s

def refillReady : List ℕ → Sched → Option (Bool × Sched)
  | [], s => some (false, s)
  | t :: ts, s =>
    if (s.tcb t).state = .ready ∧ (s.tcb t).remainingTimeSlice ≤ 0 then
      ((s.refillTimeSlice t).bind (refillReady ts)).map fun r => (true, r.2)
    else refillReady ts s

-- cid is the running_core of the current thread; the idle thread of core cid has the id cid
def selectNextThread : ℕ → Sched → Option (ℕ × Sched)
  | 0, _ => none
  | rounds + 1, s =>
    let cid := (s.tcb (s.runningThread c)).runningCore
    match scan env c cid rounds (s.tcbList (.runnable c)) none s with
    | none => none
    | some (.returned s) => some (cid, s)
    | some (.scanned (some t) s) => some (t, s)
    | some (.scanned none s) =>
      match refillReady (s.tcbList (.runnable c)) s with
      | none => none
      | some (true, s) => selectNextThread rounds s
      | some (false, s) =>
        if s.count (.runnable c) = 1 then (s.tcbList (.runnable c)).head?.map fun t => (t, s)
        else some (cid, s)

-- ISONLY_CORE_MASK is defined as 0, so the function returns before it looks at other cores
def getCidOfMinThread (_next cid : ℕ) : ℕ := cid

def __postContextSwitch (prev : ℕ) : Option Sched :=
  let a := s.tcb prev
  if a.state = .exited ∨ a.state = .notalloc then some s
  else if a.intention.ready then
    some (s.modify prev fun a =>
      { a with state := .ready, intention := { a.intention with ready := false, blocked := false } })
  else if a.intention.blocked then some (s.block c prev)
  else if a.intention.exited then
    if s.runningThread c = prev then some s else s.retire env c prev (.runnable c)
  else some s

def population : ℕ := (s.count (.runnable c) + s.count (.blocked c)) % wordSize

def adoptMatching : List ℕ → Sched → Bool × Sched
  | [], s => (false, s)
  | t :: ts, s =>
    let s := if (s.tcb t).runningCore = cid then s.adopt c cid t else s
    if s.population c = runnableMax then (true, s) else adoptMatching ts s

def adoptAllowed : List ℕ → Sched → Sched
  | [], s => s
  | t :: ts, s =>
    if (s.tcb t).coreIsAllowed cid ∧ getCidOfMinThread t cid = cid then s.adopt c cid t
    else if s.population c = runnableMax then s
    else adoptAllowed ts s

def unblockReady : List ℕ → Sched → Option Sched
  | [], s => some s
  | t :: ts, s =>
    if (s.tcb t).intention.exited then
      if s.runningThread c = t then unblockReady ts s
      else (s.retire env c t (.blocked c)).bind (unblockReady ts)
    else if (s.tcb t).intention.ready then unblockReady ts (s.unblock c t)
    else unblockReady ts s

def adoptMigrating : Sched :=
  if s.population c < runnableMax ∧ s.count .migrating ≠ 0 ∧ env.tryMigrate then
    let cid := (s.tcb (s.runningThread c)).runningCore
    let r := adoptMatching c cid (s.tcbList .migrating) s
    if r.1 then r.2 else adoptAllowed c cid (r.2.tcbList .migrating) r.2
  else s

def pullThreads : Option Sched :=
  let s := s.adoptMigrating env c
  if s.count (.blocked c) ≠ 0 then unblockReady env c (s.tcbList (.blocked c)) s else some s

def postContextSwitch (prev : ℕ) : Option Sched := do
  let s ← s.__postContextSwitch env c prev
  s.pullThreads env c

def giveUp (intention : Intention) : Sched :=
  s.modify (s.runningThread c) fun a =>
    { a with
      remainingTimeSlice := a.remainingTimeSlice - env.consumed
      intention := intention.or a.intention }

def switchTo (next cid : ℕ) : Option Sched :=
  let curr := s.runningThread c
  ((s.setRunningCore cid next).setRunning c next).postContextSwitch env c curr

def resume : Sched :=
  s.modify (s.runningThread c) fun a =>
    { a with state := .running, intention := { a.intention with ready := false } }

def schedule (intention : Intention) : Option Sched := do
  let curr := s.runningThread c
  let cid := (s.tcb curr).runningCore
  let s := s.giveUp env c intention
  let (next, s) ← selectNextThread env c env.rounds s
  let s ← s.refillTimeSlice next
  if next = curr then
    let s ← s.postContextSwitch env c curr
    some (s.resume c)
  else s.switchTo env c next cid

def scheduleTo (nextTid : ℕ) (intention : Intention) : Option Sched := do
  let curr := s.runningThread c
  let cid := (s.tcb curr).runningCore
  let s := s.giveUp env c intention
  let s ← s.getTcb nextTid
  if (s.tcb nextTid).runningCore = (s.tcb curr).runningCore ∧ (s.tcb nextTid).coreIsAllowed cid then
    let s ← s.refillTimeSlice nextTid
    let s := ((s.setState nextTid .running).setRunningCore cid nextTid).setRunning c nextTid
    let s ← s.putTcb env c nextTid
    s.postContextSwitch env c curr
  else
    let s ← s.putTcb env c nextTid
    let (next, s) ← selectNextThread env c env.rounds s
    let s ← s.refillTimeSlice next
    if next = curr then (s.setState curr .running).postContextSwitch env c curr
    else
      let s ← s.getTcb next
      let s := (s.setRunningCore cid next).setRunning c next
      let s ← s.putTcb env c next
      s.postContextSwitch env c curr

def __threadExit : Option Sched := do
  let curr := s.runningThread c
  let s ← s.getTcb curr
  let s := s.modify curr fun a => { a with intention := .onlyExited }
  let s ← s.putTcb env c curr
  s.schedule env c .onlyExited

inductive Event
  | create (core : ℤ) (stack : ℕ)
  | schedule (intention : Intention)
  | scheduleTo (nextTid : ℕ) (intention : Intention)
  | wakeUp (tid : ℕ)
  | suspend (tid : ℕ)
  | exit

def exec : Event → Option Sched
  | .create core stack => (s.createThread env c core stack).map Prod.snd
  | .schedule intention => s.schedule env c intention
  | .scheduleTo nextTid intention => s.scheduleTo env c nextTid intention
  | .wakeUp tid => s.threadWakeUp env c tid
  | .suspend tid => s.threadSuspend env c tid
  | .exit => s.__threadExit env c

end Sched

end Azalea
