import Azalea.Config
import Mathlib.Tactic

namespace Azalea
namespace ShellStorage

def maxPagefaultSize : ℕ := 1024

structure PFInfo where
  threadId : QWORD
  faultAddr : QWORD
  errorCode : QWORD
  rip : QWORD
  deriving DecidableEq

abbrev Area := ℕ → QWORD

def initStat : ℕ := 0

def timer (cid : ℕ) : ℕ := 1 + cid

def pfCount : ℕ := timer maxProcessorCount

def info (pos field : ℕ) : ℕ := pfCount + 1 + (4 * pos + field)

def threadArea (tid : ℕ) : ℕ := info maxPagefaultSize 0 + tid

def shellStorageAreaInit (area : Area) : Area := fun word => if word < threadArea maxThreadId then 0#64 else area word

-- pos, unless the function returns without storing
def position (area : Area) : Option ℕ :=
  let pos : BitVec 32 := (area pfCount).setWidth 32
  if maxPagefaultSize < pos.toNat then none else some pos.toNat

def storePagefaultInfo (area : Area) (fault : PFInfo) : Area :=
  match position area with
  | none => area
  | some pos =>
    let area := Function.update area (info pos 0) fault.threadId
    let area := Function.update area (info pos 1) fault.faultAddr
    let area := Function.update area (info pos 2) fault.errorCode
    let area := Function.update area (info pos 3) fault.rip
    Function.update area pfCount (area pfCount + 1)

def storeTcbInfo (area : Area) (tid : Fin maxThreadId) (tcb : QWORD) : Area := Function.update area (threadArea tid) tcb

def storeTimerInfo (area : Area) (cid : Fin maxProcessorCount) (tickCount : QWORD) : Area :=
  Function.update area (timer cid) tickCount

def storeInitStat (area : Area) (stat : BitVec 32) : Area :=
  Function.update area initStat (area initStat ||| stat.signExtend 64)

inductive Event
  | pagefault (fault : PFInfo)
  | tcb (tid : Fin maxThreadId) (address : QWORD)
  | timer (cid : Fin maxProcessorCount) (tickCount : QWORD)
  | stat (bits : BitVec 32)

def Event.exec (area : Area) : Event → Area
  | .pagefault fault => storePagefaultInfo area fault
  | .tcb tid address => storeTcbInfo area tid address
  | .timer cid tickCount => storeTimerInfo area cid tickCount
  | .stat bits => storeInitStat area bits

def Event.fault? : Event → Option PFInfo
  | .pagefault fault => some fault
  | _ => none

def run (area : Area) (events : List Event) : Area := events.foldl Event.exec (shellStorageAreaInit area)

def faults (events : List Event) : List PFInfo := events.filterMap Event.fault?

def entry (area : Area) (pos : ℕ) : PFInfo := ⟨area (info pos 0), area (info pos 1), area (info pos 2), area (info pos 3)⟩

def cmdEntries (area : Area) : List ℕ := List.range (area pfCount).toNat

structure Bounded (area : Area) (events : List Event) : Prop where
  position : ∀ before fault after, events = before ++ .pagefault fault :: after →
    ∀ pos ∈ position (run area before), pos < maxPagefaultSize
  threads : ∀ before fault after, events = before ++ .pagefault fault :: after →
    ∀ tid, storePagefaultInfo (run area before) fault (threadArea tid) = run area before (threadArea tid)
  count : (run area events pfCount).toNat ≤ maxPagefaultSize
  entries : ∀ pos < maxPagefaultSize, ∀ fault ∈ (faults events)[pos]?, entry (run area events) pos = fault
  cmd : ∀ pos ∈ cmdEntries (run area events), pos < maxPagefaultSize

variable {area : Area} {fault : PFInfo} {log : List PFInfo} {pos word : ℕ}

theorem info_ne_pfCount (pos field : ℕ) : info pos field ≠ pfCount := by
  unfold info
  omega

theorem info_inj {pos' field field' : ℕ} (hf : field < 4) (hf' : field' < 4) :
    info pos field = info pos' field' ↔ pos = pos' ∧ field = field' := by
  unfold info
  omega

theorem info_lt_threadArea {field tid : ℕ} (h : pos < maxPagefaultSize) (hf : field < 4) :
    info pos field < threadArea tid := by
  unfold threadArea info
  omega

theorem store_none (h : position area = none) : storePagefaultInfo area fault = area := by
  rw [storePagefaultInfo, h]

theorem store_count (h : position area = some pos) : storePagefaultInfo area fault pfCount = area pfCount + 1 := by
  simp only [storePagefaultInfo, h, Function.update_self, Function.update_of_ne (info_ne_pfCount _ _).symm]

theorem store_entry (h : position area = some pos) : entry (storePagefaultInfo area fault) pos = fault := by
  simp [entry, storePagefaultInfo, h, info_ne_pfCount, Function.update_apply, info_inj]

theorem store_thread (h : position area = some maxPagefaultSize) :
    storePagefaultInfo area fault (threadArea 0) = fault.threadId :=
  congrArg PFInfo.threadId (store_entry h)

theorem store_frame (h : position area = some pos) (hc : word ≠ pfCount) (hw : ∀ field < 4, word ≠ info pos field) :
    storePagefaultInfo area fault word = area word := by
  simp only [storePagefaultInfo, h]
  rw [Function.update_of_ne hc, Function.update_of_ne (hw 3 (by decide)), Function.update_of_ne (hw 2 (by decide)),
    Function.update_of_ne (hw 1 (by decide)), Function.update_of_ne (hw 0 (by decide))]

theorem entry_congr {area' : Area} (h : ∀ field < 4, area' (info pos field) = area (info pos field)) :
    entry area' pos = entry area pos := by
  rw [entry, entry, h 0 (by decide), h 1 (by decide), h 2 (by decide), h 3 (by decide)]

structure Logged (area : Area) (log : List PFInfo) : Prop where
  count : (area pfCount).toNat = min log.length (maxPagefaultSize + 1)
  entries : ∀ pos < maxPagefaultSize, ∀ fault ∈ log[pos]?, entry area pos = fault

theorem Logged.init (area : Area) : Logged (shellStorageAreaInit area) [] := by
  refine ⟨?_, by simp⟩
  have hlt : pfCount < threadArea maxThreadId := by decide
  rw [shellStorageAreaInit, if_pos hlt]
  rfl

theorem Logged.position (h : Logged area log) :
    position area = if maxPagefaultSize < log.length then none else some log.length := by
  have hlt : min log.length (maxPagefaultSize + 1) < 2 ^ 32 := lt_of_le_of_lt (Nat.min_le_right _ _) (by decide)
  rw [ShellStorage.position, BitVec.toNat_setWidth, h.count, Nat.mod_eq_of_lt hlt]
  split_ifs <;> grind

theorem Logged.update (h : Logged area log) (hc : word ≠ pfCount)
    (he : ∀ pos < maxPagefaultSize, ∀ field < 4, word ≠ info pos field) (value : QWORD) :
    Logged (Function.update area word value) log := by
  refine ⟨?_, fun pos hpos fault hf => ?_⟩
  · rw [Function.update_of_ne hc.symm, h.count]
  · rw [← h.entries pos hpos fault hf]
    exact entry_congr fun field hfield => Function.update_of_ne (he pos hpos field hfield).symm ..

theorem Logged.pagefault (h : Logged area log) (fault : PFInfo) :
    Logged (storePagefaultInfo area fault) (log ++ [fault]) := by
  have hpos := h.position
  have hcount := h.count
  split_ifs at hpos with hfull
  · rw [store_none hpos]
    refine ⟨?_, fun pos hlt f hf => h.entries pos hlt f ?_⟩
    · rw [hcount, List.length_append, List.length_singleton]
      omega
    · rwa [List.getElem?_append_left (hlt.trans hfull)] at hf
  · refine ⟨?_, fun pos hlt f hf => ?_⟩
    · have hsize : maxPagefaultSize = 1024 := rfl
      have hone : (1 : QWORD).toNat = 1 := rfl
      rw [store_count hpos, BitVec.toNat_add, hcount, List.length_append, List.length_singleton, hone,
        Nat.mod_eq_of_lt (by omega)]
      omega
    · rcases lt_trichotomy pos log.length with hold | rfl | hnew
      · rw [List.getElem?_append_left hold] at hf
        rw [← h.entries pos hlt f hf]
        refine entry_congr fun field hfield => store_frame hpos (info_ne_pfCount _ _) fun field' hfield' he => ?_
        exact Nat.ne_of_lt hold ((info_inj hfield hfield').mp he).1
      · rw [List.getElem?_concat_length] at hf
        rw [store_entry hpos, Option.some.inj hf]
      · rw [List.getElem?_eq_none (by rw [List.length_append, List.length_singleton]; omega)] at hf
        cases hf

theorem Logged.exec (h : Logged area log) (e : Event) : Logged (e.exec area) (log ++ faults [e]) := by
  cases e with
  | pagefault fault => exact h.pagefault fault
  | tcb tid address =>
    rw [faults, List.filterMap_cons_none rfl, List.filterMap_nil, List.append_nil]
    refine h.update ?_ (fun pos hpos field hfield => (info_lt_threadArea hpos hfield).ne') _
    unfold threadArea info
    omega
  | timer cid tickCount =>
    have hcid := cid.isLt
    rw [faults, List.filterMap_cons_none rfl, List.filterMap_nil, List.append_nil]
    refine h.update ?_ (fun pos hpos field hfield => ?_) _
    · unfold pfCount timer
      omega
    · unfold info pfCount timer
      omega
  | stat bits =>
    rw [faults, List.filterMap_cons_none rfl, List.filterMap_nil, List.append_nil]
    refine h.update ?_ (fun pos hpos field hfield => ?_) _
    · unfold pfCount timer initStat
      omega
    · unfold info initStat
      omega

theorem run_append (area : Area) (events : List Event) (e : Event) : run area (events ++ [e]) = e.exec (run area events) :=
  List.foldl_concat ..

theorem logged_run (area : Area) (events : List Event) : Logged (run area events) (faults events) := by
  induction events using List.reverseRecOn with
  | nil => exact .init area
  | append_singleton events e ih =>
    rw [run_append, faults, List.filterMap_append]
    exact ih.exec e

theorem faults_split (before after : List Event) (fault : PFInfo) :
    faults (before ++ .pagefault fault :: after) = faults before ++ fault :: faults after :=
  List.filterMap_append

theorem pagefault_log_bounded_iff (area : Area) (events : List Event) :
    Bounded area events ↔ (faults events).length ≤ maxPagefaultSize := by
  have hrun := logged_run area events
  constructor
  · intro h
    have hcount := h.count
    rw [hrun.count] at hcount
    omega
  · intro hlen
    have hcount : (run area events pfCount).toNat ≤ maxPagefaultSize := by
      rw [hrun.count]
      omega
    have hbefore : ∀ before fault after, events = before ++ .pagefault fault :: after →
        position (run area before) = some (faults before).length ∧ (faults before).length < maxPagefaultSize := by
      intro before fault after he
      have hshort : (faults before).length < (faults events).length := by
        rw [he, faults_split, List.length_append, List.length_cons]
        omega
      exact ⟨(logged_run area before).position.trans (if_neg (by omega)), by omega⟩
    refine ⟨fun before fault after he pos hpos => ?_, fun before fault after he tid => ?_, hcount, hrun.entries,
      fun pos hpos => ?_⟩
    · obtain ⟨hsome, hlt⟩ := hbefore before fault after he
      rw [hsome] at hpos
      exact Option.some.inj hpos ▸ hlt
    · obtain ⟨hsome, hlt⟩ := hbefore before fault after he
      refine store_frame hsome ?_ fun field hfield => (info_lt_threadArea hlt hfield).ne'
      unfold threadArea info
      omega
    · exact lt_of_lt_of_le (List.mem_range.mp hpos) hcount

theorem fault_1025_overwrites_threads :
    let fault : PFInfo := ⟨300, 0x1000, 2, 0x400000⟩
    let events := List.replicate 1024 (Event.pagefault fault)
    let area := run (fun _ => 0) (events ++ [.pagefault fault])
    position (run (fun _ => 0) events) = some 1024 ∧ shellStorageAreaInit (fun _ => 0) (threadArea 0) = 0 ∧
      area (threadArea 0) = 300 ∧ (area pfCount).toNat = 1025 ∧ ¬ Bounded (fun _ => 0) (events ++ [.pagefault fault]) := by
  intro fault events area
  have hfault : Event.fault? (.pagefault fault) = some fault := rfl
  have hlen : (faults events).length = 1024 := by
    rw [faults, List.filterMap_replicate_of_some hfault, List.length_replicate]
  have hpos : position (run (fun _ => 0) events) = some 1024 := by
    rw [(logged_run _ events).position, hlen]
    rfl
  have harea : area = storePagefaultInfo (run (fun _ => 0) events) fault := run_append ..
  have hcount : (area pfCount).toNat = 1025 := by
    rw [(logged_run _ _).count, faults_split, List.length_append, hlen]
    rfl
  refine ⟨hpos, by decide, ?_, hcount, fun h => ?_⟩
  · exact (congrFun harea _).trans (store_thread hpos)
  · have hbound := h.count
    rw [hcount] at hbound
    exact absurd hbound (by decide)

end ShellStorage
end Azalea
