import Azalea.Memory.Grant
import Azalea.Semaphore.Sem
import Azalea.Sync.Spinlock

namespace Azalea

@[simp] def einval : ℤ := 22

def sizeofSem : ℕ := 56

structure SemObject where
  value : BitVec 32
  queue : ℕ
  wpos : ℕ
  rpos : ℕ
  lock : SpinlockIrqsave

structure SemMemory where
  heap : Heap
  sem : ℕ → SemObject
  dword : ℕ → ℕ

namespace SemMemory

def azAlloc (s : SemMemory) (size : ℕ) : SemMemory × ℕ :=
  ({ s with heap := s.heap.call (.alloc size), dword := s.heap.clear size s.dword }, (s.heap.mm.azAlloc size).2)

def azFree (s : SemMemory) (address : ℕ) : SemMemory := { s with heap := s.heap.call (.free address) }

def fillQueue (p : ℕ) : ℕ → SemMemory → SemMemory
  | 0, s => s
  | i + 1, s =>
    let s := fillQueue p i s
    { s with dword := Function.update s.dword ((s.sem p).queue + 4 * i) maxThreadId }

def linkQueue (p : ℕ) (v : BitVec 32) (n : ℕ) (s : SemMemory) : SemMemory :=
  let (s, queue) := s.azAlloc (n * 4)
  { s with sem := Function.update s.sem p { s.sem p with queue, value := v, wpos := 0, rpos := 0 } }

def setupSem (p : ℕ) (v : BitVec 32) (n : ℕ) (s : SemMemory) : SemMemory :=
  let s := fillQueue p n (s.linkQueue p v n)
  { s with sem := Function.update s.sem p { s.sem p with lock := SpinlockIrqsave.spinlockIrqsaveInit } }

def azSemInit (p : ℕ) (v : BitVec 32) (s : SemMemory) : SemMemory × ℤ :=
  if p = 0 then (s, -einval) else (s.setupSem p v maxSemQueueSize, 0)

-- sem is what the caller's pointer variable holds, none when the argument is NULL
def sysSemInit (sem : Option ℕ) (v : BitVec 32) (s : SemMemory) : SemMemory × Option ℕ × ℤ :=
  match sem with
  | none => (s, none, -einval)
  | some _ =>
    let (s, p) := s.azAlloc sizeofSem
    if p = 0 then (s, some p, -enomem)
    else
      let (s, ret) := s.azSemInit p v
      if ret ≠ 0 then (s.azFree p, some 0, ret) else (s, some p, ret)

def view (s : SemMemory) (p : ℕ) : Sem :=
  ⟨(s.sem p).value.toNat, fun i => s.dword ((s.sem p).queue + 4 * i), (s.sem p).wpos, (s.sem p).rpos⟩

structure Initial (v : BitVec 32) (x : Sem) : Prop where
  value : x.value = (Sem.azSemInit v).value
  queue : ∀ i < maxSemQueueSize, x.queue i = (Sem.azSemInit v).queue i
  wpos : x.wpos = (Sem.azSemInit v).wpos
  rpos : x.rpos = (Sem.azSemInit v).rpos

structure Blocks (s : SemMemory) (p : ℕ) (x y : Handed) : Prop where
  object : x ∈ s.heap.handed ∧ x.address = p ∧ x.request = sizeofSem
  queue : y ∈ s.heap.handed ∧ y.address = (s.sem p).queue ∧ y.request = maxSemQueueSize * 4
  apart : x.address + x.size ≤ y.address ∨ y.address + y.size ≤ x.address

structure Created (v : BitVec 32) (s' : SemMemory) (sem' : Option ℕ) (ret : ℤ) : Prop where
  ret : ret = 0
  sem : ∃ p, sem' = some p ∧ p ≠ 0 ∧ (∃ x y, s'.Blocks p x y) ∧ Initial v (s'.view p)

structure Refused (s s' : SemMemory) (sem' : Option ℕ) (ret : ℤ) : Prop where
  ret : ret < 0
  sem : ∀ p, sem' = some p → p = 0
  heap : s'.heap = s.heap

def AllOrNothing (sem : Option ℕ) (v : BitVec 32) (s : SemMemory) : Prop :=
  let r := s.sysSemInit sem v
  Created v r.1 r.2.1 r.2.2 ∨ Refused s r.1 r.2.1 r.2.2

inductive Serves (sem : Option ℕ) (h : Heap) : Prop
  | null : sem = none → Serves sem h
  | exhausted : (h.mm.azAlloc sizeofSem).2 = 0 → Serves sem h
  | both : ((h.call (.alloc sizeofSem)).mm.azAlloc (maxSemQueueSize * 4)).2 ≠ 0 → Serves sem h

section Fill
variable {p : ℕ} {s : SemMemory}

@[simp] theorem fillQueue_heap (n : ℕ) : (fillQueue p n s).heap = s.heap := by
  induction n with
  | zero => rfl
  | succ n ih => exact ih

@[simp] theorem fillQueue_sem (n : ℕ) : (fillQueue p n s).sem = s.sem := by
  induction n with
  | zero => rfl
  | succ n ih => exact ih

theorem fillQueue_dword {n i : ℕ} (hi : i < n) : (fillQueue p n s).dword ((s.sem p).queue + 4 * i) = maxThreadId := by
  induction n with
  | zero => exact absurd hi (Nat.not_lt_zero i)
  | succ n ih =>
    rw [fillQueue, fillQueue_sem]
    rcases Nat.lt_succ_iff_lt_or_eq.mp hi with hlt | rfl
    · exact (Function.update_of_ne (by omega) ..).trans (ih hlt)
    · exact Function.update_self ..

end Fill

section Init
variable {s : SemMemory} {v : BitVec 32} {p : ℕ}

@[simp] theorem azAlloc_sem (size : ℕ) : (s.azAlloc size).1.sem = s.sem := rfl

@[simp] theorem azAlloc_heap (size : ℕ) : (s.azAlloc size).1.heap = s.heap.call (.alloc size) := rfl

@[simp] theorem azAlloc_address (size : ℕ) : (s.azAlloc size).2 = (s.heap.mm.azAlloc size).2 := rfl

section Setup
variable (s : SemMemory) (p : ℕ) (v : BitVec 32) (n : ℕ)

theorem setupSem_heap : (s.setupSem p v n).heap = s.heap.call (.alloc (n * 4)) := fillQueue_heap n

theorem linkQueue_sem : (s.linkQueue p v n).sem p = { s.sem p with
    queue := (s.heap.mm.azAlloc (n * 4)).2
    value := v
    wpos := 0
    rpos := 0 } := Function.update_self ..

theorem setupSem_sem : (s.setupSem p v n).sem p =
    ⟨v, (s.heap.mm.azAlloc (n * 4)).2, 0, 0, SpinlockIrqsave.spinlockIrqsaveInit⟩ := by
  simp [setupSem, linkQueue_sem]

theorem setupSem_queue {i : ℕ} (hi : i < n) :
    (s.setupSem p v n).dword (((s.setupSem p v n).sem p).queue + 4 * i) = maxThreadId := by
  have hdword := @fillQueue_dword p (s.linkQueue p v n) n i hi
  rw [linkQueue_sem] at hdword
  rw [setupSem_sem]
  exact hdword

theorem setupSem_initial : Initial v ((s.setupSem p v maxSemQueueSize).view p) := by
  have hsem := s.setupSem_sem p v maxSemQueueSize
  have hqueue := fun i hi => s.setupSem_queue p v maxSemQueueSize (i := i) hi
  generalize s.setupSem p v maxSemQueueSize = s' at hsem hqueue ⊢
  refine ⟨?_, hqueue, ?_, ?_⟩
  · rw [view, hsem, Sem.azSemInit]
  · rw [view, hsem, Sem.azSemInit]
  · rw [view, hsem, Sem.azSemInit]

end Setup

theorem sysSemInit_refused {q : ℕ} (h0 : (s.heap.mm.azAlloc sizeofSem).2 = 0) :
    s.sysSemInit (some q) v = ((s.azAlloc sizeofSem).1, some 0, -enomem) := by
  rw [sysSemInit]
  dsimp only
  rw [azAlloc_address, if_pos h0, h0]

theorem sysSemInit_granted {q : ℕ} (h0 : (s.heap.mm.azAlloc sizeofSem).2 ≠ 0) :
    s.sysSemInit (some q) v = ((s.azAlloc sizeofSem).1.setupSem (s.heap.mm.azAlloc sizeofSem).2 v maxSemQueueSize,
      some (s.heap.mm.azAlloc sizeofSem).2, 0) := by
  rw [sysSemInit]
  dsimp only
  rw [azAlloc_address, if_neg h0, azSemInit, if_neg h0]
  rfl

theorem allOrNothing_of_refused {q : ℕ} (hv : s.heap.Valid) (h0 : (s.heap.mm.azAlloc sizeofSem).2 = 0) :
    AllOrNothing (some q) v s := by
  rw [AllOrNothing, sysSemInit_refused h0]
  refine .inr ⟨show -enomem < 0 by decide, fun p hp => (Option.some.inj hp).symm, ?_⟩
  exact hv.call_refused (by decide) h0

theorem allOrNothing_of_granted {q : ℕ} (hv : s.heap.Valid) (h1 : (s.heap.mm.azAlloc sizeofSem).2 ≠ 0)
    (h2 : ((s.heap.call (.alloc sizeofSem)).mm.azAlloc (maxSemQueueSize * 4)).2 ≠ 0) : AllOrNothing (some q) v s := by
  obtain ⟨x, hx⟩ : ∃ x, s.heap.Grants sizeofSem x := ⟨_, hv.call_granted (by decide) h1⟩
  obtain ⟨y, hy⟩ : ∃ y, (s.heap.call (.alloc sizeofSem)).Grants (maxSemQueueSize * 4) y :=
    ⟨_, (hv.alloc (.inr (by decide))).call_granted (by decide) h2⟩
  have hhanded (p : ℕ) :
      ((s.azAlloc sizeofSem).1.setupSem p v maxSemQueueSize).heap.handed = y :: x :: s.heap.handed := by
    rw [setupSem_heap, azAlloc_heap, hy.handed, hx.handed]
  rw [AllOrNothing, sysSemInit_granted h1]
  refine .inl ⟨rfl, _, rfl, h1, ⟨x, y, ⟨?_, hx.address, hx.request⟩, ⟨?_, ?_, hy.request⟩, ?_⟩, ?_⟩
  · rw [hhanded]
    exact List.mem_cons_of_mem _ List.mem_cons_self
  · rw [hhanded]
    exact List.mem_cons_self
  · rw [setupSem_sem]
    exact hy.address
  · exact (hy.fresh x (by rw [hx.handed]; exact List.mem_cons_self)).symm
  · exact setupSem_initial _ _ v

theorem not_allOrNothing {q : ℕ} (hv : s.heap.Valid) (h1 : (s.heap.mm.azAlloc sizeofSem).2 ≠ 0)
    (h2 : ((s.heap.call (.alloc sizeofSem)).mm.azAlloc (maxSemQueueSize * 4)).2 = 0) : ¬ AllOrNothing (some q) v s := by
  have hv1 : (s.heap.call (.alloc sizeofSem)).Valid := hv.alloc (.inr (by decide))
  rw [AllOrNothing, sysSemInit_granted h1]
  rintro (⟨-, p, hp, -, ⟨x, y, hblocks⟩, -⟩ | ⟨hret, -, -⟩)
  · obtain ⟨hmem, haddress, -⟩ := hblocks.queue
    cases hp
    rw [setupSem_heap] at hmem
    rw [setupSem_sem] at haddress
    exact (hv1.alloc (.inr (by decide))).address_pos hmem (haddress.trans h2)
  · exact absurd hret (show ¬ (0 : ℤ) < 0 by decide)

end Init

theorem sysSemInit_allOrNothing_iff {s : SemMemory} (hv : s.heap.Valid) (sem : Option ℕ) (v : BitVec 32) :
    AllOrNothing sem v s ↔ Serves sem s.heap := by
  cases sem with
  | none =>
    have hnone : Refused s s none (-einval) := ⟨by decide, fun p hp => by simp at hp, rfl⟩
    exact iff_of_true (.inr hnone) (.null rfl)
  | some q =>
    by_cases h1 : (s.heap.mm.azAlloc sizeofSem).2 = 0
    · exact iff_of_true (allOrNothing_of_refused hv h1) (.exhausted h1)
    by_cases h2 : ((s.heap.call (.alloc sizeofSem)).mm.azAlloc (maxSemQueueSize * 4)).2 = 0
    · refine iff_of_false (not_allOrNothing hv h1 h2) ?_
      rintro (hnull | hfirst | hboth)
      · cases hnull
      · exact h1 hfirst
      · exact hboth h2
    · exact iff_of_true (allOrNothing_of_granted hv h1 h2) (.both h2)

def blank (h : Heap) : SemMemory := ⟨h, fun _ => ⟨0, 0, 0, 0, SpinlockIrqsave.spinlockIrqsaveInit⟩, fun _ => 0⟩

theorem tiny_sem_created : AllOrNothing (some 0) 3 (blank Heap.tiny) :=
  (sysSemInit_allOrNothing_iff Heap.tiny_valid (some 0) 3).mpr (.both (by decide +kernel))

theorem crowded_half_created : (blank Heap.crowded).heap.Valid ∧ ¬ AllOrNothing (some 0) 3 (blank Heap.crowded) :=
  ⟨Heap.crowded_valid, not_allOrNothing Heap.crowded_valid (by decide +kernel) (by decide +kernel)⟩

end SemMemory

end Azalea
