import Azalea.Foundation.Run
import Azalea.Offload.Channel
import Azalea.Offload.Layout

open Relation Fifo

namespace Azalea

namespace CircularQueue

def cqIsFull (cq : CircularQueue) : Bool := (cq.tail + 1) % cq.size == cq.head

def cqIsEmpty (cq : CircularQueue) : Bool := cq.head == cq.tail

-- a caller that finds no room spins before its first store
def cqAddData (cq : CircularQueue) (x : IoPacket) : Option CircularQueue :=
  if cq.cqFreeSpace = 0 then none else some (cq.write x).publish

def cqRemoveData (cq : CircularQueue) : Option (IoPacket × CircularQueue) :=
  if cq.cqAvailData = 0 then none else some (cq.data cq.tail, cq.advance)

end CircularQueue

def cqPages (elements : ℕ) : ℕ := elements * cqElePageNum + 1

def cqSize (elements : ℕ) : ℕ := (cqPages elements - 1) / cqElePageNum

def Admitted (elements : ℕ) : Prop := 2 ≤ elements ∧ cqPages elements < 2 ^ 31

instance (elements : ℕ) : Decidable (Admitted elements) := inferInstanceAs (Decidable (_ ∧ _))

theorem cqSize_eq (elements : ℕ) : cqSize elements = elements := by
  simp [cqSize, cqPages, cqElePageNum]

structure Traffic where
  queue : CircularQueue
  added : List IoPacket
  removed : List IoPacket

inductive QueueEvent
  | add (x : IoPacket)
  | remove

namespace Traffic
variable {s s' : Traffic} {n k : ℕ}

def zeroPacket : IoPacket := ⟨0, 0, 0, 0, 0, 0, 0, 0, 0, 0⟩

def blank : CircularQueue := ⟨0, 0, 0, fun _ => zeroPacket⟩

def start (cq : CircularQueue) (size : ℕ) : Traffic := ⟨cq.cqInit size, [], []⟩

def exec (s : Traffic) : QueueEvent → Option Traffic
  | .add x => (s.queue.cqAddData x).map fun cq => { s with queue := cq, added := s.added ++ [x] }
  | .remove => s.queue.cqRemoveData.map fun r => { s with queue := r.2, removed := s.removed ++ [r.1] }

def Step (s s' : Traffic) : Prop := ∃ e, s.exec e = some s'

def queued (s : Traffic) : ℕ := s.added.length - s.removed.length

structure Exact (n : ℕ) (s : Traffic) : Prop where
  avail : s.queue.cqAvailData = s.queued
  free : s.queue.cqFreeSpace = n - 1 - s.queued
  fifo : s.removed <+: s.added
  kept : ∀ i x, s.added[s.removed.length + i]? = some x → s.queue.data ((s.queue.tail + i) % n) = x

theorem step_cases (h : Step s s') :
    (∃ x, s.queue.cqFreeSpace ≠ 0 ∧ s' = ⟨(s.queue.write x).publish, s.added ++ [x], s.removed⟩) ∨
      (s.queue.cqAvailData ≠ 0 ∧ s' = ⟨s.queue.advance, s.added, s.removed ++ [s.queue.data s.queue.tail]⟩) := by
  obtain ⟨e, he⟩ := h
  cases e with
  | add x =>
    obtain ⟨cq, hcq, rfl⟩ := Option.map_eq_some_iff.mp he
    obtain ⟨hne, hcq⟩ := Option.ite_none_left_eq_some.mp hcq
    cases hcq
    exact .inl ⟨x, hne, rfl⟩
  | remove =>
    obtain ⟨r, hr, rfl⟩ := Option.map_eq_some_iff.mp he
    obtain ⟨hne, hr⟩ := Option.ite_none_left_eq_some.mp hr
    cases hr
    exact .inr ⟨hne, rfl⟩

structure Ordered (k : ℕ) (s : Traffic) : Prop where
  bounded : s.queue.Bounded
  size : s.queue.size = 2 ^ k
  added : s.added = s.removed ++ s.queue.contents

section Ordered
variable (h1 : 1 ≤ k) (hk : k ≤ 30)
include h1 hk

theorem Ordered.sized (h : Ordered k s) : CircularQueue.Sized s.queue := ⟨h.bounded, k, h1, hk, h.size⟩

theorem Ordered.step (h : Ordered k s) (hs : Step s s') : Ordered k s' := by
  have hb := h.bounded
  obtain ⟨x, hfree, rfl⟩ | ⟨havail, rfl⟩ := step_cases hs
  · have hroom := CircularQueue.free_room (h.sized h1 hk) hfree
    refine ⟨Buffer.publish_bounded (Buffer.write_bounded hb), h.size, ?_⟩
    change s.added ++ [x] = _
    rw [Buffer.publish_contents (Buffer.write_bounded hb) hroom, Buffer.write_contents hb, Buffer.write_head,
      ← List.append_assoc, ← h.added]
  · have hpos := CircularQueue.avail_pos (h.sized h1 hk) havail
    refine ⟨Buffer.advance_bounded hb, h.size, ?_⟩
    change s.added = _
    rw [h.added, Buffer.contents_eq_cons hb hpos, List.append_assoc, List.singleton_append]

theorem ordered_run {cq : CircularQueue} (hr : ReflTransGen Step (start cq (2 ^ k)) s) : Ordered k s := by
  refine Run.invariant (fun h hs => Ordered.step h1 hk h hs) ?_ hr
  have hb := (CircularQueue.cqInit_sized cq h1 hk).bounded
  refine ⟨hb, rfl, ?_⟩
  have hlen : (cq.cqInit (2 ^ k)).length = 0 := (Buffer.length_eq_zero hb).mpr rfl
  simp [start, Buffer.contents, hlen]

end Ordered

theorem Ordered.queued_eq (h : Ordered k s) : s.queued = s.queue.length := by
  simp [queued, h.added, Buffer.contents]

theorem Ordered.exact (h1 : 1 ≤ k) (hk : k ≤ 30) (h : Ordered k s) : Exact (2 ^ k) s where
  avail := by rw [CircularQueue.cqAvailData_eq (h.sized h1 hk), h.queued_eq]
  free := by rw [CircularQueue.cqFreeSpace, CircularQueue.cqAvailData_eq (h.sized h1 hk), h.queued_eq, h.size]
  fifo := ⟨_, h.added.symm⟩
  kept := by
    intro i x hx
    rw [h.added, List.getElem?_append_right (by omega), Nat.add_sub_cancel_left] at hx
    obtain ⟨hi, rfl⟩ := List.getElem?_eq_some_iff.mp hx
    have hlen : i < s.queue.length := by simpa [Buffer.contents] using hi
    have hlt := hlen.trans (Buffer.length_lt h.bounded)
    rw [← h.size, ← Buffer.slot_eq_mod h.bounded hlt]
    simp [Buffer.contents]

theorem fill (cq : CircularQueue) (x : IoPacket) {m : ℕ} (hm : m < n) :
    ∃ s, ReflTransGen Step (start cq n) s ∧ s.queue.head = m ∧ s.queue.tail = 0 ∧ s.queue.size = n ∧
      s.added.length = m ∧ s.removed = [] := by
  induction m with
  | zero => exact ⟨_, .refl, rfl, rfl, rfl, rfl, rfl⟩
  | succ m ih =>
    obtain ⟨s, hr, hhead, htail, hsize, hadded, hremoved⟩ := ih (by omega)
    have hle : s.queue.cqAvailData ≤ intToQword ((s.queue.head : ℤ) - s.queue.tail) := Nat.and_le_left
    have hmod : intToQword ((s.queue.head : ℤ) - s.queue.tail) ≤ m := by
      rw [hhead, htail, intToQword, BitVec.toNat_ofInt]
      omega
    have hfree : s.queue.cqFreeSpace ≠ 0 := by
      rw [CircularQueue.cqFreeSpace, hsize]
      omega
    refine ⟨⟨(s.queue.write x).publish, s.added ++ [x], s.removed⟩, hr.tail ⟨.add x, ?_⟩, ?_, htail, hsize, ?_, hremoved⟩
    · rw [exec, CircularQueue.cqAddData, if_neg hfree]
      rfl
    · change (s.queue.head + 1) % s.queue.size = m + 1
      rw [hhead, hsize, Nat.mod_eq_of_lt hm]
    · simp [hadded]

theorem power_of_mask (h2 : 2 ≤ n) (h : ∀ m < n, m &&& (n - 1) = m) : ∃ k, n = 2 ^ k := by
  have hne : n - 1 ≠ 0 := by omega
  have hle : 2 ^ (n - 1).log2 ≤ n - 1 := Nat.log2_self_le hne
  have hlt : n - 1 < 2 ^ ((n - 1).log2 + 1) := Nat.lt_log2_self
  have hlow := h (2 ^ (n - 1).log2 - 1) (by omega)
  rw [Nat.and_comm, Nat.and_two_pow_sub_one_eq_mod, Nat.mod_eq_sub_mod hle] at hlow
  rw [pow_succ] at hlt
  rw [Nat.mod_eq_of_lt (by omega)] at hlow
  refine ⟨(n - 1).log2 + 1, ?_⟩
  rw [pow_succ]
  omega

theorem exact_iff_power_of_two (h : Admitted n) :
    (∀ cq s, ReflTransGen Step (start cq (cqSize n)) s → Exact n s) ↔ ∃ k, n = 2 ^ k := by
  obtain ⟨h2, hpages⟩ := h
  simp only [cqPages, cqElePageNum] at hpages
  rw [cqSize_eq]
  constructor
  · intro hall
    refine power_of_mask h2 fun m hm => ?_
    obtain ⟨s, hr, hhead, htail, hsize, hadded, hremoved⟩ := fill blank zeroPacket hm
    have havail := (hall _ s hr).avail
    rw [CircularQueue.cqAvailData, hhead, htail, hsize, queued, hadded, hremoved, Nat.cast_zero, sub_zero,
      intToQword_of_nat (by omega)] at havail
    simpa using havail
  · rintro ⟨k, rfl⟩ cq s hr
    have h1 : 1 ≤ k := by
      by_contra hk
      obtain rfl : k = 0 := by omega
      omega
    have hk : k ≤ 30 := by
      by_contra hk
      have : 2 ^ 31 ≤ 2 ^ k := Nat.pow_le_pow_right (by decide) (by omega)
      omega
    exact (ordered_run h1 hk hr).exact h1 hk

theorem four_elements_exact : Admitted 4 ∧ ∀ cq s, ReflTransGen Step (start cq (cqSize 4)) s → Exact 4 s :=
  ⟨by decide, (exact_iff_power_of_two (by decide)).2 ⟨2, rfl⟩⟩

theorem three_elements_uncounted : Admitted 3 ∧ ∃ s,
    ReflTransGen Step (start blank (cqSize 3)) s ∧
      s.queued = 1 ∧ s.queue.cqAvailData = 0 ∧ s.queue.cqFreeSpace = 2 ∧ s.exec .remove = none := by
  refine ⟨by decide, _, .single ⟨.add ⟨offloadMagic, 1, 1, 0, 0, 0, 0, 0, 0, 0⟩, rfl⟩, ?_⟩
  exact ⟨rfl, by decide, by decide, rfl⟩

theorem Ordered.isFull_iff (h1 : 1 ≤ k) (h : Ordered k s) : s.queue.cqIsFull = true ↔ s.queued = 1 := by
  have h2 : 2 ^ 1 ≤ 2 ^ k := Nat.pow_le_pow_right (by decide) h1
  rw [h.queued_eq, ← Buffer.next_tail_eq_head h.bounded (h.size ▸ h2)]
  exact beq_iff_eq

section Predicates
variable (h1 : 1 ≤ k) (hk : k ≤ 30)
include h1 hk

theorem Ordered.free_iff (h : Ordered k s) : s.queue.cqFreeSpace = 0 ↔ s.queued = 2 ^ k - 1 := by
  have hlt := Buffer.length_lt h.bounded
  rw [(h.exact h1 hk).free, h.queued_eq]
  rw [h.size] at hlt
  omega

theorem Ordered.isEmpty_iff (h : Ordered k s) : s.queue.cqIsEmpty = true ↔ s.queue.cqAvailData = 0 := by
  rw [(h.exact h1 hk).avail, h.queued_eq, Buffer.length_eq_zero h.bounded]
  exact beq_iff_eq

-- cq_is_full compares the successor of tail, so it holds at one element
theorem predicates_agree_iff {cq : CircularQueue} (hr : ReflTransGen Step (start cq (2 ^ k)) s) :
    ((s.queue.cqIsFull = true ↔ s.queue.cqFreeSpace = 0) ∧ (s.queue.cqIsEmpty = true ↔ s.queue.cqAvailData = 0)) ↔
      2 ^ k = 2 ∨ (s.queued ≠ 1 ∧ s.queued ≠ 2 ^ k - 1) := by
  have h := ordered_run h1 hk hr
  have h2 : 2 ^ 1 ≤ 2 ^ k := Nat.pow_le_pow_right (by decide) h1
  rw [h.isFull_iff h1, h.free_iff h1 hk, and_iff_left (h.isEmpty_iff h1 hk)]
  omega

end Predicates

theorem two_of_four_agree : ∃ s, ReflTransGen Step (start blank (2 ^ 2)) s ∧ s.queued = 2 ∧
    (s.queue.cqIsFull = true ↔ s.queue.cqFreeSpace = 0) ∧ (s.queue.cqIsEmpty = true ↔ s.queue.cqAvailData = 0) := by
  obtain ⟨s, hr, -, -, -, hadded, hremoved⟩ := fill blank zeroPacket (by decide : 2 < 2 ^ 2)
  have hq : s.queued = 2 := by rw [queued, hadded, hremoved, List.length_nil]
  refine ⟨s, hr, hq, ?_⟩
  exact (predicates_agree_iff (by decide) (by decide) hr).2 (.inr (by rw [hq]; decide))

theorem one_of_four_full : ∃ s,
    ReflTransGen Step (start blank (2 ^ 2)) s ∧
      s.queued = 1 ∧ s.queue.cqIsFull = true ∧ s.queue.cqFreeSpace = 2 := by
  refine ⟨_, .single ⟨.add ⟨offloadMagic, 1, 1, 0, 0, 0, 0, 0, 0, 0⟩, rfl⟩, ?_⟩
  exact ⟨rfl, by decide, by decide⟩

end Traffic
end Azalea
