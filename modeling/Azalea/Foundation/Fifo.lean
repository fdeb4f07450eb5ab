import Mathlib.Tactic

namespace Fifo

def distance (size tail head : ℕ) : ℕ := if tail ≤ head then head - tail else head + size - tail

def place (size tail i : ℕ) : ℕ := if tail + i < size then tail + i else tail + i - size

structure Buffer (α : Type*) where
  head : ℕ
  tail : ℕ
  size : ℕ
  data : ℕ → α

namespace Buffer
variable {α : Type*} {b : Buffer α} {x : α}

structure Bounded (b : Buffer α) : Prop where
  head : b.head < b.size
  tail : b.tail < b.size

def length (b : Buffer α) : ℕ := distance b.size b.tail b.head

def slot (b : Buffer α) (i : ℕ) : ℕ := place b.size b.tail i

def contents (b : Buffer α) : List α := (List.range b.length).map fun i => b.data (b.slot i)

def next (b : Buffer α) (i : ℕ) : ℕ := (i + 1) % b.size

def write (b : Buffer α) (x : α) : Buffer α := { b with data := Function.update b.data b.head x }

def publish (b : Buffer α) : Buffer α := { b with head := b.next b.head }

def advance (b : Buffer α) : Buffer α := { b with tail := b.next b.tail }

theorem next_eq {i : ℕ} (h : i < b.size) : b.next i = if i + 1 = b.size then 0 else i + 1 := by
  unfold next
  split_ifs with he
  · rw [he, Nat.mod_self]
  · exact Nat.mod_eq_of_lt (by omega)

theorem next_lt (h : b.Bounded) (i : ℕ) : b.next i < b.size := Nat.mod_lt _ (Nat.zero_lt_of_lt h.head)

theorem length_lt (h : b.Bounded) : b.length < b.size := by
  have := h.head
  have := h.tail
  unfold length distance
  split_ifs <;> omega

theorem length_eq_zero (h : b.Bounded) : b.length = 0 ↔ b.head = b.tail := by
  have := h.head
  have := h.tail
  unfold length distance
  split_ifs <;> omega

theorem next_tail_eq_head (h : b.Bounded) (h2 : 2 ≤ b.size) : b.next b.tail = b.head ↔ b.length = 1 := by
  have := h.head
  have := h.tail
  rw [next_eq h.tail]
  unfold length distance
  split_ifs <;> omega

theorem slot_eq_mod (h : b.Bounded) {i : ℕ} (hi : i < b.size) : b.slot i = (b.tail + i) % b.size := by
  have := h.tail
  unfold slot place
  split_ifs with hlt
  · exact (Nat.mod_eq_of_lt hlt).symm
  · rw [Nat.mod_eq_sub_mod (by omega), Nat.mod_eq_of_lt (by omega)]

theorem slot_length (h : b.Bounded) : b.slot b.length = b.head := by
  have := h.head
  have := h.tail
  unfold slot place length distance
  split_ifs <;> omega

theorem slot_ne_head (h : b.Bounded) {i : ℕ} (hi : i < b.length) : b.slot i ≠ b.head := by
  have := h.head
  have := h.tail
  unfold slot place length distance at *
  split_ifs at * <;> omega

theorem slot_zero (h : b.Bounded) : b.slot 0 = b.tail := by
  have := h.tail
  unfold slot place
  split_ifs <;> omega

theorem write_bounded (h : b.Bounded) : (b.write x).Bounded := ⟨h.head, h.tail⟩

theorem publish_bounded (h : b.Bounded) : b.publish.Bounded := ⟨next_lt h _, h.tail⟩

theorem advance_bounded (h : b.Bounded) : b.advance.Bounded := ⟨h.head, next_lt h _⟩

theorem write_contents (h : b.Bounded) (x : α) : (b.write x).contents = b.contents := by
  refine List.map_congr_left fun i hi => ?_
  exact Function.update_of_ne (slot_ne_head h (List.mem_range.mp hi)) _ _

theorem write_head (b : Buffer α) (x : α) : (b.write x).data (b.write x).head = x := Function.update_self _ _ _

theorem write_tail (h : b.Bounded) (h0 : 0 < b.length) (x : α) :
    (b.write x).data (b.write x).tail = b.data b.tail := by
  have hne := slot_ne_head h h0
  rw [slot_zero h] at hne
  exact Function.update_of_ne hne _ _

theorem publish_length (h : b.Bounded) (hroom : b.length + 1 < b.size) : b.publish.length = b.length + 1 := by
  have hhead := h.head
  have htail := h.tail
  change distance b.size b.tail (b.next b.head) = _
  rw [next_eq hhead]
  unfold length distance at *
  split_ifs at * <;> omega

theorem advance_length (h : b.Bounded) (h0 : 0 < b.length) : b.advance.length + 1 = b.length := by
  have hhead := h.head
  have htail := h.tail
  change distance b.size (b.next b.tail) b.head + 1 = _
  rw [next_eq htail]
  unfold length distance at *
  split_ifs at * <;> omega

theorem publish_contents (h : b.Bounded) (hroom : b.length + 1 < b.size) :
    b.publish.contents = b.contents ++ [b.data b.head] := by
  rw [contents, publish_length h hroom, List.range_succ, List.map_append, List.map_singleton]
  congr 2
  exact congrArg b.data (slot_length h)

theorem advance_slot (h : b.Bounded) {i : ℕ} (hi : i + 1 < b.size) : b.advance.slot i = b.slot (i + 1) := by
  have htail := h.tail
  change place b.size (b.next b.tail) i = _
  rw [next_eq htail]
  unfold slot place
  split_ifs <;> omega

theorem contents_eq_cons (h : b.Bounded) (h0 : 0 < b.length) :
    b.contents = b.data b.tail :: b.advance.contents := by
  have hlen := advance_length h h0
  have hlt := length_lt h
  rw [contents, contents, ← hlen, List.range_succ_eq_map, List.map_cons, slot_zero h, List.map_map]
  congr 1
  refine List.map_congr_left fun i hi => ?_
  have hi := List.mem_range.mp hi
  exact congrArg b.data (advance_slot h (by omega)).symm

end Buffer
end Fifo
