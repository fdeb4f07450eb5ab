import Mathlib.Data.List.Basic
import Mathlib.Data.Finset.Card
import Mathlib.Tactic

namespace Shelf

set_option linter.unusedSectionVars false

variable {ι α : Type*} [DecidableEq ι] [DecidableEq α] {f : ι → List α} {a b : α} {i j : ι}

def remove (f : ι → List α) (a : α) : ι → List α := fun i => (f i).erase a

def insert (f : ι → List α) (i : ι) (a : α) : ι → List α := Function.update f i (f i ++ [a])

def move (f : ι → List α) (a : α) (i : ι) : ι → List α := insert (remove f a) i a

def splice (f : ι → List α) (i j : ι) : ι → List α :=
  Function.update (Function.update f j (f j ++ f i)) i []

structure Exclusive (f : ι → List α) : Prop where
  nodup : ∀ i, (f i).Nodup
  once : ∀ {i j a}, a ∈ f i → a ∈ f j → i = j

theorem mem_insert : b ∈ insert f i a j ↔ b ∈ f j ∨ b = a ∧ j = i := by
  by_cases hj : j = i
  · subst hj
    simp [insert]
  · simp [insert, hj]

theorem insert_of_ne (h : j ≠ i) : insert f i a j = f j := Function.update_of_ne h _ _

theorem length_insert : (insert f i a i).length = (f i).length + 1 := by
  simp [insert]

theorem remove_of_not_mem (h : a ∉ f i) : remove f a i = f i := List.erase_of_not_mem h

theorem length_remove (h : a ∈ f i) : (remove f a i).length + 1 = (f i).length := by
  have hl := List.length_erase_of_mem h
  have hp := List.length_pos_of_mem h
  simp only [remove]
  omega

theorem move_of_ne (h : j ≠ i) (ha : a ∉ f j) : move f a i j = f j := by
  rw [move, insert_of_ne h, remove_of_not_mem ha]

theorem length_move_self (ha : a ∉ f i) :
    (move f a i i).length = (f i).length + 1 := by
  rw [move, length_insert, remove_of_not_mem ha]

theorem length_move_source (h : a ∈ f j) (hj : j ≠ i) : (move f a i j).length + 1 = (f j).length := by
  rw [move, insert_of_ne hj, length_remove h]

theorem mem_splice (h : i ≠ j) {k : ι} :
    a ∈ splice f i j k ↔ (a ∈ f k ∧ k ≠ i) ∨ (a ∈ f i ∧ k = j) := by
  unfold splice
  by_cases hi : k = i
  · subst hi
    simp [h]
  · rw [Function.update_of_ne hi]
    by_cases hj : k = j
    · subst hj
      simp [Ne.symm h]
    · simp [hj, hi]

section Map

variable {β : Type*} [DecidableEq β] (g : α → β) (f : ι → List α)

theorem map_insert (i : ι) (a : α) :
    (fun j => (insert f i a j).map g) = insert (fun j => (f j).map g) i (g a) := by
  funext j
  by_cases hj : j = i
  · subst hj
    simp [insert]
  · simp [insert_of_ne hj]

theorem map_remove {g : α → β} (hg : Function.Injective g) (a : α) :
    (fun j => (remove f a j).map g) = remove (fun j => (f j).map g) (g a) := by
  funext j
  exact List.map_erase hg (f j)

theorem map_splice (i j : ι) : (fun k => (splice f i j k).map g) = splice (fun k => (f k).map g) i j := by
  funext k
  by_cases hi : k = i
  · subst hi
    simp [splice]
  · by_cases hj : k = j
    · subst hj
      simp [splice, hi]
    · simp [splice, hi, hj]

end Map

namespace Exclusive

theorem mem_remove (h : Exclusive f) : b ∈ remove f a i ↔ b ≠ a ∧ b ∈ f i := (h.nodup i).mem_erase_iff

theorem not_mem_remove (h : Exclusive f) : a ∉ remove f a i := fun ha => (h.mem_remove.mp ha).1 rfl

theorem mem_move (h : Exclusive f) : b ∈ move f a i j ↔ b ≠ a ∧ b ∈ f j ∨ b = a ∧ j = i := by
  rw [move, mem_insert, h.mem_remove]

theorem mem_move_of_ne (h : Exclusive f) (hb : b ≠ a) : b ∈ move f a i j ↔ b ∈ f j := by
  simp [h.mem_move, hb]

theorem mem_move_self (h : Exclusive f) : a ∈ move f a i j ↔ j = i := by
  simp [h.mem_move]

theorem not_mem (h : Exclusive f) (ha : a ∈ f i) (hj : j ≠ i) : a ∉ f j := fun ha' => hj (h.once ha' ha)

theorem length_move (h : Exclusive f) {k : ι} (ha : a ∈ f k) (hki : k ≠ i) :
    (move f a i j).length + (if j = k then 1 else 0) = (f j).length + if j = i then 1 else 0 := by
  by_cases hjk : j = k
  · subst hjk
    rw [if_pos rfl, if_neg hki, length_move_source ha hki, Nat.add_zero]
  · rw [if_neg hjk]
    by_cases hji : j = i
    · subst hji
      rw [if_pos rfl, length_move_self (h.not_mem ha hjk), Nat.add_zero]
    · rw [if_neg hji, move_of_ne hji (h.not_mem ha hjk)]

theorem removed (h : Exclusive f) : Exclusive (remove f a) where
  nodup i := (h.nodup i).erase a
  once hi hj := h.once (h.mem_remove.mp hi).2 (h.mem_remove.mp hj).2

theorem inserted (h : Exclusive f) (ha : ∀ j, a ∉ f j) : Exclusive (insert f i a) where
  nodup j := by
    by_cases hj : j = i
    · subst hj
      have hd : (f j).Disjoint [a] := List.disjoint_singleton.mpr (ha j)
      simpa [insert] using (h.nodup j).append (List.nodup_singleton a) hd
    · simpa [insert_of_ne hj] using h.nodup j
  once {j k b} hj hk := by
    rcases mem_insert.mp hj with hj | ⟨hb, hj⟩ <;> rcases mem_insert.mp hk with hk | ⟨hb', hk⟩
    · exact h.once hj hk
    · exact absurd (hb' ▸ hj) (ha j)
    · exact absurd (hb ▸ hk) (ha k)
    · exact hj.trans hk.symm

theorem moved (h : Exclusive f) : Exclusive (move f a i) := h.removed.inserted fun _ => h.not_mem_remove

theorem spliced (h : Exclusive f) (hij : i ≠ j) : Exclusive (splice f i j) where
  nodup k := by
    unfold splice
    by_cases hi : k = i
    · subst hi
      simp
    · rw [Function.update_of_ne hi]
      by_cases hj : k = j
      · subst hj
        rw [Function.update_self]
        exact (h.nodup k).append (h.nodup i) fun _ hk hi => hij (h.once hi hk)
      · rw [Function.update_of_ne hj]
        exact h.nodup k
  once {k l b} hk hl := by
    rcases (mem_splice hij).mp hk with ⟨hk, hki⟩ | ⟨hk, hkj⟩ <;>
      rcases (mem_splice hij).mp hl with ⟨hl, hli⟩ | ⟨hl, hlj⟩
    · exact h.once hk hl
    · exact absurd (h.once hk hl) hki
    · exact absurd (h.once hl hk) hli
    · exact hkj.trans hlj.symm

end Exclusive

theorem length_le_of_lt {l : List ℕ} {n : ℕ} (h : l.Nodup) (hb : ∀ x ∈ l, x < n) : l.length ≤ n := by
  have hs : l.toFinset ⊆ Finset.range n := fun x hx =>
    Finset.mem_range.mpr (hb x (List.mem_toFinset.mp hx))
  simpa [List.toFinset_card_of_nodup h] using Finset.card_le_card hs

end Shelf
