import Mathlib.Tactic

namespace Ring

variable {α : Type*} {size rpos wpos i j : ℕ} {mark x : α} {data : ℕ → α} {l : List α}

def cell (size rpos i : ℕ) : ℕ := (rpos + i) % size

theorem cell_inj (hi : i < size) (hj : j < size) (h : cell size rpos i = cell size rpos j) : i = j := by
  have hm : i ≡ j [MOD size] := Nat.ModEq.add_left_cancel' rpos h
  exact hm.eq_of_lt_of_lt hi hj

theorem cell_zero (h : rpos < size) : cell size rpos 0 = rpos := Nat.mod_eq_of_lt h

theorem cell_succ : cell size (cell size rpos 1) i = cell size rpos (i + 1) := by
  unfold cell
  rw [Nat.mod_add_mod, Nat.add_assoc, Nat.add_comm 1 i]

structure Holds (size : ℕ) (mark : α) (data : ℕ → α) (rpos wpos : ℕ) (l : List α) : Prop where
  bound : rpos < size
  fits : l.length ≤ size
  next : wpos = cell size rpos l.length
  filled : ∀ {i}, i < l.length → l[i]? = some (data (cell size rpos i))
  vacant : ∀ {j}, j < size → (∀ i < l.length, j ≠ cell size rpos i) → data j = mark
  unmarked : mark ∉ l

theorem holds_nil (h : 0 < size) : Holds size mark (fun _ => mark) 0 0 [] where
  bound := h
  fits := Nat.zero_le _
  next := (Nat.zero_mod _).symm
  filled hi := absurd hi (by simp)
  vacant _ _ := rfl
  unmarked := by simp

namespace Holds

theorem head (h : Holds size mark data rpos wpos (x :: l)) : data rpos = x := by
  have hf := h.filled (i := 0) (by simp)
  rw [cell_zero h.bound] at hf
  simpa using hf.symm

theorem head_eq_mark_iff (h : Holds size mark data rpos wpos l) : data rpos = mark ↔ l = [] := by
  cases l with
  | nil => exact iff_of_true (h.vacant h.bound (by simp)) rfl
  | cons x l =>
    refine iff_of_false ?_ (by simp)
    rw [h.head]
    exact fun he => h.unmarked (by simp [he])

theorem push (h : Holds size mark data rpos wpos l) (hroom : l.length < size) (hx : x ≠ mark) :
    Holds size mark (Function.update data wpos x) rpos (cell size wpos 1) (l ++ [x]) where
  bound := h.bound
  fits := by
    rw [List.length_append]
    exact hroom
  next := by
    rw [h.next, cell, cell, Nat.mod_add_mod, List.length_append, Nat.add_assoc]
    rfl
  filled {i} hi := by
    rw [List.length_append, List.length_singleton] at hi
    rcases Nat.lt_succ_iff_lt_or_eq.mp hi with hi | rfl
    · rw [List.getElem?_append_left hi, h.filled hi, Function.update_of_ne]
      rw [h.next]
      exact fun he => absurd (cell_inj (hi.trans hroom) hroom he) (Nat.ne_of_lt hi)
    · rw [List.getElem?_concat_length, ← h.next, Function.update_self]
  vacant {j} hj hn := by
    rw [List.length_append, List.length_singleton] at hn
    rw [Function.update_of_ne]
    · exact h.vacant hj fun i hi => hn i (Nat.lt_succ_of_lt hi)
    · rw [h.next]
      exact hn _ (Nat.lt_succ_self _)
  unmarked hm := by
    rcases List.mem_append.mp hm with hm | hm
    · exact h.unmarked hm
    · exact hx (List.mem_singleton.mp hm).symm

theorem pop (h : Holds size mark data rpos wpos (x :: l)) :
    Holds size mark (Function.update data rpos mark) (cell size rpos 1) wpos l where
  bound := Nat.mod_lt _ (Nat.zero_lt_of_lt h.bound)
  fits := (Nat.le_succ _).trans h.fits
  next := by
    rw [h.next, cell_succ]
    rfl
  filled {i} hi := by
    have hf := h.filled (i := i + 1) (Nat.succ_lt_succ hi)
    rw [List.getElem?_cons_succ] at hf
    rw [cell_succ, hf, Function.update_of_ne]
    intro he
    have hlt : i + 1 < size := (Nat.succ_lt_succ hi).trans_le h.fits
    have h0 := cell_inj hlt (Nat.zero_lt_of_lt hlt) (he.trans (cell_zero h.bound).symm)
    exact absurd h0 (Nat.succ_ne_zero i)
  vacant {j} hj hn := by
    by_cases hjr : j = rpos
    · rw [hjr, Function.update_self]
    · rw [Function.update_of_ne hjr]
      refine h.vacant hj fun i hi => ?_
      cases i with
      | zero => rwa [cell_zero h.bound]
      | succ i =>
        rw [← cell_succ]
        exact hn i (Nat.lt_of_succ_lt_succ hi)
  unmarked hm := h.unmarked (List.mem_cons_of_mem x hm)

end Holds

section Occupied

variable [DecidableEq α]

def occupied (size : ℕ) (mark : α) (data : ℕ → α) (rpos wpos : ℕ) : ℕ :=
  if rpos = wpos then if data rpos = mark then 0 else size else (wpos + size - rpos) % size

def contents (size : ℕ) (mark : α) (data : ℕ → α) (rpos wpos : ℕ) : List α :=
  (List.range (occupied size mark data rpos wpos)).map fun i => data (cell size rpos i)

theorem Holds.occupied_eq (h : Holds size mark data rpos wpos l) : occupied size mark data rpos wpos = l.length := by
  have hr := h.bound
  have hnext := h.next
  unfold occupied
  rcases Nat.eq_zero_or_pos l.length with h0 | hpos
  · have hnil := List.length_eq_zero_iff.mp h0
    rw [h0, cell_zero hr] at hnext
    rw [if_pos hnext.symm, if_pos (h.head_eq_mark_iff.mpr hnil), h0]
  have hmark : data rpos ≠ mark := fun he => by simp [h.head_eq_mark_iff.mp he] at hpos
  rcases h.fits.lt_or_eq with hlt | hfull
  · have hne : rpos ≠ wpos := by
      intro he
      rw [hnext] at he
      exact absurd (cell_inj hlt (hpos.trans hlt) (he.symm.trans (cell_zero hr).symm)) (Nat.pos_iff_ne_zero.mp hpos)
    rw [if_neg hne]
    by_cases hwrap : rpos + l.length < size
    · rw [hnext, cell, Nat.mod_eq_of_lt hwrap, show rpos + l.length + size - rpos = l.length + size by omega,
        Nat.add_mod_right, Nat.mod_eq_of_lt hlt]
    · have hw : (rpos + l.length) % size = rpos + l.length - size := by
        rw [Nat.mod_eq_sub_mod (Nat.le_of_not_lt hwrap), Nat.mod_eq_of_lt (by omega)]
      rw [hnext, cell, hw, show rpos + l.length - size + size - rpos = l.length by omega, Nat.mod_eq_of_lt hlt]
  · rw [hfull, cell, Nat.add_mod_right, Nat.mod_eq_of_lt hr] at hnext
    rw [if_pos hnext.symm, if_neg hmark, hfull]

theorem Holds.contents_eq (h : Holds size mark data rpos wpos l) : contents size mark data rpos wpos = l := by
  refine List.ext_getElem? fun i => ?_
  rw [contents, h.occupied_eq, List.getElem?_map]
  by_cases hi : i < l.length
  · rw [List.getElem?_range hi, h.filled hi]
    rfl
  · have hi := Nat.le_of_not_lt hi
    rw [List.getElem?_eq_none hi, List.getElem?_eq_none (by simpa using hi)]
    rfl

end Occupied

end Ring
