import Mathlib.Data.List.Basic
import Mathlib.Data.List.Nodup
import Mathlib.Tactic

@[ext] structure Links (α : Type*) where
  next : α → α
  prev : α → α

namespace Links

variable {α : Type*}

def Seg (m : Links α) : α → List α → α → Prop
  | a, [], b => m.next a = b ∧ m.prev b = a
  | a, x :: xs, b => (m.next a = x ∧ m.prev x = a) ∧ Seg m x xs b

structure Circle (m : Links α) (h : α) (xs : List α) : Prop where
  nodup : (h :: xs).Nodup
  seg : m.Seg h xs h

def Kept (m m' : Links α) (x : α) : Prop := m'.next x = m.next x ∧ m'.prev x = m.prev x

variable [DecidableEq α]

def setNext (m : Links α) (a b : α) : Links α := { m with next := Function.update m.next a b }

def setPrev (m : Links α) (a b : α) : Links α := { m with prev := Function.update m.prev a b }

def join (m : Links α) (a b : α) : Links α := (m.setNext a b).setPrev b a

variable {m m' : Links α} {a b c d h i t : α} {xs ys : List α}

@[simp] theorem next_setNext : (m.setNext a b).next = Function.update m.next a b := rfl

@[simp] theorem prev_setNext : (m.setNext a b).prev = m.prev := rfl

@[simp] theorem next_setPrev : (m.setPrev a b).next = m.next := rfl

@[simp] theorem prev_setPrev : (m.setPrev a b).prev = Function.update m.prev a b := rfl

@[simp] theorem next_join : (m.join a b).next = Function.update m.next a b := rfl

@[simp] theorem prev_join : (m.join a b).prev = Function.update m.prev b a := rfl

theorem join_comm (h : a ≠ c) (h' : b ≠ d) : (m.join a b).join c d = (m.join c d).join a b := by
  ext x
  · simp [Function.update_comm h]
  · simp [Function.update_comm h']

omit [DecidableEq α] in
theorem Kept.trans {m'' : Links α} {x : α} (h : Kept m m' x) (h' : Kept m' m'' x) : Kept m m'' x :=
  ⟨h'.1.trans h.1, h'.2.trans h.2⟩

theorem kept_join {x : α} (ha : x ≠ a) (hb : x ≠ b) : Kept m (m.join a b) x :=
  ⟨Function.update_of_ne ha _ _, Function.update_of_ne hb _ _⟩

omit [DecidableEq α] in
theorem headD_mem (xs : List α) (b : α) : xs.headD b ∈ xs ++ [b] := by
  cases xs <;> simp

namespace Seg

omit [DecidableEq α] in
theorem joined (h : m.Seg a xs b) : m.next (xs.getLastD a) = b ∧ m.prev b = xs.getLastD a := by
  induction xs generalizing a with
  | nil => exact h
  | cons x xs ih =>
    rw [List.getLastD_cons]
    exact ih h.2

omit [DecidableEq α] in
theorem first (h : m.Seg a xs b) : m.next a = xs.headD b ∧ m.prev (xs.headD b) = a := by
  cases xs with
  | nil => exact h
  | cons x xs => exact h.1

omit [DecidableEq α] in
theorem congr (h : m.Seg a xs b) (hn : ∀ x ∈ a :: xs, m'.next x = m.next x) (hp : ∀ x ∈ xs ++ [b], m'.prev x = m.prev x) :
    m'.Seg a xs b := by
  induction xs generalizing a with
  | nil => exact ⟨(hn a (by simp)).trans h.1, (hp b (by simp)).trans h.2⟩
  | cons x xs ih =>
    obtain ⟨⟨ha, hx⟩, hs⟩ := h
    refine ⟨⟨(hn a (by simp)).trans ha, (hp x (by simp)).trans hx⟩, ih hs (fun y hy => ?_) fun y hy => ?_⟩
    · exact hn y (List.mem_cons_of_mem _ hy)
    · exact hp y (List.mem_cons_of_mem _ hy)

theorem join (h : m.Seg a xs b) (hc : c ∉ a :: xs) (hd : d ∉ xs ++ [b]) : (m.join c d).Seg a xs b := by
  refine h.congr (fun x hx => ?_) fun x hx => ?_
  · exact Function.update_of_ne (ne_of_mem_of_not_mem hx hc) _ _
  · exact Function.update_of_ne (ne_of_mem_of_not_mem hx hd) _ _

theorem redirect (h : m.Seg a xs b) (hn : (a :: xs).Nodup) (hc : c ∉ xs) : (m.join (xs.getLastD a) c).Seg a xs c := by
  induction xs generalizing a with
  | nil => exact ⟨Function.update_self .., Function.update_self ..⟩
  | cons x xs ih =>
    obtain ⟨⟨ha, hx⟩, hs⟩ := h
    obtain ⟨hax, hn⟩ := List.nodup_cons.mp hn
    obtain ⟨hxc, hc⟩ := not_or.mp (mt List.mem_cons.mpr hc)
    have hlast : a ≠ xs.getLastD x := fun he => hax (he ▸ List.getLastD_mem_cons)
    rw [List.getLastD_cons]
    refine ⟨⟨?_, ?_⟩, ih hs hn hc⟩
    · rw [next_join, Function.update_of_ne hlast, ha]
    · rw [prev_join, Function.update_of_ne (Ne.symm hxc), hx]

theorem restart (h : m.Seg a xs b) (hn : (xs ++ [b]).Nodup) (hc : c ∉ xs) : (m.join c (xs.headD b)).Seg c xs b := by
  cases xs with
  | nil => exact ⟨Function.update_self .., Function.update_self ..⟩
  | cons x xs => exact ⟨⟨Function.update_self .., Function.update_self ..⟩, h.2.join hc (List.nodup_cons.mp hn).1⟩

end Seg

omit [DecidableEq α] in
theorem seg_append : m.Seg a (xs ++ ys) b ↔ m.Seg a xs (ys.headD b) ∧ m.Seg (xs.getLastD a) ys b := by
  induction xs generalizing a with
  | nil => exact ⟨fun h => ⟨h.first, h⟩, fun h => h.2⟩
  | cons x xs ih =>
    rw [List.cons_append, List.getLastD_cons, Seg, Seg, ih, ← and_assoc]

omit [DecidableEq α] in
theorem seg_append_cons : m.Seg a (xs ++ t :: ys) b ↔ m.Seg a xs t ∧ m.Seg t ys b := by
  rw [seg_append]
  exact ⟨fun h => ⟨h.1, h.2.2⟩, fun h => ⟨h.1, h.1.joined, h.2⟩⟩

namespace Circle

theorem single (m : Links α) (h : α) : (m.join h h).Circle h [] :=
  ⟨List.nodup_singleton h, Function.update_self .., Function.update_self ..⟩

omit [DecidableEq α] in
theorem congr (hc : m.Circle h xs) (hn : ∀ x ∈ h :: xs, Kept m m' x) : m'.Circle h xs := by
  refine ⟨hc.nodup, hc.seg.congr (fun x hx => (hn x hx).1) fun x hx => (hn x ?_).2⟩
  rcases List.mem_append.mp hx with hx | hx
  · exact List.mem_cons_of_mem _ hx
  · rw [List.mem_singleton.mp hx]
    exact List.mem_cons_self

omit [DecidableEq α] in
theorem prev_header (hc : m.Circle h xs) : m.prev h = xs.getLastD h := hc.seg.joined.2

omit [DecidableEq α] in
theorem next_header (hc : m.Circle h xs) : m.next h = xs.headD h := hc.seg.first.1

theorem insert (hc : m.Circle h (xs ++ ys)) (ht : t ∉ h :: (xs ++ ys)) :
    ((m.join t (ys.headD h)).join (xs.getLastD h) t).Circle h (xs ++ t :: ys) := by
  obtain ⟨hnd, hseg⟩ := hc
  obtain ⟨hxs, hys⟩ := seg_append.mp hseg
  have hlast : xs.getLastD h ∈ h :: xs := List.getLastD_mem_cons
  have hhead := headD_mem ys h
  have hback := hxs.redirect (c := t) (by grind) (by grind)
  have hforth := hys.restart (c := t) (by grind) (by grind)
  refine ⟨by grind, seg_append_cons.mpr ⟨?_, hforth.join (by grind) (by grind)⟩⟩
  rw [join_comm (by grind) (by grind)]
  exact hback.join (by grind) (by grind)

theorem remove (hc : m.Circle h (xs ++ t :: ys)) :
    (m.join (xs.getLastD h) (ys.headD h)).Circle h (xs ++ ys) := by
  obtain ⟨hnd, hseg⟩ := hc
  obtain ⟨hxs, hys⟩ := seg_append_cons.mp hseg
  have hlast : xs.getLastD h ∈ h :: xs := List.getLastD_mem_cons
  have hhead := headD_mem ys h
  exact ⟨by grind, seg_append.mpr ⟨hxs.redirect (by grind) (by grind), hys.restart (by grind) (by grind)⟩⟩

theorem append (hi : m.Circle i (a :: xs)) (hh : m.Circle h ys) (hd : (i :: a :: xs).Disjoint (h :: ys)) :
    ((m.join (ys.getLastD h) a).join (xs.getLastD a) h).Circle h (ys ++ a :: xs) := by
  obtain ⟨hnd, hseg⟩ := hi
  obtain ⟨hnd', hys⟩ := hh
  have hall : (h :: ys ++ i :: a :: xs).Nodup := hnd'.append hnd hd.symm
  have hlast : ys.getLastD h ∈ h :: ys := List.getLastD_mem_cons
  have hlast' : xs.getLastD a ∈ a :: xs := List.getLastD_mem_cons
  have hleft := hys.redirect (c := a) (by grind) (by grind)
  have hright := hseg.2.join (c := ys.getLastD h) (d := a) (by grind) (by grind)
  exact ⟨by grind, seg_append_cons.mpr ⟨hleft.join (by grind) (by grind), hright.redirect (by grind) (by grind)⟩⟩

end Circle
end Links
