import Mathlib.Data.List.Nodup
import Mathlib.Tactic

namespace Chain

variable {α : Type*}

structure Cell (α : Type*) where
  value : α
  next : ℕ

abbrev Heap (α : Type*) := ℕ → Option (Cell α)

inductive Path (heap : Heap α) : ℕ → List (ℕ × α) → Prop
  | nil : Path heap 0 []
  | cons {p q : ℕ} {x : α} {l : List (ℕ × α)} (hp : p ≠ 0) (hc : heap p = some ⟨x, q⟩) (hl : Path heap q l) :
      Path heap p ((p, x) :: l)

def rearOf (l : List (ℕ × α)) : ℕ := (l.getLast?.map Prod.fst).getD 0

structure Store (α : Type*) where
  heap : Heap α
  front : ℕ
  rear : ℕ

namespace Store

def alloc (s : Store α) (p : ℕ) (x : α) : Store α := { s with heap := Function.update s.heap p (some ⟨x, 0⟩) }

def free (s : Store α) (p : ℕ) : Store α := { s with heap := Function.update s.heap p none }

def push (s : Store α) (p : ℕ) : Store α :=
  if s.front = 0 then { s with front := p, rear := p }
  else
    { s with
      heap := Function.update s.heap s.rear ((s.heap s.rear).map fun c => { c with next := p })
      rear := p }

def pop (s : Store α) : Store α :=
  match s.heap s.front with
  | none => s
  | some c => { s with front := c.next, rear := if c.next = 0 then 0 else s.rear }

structure Holds (s : Store α) (l : List (ℕ × α)) : Prop where
  path : Path s.heap s.front l
  rear : s.rear = rearOf l
  nodup : (l.map Prod.fst).Nodup

end Store

variable {heap heap' : Heap α} {s : Store α} {l l' : List (ℕ × α)} {p q : ℕ} {x : α}

@[simp] theorem Store.heap_alloc_self (s : Store α) : (s.alloc p x).heap p = some ⟨x, 0⟩ := Function.update_self ..

theorem Store.heap_alloc_of_ne (s : Store α) (hq : q ≠ p) : (s.alloc p x).heap q = s.heap q := Function.update_of_ne hq _ _

@[simp] theorem Store.heap_free_self (s : Store α) : (s.free p).heap p = none := Function.update_self ..

theorem Store.heap_free_of_ne (s : Store α) (hq : q ≠ p) : (s.free p).heap q = s.heap q := Function.update_of_ne hq _ _

theorem rearOf_mem (hl : l ≠ []) : rearOf l ∈ l.map Prod.fst := by
  rw [rearOf, List.getLast?_eq_some_getLast hl]
  exact List.mem_map_of_mem (List.getLast_mem _)

namespace Path

theorem front_eq_zero (h : Path heap p l) : p = 0 ↔ l = [] := by
  cases h with
  | nil => simp
  | cons hp _ _ => simp [hp]

theorem congr (h : Path heap p l) (hh : ∀ q ∈ l.map Prod.fst, heap' q = heap q) : Path heap' p l := by
  induction h with
  | nil => exact .nil
  | cons hp hc _ ih =>
    refine .cons hp ((hh _ List.mem_cons_self).trans hc) (ih fun q hq => ?_)
    exact hh q (List.mem_cons_of_mem _ hq)

theorem append (h : Path heap q l) (hl : l ≠ []) (hn : (l.map Prod.fst).Nodup) (hp : p ≠ 0)
    (hc : heap p = some ⟨x, 0⟩) (hout : p ∉ l.map Prod.fst) :
    Path (Function.update heap (rearOf l) ((heap (rearOf l)).map fun c => { c with next := p })) q (l ++ [(p, x)]) := by
  induction h with
  | nil => exact absurd rfl hl
  | @cons q r y l hq hcell hrest ih =>
    have hne : p ≠ q := fun he => hout (he ▸ List.mem_cons_self)
    cases l with
    | nil =>
      cases hrest
      have hr : rearOf [(q, y)] = q := rfl
      rw [hr, hcell]
      refine .cons hq (Function.update_self ..) (.cons hp ?_ .nil)
      rw [Function.update_of_ne hne, hc]
    | cons z l =>
      have hr : rearOf ((q, y) :: z :: l) = rearOf (z :: l) := by simp [rearOf]
      have hn' := List.nodup_cons.mp hn
      have hqr : q ≠ rearOf (z :: l) := fun he => hn'.1 (he ▸ rearOf_mem (List.cons_ne_nil z l))
      rw [hr]
      refine .cons hq ?_ (ih (List.cons_ne_nil z l) hn'.2 fun hm => hout (List.mem_cons_of_mem _ hm))
      rw [Function.update_of_ne hqr, hcell]

end Path

namespace Store.Holds

theorem front_eq_zero (h : s.Holds l) : s.front = 0 ↔ l = [] := h.path.front_eq_zero

theorem head (h : s.Holds ((p, x) :: l)) : s.front = p ∧ p ≠ 0 ∧ ∃ q, s.heap p = some ⟨x, q⟩ := by
  obtain ⟨hpath, -, -⟩ := h
  generalize s.front = f at hpath
  cases hpath with
  | cons hp hc hl => exact ⟨rfl, hp, _, hc⟩

theorem push (h : s.Holds l) (hp : p ≠ 0) (hc : s.heap p = some ⟨x, 0⟩) (hout : p ∉ l.map Prod.fst) :
    (s.push p).Holds (l ++ [(p, x)]) := by
  have hn : ((l ++ [(p, x)]).map Prod.fst).Nodup := by
    rw [List.map_append, List.nodup_append]
    refine ⟨h.nodup, by simp, ?_⟩
    rintro a ha b hb rfl
    obtain rfl := List.mem_singleton.mp hb
    exact hout ha
  refine ⟨?_, ?_, hn⟩
  · unfold Store.push
    split
    · next hf =>
      obtain rfl := h.front_eq_zero.mp hf
      exact .cons hp hc .nil
    · next hf =>
      have hl : l ≠ [] := fun he => hf (h.front_eq_zero.mpr he)
      rw [h.rear]
      exact h.path.append hl h.nodup hp hc hout
  · have hr : rearOf (l ++ [(p, x)]) = p := by simp [rearOf]
    rw [hr]
    unfold Store.push
    split <;> rfl

theorem heap_push (h : s.Holds l) (hq : q ∉ l.map Prod.fst) : (s.push p).heap q = s.heap q := by
  unfold Store.push
  split
  · rfl
  · next hf =>
    refine Function.update_of_ne (fun he => hq ?_) _ _
    rw [he, h.rear]
    exact rearOf_mem fun hl => hf (h.front_eq_zero.mpr hl)

theorem pop (h : s.Holds ((p, x) :: l)) : s.pop.Holds l := by
  obtain ⟨hpath, hrear, hn⟩ := h
  generalize hf : s.front = f at hpath
  cases hpath with
  | @cons _ q _ _ hp hc hl =>
    have hpop : s.pop = { s with front := q, rear := if q = 0 then 0 else s.rear } := by
      unfold Store.pop
      rw [hf, hc]
    rw [hpop]
    refine ⟨hl, ?_, (List.nodup_cons.mp hn).2⟩
    change (if q = 0 then 0 else s.rear) = _
    cases l with
    | nil => rw [if_pos (hl.front_eq_zero.mpr rfl)]; rfl
    | cons z l =>
      rw [if_neg fun he => List.cons_ne_nil z l (hl.front_eq_zero.mp he), hrear]
      simp [rearOf]

end Store.Holds

namespace Store

theorem heap_pop (s : Store α) : s.pop.heap = s.heap := by
  unfold pop
  split <;> rfl

theorem value_push (s : Store α) (p q : ℕ) : ((s.push p).heap q).map Cell.value = (s.heap q).map Cell.value := by
  unfold push
  split
  · rfl
  · change (Function.update s.heap s.rear _ q).map Cell.value = _
    by_cases hq : q = s.rear
    · rw [hq, Function.update_self, Option.map_map]
      rfl
    · rw [Function.update_of_ne hq]

def Keeps (s s' : Store α) : Prop := ∀ p c c', s.heap p = some c → s'.heap p = some c' → c'.value = c.value

theorem Keeps.of_eq {s s' : Store α} (h : s'.heap = s.heap) : s.Keeps s' := by
  intro p c c' hc hc'
  rw [h] at hc'
  rw [Option.some.inj (hc.symm.trans hc')]

theorem keeps_free (s : Store α) (q : ℕ) : s.Keeps (s.free q) := by
  intro p c c' hc hc'
  by_cases hp : p = q
  · subst hp
    rw [heap_free_self] at hc'
    cases hc'
  · rw [heap_free_of_ne _ hp, hc] at hc'
    rw [Option.some.inj hc']

theorem keeps_alloc {s : Store α} {q : ℕ} (hq : s.heap q = none) (x : α) : s.Keeps (s.alloc q x) := by
  intro p c c' hc hc'
  by_cases hp : p = q
  · subst hp
    rw [hq] at hc
    cases hc
  · rw [heap_alloc_of_ne _ hp, hc] at hc'
    rw [Option.some.inj hc']

theorem keeps_push (s : Store α) (q : ℕ) : s.Keeps (s.push q) := by
  intro p c c' hc hc'
  have hv := s.value_push q p
  rw [hc, hc'] at hv
  exact Option.some.inj hv

end Store
end Chain
