import Mathlib.Tactic
import Mathlib.Data.Fintype.Card

namespace Ticket

structure Line (ι : Type*) where
  left : List ι
  line : List ι
  entered : Bool

namespace Line
variable {ι : Type*}

def empty : Line ι := ⟨[], [], false⟩

def arrivals (l : Line ι) : List ι := l.left ++ l.line

def admitted (l : Line ι) : List ι := l.left ++ if l.entered then l.line.take 1 else []

def arrive (l : Line ι) (i : ι) : Line ι := { l with line := l.line ++ [i] }

def enter (l : Line ι) : Line ι := { l with entered := true }

def leave (l : Line ι) : Line ι := ⟨l.left ++ l.line.take 1, l.line.drop 1, false⟩

def number (w base : ℕ) (l : Line ι) (k : ℕ) : BitVec w := BitVec.ofNat w (base + l.left.length + k)

variable {l : Line ι} {i : ι} {w base k : ℕ}

theorem admitted_prefix (l : Line ι) : l.admitted <+: l.arrivals := by
  apply (List.prefix_append_right_inj l.left).mpr
  cases l.entered with
  | false => exact List.nil_prefix
  | true => exact List.take_prefix 1 l.line

theorem arrivals_arrive (l : Line ι) (i : ι) : (l.arrive i).arrivals = l.arrivals ++ [i] :=
  (List.append_assoc ..).symm

theorem admitted_arrive (he : l.entered = true → l.line ≠ []) : (l.arrive i).admitted = l.admitted := by
  unfold admitted arrive
  cases hent : l.entered with
  | false => rfl
  | true =>
    obtain ⟨a, rest, hl⟩ := List.exists_cons_of_ne_nil (he hent)
    rw [hl]
    rfl

theorem admitted_enter (he : l.entered = false) (hi : l.line.head? = some i) :
    l.enter.admitted = l.admitted ++ [i] := by
  obtain ⟨rest, hl⟩ := List.head?_eq_some_iff.mp hi
  simp [admitted, enter, he, hl]

theorem arrivals_leave (l : Line ι) : l.leave.arrivals = l.arrivals := by
  unfold arrivals leave
  rw [List.append_assoc, List.take_append_drop]

theorem admitted_leave (he : l.entered = true) : l.leave.admitted = l.admitted := by
  simp [admitted, leave, he]

theorem number_add_one (w base : ℕ) (l : Line ι) (k : ℕ) : l.number w base k + 1 = l.number w base (k + 1) := by
  unfold number
  rw [← Nat.add_assoc, BitVec.ofNat_add _ 1]
  rfl

theorem number_leave (hl : l.line ≠ []) : l.leave.number w base k = l.number w base (k + 1) := by
  obtain ⟨a, rest, hl⟩ := List.exists_cons_of_ne_nil hl
  unfold number leave
  rw [hl]
  simp only [List.take_succ_cons, List.take_zero, List.length_append, List.length_singleton]
  congr 1
  omega

theorem number_eq_first (hk : k < 2 ^ w) (h : l.number w base k = l.number w base 0) : k = 0 := by
  have hmod : (base + l.left.length + k) % 2 ^ w = (base + l.left.length + 0) % 2 ^ w := by
    simpa [number, BitVec.toNat_ofNat] using congrArg BitVec.toNat h
  have hk0 : k % 2 ^ w = 0 % 2 ^ w := Nat.ModEq.add_left_cancel' _ hmod
  rwa [Nat.mod_eq_of_lt hk, Nat.zero_mod] at hk0

end Line

structure Serves {ι : Type*} {w : ℕ} (base : ℕ) (l : Line ι) (next serving : BitVec w)
    (ticket : ι → Option (BitVec w)) (inside : ι → Prop) : Prop where
  next_eq : next = l.number w base l.line.length
  serving_eq : serving = l.number w base 0
  nodup : l.line.Nodup
  mem : ∀ {i}, (ticket i).isSome ↔ i ∈ l.line
  number : ∀ {k i}, l.line[k]? = some i → ticket i = some (l.number w base k)
  head : ∀ {i}, inside i ↔ l.entered = true ∧ l.line.head? = some i
  nonempty : l.entered = true → l.line ≠ []

namespace Serves
variable {ι : Type*} {w base : ℕ} {l : Line ι} {next serving : BitVec w}
  {ticket : ι → Option (BitVec w)} {inside : ι → Prop} {i j : ι}

theorem empty (w base : ℕ) : Serves base (Line.empty : Line ι) (BitVec.ofNat w base) (BitVec.ofNat w base)
    (fun _ => none) (fun _ => False) where
  next_eq := rfl
  serving_eq := rfl
  nodup := List.nodup_nil
  mem := by simp [Line.empty]
  number := by simp [Line.empty]
  head := by simp [Line.empty]
  nonempty := by simp [Line.empty]

theorem exclusive (h : Serves base l next serving ticket inside) (hi : inside i) (hj : inside j) : i = j := by
  have hij := (h.head.mp hi).2.symm.trans (h.head.mp hj).2
  exact Option.some_inj.mp hij

theorem fits [Fintype ι] (h : Serves base l next serving ticket inside) : l.line.length ≤ Fintype.card ι :=
  h.nodup.length_le_card

theorem first [Fintype ι] (h : Serves base l next serving ticket inside) (hcard : Fintype.card ι ≤ 2 ^ w)
    (hi : ticket i = some serving) : l.line.head? = some i := by
  have hmem : i ∈ l.line := h.mem.mp (by rw [hi]; rfl)
  obtain ⟨k, hk, hget⟩ := List.getElem_of_mem hmem
  have hnum := h.number (List.getElem?_eq_some_iff.mpr ⟨hk, hget⟩)
  rw [hi, h.serving_eq, Option.some_inj] at hnum
  have hk0 : k = 0 := Line.number_eq_first ((hk.trans_le h.fits).trans_le hcard) hnum.symm
  subst hk0
  rw [List.head?_eq_getElem?]
  exact List.getElem?_eq_some_iff.mpr ⟨hk, hget⟩

theorem vacant (h : Serves base l next serving ticket inside) (hi : l.line.head? = some i) (hout : ¬ inside i) :
    l.entered = false := by
  cases hent : l.entered with
  | false => rfl
  | true => exact absurd (h.head.mpr ⟨hent, hi⟩) hout

theorem congr (h : Serves base l next serving ticket inside) {ticket' : ι → Option (BitVec w)} {inside' : ι → Prop}
    (ht : ∀ i, ticket' i = ticket i) (hin : ∀ i, inside' i ↔ inside i) :
    Serves base l next serving ticket' inside' := by
  obtain rfl : ticket' = ticket := funext ht
  obtain rfl : inside' = inside := funext fun i => propext (hin i)
  exact h

variable [DecidableEq ι]

theorem arrive (h : Serves base l next serving ticket inside) (hi : ticket i = none) :
    Serves base (l.arrive i) (next + 1) serving (Function.update ticket i (some next)) inside := by
  have hnot : i ∉ l.line := fun hm => by
    have := h.mem.mpr hm
    rw [hi] at this
    exact absurd this (by simp)
  constructor
  · rw [h.next_eq, Line.number_add_one, Line.arrive, List.length_append]
    rfl
  · exact h.serving_eq
  · exact List.nodup_append.mpr ⟨h.nodup, List.nodup_singleton i, by
      rintro a ha b hb rfl
      exact hnot (List.mem_singleton.mp hb ▸ ha)⟩
  · intro j
    rw [Line.arrive, List.mem_append, List.mem_singleton]
    rcases eq_or_ne j i with rfl | hj
    · simp
    · simp [hj, h.mem]
  · intro k j hk
    rw [Line.arrive, List.getElem?_append] at hk
    split at hk
    · have hj : j ≠ i := by
        rintro rfl
        exact hnot (List.mem_of_getElem? hk)
      rw [Function.update_of_ne hj]
      exact h.number hk
    · next hlen =>
      obtain ⟨hk0, hget⟩ := List.getElem?_eq_some_iff.mp hk
      have hk : k = l.line.length := by
        rw [List.length_singleton] at hk0
        omega
      rw [List.getElem_singleton] at hget
      rw [← hget, Function.update_self, h.next_eq, hk]
      rfl
  · intro j
    rw [h.head, Line.arrive]
    refine and_congr_right fun hent => ?_
    obtain ⟨a, rest, hl⟩ := List.exists_cons_of_ne_nil (h.nonempty hent)
    rw [hl]
    rfl
  · intro _
    exact List.append_ne_nil_of_right_ne_nil _ (List.cons_ne_nil i [])

omit [DecidableEq ι] in
theorem enter (h : Serves base l next serving ticket inside) (hi : l.line.head? = some i) :
    Serves base l.enter next serving ticket (fun j => j = i) := by
  constructor
  · exact h.next_eq
  · exact h.serving_eq
  · exact h.nodup
  · exact h.mem
  · exact h.number
  · intro j
    rw [Line.enter, hi, Option.some_inj]
    exact ⟨fun hj => ⟨rfl, hj.symm⟩, fun hj => hj.2.symm⟩
  · rintro - hnil
    rw [show l.line = [] from hnil] at hi
    cases hi

theorem leave (h : Serves base l next serving ticket inside) (hi : inside i) :
    Serves base l.leave next (serving + 1) (Function.update ticket i none) (fun _ => False) := by
  obtain ⟨hent, hhead⟩ := h.head.mp hi
  obtain ⟨rest, hl⟩ := List.head?_eq_some_iff.mp hhead
  have hne : l.line ≠ [] := h.nonempty hent
  have hnodup := h.nodup
  rw [hl, List.nodup_cons] at hnodup
  have hrest : l.leave.line = rest := by
    rw [Line.leave, hl]
    rfl
  constructor
  · rw [h.next_eq, Line.number_leave hne, hrest, hl]
    rfl
  · rw [h.serving_eq, Line.number_add_one, Line.number_leave hne]
  · rw [hrest]
    exact hnodup.2
  · intro j
    rw [hrest]
    rcases eq_or_ne j i with rfl | hj
    · simp [hnodup.1]
    · rw [Function.update_of_ne hj, h.mem, hl, List.mem_cons]
      simp [hj]
  · intro k j hk
    rw [hrest] at hk
    have hj : j ≠ i := by
      rintro rfl
      exact hnodup.1 (List.mem_of_getElem? hk)
    rw [Function.update_of_ne hj, Line.number_leave hne]
    apply h.number
    rw [hl, List.getElem?_cons_succ]
    exact hk
  · intro j
    simp [Line.leave]
  · intro he
    exact absurd he (by simp [Line.leave])

end Serves

end Ticket
