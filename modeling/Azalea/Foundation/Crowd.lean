import Mathlib.Data.List.Count
import Mathlib.Data.List.Perm.Basic
import Mathlib.Tactic

namespace Crowd

variable {α β : Type*}

inductive Turn (a b : α) : List α → List α → Prop
  | here (l : List α) : Turn a b (a :: l) (b :: l)
  | there (x : α) {l l' : List α} (h : Turn a b l l') : Turn a b (x :: l) (x :: l')

namespace Turn

variable {a b x : α} {l l' : List α}

theorem mem_left (h : Turn a b l l') : a ∈ l := by
  induction h with
  | here l => exact List.mem_cons_self
  | there x _ ih => exact List.mem_cons_of_mem x ih

theorem mem_right (h : Turn a b l l') : b ∈ l' := by
  induction h with
  | here l => exact List.mem_cons_self
  | there x _ ih => exact List.mem_cons_of_mem x ih

theorem exists_of_mem (h : a ∈ l) (b : α) : ∃ l', Turn a b l l' := by
  induction l with
  | nil => cases h
  | cons x l ih =>
    rcases List.mem_cons.mp h with rfl | h
    · exact ⟨b :: l, .here l⟩
    · obtain ⟨l', hl⟩ := ih h
      exact ⟨x :: l', .there x hl⟩

theorem mem_of_mem (h : Turn a b l l') (hx : x ∈ l') : x = b ∨ x ∈ l := by
  induction h with
  | here l =>
    rcases List.mem_cons.mp hx with rfl | hx
    · exact .inl rfl
    · exact .inr (List.mem_cons_of_mem a hx)
  | there y _ ih =>
    rcases List.mem_cons.mp hx with rfl | hx
    · exact .inr List.mem_cons_self
    · exact (ih hx).imp_right (List.mem_cons_of_mem y)

theorem mem_or_eq (h : Turn a b l l') (hx : x ∈ l) : x = a ∨ x ∈ l' := by
  induction h with
  | here l =>
    rcases List.mem_cons.mp hx with rfl | hx
    · exact .inl rfl
    · exact .inr (List.mem_cons_of_mem b hx)
  | there y _ ih =>
    rcases List.mem_cons.mp hx with rfl | hx
    · exact .inr List.mem_cons_self
    · exact (ih hx).imp_right (List.mem_cons_of_mem y)

theorem mem_take (h : Turn a b l l') {i : ℕ} (hx : x ∈ l'.take i) : x ∈ l.take i ∨ a ∈ l.take i := by
  induction h generalizing i with
  | here l =>
    cases i with
    | zero => cases hx
    | succ i => exact .inr List.mem_cons_self
  | there y _ ih =>
    cases i with
    | zero => cases hx
    | succ i =>
      rcases List.mem_cons.mp hx with rfl | hx
      · exact .inl List.mem_cons_self
      · exact (ih hx).imp (List.mem_cons_of_mem y) (List.mem_cons_of_mem y)

theorem countP_add (h : Turn a b l l') (p : α → Bool) :
    l'.countP p + (p a).toNat = l.countP p + (p b).toNat := by
  induction h with
  | here l =>
    rw [List.countP_cons, List.countP_cons]
    cases p a <;> cases p b <;> simp
  | there x _ ih =>
    rw [List.countP_cons, List.countP_cons]
    omega

theorem filterMap_eq (h : Turn a b l l') {f : α → Option β} (hf : f a = f b) : l'.filterMap f = l.filterMap f := by
  induction h with
  | here l => rw [List.filterMap_cons, List.filterMap_cons, hf]
  | there x _ ih => rw [List.filterMap_cons, List.filterMap_cons, ih]

theorem filterMap_gain (h : Turn a b l l') {f : α → Option β} {y : β} (ha : f a = none) (hb : f b = some y) :
    (l'.filterMap f).Perm (y :: l.filterMap f) := by
  induction h with
  | here l => rw [List.filterMap_cons_some hb, List.filterMap_cons_none ha]
  | there x _ ih =>
    cases hx : f x with
    | none => rw [List.filterMap_cons_none hx, List.filterMap_cons_none hx]; exact ih
    | some z =>
      rw [List.filterMap_cons_some hx, List.filterMap_cons_some hx]
      exact (ih.cons z).trans (List.Perm.swap y z _)

theorem symm (h : Turn a b l l') : Turn b a l' l := by
  induction h with
  | here l => exact .here l
  | there x _ ih => exact .there x ih

theorem filterMap_lose (h : Turn a b l l') {f : α → Option β} {y : β} (ha : f a = some y) (hb : f b = none) :
    (l.filterMap f).Perm (y :: l'.filterMap f) :=
  h.symm.filterMap_gain hb ha

theorem between (h : Turn a b l l') (c : α) : ∃ m, Turn a c l m ∧ Turn c b m l' := by
  induction h with
  | here l => exact ⟨c :: l, .here l, .here l⟩
  | there x _ ih =>
    obtain ⟨m, hl, hr⟩ := ih
    exact ⟨x :: m, .there x hl, .there x hr⟩

theorem append_left (h : Turn a b l l') (k : List α) : Turn a b (k ++ l) (k ++ l') := by
  induction k with
  | nil => exact h
  | cons x k ih => exact .there x ih

theorem last {k : List α} (h : Turn a b (k ++ [x]) l') (hk : a ∉ k) : x = a ∧ l' = k ++ [b] := by
  induction k generalizing l' with
  | nil =>
    cases h with
    | here => exact ⟨rfl, rfl⟩
    | there _ h => cases h
  | cons y k ih =>
    cases h with
    | here => exact absurd List.mem_cons_self hk
    | there _ h =>
      obtain ⟨hx, rfl⟩ := ih h fun hm => hk (List.mem_cons_of_mem y hm)
      exact ⟨hx, rfl⟩

end Turn

theorem march {σ : Type*} {r : σ → σ → Prop} {a b : α} {n : ℕ} (P : ℕ → List α → σ → Prop)
    (hstep : ∀ k l l' s, k < n → P k l s → Turn a b l l' → ∃ s', Relation.ReflTransGen r s s' ∧ P (k + 1) l' s') {s : σ}
    (h : P 0 (List.replicate n a) s) : ∃ s', Relation.ReflTransGen r s s' ∧ P n (List.replicate n b) s' := by
  have hk : ∀ k ≤ n, ∃ s', Relation.ReflTransGen r s s' ∧
      P k (List.replicate k b ++ List.replicate (n - k) a) s' := by
    intro k hk
    induction k with
    | zero => exact ⟨s, .refl, by simpa using h⟩
    | succ k ih =>
      obtain ⟨s', hs, hp⟩ := ih (by omega)
      obtain ⟨m, hm⟩ : ∃ m, n - k = m + 1 := ⟨n - k - 1, by omega⟩
      rw [hm, List.replicate_succ] at hp
      obtain ⟨s'', hs', hp'⟩ := hstep k _ _ s' (by omega) hp (Turn.append_left (.here _) (List.replicate k b))
      refine ⟨s'', hs.trans hs', ?_⟩
      have hm' : n - (k + 1) = m := by omega
      rw [hm', List.replicate_succ', List.append_assoc]
      exact hp'
  simpa using hk n le_rfl

theorem of_countP_le {l : List α} {p q : α → Bool} (himp : ∀ x, p x = true → q x = true) (hle : l.countP q ≤ l.countP p)
    {x : α} (hx : x ∈ l) (hq : q x = true) : p x = true := by
  induction l with
  | nil => cases hx
  | cons y l ih =>
    have hmono : l.countP p ≤ l.countP q := List.countP_mono_left fun z _ => himp z
    rw [List.countP_cons, List.countP_cons] at hle
    rcases List.mem_cons.mp hx with rfl | hx
    · by_contra hp
      rw [if_pos hq, if_neg hp] at hle
      omega
    · refine ih ?_ hx
      cases hp : p y with
      | true => simp [hp, himp y hp] at hle; omega
      | false => simp [hp] at hle; omega

end Crowd
