import Azalea.Foundation.Run
import Mathlib.Data.Multiset.AddSub
import Mathlib.Data.Multiset.MapFold
import Mathlib.Tactic

namespace Exchange
open Relation

inductive Status (ρ ν : Type*) where
  | idle
  | waiting (request : ρ)
  | returned (request : ρ) (value : ν)

structure State (ι ρ ν : Type*) where
  status : ι → Status ρ ν
  requests : List (ι × ρ)
  jobs : Multiset (ι × ρ)
  done : Multiset (ι × ν)
  replies : List (ι × ν)
  executed : ι → List (ρ × ν)

variable {ι ρ ν : Type*} [DecidableEq ι]

inductive Step (s : State ι ρ ν) : State ι ρ ν → Prop
  | send (i : ι) (r : ρ) : (∀ r', s.status i ≠ .waiting r') →
      Step s { s with
        status := Function.update s.status i (.waiting r)
        requests := s.requests ++ [(i, r)]
        executed := Function.update s.executed i [] }
  | take (x : ι × ρ) (rest : List (ι × ρ)) : s.requests = x :: rest →
      Step s { s with requests := rest, jobs := x ::ₘ s.jobs }
  | execute (i : ι) (r : ρ) (v : ν) (rest : Multiset (ι × ρ)) : s.jobs = (i, r) ::ₘ rest →
      Step s { s with
        jobs := rest
        done := (i, v) ::ₘ s.done
        executed := Function.update s.executed i (s.executed i ++ [(r, v)]) }
  | answer (x : ι × ν) (rest : Multiset (ι × ν)) : s.done = x ::ₘ rest →
      Step s { s with done := rest, replies := s.replies ++ [x] }
  | receive (i : ι) (r : ρ) (v : ν) (rest : List (ι × ν)) : s.replies = (i, v) :: rest →
      s.status i = .waiting r →
      Step s { s with
        status := Function.update s.status i (.returned r v)
        replies := rest }
  | leave (i : ι) : (∀ r, s.status i ≠ .waiting r) →
      Step s { s with status := Function.update s.status i .idle }

def State.tokens (s : State ι ρ ν) : Multiset ι :=
  ↑(s.requests.map Prod.fst) + s.jobs.map Prod.fst + (s.done.map Prod.fst + ↑(s.replies.map Prod.fst))

structure Coherent (s : State ι ρ ν) : Prop where
  once : s.tokens.Nodup
  waiting : ∀ i, i ∈ s.tokens ↔ ∃ r, s.status i = .waiting r
  pending : ∀ i r, (i, r) ∈ s.requests ∨ (i, r) ∈ s.jobs → s.status i = .waiting r ∧ s.executed i = []
  settled : ∀ i v, (i, v) ∈ s.done ∨ (i, v) ∈ s.replies →
    ∃ r, s.status i = .waiting r ∧ s.executed i = [(r, v)]
  returned : ∀ i r v, s.status i = .returned r v → s.executed i = [(r, v)]

def initial (ι ρ ν : Type*) : State ι ρ ν := ⟨fun _ => .idle, [], 0, 0, [], fun _ => []⟩

namespace Coherent
variable {s : State ι ρ ν} {i j : ι} {r : ρ} {v : ν}

omit [DecidableEq ι]

theorem initial_coherent : Coherent (initial ι ρ ν) where
  once := Multiset.nodup_zero
  waiting := by simp [initial, State.tokens]
  pending := by simp [initial]
  settled := by simp [initial]
  returned := by simp [initial]

theorem mem_tokens : j ∈ s.tokens ↔
    (∃ r, (j, r) ∈ s.requests ∨ (j, r) ∈ s.jobs) ∨ ∃ v, (j, v) ∈ s.done ∨ (j, v) ∈ s.replies := by
  simp [State.tokens, exists_or]

theorem mem_of_pending (h : (j, r) ∈ s.requests ∨ (j, r) ∈ s.jobs) : j ∈ s.tokens := mem_tokens.mpr (.inl ⟨r, h⟩)

theorem mem_of_settled (h : (j, v) ∈ s.done ∨ (j, v) ∈ s.replies) : j ∈ s.tokens := mem_tokens.mpr (.inr ⟨v, h⟩)

theorem unique (h : Coherent s) {s₀ : State ι ρ ν} (ht : s.tokens = i ::ₘ s₀.tokens) : i ∉ s₀.tokens := by
  have hn := h.once
  rw [ht, Multiset.nodup_cons] at hn
  exact hn.1

theorem take (h : Coherent s) {x : ι × ρ} {rest : List (ι × ρ)} (hx : s.requests = x :: rest) :
    Coherent { s with requests := rest, jobs := x ::ₘ s.jobs } := by
  have ht : State.tokens { s with requests := rest, jobs := x ::ₘ s.jobs } = s.tokens := by
    simp only [State.tokens, hx, List.map_cons, Multiset.map_cons, ← Multiset.cons_coe, Multiset.cons_add,
      Multiset.add_cons]
  constructor
  · rw [ht]
    exact h.once
  · intro i
    rw [ht]
    exact h.waiting i
  · intro i r hir
    refine h.pending i r ?_
    rw [hx]
    simpa [or_comm, or_assoc, or_left_comm] using hir
  · exact h.settled
  · exact h.returned

theorem answer (h : Coherent s) {x : ι × ν} {rest : Multiset (ι × ν)} (hx : s.done = x ::ₘ rest) :
    Coherent { s with done := rest, replies := s.replies ++ [x] } := by
  have ht : State.tokens { s with done := rest, replies := s.replies ++ [x] } = s.tokens := by
    simp only [State.tokens, hx, List.map_append, List.map_singleton, ← Multiset.coe_add, Multiset.coe_singleton,
      ← Multiset.singleton_add, Multiset.map_add, Multiset.map_singleton]
    abel
  constructor
  · rw [ht]
    exact h.once
  · intro i
    rw [ht]
    exact h.waiting i
  · exact h.pending
  · intro i v hiv
    refine h.settled i v ?_
    rw [hx]
    simpa [or_comm, or_assoc, or_left_comm] using hiv
  · exact h.returned

variable [DecidableEq ι]

theorem leave (h : Coherent s) (hi : ∀ r, s.status i ≠ .waiting r) :
    Coherent { s with status := Function.update s.status i .idle } := by
  have hst : ∀ j r, Function.update s.status i .idle j = .waiting r ↔ s.status j = .waiting r := by
    intro j r
    by_cases hj : j = i
    · rw [hj, Function.update_self]
      exact ⟨fun he => absurd he (by simp), fun he => absurd he (hi r)⟩
    · rw [Function.update_of_ne hj]
  constructor
  · exact h.once
  · intro j
    exact (h.waiting j).trans (exists_congr fun r => (hst j r).symm)
  · intro j r hj
    exact ⟨(hst j r).mpr (h.pending j r hj).1, (h.pending j r hj).2⟩
  · intro j v hj
    obtain ⟨r, hr, he⟩ := h.settled j v hj
    exact ⟨r, (hst j r).mpr hr, he⟩
  · intro j r v hj
    by_cases hji : j = i
    · rw [hji] at hj
      simp at hj
    · exact h.returned j r v (by simpa [hji] using hj)

theorem send (h : Coherent s) (hi : ∀ r', s.status i ≠ .waiting r') :
    Coherent { s with
      status := Function.update s.status i (.waiting r)
      requests := s.requests ++ [(i, r)]
      executed := Function.update s.executed i [] } := by
  have hnot : i ∉ s.tokens := fun hm => by
    obtain ⟨r', hr'⟩ := (h.waiting i).mp hm
    exact hi r' hr'
  have hne : ∀ {j}, j ∈ s.tokens → j ≠ i := fun hj he => hnot (he ▸ hj)
  have ht : State.tokens { s with
      status := Function.update s.status i (.waiting r)
      requests := s.requests ++ [(i, r)]
      executed := Function.update s.executed i [] } = i ::ₘ s.tokens := by
    simp only [State.tokens, List.map_append, List.map_singleton, ← Multiset.coe_add, Multiset.coe_singleton,
      ← Multiset.singleton_add]
    abel
  constructor
  · rw [ht, Multiset.nodup_cons]
    exact ⟨hnot, h.once⟩
  · intro j
    rw [ht, Multiset.mem_cons]
    by_cases hj : j = i
    · simp [hj]
    · simp [hj, h.waiting j]
  · intro j r' hj
    by_cases hji : (j, r') = (i, r)
    · obtain ⟨rfl, rfl⟩ := Prod.mk.injEq .. ▸ hji
      simp
    · have hold : (j, r') ∈ s.requests ∨ (j, r') ∈ s.jobs := by simpa [hji] using hj
      have := hne (mem_of_pending hold)
      simpa [this] using h.pending j r' hold
  · intro j v hj
    have := hne (mem_of_settled hj)
    simpa [this] using h.settled j v hj
  · intro j r' v hj
    by_cases hji : j = i
    · rw [hji] at hj
      simp at hj
    · simpa [hji] using h.returned j r' v (by simpa [hji] using hj)

theorem execute (h : Coherent s) {rest : Multiset (ι × ρ)} (hx : s.jobs = (i, r) ::ₘ rest) :
    Coherent { s with
      jobs := rest
      done := (i, v) ::ₘ s.done
      executed := Function.update s.executed i (s.executed i ++ [(r, v)]) } := by
  have ht : s.tokens = i ::ₘ State.tokens { s with jobs := rest } := by
    simp only [State.tokens, hx, ← Multiset.singleton_add, Multiset.map_add, Multiset.map_singleton]
    abel
  have hne : ∀ {j}, j ∈ State.tokens { s with jobs := rest } → j ≠ i := fun hj he => h.unique ht (he ▸ hj)
  obtain ⟨hwait, hexec⟩ := h.pending i r (.inr (by rw [hx]; exact Multiset.mem_cons_self _ _))
  have ht' : State.tokens { s with
      jobs := rest
      done := (i, v) ::ₘ s.done
      executed := Function.update s.executed i (s.executed i ++ [(r, v)]) } = s.tokens := by
    rw [ht]
    simp only [State.tokens, ← Multiset.singleton_add, Multiset.map_add, Multiset.map_singleton]
    abel
  constructor
  · rw [ht']
    exact h.once
  · intro j
    rw [ht']
    exact h.waiting j
  · intro j r' hj
    have := hne (mem_of_pending hj)
    have hold := h.pending j r' (hj.imp id fun hm => by rw [hx]; exact Multiset.mem_cons_of_mem hm)
    simpa [this] using hold
  · intro j v' hj
    by_cases hji : (j, v') = (i, v)
    · obtain ⟨rfl, rfl⟩ := Prod.mk.injEq .. ▸ hji
      exact ⟨r, hwait, by simp [hexec]⟩
    · have hold : (j, v') ∈ s.done ∨ (j, v') ∈ s.replies := by simpa [hji] using hj
      have := hne (mem_of_settled (s := { s with jobs := rest }) hold)
      simpa [this] using h.settled j v' hold
  · intro j r' v' hj
    have hji : j ≠ i := by
      rintro rfl
      exact absurd (hwait.symm.trans hj) (by simp)
    simpa [hji] using h.returned j r' v' hj

theorem receive (h : Coherent s) {rest : List (ι × ν)} (hx : s.replies = (i, v) :: rest)
    (hi : s.status i = .waiting r) :
    Coherent { s with status := Function.update s.status i (.returned r v), replies := rest } := by
  have ht : s.tokens = i ::ₘ State.tokens { s with
      status := Function.update s.status i (.returned r v)
      replies := rest } := by
    simp only [State.tokens, hx, List.map_cons, ← Multiset.cons_coe, Multiset.add_cons]
  have hnot := h.unique ht
  have hne : ∀ {j}, j ∈ State.tokens { s with
      status := Function.update s.status i (.returned r v)
      replies := rest } → j ≠ i := fun hj he => hnot (he ▸ hj)
  constructor
  · have := h.once
    rw [ht, Multiset.nodup_cons] at this
    exact this.2
  · intro j
    by_cases hj : j = i
    · rw [hj]
      simp [hnot]
    · have := h.waiting j
      rw [ht, Multiset.mem_cons] at this
      simpa [hj] using this
  · intro j r' hj
    have := hne (mem_of_pending hj)
    simpa [this] using h.pending j r' hj
  · intro j v' hj
    have := hne (mem_of_settled hj)
    have hold := h.settled j v' (hj.imp id fun hm => by rw [hx]; exact List.mem_cons_of_mem _ hm)
    simpa [this] using hold
  · intro j r' v' hj
    by_cases hji : j = i
    · change Function.update s.status i (.returned r v) j = _ at hj
      rw [hji, Function.update_self, Status.returned.injEq] at hj
      obtain ⟨r₀, hr₀, he⟩ := h.settled i v (.inr (by rw [hx]; exact List.mem_cons_self))
      rw [hi, Status.waiting.injEq] at hr₀
      rw [hji, ← hj.1, ← hj.2, hr₀]
      exact he
    · exact h.returned j r' v' (by simpa [hji] using hj)

theorem step {s' : State ι ρ ν} (h : Coherent s) (hs : Step s s') : Coherent s' := by
  cases hs with
  | send i r hi => exact h.send hi
  | take x rest hx => exact h.take hx
  | execute i r v rest hx => exact h.execute hx
  | answer x rest hx => exact h.answer hx
  | receive i r v rest hx hi => exact h.receive hx hi
  | leave i hi => exact h.leave hi

end Coherent
end Exchange
