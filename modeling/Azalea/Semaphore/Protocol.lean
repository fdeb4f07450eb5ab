import Azalea.Foundation.Run
import Azalea.Foundation.Shelf
import Azalea.Semaphore.Sem

namespace Azalea

inductive SemPc
  | outside
  | waiting
  | notified
  deriving DecidableEq

structure SemState where
  sem : Sem
  pc : ℕ → SemPc
  arrived : List ℕ

inductive SemEvent
  | wait (t : ℕ)
  | retry (t : ℕ)
  | trywait
  | post
  deriving DecidableEq

namespace SemState

variable (st : SemState) (t : ℕ)

def init (v : BitVec 32) : SemState where
  sem := Sem.azSemInit v
  pc _ := .outside
  arrived := []

def tryTake : SemState :=
  match st.sem.azSemWait t with
  | (true, sem) => { st with sem := sem, pc := Function.update st.pc t .outside }
  | (false, sem) => { sem := sem, pc := Function.update st.pc t .waiting, arrived := st.arrived ++ [t] }

def post : SemState :=
  match st.sem.azSemPost with
  | (none, sem) => { st with sem := sem }
  | (some u, sem) => { sem := sem, pc := Function.update st.pc u .notified, arrived := st.arrived.erase u }

def exec (st : SemState) : SemEvent → Option SemState
  | .wait t => if t < maxThreadId ∧ st.pc t = .outside then some (st.tryTake t) else none
  | .retry t => if st.pc t = .notified then some (st.tryTake t) else none
  | .trywait => some { st with sem := st.sem.azSemTrywait.2 }
  | .post => some st.post

def notified : Finset ℕ := {t ∈ Finset.range maxThreadId | st.pc t = .notified}

variable {st t} {st' : SemState} {e : SemEvent}

theorem tryTake_pc : (st.tryTake t).pc =
    Function.update st.pc t (if (st.sem.azSemWait t).1 then .outside else .waiting) := by
  unfold tryTake Sem.azSemWait
  by_cases hv : 0 < st.sem.value <;> simp [hv]

theorem post_pc_none (h : st.sem.azSemPost.1 = none) : st.post.pc = st.pc := by
  have he : st.sem.azSemPost = (none, st.sem.azSemPost.2) := Prod.ext h rfl
  unfold post
  rw [he]

theorem post_pc_some {u : ℕ} (h : st.sem.azSemPost.1 = some u) : st.post.pc = Function.update st.pc u .notified := by
  have he : st.sem.azSemPost = (some u, st.sem.azSemPost.2) := Prod.ext h rfl
  unfold post
  rw [he]

structure Ok (st : SemState) : Prop where
  queued : st.sem.Queued st.arrived
  nodup : st.arrived.Nodup
  waiting : ∀ {t}, t ∈ st.arrived ↔ st.pc t = .waiting
  thread : ∀ {t}, st.pc t ≠ .outside → t < maxThreadId
  enough : st.arrived ≠ [] → st.sem.value ≤ st.notified.card

theorem init_ok (v : BitVec 32) : Ok (init v) where
  queued := Sem.azSemInit_queued v
  nodup := List.nodup_nil
  waiting := by simp [init]
  thread h := absurd rfl h
  enough h := absurd rfl h

theorem mem_notified : t ∈ st.notified ↔ t < maxThreadId ∧ st.pc t = .notified := by
  rw [notified, Finset.mem_filter, Finset.mem_range]

theorem card_notified_le {x : SemPc} (hpc : st'.pc = Function.update st.pc t x) :
    st.notified.card - 1 ≤ st'.notified.card := by
  have hsub : st.notified.erase t ⊆ st'.notified := by
    intro u hu
    obtain ⟨hut, hu⟩ := Finset.mem_erase.mp hu
    rw [mem_notified] at hu ⊢
    rwa [hpc, Function.update_of_ne hut]
  have hcard : st.notified.card - 1 ≤ (st.notified.erase t).card := Finset.pred_card_le_card_erase
  exact hcard.trans (Finset.card_le_card hsub)

theorem card_notified_post (hpc : st'.pc = Function.update st.pc t .notified) (ht : t < maxThreadId)
    (hn : st.pc t ≠ .notified) : st'.notified.card = st.notified.card + 1 := by
  have hout : t ∉ st.notified := fun hm => hn (mem_notified.mp hm).2
  have hins : st'.notified = insert t st.notified := by
    ext u
    rw [Finset.mem_insert, mem_notified, mem_notified, hpc]
    by_cases hut : u = t
    · subst hut
      simpa using ht
    · rw [Function.update_of_ne hut]
      exact (or_iff_right hut).symm
  rw [hins, Finset.card_insert_of_notMem hout]

namespace Ok

theorem mem_lt (h : Ok st) (ht : t ∈ st.arrived) : t < maxThreadId := h.thread (by simp [h.waiting.mp ht])

theorem tryTake (h : Ok st) (ht : t < maxThreadId) (hpc : st.pc t ≠ .waiting) : Ok (st.tryTake t) := by
  have hna : t ∉ st.arrived := fun hm => hpc (h.waiting.mp hm)
  unfold SemState.tryTake Sem.azSemWait
  by_cases hv : 0 < st.sem.value
  · rw [if_pos hv]
    refine ⟨h.queued, h.nodup, fun {u} => ?_, fun {u} hu => ?_, fun hne => ?_⟩
    · by_cases hut : u = t
      · subst hut
        simp [hna]
      · simpa [hut] using h.waiting
    · by_cases hut : u = t
      · exact hut ▸ ht
      · exact h.thread (by simpa [hut] using hu)
    · have hle := h.enough hne
      exact (Nat.sub_le_sub_right hle 1).trans (card_notified_le (t := t) rfl)
  · rw [if_neg hv]
    have hroom : st.arrived.length + 1 ≤ maxSemQueueSize := by
      have hnd : (t :: st.arrived).Nodup := List.nodup_cons.mpr ⟨hna, h.nodup⟩
      refine Shelf.length_le_of_lt hnd fun u hu => ?_
      rcases List.mem_cons.mp hu with rfl | hu
      · exact ht
      · exact h.mem_lt hu
    refine ⟨h.queued.enqueue hroom ht, ?_, fun {u} => ?_, fun {u} hu => ?_, fun _ => ?_⟩
    · exact List.nodup_append.mpr ⟨h.nodup, by simp, by rintro a ha _ hb rfl; simp_all⟩
    · by_cases hut : u = t
      · subst hut
        simp
      · simpa [hut] using h.waiting
    · by_cases hut : u = t
      · exact hut ▸ ht
      · exact h.thread (by simpa [hut] using hu)
    · change st.sem.value ≤ _
      omega

theorem post (h : Ok st) : Ok st.post := by
  have hqueued := h.queued
  have hnd := h.nodup
  unfold SemState.post
  cases hl : st.arrived with
  | nil =>
    rw [hl] at hqueued
    rw [hqueued.post_nil, ← hl]
    exact ⟨h.queued, h.nodup, h.waiting, h.thread, fun hne => absurd hl hne⟩
  | cons u l =>
    have hu : u ∈ st.arrived := by simp [hl]
    have hlt := h.mem_lt hu
    rw [hl] at hqueued hnd
    obtain ⟨hul, hnd⟩ := List.nodup_cons.mp hnd
    obtain ⟨sem, he, hq, hv⟩ := hqueued.post_cons hlt
    rw [he]
    dsimp only
    rw [List.erase_cons_head]
    refine ⟨hq, hnd, fun {w} => ?_, fun {w} hw => ?_, fun _ => ?_⟩
    · by_cases hwu : w = u
      · subst hwu
        simpa using hul
      · have hw := h.waiting (t := w)
        rw [hl, List.mem_cons, or_iff_right hwu] at hw
        simpa [hwu] using hw
    · by_cases hwu : w = u
      · exact hwu ▸ hlt
      · exact h.thread (by simpa [hwu] using hw)
    · have hcard : (SemState.mk sem (Function.update st.pc u .notified) l).notified.card = st.notified.card + 1 :=
        card_notified_post rfl hlt (by simp [h.waiting.mp hu])
      rw [hcard]
      change sem.value ≤ _
      rw [hv]
      exact (Nat.mod_le _ _).trans (Nat.succ_le_succ (h.enough (List.ne_nil_of_mem hu)))

theorem post_waiting {u : ℕ} (h : Ok st) (hu : st.sem.azSemPost.1 = some u) : st.pc u = .waiting := by
  have hqueued := h.queued
  cases hl : st.arrived with
  | nil =>
    rw [hl] at hqueued
    rw [hqueued.post_nil] at hu
    exact absurd hu (by simp)
  | cons v l =>
    have hv : v ∈ st.arrived := by simp [hl]
    rw [hl] at hqueued
    obtain ⟨sem, he, _⟩ := hqueued.post_cons (h.mem_lt hv)
    rw [he] at hu
    exact Option.some.inj hu ▸ h.waiting.mp hv

theorem exec (h : Ok st) (he : st.exec e = some st') : Ok st' := by
  cases e with
  | wait t =>
    obtain ⟨⟨ht, hpc⟩, heq⟩ := Option.ite_none_right_eq_some.mp he
    cases heq
    exact h.tryTake ht (by simp [hpc])
  | retry t =>
    obtain ⟨hpc, heq⟩ := Option.ite_none_right_eq_some.mp he
    cases heq
    exact h.tryTake (h.thread (by simp [hpc])) (by simp [hpc])
  | trywait =>
    cases he
    refine ⟨?_, h.nodup, h.waiting, h.thread, fun hne => ?_⟩
    · unfold Sem.azSemTrywait
      split
      · exact h.queued
      · exact h.queued
    · refine le_trans ?_ (h.enough hne)
      unfold Sem.azSemTrywait
      split
      · exact Nat.sub_le _ _
      · exact le_rfl
  | post =>
    cases he
    exact h.post

end Ok

theorem run_ring (v : BitVec 32) {es : List SemEvent} (h : es.foldlM exec (init v) = some st) :
    Ring.contents maxSemQueueSize maxThreadId st.sem.queue st.sem.rpos st.sem.wpos = st.arrived ∧
    st.arrived.Nodup ∧ (∀ t, t ∈ st.arrived ↔ st.pc t = .waiting) ∧
    (∀ j < maxSemQueueSize, (∀ i < st.arrived.length, j ≠ Ring.cell maxSemQueueSize st.sem.rpos i) →
      st.sem.queue j = maxThreadId) ∧
    (st.arrived ≠ [] → st.sem.value ≤ st.notified.card) := by
  have hok := Run.foldlM Ok.exec (init_ok v) h
  exact ⟨hok.queued.contents_eq, hok.nodup, fun _ => hok.waiting, fun _ hj hn => hok.queued.vacant hj hn, hok.enough⟩

theorem run_overtaken_ring : ∃ st, [.wait 5, .wait 7, .post, .trywait, .retry 5].foldlM exec (init 0) = some st ∧
    st.arrived = [7, 5] ∧
    Ring.contents maxSemQueueSize maxThreadId st.sem.queue st.sem.rpos st.sem.wpos = st.arrived ∧
    st.arrived.Nodup ∧ st.sem.queue 0 = maxThreadId ∧ st.sem.value ≤ st.notified.card := by
  have hrun : ([.wait 5, .wait 7, .post, .trywait, .retry 5].foldlM exec (init 0)).map
      (fun st => (st.arrived, st.sem.rpos)) = some ([7, 5], 1) := by decide +kernel
  obtain ⟨st, hst, hview⟩ := Option.map_eq_some_iff.mp hrun
  obtain ⟨harrived, hrpos⟩ := Prod.mk.inj hview
  obtain ⟨hring, hnd, _, hvacant, henough⟩ := run_ring 0 hst
  refine ⟨st, hst, harrived, hring, hnd, hvacant 0 (by simp) fun i hi => ?_, henough (by simp [harrived])⟩
  rw [harrived] at hi
  rw [hrpos, Ring.cell, Nat.mod_eq_of_lt]
  · omega
  · simp at hi ⊢
    omega

end SemState

end Azalea
