import Azalea.Shm.Containment

namespace Azalea

namespace ShmInfo
variable {s s' : ShmInfo}

def Kept (s : ShmInfo) : Prop := s.Fresh ∨ s.Tabled

theorem Kept.call (h : s.Kept) (c : ShmCall) : (s.call c).Kept := by
  rcases h with h | h
  · rcases fresh_cases h c with h' | ⟨he, -⟩
    · exact .inl h'
    · rw [he]
      exact .inr ((ready_of_fresh h).toTabled.call c)
  · exact .inr (h.call c)

theorem Kept.calls (h : s.Kept) (cs : List ShmCall) : (cs.foldl ShmInfo.call s).Kept := by
  induction cs generalizing s with
  | nil => exact h
  | cons c cs ih => exact ih (h.call c)

theorem firstRegion_unique {p : ShmRegion → Bool} {i : ℕ} (hi : i < configArchShmMaxregions)
    (hp : p (s.region i)) (hone : ∀ j < configArchShmMaxregions, p (s.region j) → j = i) :
    s.firstRegion p = some i := by
  rw [firstRegion, List.find?_range_eq_some]
  refine ⟨hp, List.mem_range.mpr hi, fun j hj => ?_⟩
  by_contra hpj
  have := hone j (by omega) (by simpa using hpj)
  omega

structure Consistent (s : ShmInfo) : Prop where
  keyed : ∀ i < configArchShmMaxregions, (s.region i).InUse → (s.region i).key ≠ 0
  keys : ∀ i < configArchShmMaxregions, ∀ j < configArchShmMaxregions, (s.region i).InUse →
    (s.region j).InUse → (s.region i).key = (s.region j).key → i = j
  backed : ∀ i < configArchShmMaxregions, (s.region i).InUse → (s.region i).data ≠ 0
  distinct : ∀ i < configArchShmMaxregions, ∀ j < configArchShmMaxregions, (s.region i).InUse →
    (s.region j).InUse → (s.region i).data = (s.region j).data → i = j
  handed : ∀ a, (∃ x ∈ s.heap.handed, x.address = a) ↔
    ∃ i < configArchShmMaxregions, (s.region i).InUse ∧ (s.region i).data = a
  idle : ∀ i < configArchShmMaxregions, ¬ (s.region i).InUse → s.region i = .zero
  byKey : ∀ key, key ≠ 0 → ∀ i < configArchShmMaxregions,
    (s.region i).key = key ↔ s.shmFind key = some i
  byAddress : ∀ a, a ≠ 0 → ∀ i < configArchShmMaxregions,
    (s.region i).data = a ↔ s.firstRegion (fun r => r.data = a) = some i

theorem Fresh.consistent (h : s.Fresh) : s.Consistent := by
  have hidle : ∀ i < configArchShmMaxregions, ¬ (s.region i).InUse := fun i hi => h.not_inUse hi
  refine ⟨fun i hi hu => absurd hu (hidle i hi), fun i hi _ _ hu => absurd hu (hidle i hi),
    fun i hi hu => absurd hu (hidle i hi), fun i hi _ _ hu => absurd hu (hidle i hi), fun a => ?_,
    fun i hi _ => h.2.1 i hi, fun key hk i hi => ?_, fun a ha i hi => ?_⟩
  · rw [h.2.2]
    refine iff_of_false (by simp) ?_
    rintro ⟨i, hi, hu, -⟩
    exact hidle i hi hu
  · refine ⟨fun he => ?_, fun hf => of_decide_eq_true (firstRegion_some hf).2⟩
    rw [h.2.1 i hi] at he
    exact absurd he.symm hk
  · refine ⟨fun he => ?_, fun hf => of_decide_eq_true (firstRegion_some hf).2⟩
    rw [h.2.1 i hi] at he
    exact absurd he.symm ha

theorem Tabled.inUse_of_ne (h : s.Tabled) {i : ℕ} (hi : i < configArchShmMaxregions)
    (hne : s.region i ≠ .zero) : (s.region i).InUse := by
  by_contra hu
  exact hne (h.idle i hi hu)

theorem Tabled.consistent (h : s.Tabled) : s.Consistent := by
  have hkeyed : ∀ {key}, key ≠ 0 → ∀ i < configArchShmMaxregions, (s.region i).key = key → (s.region i).InUse :=
    fun hk i hi he => h.inUse_of_ne hi fun hz => hk (by rw [← he, hz]; rfl)
  have hbacked : ∀ {a}, a ≠ 0 → ∀ i < configArchShmMaxregions, (s.region i).data = a → (s.region i).InUse :=
    fun ha i hi he => h.inUse_of_ne hi fun hz => ha (by rw [← he, hz]; rfl)
  refine ⟨h.keyed, h.keys, fun i hi hu => h.data_ne_zero hi hu, h.distinct, fun a => ⟨?_, ?_⟩, h.idle,
    fun key hk i hi => ⟨fun he => ?_, fun hf => of_decide_eq_true (firstRegion_some hf).2⟩,
    fun a ha i hi => ⟨fun he => ?_, fun hf => of_decide_eq_true (firstRegion_some hf).2⟩⟩
  · rintro ⟨x, hx, rfl⟩
    exact h.owner x hx
  · rintro ⟨i, hi, hu, rfl⟩
    exact h.held i hi hu
  · refine firstRegion_unique hi (decide_eq_true he) fun j hj hp => ?_
    have hjk := of_decide_eq_true hp
    exact h.keys j hj i hi (hkeyed hk j hj hjk) (hkeyed hk i hi he) (hjk.trans he.symm)
  · refine firstRegion_unique hi (decide_eq_true he) fun j hj hp => ?_
    have hja := of_decide_eq_true hp
    exact h.distinct j hj i hi (hbacked ha j hj hja) (hbacked ha i hi he) (hja.trans he.symm)

theorem Kept.consistent (h : s.Kept) : s.Consistent := h.elim Fresh.consistent Tabled.consistent

theorem shm_calls_consistent {s₀ : ShmInfo} (h : s₀.Fresh) (cs : List ShmCall) :
    (cs.foldl call s₀).Consistent :=
  (Kept.calls (.inl h) cs).consistent

def blankCalls : List ShmCall :=
  [.get 1 4096 ipcCreat 0, .get 1 8192 ipcCreat 0, .attach 0 0, .control 0 .rmid 0, .get 1 100 0 0,
    .get 2 (2 ^ 40) ipcCreat 0, .get 3 100 ipcCreat 0, .detach 0xFFFF80003FFFF000 0, .control 0 .rmid 0]

theorem blankCalls_consistent :
    (((blankCalls.foldl call blank).region 1).InUse ∧ ((blankCalls.foldl call blank).region 1).key = 3) ∧
      (blankCalls.foldl call blank).Consistent :=
  ⟨by decide +kernel, shm_calls_consistent blank_fresh blankCalls⟩

end ShmInfo
end Azalea
