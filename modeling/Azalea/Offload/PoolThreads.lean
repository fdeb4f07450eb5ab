import Azalea.Offload.PoolJobs

namespace Azalea
open Crowd Relation

namespace Executor

variable {es : List Executor}

theorem countP_wake {f : Executor → Bool} (hf : f .asleep = f .woken) : (es.map wake).countP f = es.countP f := by
  rw [List.countP_map]
  refine List.countP_congr fun e _ => ?_
  cases e with
  | asleep => simp [wake, hf]
  | _ => rfl

theorem counted_of_registered {e : Executor} (h : e.registered = true) : e.counted = true := by
  cases e <;> first | rfl | cases h

theorem cell_of_registered {e : Executor} (h : e.registered = true) : e.cell = none := by
  cases e <;> first | rfl | cases h

theorem cell_of_not_counted {e : Executor} (h : e.counted = false) : e.cell = none := by
  cases e <;> first | rfl | cases h

end Executor

theorem Signalled.countP_eq {es es' : List Executor} (he : Signalled es es') {f : Executor → Bool}
    (hf : f .asleep = f .woken) : es'.countP f = es.countP f := by
  rcases he with he | ⟨-, rfl⟩
  · have h := he.countP_add f
    rw [hf] at h
    exact Nat.add_right_cancel h
  · rfl

namespace Owner

def compares : Owner → Bool
  | .suspending => true
  | .comparing _ => true
  | _ => false

theorem toCreate_endSignal (o : Owner) : o.endSignal.toCreate = o.toCreate := by
  cases o <;> rfl

theorem compares_endSignal (o : Owner) : o.endSignal.compares = o.compares := by
  cases o <;> rfl

theorem endSignal_of_compares {o : Owner} (h : o.compares = true) : o.endSignal = o := by
  cases o <;> first | rfl | cases h

end Owner

namespace ThreadPool

variable {α : Type*} {s s' : ThreadPool α}

structure Counted (s : ThreadPool α) : Prop where
  waiting : s.waitingThreads = s.executors.countP Executor.registered
  threads : s.numThreads = s.executors.countP Executor.counted + s.owner.toCreate

namespace Counted

theorem createPool (n : ℕ) : (createPool α n).Counted := by
  refine ⟨rfl, ?_⟩
  unfold ThreadPool.createPool
  dsimp only
  split
  · next h => simp [Owner.toCreate]; omega
  · simp [Owner.toCreate]

theorem executorStep (h : s.Counted) (hs : ExecutorStep s s') : s'.Counted := by
  obtain ⟨hw, ht⟩ := h
  cases hs with
  | register he =>
    have h₁ := he.countP_add Executor.registered
    have h₂ := he.countP_add Executor.counted
    simp only [Executor.registered, Executor.counted, Bool.toNat_true, Bool.toNat_false] at h₁ h₂
    rcases s.register_spec with hr | ⟨-, ⟨-, hr⟩ | ⟨-, hr⟩⟩
    · rw [hr]
      constructor <;> dsimp only <;> omega
    · rw [hr]
      constructor <;> dsimp only
      · omega
      · rw [Owner.toCreate_endSignal]
        omega
    · rw [hr]
      constructor <;> dsimp only <;> omega
  | unregister he =>
    have h₁ := he.countP_add Executor.registered
    have h₂ := he.countP_add Executor.counted
    simp only [Executor.registered, Executor.counted, Bool.toNat_true, Bool.toNat_false] at h₁ h₂
    constructor <;> dsimp only
    · split <;> omega
    · omega
  | start he | loop he | leave he | remove he | rest he | take he | execute he | release he | discount he | quit he
  | quitStopped he | stop he | stopLate he =>
    have h₁ := he.countP_add Executor.registered
    have h₂ := he.countP_add Executor.counted
    simp only [Executor.registered, Executor.counted, Bool.toNat_true, Bool.toNat_false, Bool.not_false,
      Bool.not_true] at h₁ h₂
    constructor <;> dsimp only <;> omega

theorem addJobStep (h : s.Counted) (hs : AddJobStep s s') : s'.Counted := by
  obtain ⟨hw, ht⟩ := h
  cases hs with
  | signal ha he => exact ⟨hw.trans (he.countP_eq rfl).symm, by rw [he.countP_eq rfl]; exact ht⟩
  | _ => exact ⟨hw, ht⟩

theorem ownerStep (h : s.Counted) (hs : OwnerStep s s') : s'.Counted := by
  obtain ⟨hw, ht⟩ := h
  cases hs with
  | pthreadCreate ho =>
    rw [ho] at ht
    refine ⟨?_, ?_⟩
    · simpa [Executor.registered] using hw
    · simp [Executor.counted, Owner.toCreate] at ht ⊢
      omega
  | removeSignal ho he =>
    rw [ho] at ht
    exact ⟨hw.trans (he.countP_eq rfl).symm, by rw [he.countP_eq rfl]; exact ht⟩
  | resumePool ho =>
    exact ⟨hw.trans (Executor.countP_wake rfl).symm, by rw [Executor.countP_wake rfl]; exact ht⟩
  | broadcast ho =>
    rw [ho] at ht
    exact ⟨hw.trans (Executor.countP_wake rfl).symm, by rw [Executor.countP_wake rfl]; exact ht⟩
  | compare ho =>
    rw [ho] at ht
    refine ⟨hw, ?_⟩
    dsimp only
    split <;> exact ht
  | drain => exact ⟨hw, ht⟩
  | addThreads ho | pthreadFail ho | created ho | initialized ho | removeThread ho | waitToComplete ho | allIdle ho
  | notIdle ho | endWait ho | endSpurious ho | complete ho | suspendPool ho | readWaiting ho | destroyPool ho | join ho
  | joined ho | destroyed ho =>
    rw [ho] at ht
    refine ⟨hw, ?_⟩
    simp only [Owner.toCreate] at ht ⊢
    omega

theorem spurious (h : s.Counted) {es : List Executor} (he : Turn .asleep .woken s.executors es) :
    Counted { s with executors := es } := by
  have hw := he.countP_add Executor.registered
  have ht := he.countP_add Executor.counted
  exact ⟨h.waiting.trans (Nat.add_right_cancel hw).symm, by rw [Nat.add_right_cancel ht]; exact h.threads⟩

theorem step (h : s.Counted) (hs : Step s s') : s'.Counted :=
  hs.elim (P := fun _ s' => s'.Counted) h.executorStep h.addJobStep h.ownerStep (fun _ _ => ⟨h.waiting, h.threads⟩)
    h.spurious

theorem run {n : ℕ} (h : ReflTransGen Step (ThreadPool.createPool α n) s) : s.Counted :=
  @Run.invariant _ _ (fun s : ThreadPool α => s.Counted) _ _ Counted.step (.createPool n) h

theorem registered_le (h : s.Counted) : s.waitingThreads ≤ s.numThreads := by
  rw [h.waiting, h.threads]
  exact (List.countP_mono_left fun _ _ => Executor.counted_of_registered).trans (Nat.le_add_right ..)

theorem all_registered (h : s.Counted) (hn : s.numThreads ≤ s.waitingThreads) {e : Executor} (he : e ∈ s.executors)
    (hc : e.counted = true) : e.registered = true := by
  refine of_countP_le (p := Executor.registered) (q := Executor.counted) (fun _ => Executor.counted_of_registered) ?_ he hc
  rw [h.waiting, h.threads] at hn
  exact (Nat.le_add_right ..).trans hn

theorem no_cell (h : s.Counted) (hn : s.numThreads ≤ s.waitingThreads) {e : Executor} (he : e ∈ s.executors) :
    e.cell = none := by
  cases hc : e.counted with
  | true => exact Executor.cell_of_registered (h.all_registered hn he hc)
  | false => exact Executor.cell_of_not_counted hc

end Counted

theorem started_perm_finished {q : List (ℕ × α)} (h : s.Conserved q) (hs : ∀ e ∈ s.executors, e.cell = none) :
    s.started.Perm s.finished := by
  have hloads : s.loads = [] := List.filterMap_eq_nil_iff.mpr fun e he => Executor.load_of_cell (hs e he)
  simpa [hloads] using h.started

theorem idle_test_sound (n : ℕ) (h : ReflTransGen Step (createPool α n) s) :
    s.waitingThreads ≤ s.numThreads ∧
      (s.numThreads = s.waitingThreads →
        (∀ e ∈ s.executors, e.counted = true → e.registered = true) ∧ s.started.Perm s.finished) := by
  have hc := Counted.run h
  obtain ⟨-, q, hq⟩ := jobInv_run h
  refine ⟨hc.registered_le, fun hn => ⟨fun e he => hc.all_registered hn.le he, ?_⟩⟩
  exact started_perm_finished hq.toConserved fun e he => hc.no_cell hn.le he

theorem idle_test_sound_of_run : ∃ s, ReflTransGen Step (createPool ℕ 1) s ∧ s.numThreads = s.waitingThreads ∧
    s.finished = [7] ∧ (∀ e ∈ s.executors, e.counted = true → e.registered = true) ∧ s.started.Perm s.finished := by
  obtain ⟨s, hs, hn, hf, -⟩ := exists_run_destroyed
  exact ⟨s, hs, hn, hf, (idle_test_sound 1 hs).2 hn⟩

structure Suspending (s : ThreadPool α) : Prop where
  kept : ∀ e ∈ s.executors, e ≠ .removing
  suspending : s.owner = .suspending → s.suspend = true
  comparing : ∀ w, s.owner = .comparing w →
    s.suspend = true ∧ w ≤ s.executors.countP fun e => e.counted && e.cell.isNone
  quiet : s.suspend = true → s.owner.compares = false → ∀ e ∈ s.executors, e.cell = none

namespace Suspending

theorem of_outside (hk : ∀ e ∈ s.executors, e ≠ .removing) (ho : s.owner.compares = false)
    (hq : s.suspend = true → ∀ e ∈ s.executors, e.cell = none) : s.Suspending where
  kept := hk
  suspending h := by simp [h, Owner.compares] at ho
  comparing w h := by simp [h, Owner.compares] at ho
  quiet h _ := hq h

theorem turn (h : s.Suspending) {a b : Executor} (he : Turn a b s.executors s'.executors) (hb : b ≠ .removing)
    (hcount : a.counted = true → b.counted = true) (hcell : s.suspend = true → a.cell = none → b.cell = none)
    (hs : s'.suspend = s.suspend) (ho : s'.owner = s.owner ∨ s'.owner = s.owner.endSignal) : s'.Suspending := by
  have hk : ∀ e ∈ s'.executors, e ≠ .removing := fun e hx => by
    rcases he.mem_of_mem hx with rfl | hx
    · exact hb
    · exact h.kept e hx
  have hquiet : s.suspend = true → s.owner.compares = false → ∀ e ∈ s'.executors, e.cell = none := fun hp hc e hx => by
    rcases he.mem_of_mem hx with rfl | hx
    · exact hcell hp (h.quiet hp hc a he.mem_left)
    · exact h.quiet hp hc e hx
  cases hc : s.owner.compares with
  | false =>
    refine of_outside hk ?_ fun hp => hquiet (hs ▸ hp) hc
    rcases ho with ho | ho
    · rw [ho, hc]
    · rw [ho, Owner.compares_endSignal, hc]
  | true =>
    have ho : s'.owner = s.owner := ho.elim id fun ho => ho.trans (Owner.endSignal_of_compares hc)
    refine ⟨hk, fun hx => ?_, fun w hx => ?_, fun _ hx => ?_⟩
    · rw [hs]
      exact h.suspending (ho ▸ hx)
    · obtain ⟨hp, hle⟩ := h.comparing w (ho ▸ hx)
      have hadd := he.countP_add fun e => e.counted && e.cell.isNone
      have hab : (a.counted && a.cell.isNone).toNat ≤ (b.counted && b.cell.isNone).toNat := by
        cases hca : a.counted && a.cell.isNone with
        | false => exact Nat.zero_le _
        | true =>
          simp only [Bool.and_eq_true, Option.isNone_iff_eq_none] at hca
          simp [hcount hca.1, hcell hp hca.2]
      exact ⟨hs.trans hp, by omega⟩
    · rw [ho, hc] at hx
      cases hx

theorem executorStep (h : s.Suspending) (hr : s.removeThreads = 0) (hs : ExecutorStep s s') : s'.Suspending := by
  cases hs with
  | remove he _ hr' => exact absurd hr hr'.ne'
  | discount he => exact absurd rfl (h.kept _ he.mem_left)
  | take he _ _ _ hp =>
    exact h.turn he nofun (fun _ => rfl) (fun hp' _ => absurd (hp.symm.trans hp') nofun) rfl (.inl rfl)
  | register he =>
    rcases s.register_spec with hr | ⟨-, ⟨-, hr⟩ | ⟨-, hr⟩⟩
    · exact h.turn he nofun (fun _ => rfl) (fun _ _ => rfl) (by rw [hr]) (.inl (by rw [hr]))
    · exact h.turn he nofun (fun _ => rfl) (fun _ _ => rfl) (by rw [hr]) (.inr (by rw [hr]))
    · exact h.turn he nofun (fun _ => rfl) (fun _ _ => rfl) (by rw [hr]) (.inl (by rw [hr]))
  | start he | loop he | leave he | rest he | unregister he | release he | stop he | stopLate he =>
    exact h.turn he nofun (fun _ => rfl) (fun _ _ => rfl) rfl (.inl rfl)
  | execute he => exact h.turn he nofun (fun _ => rfl) (fun _ hx => hx) rfl (.inl rfl)
  | quit he | quitStopped he => exact h.turn he nofun (fun hx => hx) (fun _ _ => rfl) rfl (.inl rfl)

theorem signalled (h : s.Suspending) (he : Signalled s.executors s'.executors) (hs : s'.suspend = s.suspend)
    (ho : s'.owner = s.owner) : s'.Suspending := by
  rcases he with he | ⟨-, he⟩
  · exact h.turn he nofun (fun _ => rfl) (fun _ _ => rfl) hs (.inl ho)
  · obtain ⟨hk, hx, hc, hq⟩ := h
    exact ⟨by rwa [he], by rwa [ho, hs], by rwa [ho, hs, he], by rwa [ho, hs, he]⟩

theorem addJobStep (h : s.Suspending) (hs : AddJobStep s s') : s'.Suspending := by
  obtain ⟨hk, hx, hc, hq⟩ := h
  cases hs with
  | signal _ he => exact signalled ⟨hk, hx, hc, hq⟩ he rfl rfl
  | _ => exact ⟨hk, hx, hc, hq⟩

theorem outside (h : s.Suspending) (ho : s.owner.compares = false) (ho' : s'.owner.compares = false)
    (hs : s'.suspend = s.suspend) (he : ∀ e ∈ s'.executors, e ≠ .removing ∧ (e.cell = none ∨ e ∈ s.executors)) :
    s'.Suspending := by
  refine of_outside (fun e hx => (he e hx).1) ho' fun hp e hx => ?_
  rcases (he e hx).2 with hn | hx
  · exact hn
  · exact h.quiet (hs ▸ hp) ho e hx

theorem wake (h : s.Suspending) : ∀ e ∈ s.executors.map Executor.wake, e ≠ .removing ∧ (e.cell = none ∨ e ∈ s.executors) := by
  intro e he
  obtain ⟨d, hd, rfl⟩ := List.mem_map.mp he
  have hk := h.kept d hd
  cases d with
  | asleep => exact ⟨nofun, .inl rfl⟩
  | removing => exact absurd rfl hk
  | _ => exact ⟨hk, .inr hd⟩

theorem ownerStep (h : s.Suspending) (hc : s.Counted) (hr : s'.removeThreads = 0) (hs : OwnerStep s s') : s'.Suspending := by
  have hsame : ∀ e ∈ s.executors, e ≠ .removing ∧ (e.cell = none ∨ e ∈ s.executors) := fun e he => ⟨h.kept e he, .inr he⟩
  cases hs with
  | removeThread => exact absurd hr (Nat.succ_ne_zero _)
  | pthreadCreate ho =>
    refine h.outside (by simp [ho, Owner.compares]) rfl rfl fun e he => ?_
    rcases List.mem_append.mp he with he | he
    · exact hsame e he
    · obtain rfl := List.mem_singleton.mp he
      exact ⟨nofun, .inl rfl⟩
  | removeSignal ho he =>
    refine h.outside (by simp [ho, Owner.compares]) rfl rfl fun e hx => ?_
    rcases he with he | ⟨-, rfl⟩
    · rcases he.mem_of_mem hx with rfl | hx
      · exact ⟨nofun, .inl rfl⟩
      · exact hsame e hx
    · exact hsame e hx
  | suspendPool => exact ⟨h.kept, fun _ => rfl, nofun, nofun⟩
  | readWaiting ho =>
    refine ⟨h.kept, nofun, fun w hw => ?_, nofun⟩
    cases hw
    refine ⟨h.suspending ho, ?_⟩
    rw [hc.waiting]
    refine List.countP_mono_left fun e _ he => ?_
    simp [Executor.counted_of_registered he, Executor.cell_of_registered he]
  | @compare w ho =>
    obtain ⟨hp, hle⟩ := h.comparing w ho
    have hn := hc.threads
    rw [ho] at hn
    by_cases hw : w < s.numThreads
    · rw [if_pos hw]
      exact ⟨h.kept, fun _ => hp, nofun, nofun⟩
    · have hall : s.executors.countP Executor.counted ≤ s.executors.countP fun e => e.counted && e.cell.isNone := by
        simp only [Owner.toCreate] at hn
        omega
      rw [if_neg hw]
      refine of_outside h.kept rfl fun _ e he => ?_
      cases hx : e.counted with
      | false => exact Executor.cell_of_not_counted hx
      | true => simpa [hx] using of_countP_le (fun _ hx => (Bool.and_eq_true_iff.mp hx).1) hall he hx
  | resumePool ho =>
    refine of_outside (fun e he => (h.wake e he).1) (by simp [ho, Owner.compares]) nofun
  | broadcast ho => exact h.outside (by simp [ho, Owner.compares]) rfl rfl h.wake
  | drain ho => exact h.outside (by simp [ho, Owner.compares]) (by simp [ho, Owner.compares]) rfl hsame
  | addThreads ho | pthreadFail ho | created ho | initialized ho | waitToComplete ho | allIdle ho
  | notIdle ho | endWait ho | endSpurious ho | complete ho | destroyPool ho | join ho
  | joined ho | destroyed ho => exact h.outside (by simp [ho, Owner.compares]) rfl rfl hsame

theorem step (h : s.Suspending) (hc : s.Counted) (hr : s.removeThreads = 0) (hr' : s'.removeThreads = 0) (hs : Step s s') :
    s'.Suspending := by
  revert hr'
  exact hs.elim (P := fun _ s' => s'.removeThreads = 0 → s'.Suspending) (fun hs _ => h.executorStep hr hs)
    (fun hs _ => h.addJobStep hs) (fun hs hr' => h.ownerStep hc hr' hs)
    (fun _ _ _ => ⟨h.kept, h.suspending, h.comparing, h.quiet⟩)
    fun he _ => h.turn he nofun (fun _ => rfl) (fun _ _ => rfl) rfl (.inl rfl)

end Suspending

def Unremoved (s s' : ThreadPool α) : Prop := Step s s' ∧ s'.removeThreads = 0

theorem suspending_run {n : ℕ} (h : ReflTransGen Unremoved (createPool α n) s) :
    s.removeThreads = 0 ∧ s.Counted ∧ s.Suspending := by
  refine @Run.invariant _ _ (fun s : ThreadPool α => s.removeThreads = 0 ∧ s.Counted ∧ s.Suspending) _ _ ?_ ?_ h
  · rintro s s' ⟨hr, hc, hp⟩ ⟨hs, hr'⟩
    exact ⟨hr', hc.step hs, hp.step hc hr hr' hs⟩
  · refine ⟨rfl, .createPool n, .of_outside nofun ?_ nofun⟩
    unfold createPool
    dsimp only
    split <;> rfl

theorem suspend_pool_quiet (n : ℕ) (h : ReflTransGen Unremoved (createPool α n) s) (hp : s.suspend = true)
    (ho : s.owner.compares = false) : (∀ e ∈ s.executors, e.cell = none) ∧ s.started.Perm s.finished := by
  obtain ⟨-, -, hq⟩ := suspending_run h
  obtain ⟨-, q, hj⟩ := jobInv_run (h.lift id fun _ _ hs => hs.1)
  exact ⟨hq.quiet hp ho, started_perm_finished hj.toConserved (hq.quiet hp ho)⟩

theorem exists_run_suspended : ∃ s, ReflTransGen Unremoved (createPool ℕ 1) s ∧ s.suspend = true ∧
    s.owner.compares = false ∧ s.accepted = [7] := by
  have h := ReflTransGen.refl (r := Unremoved) (a := createPool ℕ 1)
  have h := h.tail ⟨.owner (.pthreadCreate rfl), rfl⟩
  have h := h.tail ⟨.owner (.created rfl), rfl⟩
  have h := h.tail ⟨.executor (.start (.here _) rfl), rfl⟩
  have h := h.tail ⟨.executor (.loop (.here _) (by decide)), rfl⟩
  have h := h.tail ⟨.executor (.rest (.here _) rfl rfl (.inl rfl)), rfl⟩
  have h := h.tail ⟨.executor (.register (.here _)), rfl⟩
  have h := h.tail ⟨.owner (.initialized rfl rfl), rfl⟩
  have h := h.tail ⟨.owner (.suspendPool rfl rfl (by decide) rfl rfl), rfl⟩
  have h := h.tail ⟨.owner (.readWaiting rfl), rfl⟩
  have h := h.tail ⟨.owner (.compare rfl), rfl⟩
  have h := h.tail ⟨.call 7 rfl, rfl⟩
  have h := h.tail ⟨.addJob (.initialized (.here _) rfl), rfl⟩
  have h := h.tail ⟨.addJob (.live (.here _) (by decide)), rfl⟩
  have h := h.tail ⟨.addJob (.malloc (p := 1) (.here _) (by decide) (by decide) rfl), rfl⟩
  have h := h.tail ⟨.addJob (.insertWaiting (.here _) rfl rfl (by decide)), rfl⟩
  have h := h.tail ⟨.addJob (.signal (.here _) (.inl (.here _))), rfl⟩
  have h := h.tail ⟨.executor (.unregister (.here _)), rfl⟩
  have h := h.tail ⟨.executor (.loop (.here _) (by decide)), rfl⟩
  exact ⟨_, h.tail ⟨.executor (.rest (.here _) rfl rfl (.inr rfl)), rfl⟩, rfl, rfl, rfl⟩

theorem suspend_pool_quiet_of_run : ∃ s, ReflTransGen Unremoved (createPool ℕ 1) s ∧ s.suspend = true ∧
    s.accepted = [7] ∧ (∀ e ∈ s.executors, e.cell = none) ∧ s.started.Perm s.finished := by
  obtain ⟨s, hs, hp, ho, ha⟩ := exists_run_suspended
  exact ⟨s, hs, hp, ha, suspend_pool_quiet 1 hs hp ho⟩

end ThreadPool
end Azalea
