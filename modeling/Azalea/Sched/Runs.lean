import Azalea.Sched.Calls

namespace Azalea

namespace Sched

variable {s s' : Sched} {env : Env} {c t : ℕ} {p : Place} {e : Event}

theorem threadInit_placed (l : Layout) : Placed (fun _ => 0) (threadInit l) where
  exclusive :=
    { nodup := fun p => by
        by_cases hp : p = .globalTcb
        · simpa [threadInit, hp] using List.nodup_range'
        · simp [threadInit, hp]
      once := fun {p q a} hp hq => by
        by_cases hpg : p = .globalTcb <;> by_cases hqg : q = .globalTcb <;> simp_all [threadInit] }
  thread {p t} ht := by
    by_cases hp : p = .globalTcb
    · simp only [threadInit, hp, if_true, List.mem_range'_1] at ht
      exact ht
    · simp [threadInit, hp] at ht
  at_place {p t} ht := by
    by_cases hp : p = .globalTcb
    · subst hp
      simp only [threadInit, if_true, List.mem_range'_1] at ht
      have hn : ¬t < maxProcessorCount := Nat.not_lt_of_le ht.1
      simp only [threadInit, hn, if_false]
      exact ⟨rfl, rfl, rfl⟩
    · simp [threadInit, hp] at ht
  unlisted {t} ht hn := by
    refine absurd ?_ (hn .globalTcb)
    simp only [threadInit, if_true, List.mem_range'_1]
    exact ht
  idle {i} hi := by
    simp only [threadInit, hi, if_true]
    exact ⟨⟨by simp [TCB.Live, idleTcb], rfl, rfl, rfl⟩, rfl, rfl, rfl, rfl, rfl⟩

theorem threadInit_steady (strict : Bool) (l : Layout) : Steady strict (fun _ => 0) (threadInit l) where
  inv :=
    { placed := threadInit_placed l
      seated := fun _ => .idle
      counted := fun _ p => by
        by_cases hp : p = .globalTcb
        · simp [threadInit, hp]
        · simp [threadInit, hp] }
  seats _ _ _ := .inl rfl

inductive Step (L : Sched → ℕ → Event → Prop) (s s' : Sched) : Prop
  | call {env : Env} {c : ℕ} {e : Event} (hc : c < maxProcessorCount) (hl : L s c e)
      (he : s.exec env c e = some s') : Step L s s'

def replay (L : Sched → ℕ → Event → Prop) [∀ s c e, Decidable (L s c e)] :
    List (Env × ℕ × Event) → Sched → Option Sched
  | [], s => some s
  | (env, c, e) :: es, s =>
    if c < maxProcessorCount ∧ L s c e then (s.exec env c e).bind (replay L es) else none

theorem replay_run {L : Sched → ℕ → Event → Prop} [∀ s c e, Decidable (L s c e)] {es : List (Env × ℕ × Event)}
    (h : replay L es s = some s') : Relation.ReflTransGen (Step L) s s' := by
  induction es generalizing s with
  | nil =>
    cases h
    exact .refl
  | cons x es ih =>
    obtain ⟨env, c, e⟩ := x
    rw [replay] at h
    split at h
    · next hl =>
      obtain ⟨s₁, he, h⟩ := Option.bind_eq_some_iff.mp h
      exact .head (.call hl.1 hl.2 he) (ih h)
    · exact absurd h (by simp)

def Orderly (s : Sched) (c : ℕ) : Event → Prop
  | .create _ _ => True
  | .schedule i => s.runningThread c < maxProcessorCount → i = .onlyReady
  | .scheduleTo n i => i = .onlyReady ∧ n ∈ s.tcbList (.runnable c) ∧ n ≠ s.runningThread c
  | .wakeUp _ => True
  | .suspend t => maxProcessorCount ≤ t
  | .exit => maxProcessorCount ≤ s.runningThread c

instance (s : Sched) (c : ℕ) (e : Event) : Decidable (Orderly s c e) :=
  match e with
  | .create _ _ => inferInstanceAs (Decidable True)
  | .schedule i => inferInstanceAs (Decidable (s.runningThread c < maxProcessorCount → i = .onlyReady))
  | .scheduleTo n i =>
    inferInstanceAs (Decidable (i = .onlyReady ∧ n ∈ s.tcbList (.runnable c) ∧ n ≠ s.runningThread c))
  | .wakeUp _ => inferInstanceAs (Decidable True)
  | .suspend t => inferInstanceAs (Decidable (maxProcessorCount ≤ t))
  | .exit => inferInstanceAs (Decidable (maxProcessorCount ≤ s.runningThread c))

theorem Steady.exec {r : ℕ → ℕ} (h : Steady true r s) (hc : c < maxProcessorCount) (hl : Orderly s c e)
    (he : s.exec env c e = some s') : Reach true env c r s s' := by
  cases e with
  | create core stack =>
    obtain ⟨⟨t, s₁⟩, he₁, rfl⟩ := Option.map_eq_some_iff.mp he
    exact h.create he₁
  | schedule i =>
    refine h.schedule hc (by simp) (fun hlt => ?_) he
    rw [hl hlt]
    exact ⟨rfl, rfl⟩
  | scheduleTo n i =>
    obtain ⟨rfl, hn, hne⟩ := hl
    exact h.scheduleTo hc (by simp) (fun _ => ⟨rfl, rfl⟩) (fun _ _ => ⟨.runnable hn, fun _ => ⟨.inr hn, hne⟩⟩) he
  | wakeUp t => exact h.intend (fun _ => ⟨rfl, rfl⟩) he
  | suspend t => exact h.intend (fun hlt => absurd hlt (Nat.not_lt_of_le hl)) he
  | exit => exact h.exit hc (by simp) (Nat.not_lt_of_le hl) he

theorem Steady.run {r : ℕ → ℕ} (h : Steady true r s) (hr : Relation.ReflTransGen (Step Orderly) s s') :
    Steady true r s' :=
  Run.invariant (fun h ⟨hc, hl, he⟩ => (h.exec hc hl he).steady) h hr

structure Listed (s : Sched) : Prop where
  allocated : ∀ {t}, IsThread t → (s.tcb t).state ≠ .notalloc →
    ∃ p, p.Scheduled ∧ (s.tcbList p).count t = 1 ∧ ∀ q, q.Scheduled → q ≠ p → t ∉ s.tcbList q
  free : ∀ {t}, IsThread t → (s.tcb t).state = .notalloc → ∀ p, p.Scheduled → t ∉ s.tcbList p
  count : ∀ p, p.Scheduled → s.count p = (s.tcbList p).length

theorem Steady.listed (h : Steady true (fun _ => 0) s) : Listed s where
  allocated {t} ht hs := by
    have hl : ∃ p, t ∈ s.tcbList p := by
      by_contra hn
      exact absurd (h.inv.placed.unlisted ht (not_exists.mp hn)).2.2 (by simp)
    obtain ⟨p, hp⟩ := hl
    refine ⟨p, ?_, List.count_eq_one_of_mem (h.inv.placed.exclusive.nodup p) hp, fun q _ hq => ?_⟩
    · by_contra hns
      exact hs ((TCB.at_iff_free hns).mp (h.inv.placed.at_place hp)).1
    · exact h.inv.placed.exclusive.not_mem hp hq
  free {t} _ hs p hp hm := absurd hs ((h.inv.placed.at_place hm).listed hp).live.1
  count p _ := h.inv.counted rfl p

theorem threadInit_run_listed (l : Layout) (hr : Relation.ReflTransGen (Step Orderly) (threadInit l) s) : Listed s :=
  ((threadInit_steady true l).run hr).listed

def quiet : Env where
  consumed := 0
  rounds := 2
  trySelect _ _ := true
  tryMigrate := true
  tryGlobal _ := true

def boot : Sched := threadInit ⟨0x1000000, 0x800000, 0, 0⟩

def exitRun : List (Env × ℕ × Event) :=
  [(quiet, 0, .create 0 0x100000), (quiet, 0, .create (-1) 0x200000), (quiet, 1, .schedule .onlyReady),
    (quiet, 0, .schedule .onlyReady), (quiet, 0, .schedule .onlyReady), (quiet, 0, .exit)]

theorem boot_exit_listed : ∃ s, replay Orderly exitRun boot = some s ∧
    ((s.tcb 288).state = .notalloc ∧ s.tcbList (.runnable 1) = [289]) ∧ Listed s := by
  have hrun : (replay Orderly exitRun boot).map (fun s => ((s.tcb 288).state, s.tcbList (.runnable 1))) =
      some (.notalloc, [289]) := by decide +kernel
  obtain ⟨s, hs, hview⟩ := Option.map_eq_some_iff.mp hrun
  exact ⟨s, hs, Prod.mk.inj hview, threadInit_run_listed _ (replay_run hs)⟩

end Sched

end Azalea
