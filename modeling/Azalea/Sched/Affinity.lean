import Azalea.Sched.History

namespace Azalea

theorem TCB.setCore_allowed {core : ℤ} {a : TCB} {c : ℕ} (h : TCB.setCore core = some a.coreMask) (h0 : 0 ≤ core)
    (hc : c < 256) (ha : a.coreIsAllowed c = true) : (c : ℤ) = core := by
  unfold TCB.setCore at h
  split at h
  · omega
  · split at h
    · next hcore =>
      have hmask : a.coreMask = ~~~(1#256 <<< core.toNat) := (Option.some.inj h).symm
      by_contra hne
      simp [TCB.coreIsAllowed, hc, hmask] at ha
      omega
    · exact absurd h (by simp)

namespace Sched

variable {strict : Bool} {s s' : Sched} {env : Env} {r : ℕ → ℕ} {c d t u : ℕ} {e : Event}

def createdFor (t : ℕ) (log : List Life) : Option ℤ :=
  log.foldl (fun o e => match e with
    | .create u _ core => if u = t then some core else o
    | .exit _ | .destroy _ _ _ _ _ => o) none

theorem Turn.createdFor_of_ne (h : Turn s s' t) (hu : u ≠ t) : createdFor u s'.log = createdFor u s.log := by
  have ht : t ≠ u := hu.symm
  cases h with
  | still hg => rw [hg]
  | exit hg => simp [hg, createdFor]
  | finish hg => simp [hg, createdFor]
  | destroy hg => simp [hg, createdFor]
  | create hg => simp [hg, createdFor, ht]

def Masked (s : Sched) : Prop :=
  ∀ t, OnList s t → ∃ core, createdFor t s.log = some core ∧ TCB.setCore core = some (s.tcb t).coreMask

theorem Op.masked (hm : Masked s) (h : Op strict env c s s') : Masked s' := by
  obtain ⟨t, ht, haside⟩ := h.turn
  intro u hu
  by_cases hut : u = t
  · subst hut
    cases ht with
    | still hg hb hk hl =>
      rw [hg, hk]
      exact hm u (hl.mp hu)
    | exit hg hb hl hn =>
      obtain ⟨p, _, hp⟩ := hu
      exact absurd hp (hn p)
    | finish hg hl hn => exact absurd hu hn
    | destroy hg ht hl hn => exact absurd hu hn
    | @create stack core hg hp hn hq hl hb hk => exact ⟨core, by simp [hg, createdFor], hk⟩
  · have ha := haside u hut
    rw [ht.createdFor_of_ne hut, ha.tcb]
    exact hm u (ha.onList.mp hu)

def Stays (s s' : Sched) : Prop :=
  ∃ l, s'.log = s.log ++ l ∧ ∀ d u, Held s d u → Held s' d u ∨ .exit u ∈ l

theorem Stays.refl (s : Sched) : Stays s s := ⟨[], by simp, fun _ _ h => .inl h⟩

theorem Stays.trans {s₁ s₂ s₃ : Sched} (h : Stays s₁ s₂) (h' : Stays s₂ s₃) : Stays s₁ s₃ := by
  obtain ⟨l, hl, hs⟩ := h
  obtain ⟨l', hl', hs'⟩ := h'
  refine ⟨l ++ l', by rw [hl', hl, List.append_assoc], fun d u hu => ?_⟩
  rcases hs d u hu with hu | hx
  · exact (hs' d u hu).imp_right (List.mem_append_right l)
  · exact .inr (List.mem_append_left l' hx)

theorem Held.onList (h : Held s d t) : OnList s t := by
  rcases h with h | h
  · exact ⟨.runnable d, trivial, h⟩
  · exact ⟨.blocked d, trivial, h⟩

theorem Turn.stays (h : Turn s s' t) (haside : ∀ u, u ≠ t → Aside u s s') :
    Stays s s' := by
  -- the other threads stay where they are, so only t has to be looked at
  have hother {l : List Life} (hg : s'.log = s.log ++ l) (ht : ∀ d, Held s d t → Held s' d t ∨ .exit t ∈ l) :
      Stays s s' := by
    refine ⟨l, hg, fun d u hu => ?_⟩
    by_cases hut : u = t
    · subst hut
      exact ht d hu
    · exact .inl ((haside u hut).held.mpr hu)
  cases h with
  | still hg hb hk hl hp hh => exact hother (l := []) (by simpa using hg) fun d hd => .inl (hh d hd)
  | exit hg => exact hother hg fun _ _ => .inr (by simp)
  | finish hg => exact hother hg fun _ _ => .inr (by simp)
  | destroy hg ht hl =>
    refine hother hg fun d hd => ?_
    obtain ⟨p, _, hp⟩ := hd.onList
    exact absurd hp (hl p)
  | create hg hp hn => exact hother hg fun d hd => absurd hd.onList hn

theorem Ops.masked (hm : Masked s) (h : Ops strict env c s s') : Masked s' := Run.invariant Op.masked hm h

theorem Ops.stays (h : Ops strict env c s s') : Stays s s' := by
  induction h with
  | refl => exact .refl _
  | tail _ h ih =>
    obtain ⟨t, ht, haside⟩ := h.turn
    exact ih.trans (ht.stays haside)

def Permitted (s : Sched) (c : ℕ) (e : Event) : Prop :=
  c < 256 ∧ match e with
    | .create _ _ | .wakeUp _ => True
    | .schedule i | .scheduleTo _ i => s.runningThread c < maxProcessorCount → i = .onlyReady
    | .suspend t => maxProcessorCount ≤ t
    | .exit => maxProcessorCount ≤ s.runningThread c

instance (s : Sched) (c : ℕ) (e : Event) : Decidable (Permitted s c e) :=
  match e with
  | .create _ _ | .wakeUp _ => inferInstanceAs (Decidable (c < 256 ∧ True))
  | .schedule i | .scheduleTo _ i =>
    inferInstanceAs (Decidable (c < 256 ∧ (s.runningThread c < maxProcessorCount → i = .onlyReady)))
  | .suspend t => inferInstanceAs (Decidable (c < 256 ∧ maxProcessorCount ≤ t))
  | .exit => inferInstanceAs (Decidable (c < 256 ∧ maxProcessorCount ≤ s.runningThread c))

theorem Placed.seat_of_core (h : Placed (fun _ => 0) s) (ht : t < maxThreadId) (hs : (s.tcb t).state ≠ .notalloc)
    (hc : (s.tcb t).runningCore = c) : Seat false s c t := by
  by_cases hidle : t < maxProcessorCount
  · obtain rfl : t = c := (h.idle hidle).core.symm.trans hc
    exact .idle
  have hl : ∃ p, t ∈ s.tcbList p := by
    by_contra hn
    exact absurd (h.unlisted ⟨Nat.le_of_not_lt hidle, ht⟩ (not_exists.mp hn)).2.2 (by simp)
  obtain ⟨p, hp⟩ := hl
  have ha := h.at_place hp
  cases p with
  | migrating => exact .migrating rfl hp hc
  | runnable d =>
    obtain rfl : d = c := ha.2.1.symm.trans hc
    exact .runnable hp
  | blocked d =>
    obtain rfl : d = c := ha.2.1.symm.trans hc
    exact .blocked hp (by simp)
  | localTcb d => exact absurd ha.1 hs
  | globalTcb => exact absurd ha.1 hs

theorem Steady.permitted (h : Steady false (fun _ => 0) s) (hc : c < maxProcessorCount) (hl : Permitted s c e)
    (he : s.exec env c e = some s') : Reach false env c (fun _ => 0) s s' := by
  obtain ⟨hlo, hl⟩ := hl
  cases e with
  | create core stack =>
    obtain ⟨⟨t, s₁⟩, he₁, rfl⟩ := Option.map_eq_some_iff.mp he
    exact h.create he₁
  | schedule i =>
    refine h.schedule hc (fun _ => hlo) (fun hlt => ?_) he
    rw [hl hlt]
    exact ⟨rfl, rfl⟩
  | scheduleTo n i =>
    obtain ⟨s₁, hget, _⟩ := scheduleTo_cases (h.inv.current_core hc) he
    refine h.scheduleTo hc (fun _ => hlo) (fun hlt => ?_) (fun hcore hs => ⟨?_, by simp⟩) he
    · rw [hl hlt]
      exact ⟨rfl, rfl⟩
    · exact h.inv.placed.seat_of_core (getTcb_eq hget).1 hs hcore
  | wakeUp t => exact h.intend (fun _ => ⟨rfl, rfl⟩) he
  | suspend t => exact h.intend (fun hlt => absurd hlt (Nat.not_lt_of_le hl)) he
  | exit => exact h.exit hc (fun _ => hlo) (Nat.not_lt_of_le hl) he

structure Affine (s : Sched) : Prop where
  steady : Steady false (fun _ => 0) s
  masked : Masked s

theorem Affine.step (h : Affine s) (hs : Step Permitted s s') : Affine s' ∧ Stays s s' := by
  obtain ⟨hc, hl, he⟩ := hs
  have hr := h.steady.permitted hc hl he
  exact ⟨⟨hr.steady, hr.ops.masked h.masked⟩, hr.ops.stays⟩

theorem threadInit_affine (l : Layout) : Affine (threadInit l) where
  steady := threadInit_steady false l
  masked t := by
    rintro ⟨p, hp, hm⟩
    have hg : p = .globalTcb := by
      by_contra hne
      simp [threadInit, hne] at hm
    exact absurd hp (hg ▸ id)

theorem Affine.run (h : Affine s) (hr : Relation.ReflTransGen (Step Permitted) s s') : Affine s' :=
  Run.invariant (fun h hs => (h.step hs).1) h hr

theorem Affine.run_stays (h : Affine s) (hr : Relation.ReflTransGen (Step Permitted) s s') : Stays s s' :=
  Run.preserved Stays.refl .trans Affine.step h hr

theorem Affine.held_core (h : Affine s) (hh : Held s c t) :
    (s.tcb t).runningCore = c ∧ (s.tcb t).coreIsAllowed c = true := by
  rcases hh with hm | hm
  · exact (h.steady.inv.placed.at_place hm).2
  · exact (h.steady.inv.placed.at_place hm).2

theorem Affine.current (h : Affine s) (hc : c < maxProcessorCount) (hn : maxProcessorCount ≤ s.runningThread c) :
    OnList s (s.runningThread c) ∧ (s.tcb (s.runningThread c)).coreIsAllowed c = true := by
  have hi := h.steady.inv
  rcases hi.placed.seat_own hc (hi.seated hc) with he | ⟨p, hp, hm, hcore, _⟩
  · rw [he] at hn
    exact absurd hc (Nat.not_lt_of_le hn)
  · exact ⟨⟨p, hp.scheduled, hm⟩, (hi.placed.of_core hm hp hcore hc).2.2⟩

theorem threadInit_run_affine (l : Layout) (hr : Relation.ReflTransGen (Step Permitted) (threadInit l) s) :
    (∀ c < 256, ∀ t, Held s c t → (s.tcb t).coreIsAllowed c = true) ∧
    (∀ c < 256, maxProcessorCount ≤ s.runningThread c → (s.tcb (s.runningThread c)).coreIsAllowed c = true) ∧
    (∀ c < 256, ∀ t k, maxProcessorCount ≤ t → createdFor t s.log = some k → 0 ≤ k → s.runningThread c = t →
      (c : ℤ) = k) ∧
    ∀ s', Relation.ReflTransGen (Step Permitted) s s' → ∀ c < 256, ∀ t, Held s c t →
      .exit t ∈ s'.log.drop s.log.length ∨ Held s' c t ∧ ∀ d < 256, s'.runningThread d = t → d = c := by
  have h := (threadInit_affine l).run hr
  have hlt {c : ℕ} (hc : c < 256) : c < maxProcessorCount := hc.trans (by simp)
  refine ⟨fun c _ t ht => (h.held_core ht).2, fun c hc hn => (h.current (hlt hc) hn).2, ?_, ?_⟩
  · rintro c hc t k ht hk h0 rfl
    obtain ⟨hon, ha⟩ := h.current (hlt hc) ht
    obtain ⟨core, hcore, hmask⟩ := h.masked _ hon
    obtain rfl : core = k := Option.some.inj (hcore.symm.trans hk)
    exact TCB.setCore_allowed hmask h0 hc ha
  · intro s' hr' c hc t ht
    have h' := h.run hr'
    obtain ⟨l', hl', hs⟩ := h.run_stays hr'
    rcases hs c t ht with hh | hx
    · refine .inr ⟨hh, fun d hd hrun => ?_⟩
      rw [← (h'.held_core hh).1, ← hrun]
      exact (h'.steady.inv.current_core (hlt hd)).symm
    · left
      rwa [hl', List.drop_left]

def pinnedRun : List (Env × ℕ × Event) :=
  [(quiet, 0, .create 1 0x100000), (quiet, 0, .create (-1) 0x200000), (quiet, 2, .schedule .onlyReady),
    (quiet, 1, .schedule .onlyReady), (quiet, 1, .schedule .onlyReady)]

def selfRun : List (Env × ℕ × Event) :=
  [(quiet, 2, .schedule .onlyReady), (quiet, 2, .scheduleTo 289 .onlyBlocked)]

theorem boot_pinned_affine : ∃ s s', replay Permitted pinnedRun boot = some s ∧ replay Permitted selfRun s = some s' ∧
    s.runningThread 1 = 288 ∧ createdFor 288 s.log = some 1 ∧ (s.tcb 288).coreIsAllowed 1 = true ∧
    (s.tcb 289).coreIsAllowed 2 = true ∧ ((1 : ℕ) : ℤ) = 1 ∧ s'.runningThread 2 = 289 ∧
    (.exit 289 ∈ s'.log.drop s.log.length ∨ Held s' 2 289 ∧ ∀ d < 256, s'.runningThread d = 289 → d = 2) := by
  have hrun : ((replay Permitted pinnedRun boot).bind fun s => (replay Permitted selfRun s).map fun s' =>
      ((s.runningThread 1, createdFor 288 s.log, s.tcbList (.runnable 2)), s'.runningThread 2)) =
      some ((288, some 1, [289]), 289) := by decide +kernel
  obtain ⟨s, hs, hview⟩ := Option.bind_eq_some_iff.mp hrun
  obtain ⟨s', hs', hview⟩ := Option.map_eq_some_iff.mp hview
  simp only [Prod.mk.injEq] at hview
  obtain ⟨⟨hcur, hcreated, hlist⟩, hcur'⟩ := hview
  obtain ⟨hlists, hcurrent, hpinned, hstays⟩ := threadInit_run_affine _ (replay_run hs)
  have hheld : Held s 2 289 := .inl (by simp [hlist])
  refine ⟨s, s', hs, hs', hcur, hcreated, ?_, hlists 2 (by decide) 289 hheld, ?_, hcur', ?_⟩
  · exact hcur ▸ hcurrent 1 (by decide) (by simp [hcur])
  · exact hpinned 1 (by decide) 288 1 (by simp) hcreated (by decide) hcur
  · exact hstays s' (replay_run hs') 2 (by decide) 289 hheld

end Sched

end Azalea
