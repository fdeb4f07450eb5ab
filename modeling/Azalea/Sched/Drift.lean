import Azalea.Sched.States

namespace Azalea

namespace Sched

set_option linter.style.nameCheck false

variable {strict : Bool} {s s' s₁ : Sched} {env : Env} {r : ℕ → ℕ} {c t u next : ℕ} {f : TCB → TCB} {S : Set ℕ}
  {i I : Intention}

structure Still (u : ℕ) (s s' : Sched) : Prop where
  mem : ∀ {p : Place}, p.Scheduled → (u ∈ s'.tcbList p ↔ u ∈ s.tcbList p)
  intention : (s'.tcb u).intention = (s.tcb u).intention

inductive Drift (u : ℕ) (s s' : Sched) : Prop
  | still (h : Still u s s') : Drift u s s'
  | adopted {c : ℕ} (ht : u ∈ s.tcbList .migrating) (ht' : u ∈ s'.tcbList (.runnable c))
      (hi : (s'.tcb u).intention = (s.tcb u).intention) : Drift u s s'
  | woken {c : ℕ} (ht : u ∈ s.tcbList (.blocked c)) (hr : (s.tcb u).intention.ready = true)
      (ht' : u ∈ s'.tcbList (.runnable c))
      (hi : (s'.tcb u).intention = { (s.tcb u).intention with ready := false, blocked := false }) : Drift u s s'

theorem Still.runnable (h : Still u s s') : u ∈ s'.tcbList (.runnable c) ↔ u ∈ s.tcbList (.runnable c) := h.mem trivial

theorem Still.blocked (h : Still u s s') : u ∈ s'.tcbList (.blocked c) ↔ u ∈ s.tcbList (.blocked c) := h.mem trivial

theorem Still.migrating (h : Still u s s') : u ∈ s'.tcbList .migrating ↔ u ∈ s.tcbList .migrating := h.mem trivial

theorem Still.trans (h : Still u s s₁) (h' : Still u s₁ s') : Still u s s' :=
  ⟨fun hp => (h'.mem hp).trans (h.mem hp), h'.intention.trans h.intention⟩

theorem Untouched.still (h : Untouched u s s') : Still u s s' := ⟨h.mem, by rw [h.tcb]⟩

theorem modify_still (hu : u = t → (f (s.tcb t)).intention = (s.tcb t).intention) : Still u s (s.modify t f) := by
  refine ⟨fun _ => Iff.rfl, ?_⟩
  by_cases hut : u = t
  · subst hut
    rw [modify_tcb_self, hu rfl]
  · rw [modify_tcb_of_ne hut]

namespace Drift

theorem after (h : Drift u s s₁) (h' : Still u s₁ s') : Drift u s s' := by
  cases h with
  | still h => exact .still (h.trans h')
  | adopted ht ht' hi => exact .adopted ht (h'.runnable.mpr ht') (h'.intention.trans hi)
  | woken ht hr ht' hi => exact .woken ht hr (h'.runnable.mpr ht') (h'.intention.trans hi)

theorem before (h : Still u s s₁) (h' : Drift u s₁ s') : Drift u s s' := by
  cases h' with
  | still h' => exact .still (h.trans h')
  | adopted ht ht' hi => exact .adopted (h.migrating.mp ht) ht' (hi.trans h.intention)
  | woken ht hr ht' hi =>
    rw [h.intention] at hr hi
    exact .woken (h.blocked.mp ht) hr ht' hi

theorem exited (h : Drift u s s') : (s'.tcb u).intention.exited = (s.tcb u).intention.exited := by
  cases h with
  | still h => rw [h.intention]
  | adopted _ _ hi => rw [hi]
  | woken _ _ _ hi => rw [hi]

theorem still_of_mem {p : Place} (h : Drift u s s') (hi : Inv strict r s')
    (hm : u ∈ s'.tcbList p) (hn : ∀ c, p ≠ .runnable c) : Still u s s' := by
  cases h with
  | still h => exact h
  | adopted _ ht' => exact absurd (hi.placed.exclusive.once hm ht') (hn _)
  | woken _ _ ht' => exact absurd (hi.placed.exclusive.once hm ht') (hn _)

theorem pull (h : Drift u s s₁) (hi : Inv strict r s₁) (hx : (s.tcb u).intention.exited = false)
    (hp : Pull strict env c s₁ t s') : Drift u s s' := by
  by_cases hut : u = t
  · subst hut
    cases hp with
    | adopt ht =>
      have hs := h.still_of_mem hi ht (by simp)
      refine .adopted (hs.migrating.mp ht) (hi.placed.exclusive.mem_move_self.mpr rfl) ?_
      rw [adopt_tcb_self]
      exact hs.intention
    | unblock ht hr =>
      have hs := h.still_of_mem hi ht (by simp)
      rw [hs.intention] at hr
      refine .woken (hs.blocked.mp ht) hr (hi.placed.exclusive.mem_move_self.mpr rfl) ?_
      rw [unblock_tcb_self, hs.intention]
    | retire _ hx' =>
      rw [h.exited] at hx'
      exact absurd hx' (by simp [hx])
  · exact h.after ((hp.move hi).untouched hi.placed hut).still

end Drift

theorem Pulls.drift (h : Pulls strict env c S s s') (hx : (s.tcb u).intention.exited = false) : Drift u s s' := by
  induction h with
  | refl => exact .still ⟨fun _ => Iff.rfl, rfl⟩
  | tail _ hp ih =>
    obtain ⟨t, _, _, hi, hp⟩ := hp
    exact ih.pull hi hx hp

section Schedule

variable (hc : c < maxProcessorCount)
include hc

theorem postContextSwitch_drift {prev : ℕ} (hi : Inv true r s) (hprev : Seat true s c prev)
    (hcur : s.runningThread c = prev → (s.tcb prev).intention.blocked = false)
    (he : s.postContextSwitch env c prev = some s') (hu : u ≠ prev) (hx : (s.tcb u).intention.exited = false) :
    Drift u s s' := by
  obtain ⟨s₁, he₁, he₂⟩ := Option.bind_eq_some_iff.mp he
  have hm₁ := __postContextSwitch_moves hc hi hprev (fun _ => hcur) he₁
  have hu₁ : Untouched u s s₁ := hm₁.untouched hc hi hu
  refine .before hu₁.still ((pullThreads_pulls hc (by simp) (hm₁.inv hc hi) he₂).drift ?_)
  rw [hu₁.tcb]
  exact hx

omit hc in
theorem __postContextSwitch_goes {prev : ℕ} (hi : Inv strict r s) (hout : Outgoing I s c prev) (hprev : prev ≠ c)
    (hx : I.exited = false) (hany : I ≠ .empty) (hlost : prev ∈ s.tcbList (.blocked c) → I.ready = false)
    (he : s.__postContextSwitch env c prev = some s') :
    prev ∈ s'.tcbList (if I.ready then .runnable c else .blocked c) ∧ (s'.tcb prev).intention = .empty := by
  obtain ⟨ready, blocked, exited⟩ := I
  subst hx
  unfold __postContextSwitch at he
  cases hout with
  | idle h => exact absurd h hprev
  | runnable ht hs hI =>
    simp only [hs, hI, reduceCtorEq, or_self, if_false] at he
    cases ready with
    | true =>
      cases he
      refine ⟨ht, ?_⟩
      rw [modify_tcb_self, hI]
      rfl
    | false =>
      cases blocked with
      | true =>
        cases he
        refine ⟨hi.placed.exclusive.mem_move_self.mpr rfl, ?_⟩
        rw [block_tcb_self, hI]
        rfl
      | false => exact absurd rfl hany
  | blocked ht hs hb hx hI =>
    obtain rfl : ready = false := hlost ht
    simp only [hs, hI, reduceCtorEq, or_self, if_false, Bool.false_eq_true] at he
    cases he
    exact ⟨ht, hI⟩

theorem Chosen.still (h : Chosen I r env c next s s') (hi : Inv true r s) (hu : u ≠ c)
    (hcalm : u ∈ s.tcbList (.runnable c) → (s.tcb u).intention.exited = false ∧ (s.tcb u).intention.blocked = false) :
    Still u s s' := by
  by_cases hm : u ∈ s.tcbList (.runnable c)
  · obtain ⟨hm', hint⟩ := h.calm u hm (hcalm hm).1 (hcalm hm).2
    refine ⟨fun {p} _ => ⟨fun hp => ?_, fun hp => ?_⟩, hint⟩
    · rw [h.inv.placed.exclusive.once hp hm']
      exact hm
    · rw [hi.placed.exclusive.once hp hm]
      exact hm'
  · exact (h.moves.untouched hc hi fun h => h.elim hu hm).still

theorem Chosen.switched (h : Chosen I r env c next s s') :
    Inv true r ((s'.setRunningCore c next).setRunning c next) ∧
      Seat true ((s'.setRunningCore c next).setRunning c next) c (s'.runningThread c) := by
  have hown : next = c ∨ ∃ p, p.OfCore c ∧ next ∈ s'.tcbList p := h.own.imp_right fun hn => ⟨.runnable c, rfl, hn⟩
  have hseat : Seat true s' c next := h.selected.seat
  have hf := TCB.soft_core (h.core hc)
  have hi : Inv true r (s'.setRunningCore c next) := h.inv.soft hc hown hf
  exact ⟨hi.switch (hseat.soft hf), (hi.seated hc).switch⟩

theorem postContextSwitch_runningThread {prev : ℕ} (hi : Inv true r s) (hprev : Seat true s c prev)
    (hcur : s.runningThread c = prev → (s.tcb prev).intention.blocked = false)
    (he : s.postContextSwitch env c prev = some s') : s'.runningThread = s.runningThread := by
  obtain ⟨s₁, he₁, he₂⟩ := Option.bind_eq_some_iff.mp he
  have hm₁ := __postContextSwitch_moves hc hi hprev (fun _ => hcur) he₁
  exact (pullThreads_moves hc (by simp) (hm₁.inv hc hi) he₂).runningThread.trans hm₁.runningThread

theorem postContextSwitch_current {prev : ℕ} (hi : Inv true r s) (hprev : Seat true s c prev)
    (hcur : s.runningThread c = prev → (s.tcb prev).intention.blocked = false)
    (hout : Outgoing I s c prev) (hne : prev ≠ c) (hx : I.exited = false) (hany : I ≠ .empty)
    (hlost : prev ∈ s.tcbList (.blocked c) → I.ready = false) (he : s.postContextSwitch env c prev = some s') :
    prev ∈ s'.tcbList (if I.ready then .runnable c else .blocked c) ∧ (s'.tcb prev).intention = .empty := by
  obtain ⟨s₁, he₁, he₂⟩ := Option.bind_eq_some_iff.mp he
  have hi₁ := (__postContextSwitch_moves hc hi hprev (fun _ => hcur) he₁).inv hc hi
  obtain ⟨hm, hint⟩ := __postContextSwitch_goes hi hout hne hx hany hlost he₁
  have hd : Drift prev s₁ s' := (pullThreads_pulls hc (by simp) hi₁ he₂).drift (by rw [hint]; rfl)
  have hs : Still prev s₁ s' := by
    cases hd with
    | still h => exact h
    | adopted ht =>
      cases hr : I.ready <;> rw [hr] at hm
      · exact absurd (hi₁.placed.exclusive.once hm ht) (by simp)
      · exact absurd (hi₁.placed.exclusive.once hm ht) (by simp)
    | woken _ hr => exact absurd hr (by simp [hint, Intention.empty])
  refine ⟨(hs.mem ?_).mpr hm, hs.intention.trans hint⟩
  cases I.ready <;> trivial

variable (h : Consistent s) (hst : Steady true r s) (hg : GivesUp s c i)
  (hs : maxProcessorCount ≤ s.runningThread c → Settles s c (pending s c i)) (he : s.schedule env c i = some s')
include h hst hg hs he

theorem schedule_drift (hu : u ≠ s.runningThread c) (huc : u ≠ c) (hx : (s.tcb u).intention.exited = false)
    (hb : (s.tcb u).intention.blocked = false) : Drift u s s' := by
  obtain ⟨next, s₂, hch, he⟩ := h.chosen hst hc hg hs he
  have hrun : s₂.runningThread = s.runningThread := hch.moves.runningThread
  have hgive : Untouched u s (s.giveUp env c i) := ⟨modify_tcb_of_ne hu, fun _ => Iff.rfl⟩
  have h₂ : Still u s s₂ := hgive.still.trans <| hch.still hc (hst.giveUp hg.1).inv huc fun _ => by
    rw [hgive.tcb]
    exact ⟨hx, hb⟩
  have hx₂ : (s₂.tcb u).intention.exited = false := by rw [h₂.intention]; exact hx
  rw [← hrun] at hu
  rcases he with ⟨rfl, s₃, hpost, rfl⟩ | ⟨hne, he⟩
  · have hcur (_ : s₂.runningThread c = s₂.runningThread c) := hch.selected.not_blocked hc hch.inv
    have hrun₃ := postContextSwitch_runningThread hc hch.inv (hch.inv.seated hc) hcur hpost
    refine (Drift.before h₂ (postContextSwitch_drift hc hch.inv (hch.inv.seated hc) hcur hpost hu hx₂)).after ?_
    exact modify_still fun h => absurd (h.trans (congrFun hrun₃ c)) hu
  · obtain ⟨hi, hseat⟩ := hch.switched hc
    have hset : Still u s₂ (s₂.setRunningCore c next) := modify_still fun _ => rfl
    have hcore : Still u s₂ ((s₂.setRunningCore c next).setRunning c next) := hset.trans ⟨fun _ => Iff.rfl, rfl⟩
    refine .before (h₂.trans hcore) (postContextSwitch_drift hc hi hseat (fun h => ?_) he hu ?_)
    · exact absurd (setRunning_self.symm.trans h) hne
    · rw [hcore.intention]
      exact hx₂

theorem schedule_current (hthread : maxProcessorCount ≤ s.runningThread c) (hx : (pending s c i).exited = false) :
    s.runningThread c ∈ s'.tcbList (if (pending s c i).ready then .runnable c else .blocked c) ∧
      (s'.tcb (s.runningThread c)).intention = .empty := by
  obtain ⟨next, s₂, hch, he⟩ := h.chosen hst hc hg hs he
  have hrun : s₂.runningThread = s.runningThread := hch.moves.runningThread
  have hlost := hch.choice.outgoing.not_lost hch.inv hc fun _ => (hs hthread).1
  have hany := hg.2 hthread
  rw [← hrun] at hthread ⊢
  have hidle : s₂.runningThread c ≠ c := fun h => absurd (h ▸ hthread : maxProcessorCount ≤ c) (Nat.not_le_of_lt hc)
  rcases he with ⟨rfl, s₃, hpost, rfl⟩ | ⟨hne, he⟩
  · have hcur (_ : s₂.runningThread c = s₂.runningThread c) := hch.selected.not_blocked hc hch.inv
    have hrun₃ := postContextSwitch_runningThread hc hch.inv (hch.inv.seated hc) hcur hpost
    obtain ⟨hm, hint⟩ := postContextSwitch_current hc hch.inv (hch.inv.seated hc) hcur hch.choice.outgoing hidle hx hany
      hlost hpost
    refine ⟨hm, ?_⟩
    rw [resume, hrun₃, modify_tcb_self, hint]
    rfl
  · obtain ⟨hi, hseat⟩ := hch.switched hc
    have hset : Outgoing (pending s c i) (s₂.setRunningCore c next) c (s₂.runningThread c) :=
      hch.choice.outgoing.modify hne.symm
    have hout : Outgoing (pending s c i) ((s₂.setRunningCore c next).setRunning c next) c (s₂.runningThread c) :=
      hset.congr fun _ hm => ⟨hm, rfl, rfl⟩
    exact postContextSwitch_current hc hi hseat (fun h => absurd (setRunning_self.symm.trans h) hne) hout hidle hx hany
      hlost he

end Schedule

theorem intend_eq {p : Place} (h : Placed r s) (hp : p.Scheduled) (hm : t ∈ s.tcbList p)
    (he : ((s.getTcb t).bind fun s => (s.modify t fun a => { a with intention := a.intention.or i }).putTcb env c t) = some s') :
    s' = s.modify t fun a => { a with intention := a.intention.or i } := by
  obtain ⟨s₁, he₁, he₂⟩ := Option.bind_eq_some_iff.mp he
  obtain ⟨_, _, rfl⟩ := getTcb_eq he₁
  have href : (s.tcb t).refc = r t + 1 := ((h.at_place hm).listed hp).refc
  rcases putTcb_cases he₂ with ⟨_, rfl⟩ | ⟨hz, _, _⟩
  · rw [modify_modify, modify_modify]
    congr 1
    funext a
    simp
  · rw [modify_tcb_self, modify_tcb_self] at hz
    change (s.tcb t).refc + 1 = 1 at hz
    omega

theorem threadInit_intention (l : Layout) : ((threadInit l).tcb t).intention = .empty := by
  unfold threadInit
  dsimp only
  split <;> rfl

structure Settled (s : Sched) : Prop where
  steady : Steady true (fun _ => 0) s
  consistent : Consistent s
  quiet : ∀ {t}, maxProcessorCount ≤ t → (s.tcb t).intention.exited = false ∧ (s.tcb t).intention.blocked = false
  ready : ∀ {t}, maxProcessorCount ≤ t → (s.tcb t).intention.ready = true → ∃ c, t ∈ s.tcbList (.blocked c)

namespace Settled

theorem threadInit (l : Layout) : Settled (threadInit l) where
  steady := threadInit_steady true l
  consistent := threadInit_consistent l
  quiet _ := by
    rw [threadInit_intention]
    exact ⟨rfl, rfl⟩
  ready _ hr := by
    rw [threadInit_intention] at hr
    exact absurd hr (by simp [Intention.empty])

variable (h : Settled s)
include h

theorem once {p q : Place} (hp : u ∈ s.tcbList p) (hq : u ∈ s.tcbList q) : p = q :=
  h.steady.inv.placed.exclusive.once hp hq

theorem thread {p : Place} (hp : u ∈ s.tcbList p) : maxProcessorCount ≤ u := (h.steady.inv.placed.thread hp).1

theorem runnable (hu : u ∈ s.tcbList (.runnable c)) : (s.tcb u).intention.ready = false := by
  by_contra hr
  obtain ⟨d, hd⟩ := h.ready (h.thread hu) (by simpa using hr)
  exact absurd (h.once hu hd) (by simp)

theorem current (hc : c < maxProcessorCount) (ht : maxProcessorCount ≤ s.runningThread c) :
    s.runningThread c ∈ s.tcbList (.runnable c) :=
  (h.steady.seats rfl hc).resolve_left fun he => absurd (he ▸ ht) (Nat.not_le_of_lt hc)

theorem pending_eq (hc : c < maxProcessorCount) (ht : maxProcessorCount ≤ s.runningThread c) : pending s c i = i := by
  obtain ⟨hx, hb⟩ := h.quiet ht
  have hr := h.runnable (h.current hc ht)
  simp [pending, Intention.or, hx, hb, hr]

theorem drift (hd : Drift u s s') (hu : maxProcessorCount ≤ u) :
    (s'.tcb u).intention.exited = false ∧ (s'.tcb u).intention.blocked = false ∧
      ((s'.tcb u).intention.ready = true → ∃ c, u ∈ s'.tcbList (.blocked c)) := by
  obtain ⟨hx, hb⟩ := h.quiet hu
  cases hd with
  | still hs =>
    rw [hs.intention]
    exact ⟨hx, hb, fun hr => (h.ready hu hr).imp fun _ => hs.blocked.mpr⟩
  | adopted ht _ hi =>
    rw [hi]
    refine ⟨hx, hb, fun hr => ?_⟩
    obtain ⟨d, hd⟩ := h.ready hu hr
    exact absurd (h.once ht hd) (by simp)
  | woken _ _ _ hi =>
    rw [hi]
    exact ⟨hx, rfl, fun hr => absurd hr (by simp)⟩

end Settled

structure Turned (c : ℕ) (i : Intention) (s s' : Sched) : Prop where
  settled : Settled s'
  drift : ∀ {u}, maxProcessorCount ≤ u → u ≠ s.runningThread c → Drift u s s'
  current : maxProcessorCount ≤ s.runningThread c →
    s.runningThread c ∈ s'.tcbList (if i.ready then .runnable c else .blocked c) ∧
      (s'.tcb (s.runningThread c)).intention = .empty

theorem Settled.schedule (h : Settled s) (hc : c < maxProcessorCount)
    (hi : i = .onlyReady ∨ i = .onlyBlocked ∧ maxProcessorCount ≤ s.runningThread c)
    (he : s.schedule env c i = some s') : Turned c i s s' := by
  have hg : GivesUp s c i := by
    refine ⟨fun hlt => ?_, fun ht => ?_⟩
    · rcases hi with rfl | ⟨_, ht⟩
      · exact ⟨rfl, rfl⟩
      · exact absurd hlt (Nat.not_lt_of_le ht)
    · rw [h.pending_eq hc ht]
      rcases hi with rfl | ⟨rfl, _⟩
      · simp [Intention.onlyReady, Intention.empty]
      · simp [Intention.onlyBlocked, Intention.empty]
  have hx : i.exited = false := by rcases hi with rfl | ⟨rfl, _⟩ <;> rfl
  have hs (ht : maxProcessorCount ≤ s.runningThread c) : Settles s c (pending s c i) := by
    rw [h.pending_eq hc ht]
    refine ⟨?_, fun hx' => absurd hx' (by simp [hx])⟩
    rcases hi with rfl | ⟨rfl, _⟩
    · simp [Intention.onlyReady]
    · simp [Intention.onlyBlocked]
  have hdrift {u : ℕ} (hu : maxProcessorCount ≤ u) (hne : u ≠ s.runningThread c) : Drift u s s' :=
    schedule_drift hc h.consistent h.steady hg hs he hne (Nat.ne_of_gt (Nat.lt_of_lt_of_le hc hu)) (h.quiet hu).1
      (h.quiet hu).2
  have hcurrent (ht : maxProcessorCount ≤ s.runningThread c) :
      s.runningThread c ∈ s'.tcbList (if i.ready then .runnable c else .blocked c) ∧
        (s'.tcb (s.runningThread c)).intention = .empty := by
    have hcur := schedule_current hc h.consistent h.steady hg hs he ht (by rw [h.pending_eq hc ht]; exact hx)
    rwa [h.pending_eq hc ht] at hcur
  refine ⟨⟨(h.steady.schedule hc (by simp) hg.1 he).steady, h.consistent.schedule h.steady hc hg hs he,
    fun {u} hu => ?_, fun {u} hu hr => ?_⟩, hdrift, hcurrent⟩
  · by_cases hne : u = s.runningThread c
    · subst hne
      rw [(hcurrent hu).2]
      exact ⟨rfl, rfl⟩
    · obtain ⟨hx, hb, _⟩ := h.drift (hdrift hu hne) hu
      exact ⟨hx, hb⟩
  · by_cases hne : u = s.runningThread c
    · subst hne
      rw [(hcurrent hu).2] at hr
      exact absurd hr (by simp [Intention.empty])
    · exact (h.drift (hdrift hu hne) hu).2.2 hr

theorem Settled.wakeUp (h : Settled s) {d : ℕ} (ht : t ∈ s.tcbList (.blocked d))
    (he : s.threadWakeUp env c t = some s') :
    Settled s' ∧ s' = s.modify t fun a => { a with intention := a.intention.or .onlyReady } := by
  have heq := intend_eq (p := .blocked d) h.steady.inv.placed trivial ht he
  refine ⟨⟨(h.steady.intend (fun _ => ⟨rfl, rfl⟩) he).steady,
    h.consistent.intend h.steady (fun _ => ⟨rfl, rfl⟩) he, fun {u} hu => ?_, fun {u} hu hr => ?_⟩, heq⟩
  · rw [heq]
    by_cases hut : u = t
    · subst hut
      rw [modify_tcb_self]
      simp [Intention.or, Intention.onlyReady, h.quiet hu]
    · rw [modify_tcb_of_ne hut]
      exact h.quiet hu
  · rw [heq] at hr ⊢
    by_cases hut : u = t
    · exact ⟨d, hut ▸ ht⟩
    · rw [modify_tcb_of_ne hut] at hr
      exact h.ready hu hr

theorem Settled.create {core : ℤ} {stack : ℕ} (h : Settled s) (he : s.createThread env c core stack = some (t, s')) :
    Settled s' ∧ (∀ p, p.Scheduled → t ∉ s.tcbList p) ∧ ∀ u, u ≠ t → Still u s s' := by
  have hst := (h.steady.create he).steady
  have hcon := h.consistent.create h.steady he
  obtain ⟨p, mask, hp, ht, _, heq⟩ := createThread_eq h.steady.inv.placed he
  have hstill (u : ℕ) (hu : u ≠ t) : Still u s s' := by
    rw [heq]
    exact ⟨fun _ => h.steady.inv.placed.exclusive.mem_move_of_ne hu, congrArg TCB.intention (Function.update_of_ne hu ..)⟩
  have hself : (s'.tcb t).intention = .empty := by
    rw [heq]
    change (Function.update s.tcb t _ t).intention = .empty
    rw [Function.update_self]
    rfl
  refine ⟨⟨hst, hcon, fun {u} hu => ?_, fun {u} hu hr => ?_⟩, fun q hq hm => hp (h.once ht hm ▸ hq), hstill⟩
  · by_cases hut : u = t
    · subst hut
      rw [hself]
      exact ⟨rfl, rfl⟩
    · obtain ⟨hx, hb, _⟩ := h.drift (.still (hstill u hut)) hu
      exact ⟨hx, hb⟩
  · by_cases hut : u = t
    · subst hut
      rw [hself] at hr
      exact absurd hr (by simp [Intention.empty])
    · exact (h.drift (.still (hstill u hut)) hu).2.2 hr

end Sched

end Azalea
