import Azalea.Sched.States

namespace Azalea

def Place.share (d : ℕ) : Place → ℕ
  | .runnable e | .blocked e => if e = d then 1 else 0
  | .migrating | .localTcb _ | .globalTcb => 0

theorem Place.share_eq (d : ℕ) (p : Place) :
    p.share d = (if .runnable d = p then 1 else 0) + if .blocked d = p then 1 else 0 := by
  cases p with
  | migrating => rfl
  | runnable e => simp [share, eq_comm]
  | blocked e => simp [share, eq_comm]
  | localTcb e => rfl
  | globalTcb => rfl

namespace Sched

set_option linter.style.nameCheck false

variable {s s' s₁ s₂ : Sched} {env : Env} {r : ℕ → ℕ} {c d t u n : ℕ} {p q : Place} {i : Intention} {S : Set ℕ}
  {l : List ℕ}

def crowd (d : ℕ) (s : Sched) : ℕ := (s.tcbList (.runnable d)).length + (s.tcbList (.blocked d)).length

def Room (s : Sched) : Prop := ∀ d, crowd d s ≤ runnableMax

theorem Room.of_lists (h : Room s) (hl : ∀ {p : Place}, p.Scheduled → s'.tcbList p = s.tcbList p) : Room s' := by
  intro d
  rw [crowd, hl (p := .runnable d) trivial, hl (p := .blocked d) trivial]
  exact h d

theorem Room.recounted (h : Room s) (hr : Recounted s s') : Room s' := h.of_lists fun hp => hr.list hp

theorem Placed.crowd_relist (h : Placed r s) (ht : t ∈ s.tcbList p) (hpq : p ≠ q)
    (hl : s'.tcbList = Shelf.move s.tcbList t q) : crowd d s' + p.share d = crowd d s + q.share d := by
  have hr := h.exclusive.length_move ht hpq (j := .runnable d)
  have hb := h.exclusive.length_move ht hpq (j := .blocked d)
  rw [Place.share_eq, Place.share_eq, crowd, crowd, hl]
  omega

theorem Move.crowd_le (hi : Inv true r s) (hm : Move true env c s t s') (h : d ≠ c ∨ t ∉ s.tcbList .migrating) :
    crowd d s' ≤ crowd d s := by
  cases hm with
  | soft => exact le_rfl
  | block ht hp hcore hs =>
    obtain ⟨rfl, _⟩ := hs rfl
    have hmoved := hi.placed.crowd_relist (d := d) ht (q := .blocked c) (by simp) block_tcbList
    simp only [Place.share] at hmoved
    omega
  | unblock ht =>
    have hmoved := hi.placed.crowd_relist (d := d) ht (q := .runnable c) (by simp) unblock_tcbList
    simp only [Place.share] at hmoved
    omega
  | adopt ht =>
    have hmoved := hi.placed.crowd_relist (d := d) ht (q := .runnable c) (by simp) (adopt_tcbList (d := c))
    have hdc : c ≠ d := (h.resolve_right fun hn => hn ht).symm
    simp only [Place.share, if_neg hdc] at hmoved
    omega
  | retire ht hq hcore hn hs he =>
    have hl := hi.placed.retired ht hq.scheduled he
    rw [crowd, crowd, hl.scheduled (q := .runnable d) trivial, hl.scheduled (q := .blocked d) trivial]
    exact Nat.add_le_add List.length_erase_le List.length_erase_le

theorem Move.migrating (hi : Inv true r s) (hm : Move true env c s t s') (hu : u ∈ s'.tcbList .migrating) :
    u ∈ s.tcbList .migrating := by
  by_cases hut : u = t
  · subst hut
    have hmoved {q : Place} (hq : .migrating ≠ q) : u ∉ Shelf.move s.tcbList u q .migrating := fun hu =>
      hq (hi.placed.exclusive.mem_move_self.mp hu)
    cases hm with
    | soft => exact hu
    | block => exact absurd hu (hmoved (q := .blocked c) (by simp))
    | unblock => exact absurd hu (hmoved (q := .runnable c) (by simp))
    | adopt => exact absurd hu (hmoved (q := .runnable c) (by simp))
    | retire ht hq hcore hn hs he =>
      rw [(hi.placed.retired ht hq.scheduled he).scheduled (q := .migrating) trivial] at hu
      exact absurd hu hi.placed.exclusive.not_mem_remove
  · exact (hm.untouched hi.placed hut).migrating.mp hu

theorem Moves.crowd_le (hm : Moves true env c S s s') (hc : c < maxProcessorCount) (hi : Inv true r s)
    (h : d ≠ c ∨ ∀ t ∈ S, t ∉ s.tcbList .migrating) : crowd d s' ≤ crowd d s := by
  have hrun : Inv true r s' ∧ (∀ u ∈ s'.tcbList .migrating, u ∈ s.tcbList .migrating) ∧ crowd d s' ≤ crowd d s := by
    refine @Run.invariant _ _ (fun x : Sched => Inv true r x ∧ (∀ u ∈ x.tcbList .migrating, u ∈ s.tcbList .migrating) ∧
      crowd d x ≤ crowd d s) _ _ ?_ ⟨hi, fun _ hu => hu, le_rfl⟩ hm
    rintro x y ⟨hx, hsub, hle⟩ ⟨t, ht, hmove⟩
    refine ⟨hx.move hc hmove, fun u hu => hsub u (hmove.migrating hx hu), ?_⟩
    exact (hmove.crowd_le hx (h.imp_right fun hS hu => hS t ht (hsub t hu))).trans hle
  exact hrun.2.2

theorem crowd_adopt (hi : Inv true r s) (ht : t ∈ s.tcbList .migrating) :
    crowd c (s.adopt c c t) = crowd c s + 1 := by
  have hmoved := hi.placed.crowd_relist (d := c) ht (q := .runnable c) (by simp) (adopt_tcbList (d := c))
  simpa [Place.share] using hmoved

theorem Inv.population_eq (hi : Inv true r s) (h : crowd c s ≤ runnableMax) : s.population c = crowd c s := by
  rw [population, hi.counted rfl, hi.counted rfl]
  refine Nat.mod_eq_of_lt (h.trans_lt ?_)
  simp [runnableMax]

theorem adoptMatching_crowd (hc : c < maxProcessorCount) (hi : Inv true r s) (hnd : l.Nodup)
    (hl : ∀ t ∈ l, t ∈ s.tcbList .migrating) (hlt : crowd c s < runnableMax) :
    crowd c (adoptMatching c c l s).2 ≤ runnableMax ∧
      ((adoptMatching c c l s).1 = false → crowd c (adoptMatching c c l s).2 < runnableMax) := by
  induction l generalizing s with
  | nil => exact ⟨hlt.le, fun _ => hlt⟩
  | cons t l ih =>
    obtain ⟨htl, hnd⟩ := List.nodup_cons.mp hnd
    have htm : t ∈ s.tcbList .migrating := hl t (by simp)
    rw [adoptMatching]
    obtain ⟨s₁, hs₁⟩ : ∃ s₁, (if (s.tcb t).runningCore = c then s.adopt c c t else s) = s₁ := ⟨_, rfl⟩
    have hstep : Inv true r s₁ ∧ (∀ u ≠ t, u ∈ s.tcbList .migrating → u ∈ s₁.tcbList .migrating) ∧
        crowd c s₁ ≤ runnableMax := by
      rw [← hs₁]
      split
      · next hcore =>
        have ha := (hi.placed.at_place htm).2.allowed hcore hc
        refine ⟨hi.adopt htm ha fun _ => .inl hcore, fun u hu hm => ?_, ?_⟩
        · rw [adopt_tcbList]
          exact (hi.placed.exclusive.mem_move_of_ne hu).mpr hm
        · rw [crowd_adopt hi htm]
          exact hlt
      · exact ⟨hi, fun _ _ hu => hu, hlt.le⟩
    obtain ⟨hi₁, hrest, hle⟩ := hstep
    simp only [hs₁, hi₁.population_eq hle]
    split
    · exact ⟨hle, by simp⟩
    · next hne =>
      refine ih hi₁ hnd (fun u hu => hrest u ?_ (hl u (by simp [hu]))) (lt_of_le_of_ne hle hne)
      rintro rfl
      exact htl hu

theorem adoptAllowed_crowd (hi : Inv true r s) (hl : ∀ t ∈ l, t ∈ s.tcbList .migrating)
    (hlt : crowd c s < runnableMax) : crowd c (adoptAllowed c c l s) ≤ runnableMax := by
  induction l with
  | nil => exact hlt.le
  | cons t l ih =>
    rw [adoptAllowed]
    split
    · rw [crowd_adopt hi (hl t (by simp))]
      exact hlt
    split
    · exact hlt.le
    · exact ih fun u hu => hl u (by simp [hu])

theorem Room.adoptMigrating (h : Room s) (hc : c < maxProcessorCount) (hi : Inv true r s) :
    Room (s.adoptMigrating env c) := by
  intro d
  by_cases hdc : d = c
  · subst hdc
    unfold Sched.adoptMigrating
    split
    · next htest =>
      have hlt : crowd d s < runnableMax := by
        rw [← hi.population_eq (h d)]
        exact htest.1
      rw [hi.current_core hc]
      dsimp only
      have hnd := hi.placed.exclusive.nodup .migrating
      obtain ⟨hle, hroom⟩ := adoptMatching_crowd hc hi hnd (fun _ hu => hu) hlt
      split
      · exact hle
      · next hb =>
        have hp : Pulls true env d _ s _ := adoptMatching_pulls hc hi hnd fun _ hu => hu
        exact adoptAllowed_crowd (hp.moves.inv hc hi) (fun _ hu => hu) (hroom (by simpa using hb))
    · exact h d
  · exact ((adoptMigrating_pulls hc (by simp) hi).moves.crowd_le hc hi (.inl hdc)).trans (h d)

section Calls

variable (h : Room s) (hc : c < maxProcessorCount)
include h hc

theorem Room.pullThreads (hi : Inv true r s) (he : s.pullThreads env c = some s') : Room s' := by
  have h₁ : Room (s.adoptMigrating env c) := h.adoptMigrating hc hi
  have hi₁ : Inv true r (s.adoptMigrating env c) := (adoptMigrating_pulls hc (by simp) hi).moves.inv hc hi
  unfold Sched.pullThreads at he
  dsimp only at he
  split at he
  · intro d
    have hm := (unblockReady_pulls hc hi₁ (hi₁.placed.exclusive.nodup _) (fun _ hu => hu) he).moves
    refine (hm.crowd_le hc hi₁ (.inr fun u hu hum => ?_)).trans (h₁ d)
    exact absurd (hi₁.placed.exclusive.once hu hum) (by simp)
  · rw [← Option.some.inj he]
    exact h₁

theorem Room.postContextSwitch {prev : ℕ} (hi : Inv true r s) (hprev : Seat true s c prev)
    (hcur : s.runningThread c = prev → (s.tcb prev).intention.blocked = false)
    (he : s.postContextSwitch env c prev = some s') : Room s' := by
  obtain ⟨s₁, he₁, he₂⟩ := Option.bind_eq_some_iff.mp he
  have hm := __postContextSwitch_moves hc hi hprev (fun _ => hcur) he₁
  refine Room.pullThreads (fun d => ?_) hc (hm.inv hc hi) he₂
  refine (hm.crowd_le hc hi (.inr ?_)).trans (h d)
  rintro _ rfl hmem
  cases hprev with
  | idle => exact hi.placed.not_idle hmem hc rfl
  | runnable hr => exact absurd (hi.placed.exclusive.once hr hmem) (by simp)
  | blocked hb => exact absurd (hi.placed.exclusive.once hb hmem) (by simp)
  | migrating hs => exact absurd hs (by simp)

theorem Room.select {next : ℕ} (hst : Steady true r s) (hsel : selectNextThread env c n s = some (next, s₁))
    (hrefill : s₁.refillTimeSlice next = some s₂) : Room s₂ := by
  intro d
  refine ((hst.select hc hsel hrefill).1.crowd_le hc hst.inv (.inr ?_)).trans (h d)
  rintro u (rfl | hu) hum
  · exact hst.inv.placed.not_idle hum hc rfl
  · exact absurd (hst.inv.placed.exclusive.once hu hum) (by simp)

theorem Room.switchPost {next : ℕ} (hi : Inv true r s) (hnext : Seat true s c next) (hne : next ≠ s.runningThread c)
    (he : (s.setRunning c next).postContextSwitch env c (s.runningThread c) = some s') : Room s' := by
  have h₀ : Room (s.setRunning c next) := h.of_lists fun _ => rfl
  refine h₀.postContextSwitch hc (hi.switch hnext) (hi.seated hc).switch (fun hrun => ?_) he
  exact absurd (setRunning_self.symm.trans hrun) hne

theorem Room.schedule (hst : Steady true r s)
    (hidle : s.runningThread c < maxProcessorCount → i.blocked = false ∧ i.exited = false)
    (he : s.schedule env c i = some s') : Room s' := by
  have hst₀ : Steady true r (s.giveUp env c i) := hst.giveUp hidle
  have h₀ : Room (s.giveUp env c i) := h.of_lists fun _ => rfl
  obtain ⟨next, s₁, s₂, hsel, hrefill, he⟩ := schedule_cases (hst.inv.current_core hc) he
  obtain ⟨hm, hnext⟩ := hst₀.select hc hsel hrefill
  have h₂ : Room s₂ := h₀.select hc hst₀ hsel hrefill
  have hi₂ := hm.inv hc hst₀.inv
  have hrun : s₂.runningThread = s.runningThread := hm.runningThread
  rcases he with ⟨rfl, s₃, hpost, rfl⟩ | ⟨hne, he⟩
  · rw [← hrun] at hpost hnext
    have h₃ : Room s₃ := h₂.postContextSwitch hc hi₂ (hi₂.seated hc) (fun _ => hnext.not_blocked hc hi₂) hpost
    exact h₃.of_lists fun _ => rfl
  · have hown : next = c ∨ ∃ p, p.OfCore c ∧ next ∈ s₂.tcbList p :=
      hnext.imp_right fun hn => ⟨.runnable c, rfl, hn.1⟩
    have hseat : Seat true s₂ c next := hnext.seat
    have hf := TCB.soft_core (hi₂.placed.seat_core hseat hc)
    have h₃ : Room (s₂.setRunningCore c next) := h₂.of_lists fun _ => rfl
    exact h₃.switchPost hc (hi₂.soft hc hown hf) (hseat.soft hf) (hrun.symm ▸ hne) he

theorem Room.enter {next : ℕ} {f : TCB → TCB} (hi : Inv true r s) (hnext : Seat true s c next)
    (hne : next ≠ s.runningThread c) (he₁ : s.getTcb next = some s₁) (hf : TCB.Soft (s₁.tcb next) (f (s₁.tcb next)))
    (he₂ : ((s₁.modify next f).setRunning c next).putTcb env c next = some s₂)
    (he : s₂.postContextSwitch env c (s.runningThread c) = some s') : Room s' := by
  obtain ⟨g, rfl, hi', hseat, _⟩ := hi.entered hc hnext he₁ hf he₂
  have h' : Room (s.modify next g) := h.of_lists fun _ => rfl
  exact h'.switchPost hc hi' hseat hne he

theorem Room.scheduleTo (hst : Steady true r s)
    (hidle : s.runningThread c < maxProcessorCount → i.blocked = false ∧ i.exited = false)
    (hn : n ∈ s.tcbList (.runnable c)) (hne : n ≠ s.runningThread c) (he : s.scheduleTo env c n i = some s') :
    Room s' := by
  have hst₀ : Steady true r (s.giveUp env c i) := hst.giveUp hidle
  have h₀ : Room (s.giveUp env c i) := h.of_lists fun _ => rfl
  have hseat : Seat true (s.giveUp env c i) c n := .runnable hn
  obtain ⟨s₁, he₁, hcases⟩ := scheduleTo_cases (hst.inv.current_core hc) he
  have hst₁ : Reach true env c _ _ s₁ := hst₀.get he₁
  have hi₁ := hst₁.steady.inv
  have hrec := getTcb_recounted he₁
  have hat : (s₁.tcb n).runningCore = c ∧ (s₁.tcb n).coreIsAllowed c = true :=
    (hi₁.placed.at_place (p := .runnable c) (by rw [hrec.runnable]; exact hn)).2
  have hcurr : (s₁.tcb (s.runningThread c)).runningCore = c := by
    have hcurrent := hi₁.current_core hc
    rwa [hrec.runningThread] at hcurrent
  rcases hcases with ⟨_, s₂, s₃, he₂, he₃, hpost⟩ | ⟨hnot, _⟩
  · obtain ⟨f, heq, hsoft, _⟩ := refillTimeSlice_start hat.1 he₂
    rw [heq] at he₃
    exact h₀.enter hc hst₀.inv hseat hne he₁ hsoft he₃ hpost
  · exact absurd ⟨hat.1.trans hcurr.symm, hat.2⟩ hnot

theorem Room.exit (hst : Steady true r s) (hthread : maxProcessorCount ≤ s.runningThread c)
    (he : s.__threadExit env c = some s') : Room s' := by
  unfold __threadExit at he
  obtain ⟨s₁, he₁, he⟩ := Option.bind_eq_some_iff.mp he
  obtain ⟨s₂, he₂, he⟩ := Option.bind_eq_some_iff.mp he
  have hidle : ¬s.runningThread c < maxProcessorCount := Nat.not_lt_of_le hthread
  have hlt := (getTcb_eq he₁).1
  have hst₁ : Reach true env c _ s s₁ := hst.get he₁
  have hst₂ := hst₁.steady.keep (t := s.runningThread c) (f := fun a => { a with intention := .onlyExited })
    ⟨id, rfl, rfl, rfl, rfl, rfl, rfl, rfl⟩ (fun hlt => absurd hlt hidle) (.inl rfl)
  have hrec := putTcb_recounted hst₂.inv.placed (by simp) hlt he₂
  have h₁ : Room (s₁.modify (s.runningThread c) fun a => { a with intention := .onlyExited }) :=
    (h.recounted (getTcb_recounted he₁)).of_lists fun _ => rfl
  have hrun : s₂.runningThread = s.runningThread := hrec.runningThread.trans (getTcb_recounted he₁).runningThread
  refine (h₁.recounted hrec).schedule hc (hst₂.borrow hlt he₂).steady (fun hlt => ?_) he
  exact absurd (hrun ▸ hlt) hidle

omit hc in
theorem Room.intend (hst : Steady true r s) (ht : t < maxProcessorCount → i.blocked = false ∧ i.exited = false)
    (he : ((s.getTcb t).bind fun s => (s.modify t fun a => { a with intention := a.intention.or i }).putTcb env c t) = some s') :
    Room s' := by
  obtain ⟨s₁, he₁, he₂⟩ := Option.bind_eq_some_iff.mp he
  have hst₁ : Reach true env c _ s s₁ := hst.get he₁
  have h₁ : Room (s₁.modify t fun a => { a with intention := a.intention.or i }) :=
    (h.recounted (getTcb_recounted he₁)).of_lists fun _ => rfl
  exact h₁.recounted (putTcb_recounted (hst₁.steady.flag ht).inv.placed (by simp) (getTcb_eq he₁).1 he₂)

omit hc in
theorem Room.create {core : ℤ} {stack : ℕ} (hst : Steady true r s)
    (he : s.createThread env c core stack = some (t, s')) : Room s' := by
  obtain ⟨p, mask, hp, ht, _, hs'⟩ := createThread_eq hst.inv.placed he
  have hl : s'.tcbList = Shelf.move s.tcbList t .migrating := by
    rw [hs']
    rfl
  intro d
  have hmoved := hst.inv.placed.crowd_relist (d := d) ht (by rintro rfl; exact hp trivial) hl
  exact (Nat.le_of_add_right_le hmoved.le).trans (h d)

theorem Room.exec {e : Event} (hst : Steady true r s) (hl : Orderly s c e) (he : s.exec env c e = some s') :
    Room s' := by
  cases e with
  | create core stack =>
    obtain ⟨⟨t, s₁⟩, he₁, rfl⟩ := Option.map_eq_some_iff.mp he
    exact h.create hst he₁
  | schedule i =>
    refine h.schedule hc hst (fun hlt => ?_) he
    rw [hl hlt]
    exact ⟨rfl, rfl⟩
  | scheduleTo n i =>
    obtain ⟨rfl, hn, hne⟩ := hl
    exact h.scheduleTo hc hst (fun _ => ⟨rfl, rfl⟩) hn hne he
  | wakeUp t => exact h.intend hst (fun _ => ⟨rfl, rfl⟩) he
  | suspend t => exact h.intend hst (fun hlt => absurd hlt (Nat.not_lt_of_le hl)) he
  | exit => exact h.exit hc hst hl he

end Calls

theorem threadInit_room (l : Layout) : Room (threadInit l) := by
  intro d
  simp [crowd, threadInit]

theorem threadInit_run_population (l : Layout) (hr : Relation.ReflTransGen (Step Orderly) (threadInit l) s) (c : ℕ) :
    s.count (.runnable c) + s.count (.blocked c) ≤ runnableMax := by
  have hrun : Steady true (fun _ => 0) s ∧ Room s := by
    refine @Run.invariant _ _ (fun x : Sched => Steady true (fun _ => 0) x ∧ Room x) _ _ ?_
      ⟨threadInit_steady true l, threadInit_room l⟩ hr
    rintro x y ⟨hst, h⟩ ⟨hc, hl, he⟩
    exact ⟨(hst.exec hc hl he).steady, h.exec hc hst hl he⟩
  rw [hrun.1.inv.counted rfl, hrun.1.inv.counted rfl]
  exact hrun.2 c

def crowdRun : List (Env × ℕ × Event) :=
  [(quiet, 0, .create 0 0x100000), (quiet, 0, .create 0 0x200000), (quiet, 0, .schedule .onlyReady),
    (quiet, 0, .suspend 288), (quiet, 0, .schedule .onlyReady)]

theorem boot_run_population : ∃ s, replay Orderly crowdRun boot = some s ∧
    (s.count (.runnable 0) = 1 ∧ s.count (.blocked 0) = 1) ∧
    s.count (.runnable 0) + s.count (.blocked 0) ≤ runnableMax := by
  have hrun : (replay Orderly crowdRun boot).map (fun s => (s.count (.runnable 0), s.count (.blocked 0))) =
      some (1, 1) := by decide +kernel
  obtain ⟨s, hs, hview⟩ := Option.map_eq_some_iff.mp hrun
  exact ⟨s, hs, Prod.mk.inj hview, threadInit_run_population _ (replay_run hs) 0⟩

end Sched

end Azalea
