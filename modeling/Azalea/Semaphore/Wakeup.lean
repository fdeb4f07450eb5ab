import Azalea.Sched.Drift
import Azalea.Semaphore.Protocol

namespace Azalea

inductive WaitPc
  | outside
  | queued (k : ℕ)
  | parked (k : ℕ)
  deriving DecidableEq

structure Wakeup where
  sched : Sched
  sems : ℕ → SemState
  pc : ℕ → WaitPc

inductive WakeEvent
  | create (core : ℤ) (stack : ℕ)
  | tick
  | wait (k : ℕ)
  | park
  | post (k : ℕ)
  deriving DecidableEq

namespace Wakeup

variable (w : Wakeup) (env : Env) (c k : ℕ)

def start (l : Sched.Layout) (v : ℕ → BitVec 32) : Wakeup :=
  ⟨Sched.threadInit l, fun k => SemState.init (v k), fun _ => .outside⟩

def current : ℕ := w.sched.runningThread c

def semWait : Wakeup :=
  { w with
    sems := Function.update w.sems k ((w.sems k).tryTake (w.current c))
    pc := Function.update w.pc (w.current c)
      (if ((w.sems k).sem.azSemWait (w.current c)).1 then .outside else .queued k) }

def semPost : Option Wakeup :=
  let woken := match (w.sems k).sem.azSemPost.1 with
    | some u => w.sched.threadWakeUp env c u
    | none => some w.sched
  woken.map fun s => { w with sched := s, sems := Function.update w.sems k (w.sems k).post }

def exec : WakeEvent → Option Wakeup
  | .create core stack => (w.sched.createThread env c core stack).map fun r => { w with sched := r.2 }
  | .tick => (w.sched.schedule env c .onlyReady).map fun s => { w with sched := s }
  | .wait k =>
    if maxProcessorCount ≤ w.current c ∧ (w.pc (w.current c) = .outside ∨ w.pc (w.current c) = .parked k) then
      some (w.semWait c k)
    else none
  | .park =>
    match w.pc (w.current c) with
    | .queued k =>
      (w.sched.schedule env c .onlyBlocked).map fun s =>
        { w with sched := s, pc := Function.update w.pc (w.current c) (.parked k) }
    | _ => none
  | .post k => if w.pc (w.current c) = .outside then w.semPost env c k else none

inductive Step (L : Wakeup → WakeEvent → Prop) (w w' : Wakeup) : Prop
  | call {env : Env} {c : ℕ} {e : WakeEvent} (hc : c < maxProcessorCount) (hl : L w e)
      (he : w.exec env c e = some w') : Step L w w'

def NotLost (w : Wakeup) : Prop :=
  ∀ k t, (w.sems k).pc t = .notified →
    (w.sched.runningThread (w.sched.tcb t).runningCore = t ∨
      (∃ c, t ∈ w.sched.tcbList (.runnable c) ∧ (w.sched.tcb t).state = .ready) ∨
      (w.sched.tcb t).intention.ready = true) ∧
    ∀ c, t ∈ w.sched.tcbList (.blocked c) → (w.sched.tcb t).intention.ready = true

def Prompt (w : Wakeup) : WakeEvent → Prop
  | .post k => ∀ u ∈ (w.sems k).sem.azSemPost.1, w.pc u = .parked k
  | _ => True

def phase (t : ℕ) : ℕ → SemPc := fun k => (w.sems k).pc t

def only (x : SemPc) : ℕ → SemPc := Function.update (fun _ => .outside) k x

inductive Station (w : Wakeup) (t : ℕ) : Prop
  | outside (hpc : w.pc t = .outside) (hp : w.phase t = fun _ => .outside) : Station w t
  | queued {c k : ℕ} (hpc : w.pc t = .queued k) (hp : w.phase t = only k .waiting)
      (ht : t ∈ w.sched.tcbList (.runnable c)) : Station w t
  | parked {c k : ℕ} (hpc : w.pc t = .parked k) (hp : w.phase t = only k .waiting)
      (ht : t ∈ w.sched.tcbList (.blocked c)) (hr : (w.sched.tcb t).intention.ready = false) : Station w t
  | woken {c k : ℕ} (hpc : w.pc t = .parked k) (hp : w.phase t = only k .notified)
      (ht : t ∈ w.sched.tcbList (.blocked c)) (hr : (w.sched.tcb t).intention.ready = true) : Station w t
  | resumed {c k : ℕ} (hpc : w.pc t = .parked k) (hp : w.phase t = only k .notified)
      (ht : t ∈ w.sched.tcbList (.runnable c)) : Station w t

structure Inv (w : Wakeup) : Prop where
  settled : Sched.Settled w.sched
  ok : ∀ k, (w.sems k).Ok
  station : ∀ t, Station w t

variable {w env c k} {w' : Wakeup} {e : WakeEvent} {t u : ℕ} {x : SemPc} {L : Wakeup → WakeEvent → Prop}

@[simp] theorem only_self : only k x k = x := Function.update_self ..

theorem only_outside : only k .outside = fun _ => .outside := Function.update_eq_self k _

theorem notified_only {j : ℕ} (h : only k x j = .notified) : x = .notified := by
  rw [only, Function.update_apply] at h
  split at h
  · exact h
  · exact absurd h (by simp)

theorem phase_update {s : Sched} {st : SemState} {pc : ℕ → WaitPc} :
    phase ⟨s, Function.update w.sems k st, pc⟩ t = Function.update (w.phase t) k (st.pc t) := by
  funext j
  by_cases hj : j = k
  · subst hj
    simp [phase]
  · simp [phase, hj]

theorem phase_update_of_eq {s : Sched} {st : SemState} {pc : ℕ → WaitPc} (h : st.pc t = (w.sems k).pc t) :
    phase ⟨s, Function.update w.sems k st, pc⟩ t = w.phase t := by
  rw [phase_update, h]
  exact Function.update_eq_self k _

theorem Station.carry (h : Station w u) (hs : Sched.Settled w.sched) (hpc : w'.pc u = w.pc u)
    (hp : w'.phase u = w.phase u) (hd : maxProcessorCount ≤ u → Sched.Drift u w.sched w'.sched) : Station w' u := by
  cases h with
  | outside hpc₀ hp₀ => exact .outside (hpc.trans hpc₀) (hp.trans hp₀)
  | queued hpc₀ hp₀ ht =>
    cases hd (hs.thread ht) with
    | still hst => exact .queued (hpc.trans hpc₀) (hp.trans hp₀) (hst.runnable.mpr ht)
    | adopted ht' => exact absurd (hs.once ht ht') (by simp)
    | woken ht' => exact absurd (hs.once ht ht') (by simp)
  | parked hpc₀ hp₀ ht hr =>
    cases hd (hs.thread ht) with
    | still hst => exact .parked (hpc.trans hpc₀) (hp.trans hp₀) (hst.blocked.mpr ht) (by rw [hst.intention]; exact hr)
    | adopted ht' => exact absurd (hs.once ht ht') (by simp)
    | woken _ hr' => exact absurd hr' (by simp [hr])
  | woken hpc₀ hp₀ ht hr =>
    cases hd (hs.thread ht) with
    | still hst => exact .woken (hpc.trans hpc₀) (hp.trans hp₀) (hst.blocked.mpr ht) (by rw [hst.intention]; exact hr)
    | adopted ht' => exact absurd (hs.once ht ht') (by simp)
    | woken _ _ ht' => exact .resumed (hpc.trans hpc₀) (hp.trans hp₀) ht'
  | resumed hpc₀ hp₀ ht =>
    cases hd (hs.thread ht) with
    | still hst => exact .resumed (hpc.trans hpc₀) (hp.trans hp₀) (hst.runnable.mpr ht)
    | adopted ht' => exact absurd (hs.once ht ht') (by simp)
    | woken ht' => exact absurd (hs.once ht ht') (by simp)

namespace Inv

variable (h : Inv w)
include h

theorem ok_update {st : SemState} (hst : st.Ok) (j : ℕ) : (Function.update w.sems k st j).Ok :=
  (Function.forall_update_iff w.sems fun _ st => st.Ok).mpr ⟨hst, fun j _ => h.ok j⟩ j

theorem current (hc : c < maxProcessorCount) (ht : maxProcessorCount ≤ w.current c) :
    w.pc (w.current c) = .outside ∧ w.phase (w.current c) = (fun _ => .outside) ∨
      (∃ k, w.pc (w.current c) = .queued k ∧ w.phase (w.current c) = only k .waiting) ∨
      ∃ k, w.pc (w.current c) = .parked k ∧ w.phase (w.current c) = only k .notified := by
  have hcur := h.settled.current hc ht
  cases h.station (w.current c) with
  | outside hpc hp => exact .inl ⟨hpc, hp⟩
  | queued hpc hp => exact .inr (.inl ⟨_, hpc, hp⟩)
  | parked _ _ hm => exact absurd (h.settled.once hcur hm) (by simp)
  | woken _ _ hm => exact absurd (h.settled.once hcur hm) (by simp)
  | resumed hpc hp => exact .inr (.inr ⟨_, hpc, hp⟩)

theorem create {core : ℤ} {stack : ℕ} {s : Sched} (he : w.sched.createThread env c core stack = some (t, s)) :
    Inv { w with sched := s } := by
  obtain ⟨hs, hfree, hstill⟩ := h.settled.create he
  refine ⟨hs, h.ok, fun u => ?_⟩
  by_cases hut : u = t
  · subst hut
    cases h.station u with
    | outside hpc hp => exact .outside hpc hp
    | queued _ _ hm => exact absurd hm (hfree _ trivial)
    | parked _ _ hm => exact absurd hm (hfree _ trivial)
    | woken _ _ hm => exact absurd hm (hfree _ trivial)
    | resumed _ _ hm => exact absurd hm (hfree _ trivial)
  · exact (h.station u).carry h.settled rfl rfl fun _ => .still (hstill u hut)

theorem tick {s : Sched} (hc : c < maxProcessorCount) (he : w.sched.schedule env c .onlyReady = some s) :
    Inv { w with sched := s } := by
  have hturn := h.settled.schedule hc (.inl rfl) he
  refine ⟨hturn.settled, h.ok, fun u => ?_⟩
  by_cases hu : u = w.current c
  · subst hu
    by_cases ht : maxProcessorCount ≤ w.current c
    · have hm : w.current c ∈ s.tcbList (.runnable c) := (hturn.current ht).1
      rcases h.current hc ht with ⟨hpc, hp⟩ | ⟨_, hpc, hp⟩ | ⟨_, hpc, hp⟩
      · exact .outside hpc hp
      · exact .queued hpc hp hm
      · exact .resumed hpc hp hm
    · exact (h.station _).carry h.settled rfl rfl fun hle => absurd hle ht
  · exact (h.station u).carry h.settled rfl rfl fun hle => hturn.drift hle hu

theorem park {s : Sched} (hc : c < maxProcessorCount) (hpc : w.pc (w.current c) = .queued k)
    (he : w.sched.schedule env c .onlyBlocked = some s) :
    Inv { w with sched := s, pc := Function.update w.pc (w.current c) (.parked k) } := by
  have ht : maxProcessorCount ≤ w.current c := by
    cases h.station (w.current c) with
    | outside hpc₀ => exact absurd (hpc₀.symm.trans hpc) (by simp)
    | queued _ _ hm => exact h.settled.thread hm
    | parked _ _ hm => exact h.settled.thread hm
    | woken _ _ hm => exact h.settled.thread hm
    | resumed _ _ hm => exact h.settled.thread hm
  have hturn := h.settled.schedule hc (.inr ⟨rfl, ht⟩) he
  refine ⟨hturn.settled, h.ok, fun u => ?_⟩
  by_cases hu : u = w.current c
  · subst hu
    have hm : w.current c ∈ s.tcbList (.blocked c) := (hturn.current ht).1
    have hr : (s.tcb (w.current c)).intention.ready = false := congrArg Intention.ready (hturn.current ht).2
    rcases h.current hc ht with ⟨hpc₀, _⟩ | ⟨j, hpc₀, hp⟩ | ⟨j, hpc₀, _⟩
    · exact absurd (hpc₀.symm.trans hpc) (by simp)
    · obtain rfl : j = k := WaitPc.queued.inj (hpc₀.symm.trans hpc)
      exact .parked (Function.update_self ..) hp hm hr
    · exact absurd (hpc₀.symm.trans hpc) (by simp)
  · exact (h.station u).carry h.settled (Function.update_of_ne hu ..) rfl fun hle => hturn.drift hle hu

theorem wait (hc : c < maxProcessorCount) (ht : maxProcessorCount ≤ w.current c)
    (hpc : w.pc (w.current c) = .outside ∨ w.pc (w.current c) = .parked k) : Inv (w.semWait c k) := by
  have hm : w.current c ∈ w.sched.tcbList (.runnable c) := h.settled.current hc ht
  have hphase : ∃ x, x ≠ SemPc.waiting ∧ w.phase (w.current c) = only k x := by
    rcases h.current hc ht with ⟨_, hp⟩ | ⟨j, hpc₀, _⟩ | ⟨j, hpc₀, hp⟩
    · exact ⟨.outside, by simp, by rw [hp, only_outside]⟩
    · rw [hpc₀] at hpc
      exact absurd hpc (by simp)
    · rw [hpc₀] at hpc
      obtain rfl : j = k := by simpa using hpc
      exact ⟨.notified, by simp, hp⟩
  obtain ⟨x, hx, hp⟩ := hphase
  have hwait : (w.sems k).pc (w.current c) ≠ .waiting := by
    have hk : w.phase (w.current c) k = x := by rw [hp, only_self]
    exact fun he => hx (hk.symm.trans he)
  have hok := h.ok_update (k := k) ((h.ok k).tryTake (h.settled.steady.inv.placed.thread hm).2 hwait)
  refine ⟨h.settled, hok, fun u => ?_⟩
  by_cases hu : u = w.current c
  · subst hu
    have hself : (w.semWait c k).phase (w.current c) = only k (((w.sems k).tryTake (w.current c)).pc (w.current c)) :=
      phase_update.trans (by rw [hp, only, Function.update_idem]; rfl)
    have hpc' : (w.semWait c k).pc (w.current c) = _ := Function.update_self ..
    rw [SemState.tryTake_pc, Function.update_self] at hself
    cases htook : ((w.sems k).sem.azSemWait (w.current c)).1 with
    | true =>
      rw [htook] at hself hpc'
      exact .outside hpc' (hself.trans only_outside)
    | false =>
      rw [htook] at hself hpc'
      exact .queued hpc' hself hm
  · have hp' : ((w.sems k).tryTake (w.current c)).pc u = (w.sems k).pc u := by
      rw [SemState.tryTake_pc, Function.update_of_ne hu]
    exact (h.station u).carry h.settled (Function.update_of_ne hu ..) (phase_update_of_eq hp') fun _ =>
      .still ⟨fun _ => Iff.rfl, rfl⟩

theorem post (hl : Prompt w (.post k)) (he : w.semPost env c k = some w') : Inv w' := by
  obtain ⟨s, hs, rfl⟩ := Option.map_eq_some_iff.mp he
  have hok := h.ok_update (k := k) (h.ok k).post
  cases hhead : (w.sems k).sem.azSemPost.1 with
  | none =>
    rw [hhead] at hs
    cases hs
    refine ⟨h.settled, hok, fun u => ?_⟩
    exact (h.station u).carry h.settled rfl (phase_update_of_eq (by rw [SemState.post_pc_none hhead])) fun _ =>
      .still ⟨fun _ => Iff.rfl, rfl⟩
  | some t =>
    rw [hhead] at hs
    have hwait : w.phase t k = .waiting := (h.ok k).post_waiting hhead
    have hpark : w.pc t = .parked k := hl t hhead
    have hpc := SemState.post_pc_some hhead
    have hblocked : ∃ d, t ∈ w.sched.tcbList (.blocked d) ∧ w.phase t = only k .waiting := by
      cases h.station t with
      | outside hpc => exact absurd (hpc.symm.trans hpark) (by simp)
      | queued hpc => exact absurd (hpc.symm.trans hpark) (by simp)
      | parked hpc hp ht => exact ⟨_, ht, WaitPc.parked.inj (hpc.symm.trans hpark) ▸ hp⟩
      | woken hpc hp =>
        rw [hp, WaitPc.parked.inj (hpc.symm.trans hpark), only_self] at hwait
        exact absurd hwait (by simp)
      | resumed hpc hp =>
        rw [hp, WaitPc.parked.inj (hpc.symm.trans hpark), only_self] at hwait
        exact absurd hwait (by simp)
    obtain ⟨d, ht, hp⟩ := hblocked
    obtain ⟨hsettled, rfl⟩ := h.settled.wakeUp ht hs
    refine ⟨hsettled, hok, fun u => ?_⟩
    by_cases hut : u = t
    · subst hut
      refine .woken hpark (phase_update.trans ?_) ht ?_
      · rw [hpc, Function.update_self, hp, only, Function.update_idem]
        rfl
      · simp [Intention.or, Intention.onlyReady]
    · have hstill : Sched.Still u w.sched
          (w.sched.modify t fun a => { a with intention := a.intention.or .onlyReady }) :=
        Sched.modify_still fun h => absurd h hut
      exact (h.station u).carry h.settled rfl (phase_update_of_eq (by rw [hpc, Function.update_of_ne hut])) fun _ =>
        .still hstill

theorem notLost : NotLost w := by
  intro k t ht
  have hk : w.phase t k = .notified := ht
  cases h.station t with
  | outside _ hp => exact absurd (congrFun hp k ▸ hk) (by simp)
  | queued _ hp => exact absurd (notified_only (hp ▸ hk)) (by simp)
  | parked _ hp => exact absurd (notified_only (hp ▸ hk)) (by simp)
  | woken _ _ _ hr => exact ⟨.inr (.inr hr), fun _ _ => hr⟩
  | @resumed c _ _ _ hm =>
    refine ⟨?_, fun d hd => absurd (h.settled.once hm hd) (by simp)⟩
    by_cases hrun : ∃ d < maxProcessorCount, w.sched.runningThread d = t
    · obtain ⟨d, hd, rfl⟩ := hrun
      exact .inl (by rw [h.settled.steady.inv.current_core hd])
    · exact .inr (.inl ⟨c, hm, h.settled.consistent.agrees (.runnable c) t hm hrun⟩)

end Inv

theorem start_inv (l : Sched.Layout) (v : ℕ → BitVec 32) : Inv (start l v) where
  settled := .threadInit l
  ok k := SemState.init_ok (v k)
  station _ := .outside rfl rfl

theorem Inv.step (h : Inv w) (hs : Step Prompt w w') : Inv w' := by
  obtain @⟨env, c, e, hc, hl, he⟩ := hs
  cases e with
  | create core stack =>
    obtain ⟨⟨t, s⟩, hs, rfl⟩ := Option.map_eq_some_iff.mp he
    exact h.create hs
  | tick =>
    obtain ⟨s, hs, rfl⟩ := Option.map_eq_some_iff.mp he
    exact h.tick hc hs
  | wait k =>
    obtain ⟨⟨ht, hpc⟩, heq⟩ := Option.ite_none_right_eq_some.mp he
    cases heq
    exact h.wait hc ht hpc
  | park =>
    simp only [exec] at he
    split at he
    · next hpc =>
      obtain ⟨s, hs, rfl⟩ := Option.map_eq_some_iff.mp he
      exact h.park hc hpc hs
    · exact absurd he (by simp)
  | post k =>
    obtain ⟨_, he⟩ := Option.ite_none_right_eq_some.mp he
    exact h.post hl he

theorem start_run_notLost (l : Sched.Layout) (v : ℕ → BitVec 32)
    (hr : Relation.ReflTransGen (Step Prompt) (start l v) w) : NotLost w := by
  have hinv : Inv w := Run.invariant Inv.step (start_inv l v) hr
  exact hinv.notLost

def replay (L : Wakeup → WakeEvent → Prop) [∀ w e, Decidable (L w e)] :
    List (Env × ℕ × WakeEvent) → Wakeup → Option Wakeup
  | [], w => some w
  | (env, c, e) :: es, w =>
    if c < maxProcessorCount ∧ L w e then (w.exec env c e).bind (replay L es) else none

theorem replay_run [∀ w e, Decidable (L w e)] {es : List (Env × ℕ × WakeEvent)} (h : replay L es w = some w') :
    Relation.ReflTransGen (Step L) w w' := by
  induction es generalizing w with
  | nil =>
    cases h
    exact .refl
  | cons x es ih =>
    obtain ⟨env, c, e⟩ := x
    rw [replay] at h
    split at h
    · next hl =>
      obtain ⟨w₁, he, h⟩ := Option.bind_eq_some_iff.mp h
      exact .head (.call hl.1 hl.2 he) (ih h)
    · exact absurd h (by simp)

instance (w : Wakeup) (e : WakeEvent) : Decidable (Prompt w e) :=
  match e with
  | .create _ _ => inferInstanceAs (Decidable True)
  | .tick => inferInstanceAs (Decidable True)
  | .wait _ => inferInstanceAs (Decidable True)
  | .park => inferInstanceAs (Decidable True)
  | .post k => inferInstanceAs (Decidable (∀ u ∈ (w.sems k).sem.azSemPost.1, w.pc u = .parked k))

def queueUp : List (Env × ℕ × WakeEvent) :=
  [(Sched.quiet, 0, .create 0 0x100000), (Sched.quiet, 0, .create 1 0x200000), (Sched.quiet, 0, .tick),
    (Sched.quiet, 0, .tick), (Sched.quiet, 1, .tick), (Sched.quiet, 1, .tick), (Sched.quiet, 0, .wait 0)]

def bootSems : Wakeup := start ⟨0x1000000, 0x800000, 0, 0⟩ fun _ => 0

theorem boot_prompt_notLost : ∃ w, replay Prompt (queueUp ++ [(Sched.quiet, 0, .park), (Sched.quiet, 1, .post 0),
      (Sched.quiet, 0, .tick), (Sched.quiet, 0, .tick)]) bootSems = some w ∧
    ((w.sems 0).pc 288 = .notified ∧ w.sched.runningThread 0 = 288) ∧ NotLost w := by
  have hrun : (replay Prompt (queueUp ++ [(Sched.quiet, 0, .park), (Sched.quiet, 1, .post 0),
      (Sched.quiet, 0, .tick), (Sched.quiet, 0, .tick)]) bootSems).map
        (fun w => ((w.sems 0).pc 288, w.sched.runningThread 0)) = some (.notified, 288) := by
    decide +kernel
  obtain ⟨w, hw, hview⟩ := Option.map_eq_some_iff.mp hrun
  exact ⟨w, hw, Prod.mk.inj hview, start_run_notLost _ _ (replay_run hw)⟩

def AnyStep (_ : Wakeup) (_ : WakeEvent) : Prop := True

instance (w : Wakeup) (e : WakeEvent) : Decidable (AnyStep w e) := inferInstanceAs (Decidable True)

theorem boot_wakeup_lost : ∃ w, Relation.ReflTransGen (Step AnyStep) bootSems w ∧ (w.sems 0).pc 288 = .notified ∧
    288 ∈ w.sched.tcbList (.blocked 0) ∧ (w.sched.tcb 288).intention.ready = false ∧ ¬NotLost w := by
  have hrun : (replay AnyStep (queueUp ++ [(Sched.quiet, 1, .post 0), (Sched.quiet, 0, .park)]) bootSems).map
      (fun w => ((w.sems 0).pc 288, w.sched.tcbList (.blocked 0), (w.sched.tcb 288).intention.ready)) =
        some (.notified, [288], false) := by
    decide +kernel
  obtain ⟨w, hw, hview⟩ := Option.map_eq_some_iff.mp hrun
  simp only [Prod.mk.injEq] at hview
  obtain ⟨hpc, hlist, hready⟩ := hview
  refine ⟨w, replay_run hw, hpc, by simp [hlist], hready, fun h => ?_⟩
  exact absurd ((h 0 288 hpc).2 0 (by simp [hlist])) (by simp [hready])

end Wakeup

end Azalea
