import Azalea.Sched.History

namespace Azalea

def Life.tid : Life → ℕ
  | .create t _ _ | .exit t | .destroy t _ _ _ _ => t

inductive Stage
  | free
  | live (stack : ℕ)
  | exited (stack : ℕ)
  deriving DecidableEq

def Stage.after : Stage → Life → Option Stage
  | .free, .create _ stack _ => some (.live (stack % wordSize))
  | .live stack, .exit _ => some (.exited stack)
  | .exited stack, .destroy _ stack' state refc running =>
    if stack' = stack ∧ state = .exited ∧ refc = 0 ∧ running = false then some .free else none
  | _, _ => none

def Stage.next (t : ℕ) (ph : Stage) (e : Life) : Option Stage := if e.tid = t then ph.after e else some ph

def stage (t : ℕ) (log : List Life) : Option Stage := log.foldlM (Stage.next t) .free

def TCB.stage (a : TCB) : Stage :=
  match a.state with
  | .notalloc => .free
  | .exited => .exited (Sched.stackOf a)
  | .created | .running | .ready | .blocked => .live (Sched.stackOf a)

def destroys (t : ℕ) (log : List Life) : ℕ :=
  log.countP fun
    | .destroy u _ _ _ _ => u = t
    | .create _ _ _ | .exit _ => false

section Next

variable {t stack : ℕ} {core : ℤ}

@[simp] theorem Stage.next_create : Stage.next t .free (.create t stack core) = some (.live (stack % wordSize)) :=
  if_pos rfl

@[simp] theorem Stage.next_exit : Stage.next t (.live stack) (.exit t) = some (.exited stack) := if_pos rfl

@[simp] theorem Stage.next_destroy :
    Stage.next t (.exited stack) (.destroy t stack .exited 0 false) = some .free :=
  (if_pos rfl).trans (if_pos ⟨rfl, rfl, rfl, rfl⟩)

end Next

theorem stage_append {t : ℕ} {log l : List Life} {ph : Stage} (h : stage t log = some ph) :
    stage t (log ++ l) = l.foldlM (Stage.next t) ph := by
  rw [stage, List.foldlM_append]
  exact congrArg (· >>= _) h

theorem foldlM_next_of_ne {t : ℕ} {l : List Life} {ph : Stage} (h : ∀ e ∈ l, e.tid ≠ t) :
    l.foldlM (Stage.next t) ph = some ph := by
  induction l with
  | nil => rfl
  | cons e l ih =>
    rw [List.foldlM_cons, Stage.next, if_neg (h e (by simp))]
    exact ih fun e he => h e (by simp [he])

def Stage.pending : Stage → ℕ
  | .exited _ => 1
  | .free | .live _ => 0

theorem TCB.stage_pending (a : TCB) : a.stage.pending = if a.state = .exited then 1 else 0 := by
  unfold TCB.stage
  cases a.state <;> rfl

theorem exits_eq_destroys {t : ℕ} {log : List Life} {ph ph' : Stage} (h : log.foldlM (Stage.next t) ph = some ph') :
    log.count (.exit t) + ph.pending = destroys t log + ph'.pending := by
  induction log generalizing ph with
  | nil =>
    cases h
    rfl
  | cons e log ih =>
    rw [List.foldlM_cons] at h
    obtain ⟨ph₁, hnext, h⟩ := Option.bind_eq_some_iff.mp h
    have ih := ih h
    rw [Stage.next] at hnext
    split at hnext
    · next ht =>
      cases e with
      | create u stack core =>
        cases ph with
        | free =>
          cases hnext
          simpa [destroys, Stage.pending] using ih
        | live _ => exact absurd hnext (by simp [Stage.after])
        | exited _ => exact absurd hnext (by simp [Stage.after])
      | exit u =>
        obtain rfl : u = t := ht
        cases ph with
        | free => exact absurd hnext (by simp [Stage.after])
        | live _ =>
          cases hnext
          simp only [destroys, Stage.pending, List.count_cons_self, List.countP_cons] at ih ⊢
          simpa using ih
        | exited _ => exact absurd hnext (by simp [Stage.after])
      | destroy u stack state refc running =>
        obtain rfl : u = t := ht
        cases ph with
        | free => exact absurd hnext (by simp [Stage.after])
        | live _ => exact absurd hnext (by simp [Stage.after])
        | exited _ =>
          rw [Stage.after] at hnext
          split at hnext
          · cases hnext
            simp [destroys, Stage.pending] at ih ⊢
            omega
          · exact absurd hnext (by simp)
    · next ht =>
      cases hnext
      cases e with
      | create u stack core => simpa [destroys] using ih
      | exit u =>
        have hne : u ≠ t := ht
        simpa [destroys, hne] using ih
      | destroy u stack state refc running =>
        have hne : u ≠ t := ht
        simpa [destroys, hne] using ih

namespace Sched

variable {strict : Bool} {s s' : Sched} {env : Env} {r : ℕ → ℕ} {c d t u : ℕ} {p : Place}

theorem stackOf_eq {stack : ℕ} {a : TCB} (h : a.stackBase = (stack + configStackSize) % wordSize) :
    stackOf a = stack % wordSize := by
  simp only [stackOf, h, configStackSize, wordSize]
  omega

theorem Turn.stage_of_ne (h : Turn s s' t) (hu : u ≠ t) (hph : stage u s.log ≠ none) :
    stage u s'.log = stage u s.log := by
  obtain ⟨ph, hph⟩ := Option.ne_none_iff_exists'.mp hph
  have hadd {l : List Life} (hg : s'.log = s.log ++ l) (hl : ∀ e ∈ l, e.tid ≠ u) : stage u s'.log = stage u s.log := by
    rw [hg, stage_append hph, foldlM_next_of_ne hl, hph]
  cases h with
  | still hg => rw [hg]
  | exit hg => exact hadd hg (by simp [Life.tid, hu.symm])
  | finish hg => exact hadd hg (by simp [Life.tid, hu.symm])
  | destroy hg => exact hadd hg (by simp [Life.tid, hu.symm])
  | create hg => exact hadd hg (by simp [Life.tid, hu.symm])

structure Recorded (s : Sched) : Prop where
  free : ∀ {t}, Pooled s t → stage t s.log = some .free
  live : ∀ {t}, OnList s t → stage t s.log = some (.live (stackOf (s.tcb t)))
  exited : ∀ {t}, IsThread t → ¬Pooled s t → ¬OnList s t → stage t s.log = some (.exited (stackOf (s.tcb t)))

theorem Recorded.of_self (h : Recorded s) (haside : ∀ u, u ≠ t → Aside u s s') (ht : Turn s s' t)
    (hfree : Pooled s' t → stage t s'.log = some .free)
    (hlive : OnList s' t → stage t s'.log = some (.live (stackOf (s'.tcb t))))
    (hexited : IsThread t → ¬Pooled s' t → ¬OnList s' t → stage t s'.log = some (.exited (stackOf (s'.tcb t)))) :
    Recorded s' where
  free {u} hu := by
    by_cases hut : u = t
    · exact hut ▸ hfree (hut ▸ hu)
    · have hph := h.free ((haside u hut).pooled.mp hu)
      rw [ht.stage_of_ne hut (by simp [hph]), hph]
  live {u} hu := by
    by_cases hut : u = t
    · exact hut ▸ hlive (hut ▸ hu)
    · have hph := h.live ((haside u hut).onList.mp hu)
      rw [ht.stage_of_ne hut (by simp [hph]), hph, (haside u hut).tcb]
  exited {u} hthread hp hl := by
    by_cases hut : u = t
    · exact hut ▸ hexited (hut ▸ hthread) (hut ▸ hp) (hut ▸ hl)
    · have hph := h.exited hthread ((haside u hut).pooled.not.mp hp) ((haside u hut).onList.not.mp hl)
      rw [ht.stage_of_ne hut (by simp [hph]), hph, (haside u hut).tcb]

theorem stackOf_congr {a b : TCB} (h : a.stackBase = b.stackBase) : stackOf a = stackOf b := by
  rw [stackOf, stackOf, h]

theorem Op.recorded (hr : Recorded s) (h : Op strict env c s s') : Recorded s' := by
  obtain ⟨t, ht, haside⟩ := h.turn
  have hself := hr.of_self haside ht
  cases ht with
  | still hg hb hk hl hp =>
    rw [hg, stackOf_congr hb] at hself
    exact hself (fun h => hr.free (hp.mp h)) (fun h => hr.live (hl.mp h))
      fun ht hp' hl' => hr.exited ht (hp.not.mp hp') (hl.not.mp hl')
  | exit hg hb hl hn =>
    rw [hg, stage_append (hr.live hl), stackOf_congr hb] at hself
    refine hself (fun ⟨p, _, hm⟩ => absurd hm (hn p)) (fun ⟨p, _, hm⟩ => absurd hm (hn p)) fun _ _ _ => ?_
    rw [List.foldlM_cons, Stage.next_exit]
    rfl
  | finish hg hl hn hp =>
    rw [hg, stage_append (hr.live hl)] at hself
    refine hself (fun _ => ?_) (fun h => absurd h hn) fun _ h _ => absurd hp h
    rw [List.foldlM_cons, Stage.next_exit, Option.bind_eq_bind, Option.bind_some, List.foldlM_cons, Stage.next_destroy]
    rfl
  | destroy hg hthread hl hn hp =>
    have hph := hr.exited hthread (fun ⟨p, _, hm⟩ => hl p hm) fun ⟨p, _, hm⟩ => hl p hm
    rw [hg, stage_append hph] at hself
    refine hself (fun _ => ?_) (fun h => absurd h hn) fun _ h _ => absurd hp h
    rw [List.foldlM_cons, Stage.next_destroy]
    rfl
  | create hg hp hn hq hl hb =>
    rw [hg, stage_append (hr.free hp), stackOf_eq hb] at hself
    refine hself (fun h => absurd h hq) (fun _ => ?_) fun _ _ h => absurd hl h
    rw [List.foldlM_cons, Stage.next_create]
    rfl

theorem Ops.recorded (hr : Recorded s) (h : Ops strict env c s s') : Recorded s' := Run.invariant Op.recorded hr h

theorem threadInit_recorded (l : Layout) : Recorded (threadInit l) where
  free _ := rfl
  live {t} ht := by
    obtain ⟨p, hp, hm⟩ := ht
    have hg : p = .globalTcb := by
      by_contra hne
      simp [threadInit, hne] at hm
    exact absurd hp (hg ▸ id)
  exited {t} ht hp _ := by
    refine absurd ⟨.globalTcb, id, ?_⟩ hp
    simp only [threadInit, if_true, List.mem_range'_1]
    exact ht

inductive RefStep : Sched × (ℕ → ℕ) → Sched × (ℕ → ℕ) → Prop
  | call {s s' : Sched} {r : ℕ → ℕ} (hs : Step Orderly s s') : RefStep (s, r) (s', r)
  | get {s s' : Sched} {r : ℕ → ℕ} {t : ℕ} (he : s.getTcb t = some s') :
      RefStep (s, r) (s', Function.update r t (r t + 1))
  | put {s s' : Sched} {r : ℕ → ℕ} {env : Env} {c t : ℕ} (hr : 0 < r t) (he : s.putTcb env c t = some s') :
      RefStep (s, r) (s', Function.update r t (r t - 1))

structure RefInv (x : Sched × (ℕ → ℕ)) : Prop where
  steady : Steady true x.2 x.1
  recorded : Recorded x.1
  known : ∀ {t}, 0 < x.2 t → t < maxThreadId

theorem RefInv.step {x y : Sched × (ℕ → ℕ)} (h : RefInv x) (hs : RefStep x y) : RefInv y := by
  cases hs with
  | call hs =>
    obtain ⟨hc, hl, he⟩ := hs
    have hr := h.steady.exec hc hl he
    exact ⟨hr.steady, hr.ops.recorded h.recorded, h.known⟩
  | @get s s' r t he =>
    have hr : Reach true quiet 0 _ s s' := h.steady.get he
    refine ⟨hr.steady, hr.ops.recorded h.recorded, fun {u} hu => ?_⟩
    by_cases hut : u = t
    · exact hut ▸ (getTcb_eq he).1
    · change 0 < Function.update r t (r t + 1) u at hu
      rw [Function.update_of_ne hut] at hu
      exact h.known hu
  | @put s s' r env c t hpos he =>
    have hr := h.steady.put hpos (h.known hpos) he
    refine ⟨hr.steady, hr.ops.recorded h.recorded, fun {u} hu => ?_⟩
    by_cases hut : u = t
    · exact hut ▸ h.known hpos
    · change 0 < Function.update r t (r t - 1) u at hu
      rw [Function.update_of_ne hut] at hu
      exact h.known hu

structure Conserved (r : ℕ → ℕ) (s : Sched) : Prop where
  place : ∀ {t}, IsThread t →
    (s.tcb t).state = .notalloc ∧
        (∃ p, ¬p.Scheduled ∧ (s.tcbList p).count t = 1 ∧ ∀ q, q ≠ p → t ∉ s.tcbList q) ∨
      (s.tcb t).state ≠ .notalloc ∧ ∀ p, ¬p.Scheduled → t ∉ s.tcbList p
  thread : ∀ {p t}, t ∈ s.tcbList p → IsThread t
  count : ∀ p, ¬p.Scheduled → s.count p = (s.tcbList p).length
  refc : ∀ {t}, IsThread t → (s.tcb t).state ≠ .notalloc →
    (s.tcb t).refc = r t + if (s.tcb t).state = .exited then 0 else 1
  life : ∀ {t}, IsThread t → stage t s.log = some (s.tcb t).stage
  destroyed : ∀ {t}, IsThread t →
    s.log.count (.exit t) = destroys t s.log + if (s.tcb t).state = .exited then 1 else 0
  due : ∀ {t}, IsThread t → (s.tcb t).state = .exited → 0 < r t

theorem Placed.station (h : Placed r s) (ht : IsThread t) :
    Pooled s t ∧ (s.tcb t).state = .notalloc ∨ OnList s t ∧ (s.tcb t).Live ∧ (s.tcb t).refc = r t + 1 ∨
      (∀ p, t ∉ s.tcbList p) ∧ (s.tcb t).state = .exited ∧ (s.tcb t).refc = r t ∧ 0 < r t := by
  by_cases hl : ∃ p, t ∈ s.tcbList p
  · obtain ⟨p, hm⟩ := hl
    by_cases hp : p.Scheduled
    · have ha := (h.at_place hm).listed hp
      exact .inr (.inl ⟨⟨p, hp, hm⟩, ha.live, ha.refc⟩)
    · exact .inl ⟨⟨p, hp, hm⟩, ((TCB.at_iff_free hp).mp (h.at_place hm)).1⟩
  · exact .inr (.inr ⟨not_exists.mp hl, h.unlisted ht (not_exists.mp hl)⟩)

theorem RefInv.life (h : RefInv (s, r)) (ht : IsThread t) : stage t s.log = some (s.tcb t).stage := by
  rcases h.steady.inv.placed.station ht with ⟨hp, hs⟩ | ⟨hl, hlive, _⟩ | ⟨hn, hs, _⟩
  · rw [h.recorded.free hp, TCB.stage, hs]
  · rw [h.recorded.live hl, TCB.stage]
    cases hs : (s.tcb t).state with
    | notalloc => exact absurd hs hlive.1
    | exited => exact absurd hs hlive.2
    | created => rfl
    | running => rfl
    | ready => rfl
    | blocked => rfl
  · rw [h.recorded.exited ht (fun ⟨p, _, hm⟩ => hn p hm) fun ⟨p, _, hm⟩ => hn p hm, TCB.stage, hs]

theorem RefInv.conserved (h : RefInv (s, r)) : Conserved r s where
  place {t} ht := by
    have hi : Placed r s := h.steady.inv.placed
    have hpool {p : Place} (hs : (s.tcb t).state ≠ .notalloc) (hp : ¬p.Scheduled) : t ∉ s.tcbList p :=
      fun hm => hs ((TCB.at_iff_free hp).mp (hi.at_place hm)).1
    rcases hi.station ht with ⟨⟨p, hp, hm⟩, hs⟩ | ⟨_, hlive, _⟩ | ⟨hn, hs, _⟩
    · exact .inl ⟨hs, p, hp, List.count_eq_one_of_mem (hi.exclusive.nodup p) hm, fun q hq => hi.exclusive.not_mem hm hq⟩
    · exact .inr ⟨hlive.1, fun p hp => hpool hlive.1 hp⟩
    · exact .inr ⟨by simp [hs], fun p _ => hn p⟩
  thread hm := h.steady.inv.placed.thread hm
  count p _ := h.steady.inv.counted rfl p
  refc {t} ht hs := by
    rcases h.steady.inv.placed.station ht with ⟨_, hs'⟩ | ⟨_, hlive, href⟩ | ⟨_, hs, href, _⟩
    · exact absurd hs' hs
    · rw [if_neg hlive.2, href]
    · rw [if_pos hs, href, add_zero]
  life ht := h.life ht
  destroyed {t} ht := by
    have he := exits_eq_destroys (h.life ht)
    rwa [TCB.stage_pending] at he
  due {t} ht hs := by
    rcases h.steady.inv.placed.station ht with ⟨_, hs'⟩ | ⟨_, hlive, _⟩ | ⟨_, _, _, hr⟩
    · exact absurd (hs.symm.trans hs') (by simp)
    · exact absurd hs hlive.2
    · exact hr

theorem threadInit_run_conserved (l : Layout)
    (hr : Relation.ReflTransGen RefStep (threadInit l, fun _ => 0) (s, r)) : Conserved r s := by
  have hinit : RefInv (threadInit l, fun _ => 0) := ⟨threadInit_steady true l, threadInit_recorded l, by simp⟩
  have hinv : RefInv (s, r) := Run.invariant RefInv.step hinit hr
  exact hinv.conserved

def startRun : List (Env × ℕ × Event) :=
  [(quiet, 0, .create 0 0x100000), (quiet, 0, .schedule .onlyReady), (quiet, 0, .schedule .onlyReady)]

theorem boot_put_conserved : ∃ s₁ s₂ s₃ s₄, replay Orderly startRun boot = some s₁ ∧ s₁.getTcb 288 = some s₂ ∧
    replay Orderly [(quiet, 0, .exit)] s₂ = some s₃ ∧ s₃.putTcb quiet 1 288 = some s₄ ∧
    ((s₃.tcb 288).state = .exited ∧ destroys 288 s₃.log = 0 ∧ destroys 288 s₄.log = 1 ∧
      s₄.tcbList (.localTcb 1) = [288]) ∧ Conserved (Function.update (fun _ => 0) 288 1) s₃ ∧
    Conserved (Function.update (Function.update (fun _ => 0) 288 1) 288 0) s₄ := by
  have hrun : ((replay Orderly startRun boot).bind fun s => (s.getTcb 288).bind fun s =>
      (replay Orderly [(quiet, 0, .exit)] s).bind fun s₃ => (s₃.putTcb quiet 1 288).map fun s₄ =>
        ((s₃.tcb 288).state, destroys 288 s₃.log, destroys 288 s₄.log, s₄.tcbList (.localTcb 1))) =
      some (.exited, 0, 1, [288]) := by decide +kernel
  obtain ⟨s₁, h₁, hrun⟩ := Option.bind_eq_some_iff.mp hrun
  obtain ⟨s₂, h₂, hrun⟩ := Option.bind_eq_some_iff.mp hrun
  obtain ⟨s₃, h₃, hrun⟩ := Option.bind_eq_some_iff.mp hrun
  obtain ⟨s₄, h₄, hview⟩ := Option.map_eq_some_iff.mp hrun
  simp only [Prod.mk.injEq] at hview
  have hcalls {s s' : Sched} {r : ℕ → ℕ} (h : Relation.ReflTransGen (Step Orderly) s s') :
      Relation.ReflTransGen RefStep (s, r) (s', r) := h.lift (fun s => (s, r)) fun _ _ hs => .call hs
  have hr₃ : Relation.ReflTransGen RefStep (boot, fun _ => 0) (s₃, Function.update (fun _ => 0) 288 1) :=
    ((hcalls (replay_run h₁)).tail (.get h₂)).trans (hcalls (replay_run h₃))
  have hput : RefStep (s₃, Function.update (fun _ => 0) 288 1)
      (s₄, Function.update (Function.update (fun _ => 0) 288 1) 288 0) :=
    .put (r := Function.update (fun _ => 0) 288 1) (t := 288) (by decide) h₄
  exact ⟨s₁, s₂, s₃, s₄, h₁, h₂, h₃, h₄, hview, threadInit_run_conserved _ hr₃,
    threadInit_run_conserved _ (hr₃.tail hput)⟩

end Sched

end Azalea
