import Azalea.Sched.Agreement

namespace Azalea

namespace Sched

set_option linter.style.nameCheck false

variable {strict : Bool} {s s' s₁ : Sched} {env : Env} {r : ℕ → ℕ} {c d t u next : ℕ} {f : TCB → TCB}
  {X S : Set ℕ} {i I : Intention}

def others (c : ℕ) (run : ℕ → ℕ) : Set ℕ := {t | ∃ d < maxProcessorCount, d ≠ c ∧ run d = t}

theorem others_congr {run run' : ℕ → ℕ} (h : ∀ d, d ≠ c → run' d = run d) : others c run' = others c run := by
  ext t
  constructor
  · rintro ⟨d, hd, hdc, rfl⟩
    exact ⟨d, hd, hdc, (h d hdc).symm⟩
  · rintro ⟨d, hd, hdc, rfl⟩
    exact ⟨d, hd, hdc, h d hdc⟩

structure Elsewhere (c : ℕ) (s : Sched) : Prop where
  seat : ∀ {d}, d < maxProcessorCount → d ≠ c → s.runningThread d = d ∨ s.runningThread d ∈ s.tcbList (.runnable d)
  running : ∀ {d}, d < maxProcessorCount → d ≠ c → maxProcessorCount ≤ s.runningThread d →
    (s.tcb (s.runningThread d)).state = .running

namespace Elsewhere

theorem onCore (h : Elsewhere c s) (hd : d < maxProcessorCount) (hdc : d ≠ c) : OnCore d s (s.runningThread d) :=
  (h.seat hd hdc).imp_right .inl

theorem moves (h : Elsewhere c s) (hm : Moves strict env c S s s') (hc : c < maxProcessorCount) (hi : Inv strict r s) :
    Elsewhere c s' where
  seat hd hdc := hm.seats hc hi hd hdc (h.seat hd hdc)
  running {d} hd hdc hlt := by
    rw [hm.runningThread] at hlt ⊢
    rw [(hm.other hc hi hd hdc (h.onCore hd hdc)).tcb]
    exact h.running hd hdc hlt

theorem alike (h : Elsewhere c s) (ha : Alike s s') (hrun : ∀ d, d ≠ c → s'.runningThread d = s.runningThread d) :
    Elsewhere c s' where
  seat {d} hd hdc := by
    rw [hrun d hdc]
    exact (h.seat hd hdc).imp_right fun hm => (ha.mem (p := .runnable d) trivial).mpr hm
  running {d} hd hdc hlt := by
    rw [hrun d hdc] at hlt ⊢
    rcases h.seat hd hdc with he | hm
    · exact absurd hlt (Nat.not_le_of_lt (he.symm ▸ hd))
    · rw [ha.state (p := .runnable d) trivial hm]
      exact h.running hd hdc hlt

theorem not_runnable (h : Elsewhere c s) (hi : Inv strict r s) (hu : u ∈ others c s.runningThread) :
    u ∉ s.tcbList (.runnable c) := by
  obtain ⟨d, hd, hdc, rfl⟩ := hu
  intro hm
  rcases h.seat hd hdc with he | hl
  · exact hi.placed.not_idle hm hd he
  · exact hdc (Place.runnable.inj (hi.placed.exclusive.once hl hm))

theorem modify (h : Elsewhere c s) (hi : Inv strict r s) (hc : c < maxProcessorCount)
    (ht : t = c ∨ t ∈ s.tcbList (.runnable c)) : Elsewhere c (s.modify t f) where
  seat := h.seat
  running {d} hd hdc hlt := by
    have hne : s.runningThread d ≠ t := by
      rintro rfl
      rcases h.seat hd hdc with he | hm
      · rcases ht with hct | ht
        · exact hdc (he.symm.trans hct)
        · exact hi.placed.not_idle ht hd he
      · rcases ht with hct | ht
        · exact hi.placed.not_idle hm hc hct
        · exact hdc (Place.runnable.inj (hi.placed.exclusive.once hm ht))
    rw [modify_runningThread, modify_tcb_of_ne hne]
    exact h.running hd hdc hlt

end Elsewhere

structure Consistent (s : Sched) : Prop where
  agrees : Agrees {t | ∃ d < maxProcessorCount, s.runningThread d = t} s
  running : ∀ {c}, c < maxProcessorCount → maxProcessorCount ≤ s.runningThread c →
    (s.tcb (s.runningThread c)).state = .running

theorem Consistent.elsewhere (h : Consistent s) (hst : Steady true r s) : Elsewhere c s where
  seat hd _ := hst.seats rfl hd
  running hd _ := h.running hd

theorem Consistent.core (h : Consistent s) :
    Agrees (insert (s.runningThread c) (others c s.runningThread)) s := by
  refine h.agrees.mono ?_
  rintro t ⟨d, hd, rfl⟩
  by_cases hdc : d = c
  · exact .inl (by rw [hdc])
  · exact .inr ⟨d, hd, hdc, rfl⟩

theorem Consistent.of_core (hc : c < maxProcessorCount) (he : Elsewhere c s)
    (ha : Agrees (insert (s.runningThread c) (others c s.runningThread)) s)
    (hr : maxProcessorCount ≤ s.runningThread c → (s.tcb (s.runningThread c)).state = .running) : Consistent s where
  agrees := by
    refine ha.mono ?_
    rintro t (rfl | ⟨d, hd, _, rfl⟩)
    · exact ⟨c, hc, rfl⟩
    · exact ⟨d, hd, rfl⟩
  running {d} hd hlt := by
    by_cases hdc : d = c
    · subst hdc
      exact hr hlt
    · exact he.running hd hdc hlt

theorem Consistent.alike (h : Consistent s) (hst : Steady true r s) (ha : Alike s s')
    (hrun : s'.runningThread = s.runningThread) : Consistent s' where
  agrees := by
    rw [hrun]
    exact h.agrees.alike ha
  running {d} hd hlt := by
    rw [hrun] at hlt ⊢
    rcases hst.seats rfl hd with he | hm
    · exact absurd hlt (Nat.not_le_of_lt (he.symm ▸ hd))
    · rw [ha.state (p := .runnable d) trivial hm]
      exact h.running hd hlt

theorem Agrees.pull (h : Agrees X s) (hi : Inv strict r s) (hp : Pull strict env c s t s') : Agrees X s' := by
  refine h.carry fun {u} hu => ?_
  by_cases hut : u = t
  · subst hut
    refine .inr fun {p} hps hm => ?_
    cases hp with
    | adopt ht =>
      rw [hi.placed.exclusive.mem_move_self.mp hm, adopt_tcb_self]
      exact h .migrating u ht hu
    | unblock ht =>
      rw [hi.placed.exclusive.mem_move_self.mp hm, unblock_tcb_self]
      rfl
    | retire ht _ _ he =>
      rw [(hi.placed.retired ht trivial he).scheduled hps] at hm
      exact absurd hm hi.placed.exclusive.not_mem_remove
  · exact .inl ⟨hu, (hp.move hi).untouched hi.placed hut⟩

theorem Agrees.pulls (h : Agrees X s) (hp : Pulls strict env c S s s') : Agrees X s' := by
  induction hp with
  | refl => exact h
  | tail _ hp ih =>
    obtain ⟨t, _, _, hi, hp⟩ := hp
    exact ih.pull hi hp

section Post

variable (hc : c < maxProcessorCount)
include hc

theorem __postContextSwitch_fits {prev : ℕ} {p : Place} (hi : Inv strict r s) (hi' : Inv strict r s')
    (hout : Outgoing I s c prev) (hne : s.runningThread c ≠ prev) (hany : prev ≠ c → I ≠ .empty)
    (hlost : prev ∈ s.tcbList (.blocked c) → I.ready = false) (he : s.__postContextSwitch env c prev = some s')
    (hp : p.Scheduled) (hm : prev ∈ s'.tcbList p) : (s'.tcb prev).state.Fits p := by
  have hprev : prev ≠ c := hi'.placed.not_idle hm hc
  unfold __postContextSwitch at he
  cases hout with
  | idle h => exact absurd h hprev
  | runnable ht hs hI =>
    simp only [hs, hI, hne, reduceCtorEq, or_self, if_false] at he
    split at he
    · cases he
      rw [hi.placed.exclusive.once hm ht, modify_tcb_self]
      rfl
    split at he
    · cases he
      rw [hi.placed.exclusive.mem_move_self.mp hm, block_tcb_self]
      rfl
    split at he
    · rw [(hi.placed.retired ht trivial he).scheduled hp] at hm
      exact absurd hm hi.placed.exclusive.not_mem_remove
    · next hr hb hx =>
      refine absurd ?_ (hany hprev)
      cases I
      simp_all [Intention.empty]
  | blocked ht hs hb hx hI =>
    simp only [hs, hI, hlost ht, hx, reduceCtorEq, or_self, if_false, Bool.false_eq_true] at he
    cases he
    rw [hi.placed.exclusive.once hm ht, hs]
    rfl

theorem stay_agrees (hi : Inv strict r s) (hlo : strict = false → c < 256) (hels : Elsewhere c s)
    (hsel : Selected c (s.runningThread c) s) (ha : Agrees (insert (s.runningThread c) X) s)
    (he : s.postContextSwitch env c (s.runningThread c) = some s') :
    s'.runningThread = s.runningThread ∧ Elsewhere c s' ∧ Agrees (insert (s.runningThread c) X) s' := by
  obtain ⟨s₁, he₁, he₂⟩ := Option.bind_eq_some_iff.mp he
  have hm₁ := __postContextSwitch_moves hc hi (hi.seated hc) (fun _ _ => hsel.not_blocked hc hi) he₁
  have hi₁ := hm₁.inv hc hi
  have hp₂ := pullThreads_pulls hc hlo hi₁ he₂
  refine ⟨hp₂.moves.runningThread.trans hm₁.runningThread, (hels.moves hm₁ hc hi).moves hp₂.moves hc hi₁, ?_⟩
  refine Agrees.pulls (ha.carry fun {u} hu => ?_) hp₂
  exact .inl ⟨hu, hm₁.untouched hc hi fun h => hu (.inl h)⟩

theorem Choice.switch (h : Choice I (others c s.runningThread) c (s.runningThread c) next s) (hi : Inv true r s)
    (hels : Elsewhere c s) (hne : next ≠ s.runningThread c) (hany : s.runningThread c ≠ c → I ≠ .empty)
    (hlost : s.runningThread c ∈ s.tcbList (.blocked c) → I.ready = false)
    (he : (s.setRunning c next).postContextSwitch env c (s.runningThread c) = some s') : Consistent s' := by
  obtain ⟨s₁, he₁, he₂⟩ := Option.bind_eq_some_iff.mp he
  have hnext : next = c ∨ next ∈ s.tcbList (.runnable c) ∧ (s.tcb next).state = .running :=
    h.incoming.resolve_left hne
  have hseat : Seat true s c next := by
    rcases hnext with rfl | ⟨hm, _⟩
    · exact .idle
    · exact .runnable hm
  have hi₀ := hi.switch hseat
  have hm₁ := __postContextSwitch_moves hc hi₀ (hi.seated hc).switch
    (fun _ h => absurd (setRunning_self.symm.trans h) hne) he₁
  have hi₁ := hm₁.inv hc hi₀
  have hp₂ := pullThreads_pulls hc (by simp) hi₁ he₂
  have hrun : s'.runningThread = Function.update s.runningThread c next :=
    hp₂.moves.runningThread.trans hm₁.runningThread
  have ha₁ : Agrees (insert next (others c s.runningThread)) s₁ := by
    refine Agrees.carry (s := s.setRunning c next) h.agrees fun {u} hu => ?_
    by_cases hut : u = s.runningThread c
    · subst hut
      refine .inr fun hp hm => ?_
      exact __postContextSwitch_fits hc hi₀ hi₁ (h.outgoing.congr fun _ hm => ⟨hm, rfl, rfl⟩)
        (by rw [setRunning_self]; exact hne) hany hlost he₁ hp hm
    · refine .inl ⟨?_, hm₁.untouched hc hi₀ hut⟩
      rintro (rfl | rfl | hX)
      · exact hu (.inl rfl)
      · exact hut rfl
      · exact hu (.inr hX)
  have hu₁ : Untouched next (s.setRunning c next) s₁ := hm₁.untouched hc hi₀ hne
  have hu₂ : Untouched next s₁ s' :=
    pullThreads_untouched hc (by simp) hi₁ he₂ (hnext.imp_right fun hm => hu₁.runnable.mpr hm.1)
  have hels₀ : Elsewhere c (s.setRunning c next) :=
    hels.alike ⟨fun _ => Iff.rfl, fun _ _ => rfl⟩ fun d hd => setRunning_of_ne hd
  refine .of_core hc ((hels₀.moves hm₁ hc hi₀).moves hp₂.moves hc hi₁) ?_ fun hlt => ?_
  · rw [hrun, Function.update_self, others_congr fun d hd => Function.update_of_ne hd next s.runningThread]
    exact ha₁.pulls hp₂
  · rw [hrun, Function.update_self] at hlt ⊢
    rw [(hu₁.trans hu₂).tcb]
    rcases hnext with rfl | ⟨_, hs⟩
    · exact absurd hlt (Nat.not_le_of_lt hc)
    · exact hs

end Post

structure Recounted (s s' : Sched) : Prop where
  list : ∀ {p : Place}, p.Scheduled → s'.tcbList p = s.tcbList p
  tcb : ∀ {p : Place} {u : ℕ}, p.Scheduled → u ∈ s.tcbList p → ∃ k, s'.tcb u = { s.tcb u with refc := k }
  runningThread : s'.runningThread = s.runningThread

namespace Recounted

theorem trans (h : Recounted s s₁) (h' : Recounted s₁ s') : Recounted s s' where
  list hp := (h'.list hp).trans (h.list hp)
  tcb {p u} hp hu := by
    obtain ⟨k, hk⟩ := h.tcb hp hu
    obtain ⟨k', hk'⟩ := h'.tcb hp (by rw [h.list hp]; exact hu)
    exact ⟨k', by rw [hk', hk]⟩
  runningThread := h'.runningThread.trans h.runningThread

theorem state {p : Place} (h : Recounted s s') (hp : p.Scheduled) (hu : u ∈ s.tcbList p) :
    (s'.tcb u).state = (s.tcb u).state := by
  obtain ⟨k, hk⟩ := h.tcb hp hu
  rw [hk]

theorem intention {p : Place} (h : Recounted s s') (hp : p.Scheduled) (hu : u ∈ s.tcbList p) :
    (s'.tcb u).intention = (s.tcb u).intention := by
  obtain ⟨k, hk⟩ := h.tcb hp hu
  rw [hk]

theorem runnable (h : Recounted s s') : s'.tcbList (.runnable d) = s.tcbList (.runnable d) := h.list trivial

theorem alike (h : Recounted s s') : Alike s s' := ⟨fun hp => by rw [h.list hp], h.state⟩

end Recounted

theorem getTcb_recounted (he : s.getTcb t = some s') : Recounted s s' := by
  obtain ⟨_, _, rfl⟩ := getTcb_eq he
  refine ⟨fun _ => rfl, fun {p u} _ _ => ?_, rfl⟩
  by_cases hu : u = t
  · exact ⟨_, by rw [hu, modify_tcb_self]⟩
  · exact ⟨_, by rw [modify_tcb_of_ne hu]⟩

theorem putTcb_recounted (h : Placed r s) (hr : 0 < r t) (ht : t < maxThreadId) (he : s.putTcb env c t = some s') :
    Recounted s s' := by
  have hrun := putTcb_runningThread he
  rcases putTcb_cases he with ⟨_, rfl⟩ | ⟨hz, _, rfl⟩
  · refine ⟨fun _ => rfl, fun {p u} _ _ => ?_, rfl⟩
    by_cases hu : u = t
    · exact ⟨_, by rw [hu, modify_tcb_self]⟩
    · exact ⟨_, by rw [modify_tcb_of_ne hu]⟩
  · rcases h.referenced hr ht with ⟨_, href⟩ | ⟨_, hn, _, _⟩
    · omega
    · have hl : Repooled t s.tcbList ((s.modify t fun a => { a with refc := a.refc - 1 }).destroyTcb env c t).tcbList :=
        destroyTcb_repooled rfl h.exclusive hn
      refine ⟨fun hp => hl.scheduled hp, fun {p u} _ hm => ?_, hrun⟩
      have hu : u ≠ t := by
        rintro rfl
        exact hn p hm
      refine ⟨(s.tcb u).refc, ?_⟩
      rw [destroyTcb_tcb, initTcbDestroy_tcb_of_ne hu, modify_tcb_of_ne hu]

theorem Outgoing.recounted (h : Outgoing I s c t) (hr : Recounted s s') : Outgoing I s' c t :=
  h.congr fun hp hm => ⟨by rw [hr.list hp]; exact hm, hr.state hp hm, hr.intention hp hm⟩

theorem Outgoing.not_lost (h : Outgoing I s c t) (hi : Inv strict r s) (hc : c < maxProcessorCount)
    (hI : t ≠ c → I.ready = true → I.blocked = true → I.exited = true) (hm : t ∈ s.tcbList (.blocked c)) :
    I.ready = false := by
  have hne : t ≠ c := hi.placed.not_idle hm hc
  cases h with
  | idle he => exact absurd he hne
  | runnable ht => exact absurd (hi.placed.exclusive.once hm ht) (by simp)
  | blocked _ _ hb hx =>
    rw [← Bool.not_eq_true]
    intro hr
    exact absurd (hI hne hr hb) (by simp [hx])

def pending (s : Sched) (c : ℕ) (i : Intention) : Intention := i.or (s.tcb (s.runningThread c)).intention

def GivesUp (s : Sched) (c : ℕ) (i : Intention) : Prop :=
  (s.runningThread c < maxProcessorCount → i.blocked = false ∧ i.exited = false) ∧
    (maxProcessorCount ≤ s.runningThread c → pending s c i ≠ .empty)

def Settles (s : Sched) (c : ℕ) (I : Intention) : Prop :=
  (I.ready = true → I.blocked = true → I.exited = true) ∧
    (I.exited = true → ∀ t ∈ (s.tcbList (.runnable c)).takeWhile (· ≠ s.runningThread c), ¬(s.tcb t).Selectable)

def Replaced (s : Sched) (c : ℕ) (I : Intention) : Prop :=
  I.blocked = true ∨ I.exited = true ∨ ∃ u ∈ s.tcbList (.runnable c), u ≠ s.runningThread c ∧
    (s.tcb u).intention.exited = false ∧ (s.tcb u).intention.blocked = false

structure Leaving (I : Intention) (c : ℕ) (s : Sched) : Prop where
  elsewhere : Elsewhere c s
  agrees : Agrees (insert (s.runningThread c) (others c s.runningThread)) s
  outgoing : Outgoing I s c (s.runningThread c)

theorem Leaving.recounted (h : Leaving I c s) (hr : Recounted s s') : Leaving I c s' where
  elsewhere := h.elsewhere.alike hr.alike fun d _ => by rw [hr.runningThread]
  agrees := by
    rw [hr.runningThread]
    exact h.agrees.alike hr.alike
  outgoing := by
    rw [hr.runningThread]
    exact h.outgoing.recounted hr

theorem Consistent.giveUp (h : Consistent s) (hst : Steady true r s) (hc : c < maxProcessorCount) :
    Leaving (pending s c i) c (s.giveUp env c i) where
  elsewhere := (h.elsewhere hst).alike (modify_alike rfl) fun _ _ => rfl
  agrees := h.core.alike (modify_alike rfl)
  outgoing := by
    change Outgoing _ _ c (s.runningThread c)
    rcases hst.seats rfl hc with he | hm
    · exact .idle he
    · refine .runnable hm ?_ ?_
      · rw [Sched.giveUp, modify_tcb_self]
        exact h.running hc (hst.inv.placed.thread hm).1
      · rw [Sched.giveUp, modify_tcb_self]
        rfl

structure Chosen (I : Intention) (r : ℕ → ℕ) (env : Env) (c next : ℕ) (s s' : Sched) : Prop where
  moves : Moves true env c {t | t = c ∨ t ∈ s.tcbList (.runnable c)} s s'
  inv : Inv true r s'
  selected : Selected c next s'
  elsewhere : Elsewhere c s'
  choice : Choice I (others c s'.runningThread) c (s'.runningThread c) next s'
  calm : Calm c s s'
  only : next = s'.runningThread c → next ≠ c → ∀ u ∈ s'.tcbList (.runnable c), u = next

theorem Leaving.select {n : ℕ} {s₂ : Sched} (h : Leaving I c s) (hc : c < maxProcessorCount) (hst : Steady true r s)
    (hs : s.runningThread c ≠ c → I.exited = true →
      ∀ t ∈ (s.tcbList (.runnable c)).takeWhile (· ≠ s.runningThread c), ¬(s.tcb t).Selectable)
    (hsel : selectNextThread env c n s = some (next, s₁)) (hrefill : s₁.refillTimeSlice next = some s₂) :
    Chosen I r env c next s s₂ := by
  obtain ⟨hch, hcalm, honly⟩ := selectNextThread_choice hc hst.inv (fun u hu => h.elsewhere.not_runnable hst.inv hu)
    h.agrees h.outgoing hs hsel
  obtain ⟨hm, hnext⟩ := hst.select hc hsel hrefill
  have hr := refillTimeSlice_retimed hrefill
  refine ⟨hm, hm.inv hc hst.inv, hnext, h.elsewhere.moves hm hc hst.inv, ?_, hcalm.trans hr.calm, ?_⟩
  · rw [hm.runningThread]
    refine ⟨hch.agrees.alike hr.alike, hch.outgoing.retimed hr, ?_⟩
    rw [hr.tcbList, hr.state]
    exact hch.incoming
  · rw [hm.runningThread, hr.tcbList]
    exact honly

theorem Chosen.own (h : Chosen I r env c next s s') : next = c ∨ next ∈ s'.tcbList (.runnable c) :=
  h.selected.imp_right And.left

theorem Chosen.core (h : Chosen I r env c next s s') (hc : c < maxProcessorCount) : (s'.tcb next).runningCore = c := by
  have hseat : Seat true s' c next := h.selected.seat
  exact h.inv.placed.seat_core hseat hc

theorem Steady.thread_of_ne (h : Steady true r s) (hc : c < maxProcessorCount) (hne : s.runningThread c ≠ c) :
    maxProcessorCount ≤ s.runningThread c :=
  (h.inv.placed.thread ((h.seats rfl hc).resolve_left hne)).1

theorem Agrees.modify (h : Agrees X s) (ht : t ∈ X) : Agrees X (s.modify t f) := by
  intro p u hm hn
  have hu : u ≠ t := by
    rintro rfl
    exact hn ht
  rw [modify_tcb_of_ne hu]
  exact h p u hm hn

theorem Outgoing.modify (h : Outgoing I s c t) (hne : t ≠ u) : Outgoing I (s.modify u f) c t :=
  h.congr fun _ hm => ⟨hm, by rw [modify_tcb_of_ne hne], by rw [modify_tcb_of_ne hne]⟩

theorem Choice.retype {curr : ℕ} (h : Choice I X c curr next s) (hne : curr ≠ next)
    (hs : (f (s.tcb next)).state = (s.tcb next).state) : Choice I X c curr next (s.modify next f) where
  agrees := h.agrees.modify (.inl rfl)
  outgoing := h.outgoing.modify hne
  incoming := by
    rw [modify_tcb_self, hs]
    exact h.incoming

section Calls

variable (h : Consistent s) (hst : Steady true r s) (hc : c < maxProcessorCount)
include h hst hc

theorem Consistent.chosen (hg : GivesUp s c i)
    (hs : maxProcessorCount ≤ s.runningThread c → Settles s c (pending s c i))
    (he : s.schedule env c i = some s') :
    ∃ next s₂, Chosen (pending s c i) r env c next (s.giveUp env c i) s₂ ∧
      (next = s₂.runningThread c ∧ (∃ s₃, s₂.postContextSwitch env c next = some s₃ ∧ s' = s₃.resume c) ∨
        next ≠ s₂.runningThread c ∧
          ((s₂.setRunningCore c next).setRunning c next).postContextSwitch env c (s₂.runningThread c) = some s') := by
  have hl : Leaving (pending s c i) c (s.giveUp env c i) := h.giveUp hst hc
  obtain ⟨next, s₁, s₂, hsel, hrefill, he⟩ := schedule_cases (hst.inv.current_core hc) he
  have hpre : s.runningThread c ≠ c → (pending s c i).exited = true →
      ∀ t ∈ (s.tcbList (.runnable c)).takeWhile (· ≠ s.runningThread c), ¬((s.giveUp env c i).tcb t).Selectable := by
    intro hne hx t ht
    have htc : t ≠ s.runningThread c := by simpa using List.mem_takeWhile_imp ht
    rw [Sched.giveUp, modify_tcb_of_ne htc]
    exact (hs (hst.thread_of_ne hc hne)).2 hx t ht
  have hch := hl.select hc (hst.giveUp hg.1) hpre hsel hrefill
  have hrun : s₂.runningThread = s.runningThread := hch.moves.runningThread
  exact ⟨next, s₂, hch, by rw [hrun] at he ⊢; exact he⟩

theorem Consistent.schedule (hg : GivesUp s c i)
    (hs : maxProcessorCount ≤ s.runningThread c → Settles s c (pending s c i))
    (he : s.schedule env c i = some s') : Consistent s' := by
  obtain ⟨next, s₂, hch, he⟩ := h.chosen hst hc hg hs he
  have hrun : s₂.runningThread = s.runningThread := hch.moves.runningThread
  rcases he with ⟨rfl, s₃, hpost, rfl⟩ | ⟨hne, he⟩
  · have ha := hch.choice.agrees
    rw [Set.insert_eq_of_mem (Set.mem_insert _ _)] at ha
    obtain ⟨hrun₃, hels₃, ha₃⟩ := stay_agrees hc hch.inv (by simp) hch.elsewhere hch.selected ha hpost
    have h₃ := (hch.inv.stay hc (by simp) (fun _ {d} hd hdc => hch.elsewhere.seat hd hdc) hch.selected hpost).steady
    rw [← hrun₃] at ha₃
    refine .of_core hc (hels₃.modify h₃.inv hc (h₃.seats rfl hc)) (ha₃.modify (.inl rfl)) fun _ => ?_
    exact congrArg TCB.state modify_tcb_self
  · have hown : next = c ∨ ∃ p, p.OfCore c ∧ next ∈ s₂.tcbList p := hch.own.imp_right fun hn => ⟨.runnable c, rfl, hn⟩
    have hthread : s₂.runningThread c ≠ c → maxProcessorCount ≤ s.runningThread c := hrun ▸ hst.thread_of_ne hc
    exact (hch.choice.retype hne.symm rfl).switch hc (hch.inv.soft hc hown (TCB.soft_core (hch.core hc)))
      (hch.elsewhere.modify hch.inv hc hch.own) hne (fun h => hg.2 (hthread h))
      (hch.choice.outgoing.not_lost hch.inv hc fun h => (hs (hthread h)).1) he

theorem Consistent.direct {n : ℕ} {s₂ s₃ : Sched} (hg : GivesUp s c i) (hn : n = c ∨ n ∈ s.tcbList (.runnable c))
    (hne : n ≠ s.runningThread c) (he₁ : (s.giveUp env c i).getTcb n = some s₁) (he₂ : s₁.refillTimeSlice n = some s₂)
    (he₃ : (((s₂.setState n .running).setRunningCore c n).setRunning c n).putTcb env c n = some s₃)
    (he : s₃.postContextSwitch env c (s.runningThread c) = some s') : Consistent s' := by
  have h₀ : Steady true r (s.giveUp env c i) := hst.giveUp hg.1
  have hl : Leaving (pending s c i) c (s.giveUp env c i) := h.giveUp hst hc
  have hseat : Seat true (s.giveUp env c i) c n := by
    rcases hn with rfl | hn
    · exact .idle
    · exact .runnable hn
  have hcore : (s₁.tcb n).runningCore = c := by
    rw [(getTcb_eq he₁).2.2, (modify_refc _).2]
    exact h₀.inv.placed.seat_core hseat hc
  obtain ⟨f, heq, hsoft, hstate⟩ := refillTimeSlice_start hcore he₂
  rw [heq] at he₃
  obtain ⟨g, rfl, hi, _, hg'⟩ := h₀.inv.entered hc hseat he₁ hsoft he₃
  have hch : Choice (pending s c i) (others c s.runningThread) c (s.runningThread c) n
      ((s.giveUp env c i).modify n g) := by
    refine ⟨(hl.agrees.mono (Set.subset_insert _ _)).modify (.inl rfl), hl.outgoing.modify hne.symm, ?_⟩
    refine .inr (hn.imp_right fun hn => ⟨hn, ?_⟩)
    rw [modify_tcb_self, hg']
    exact hstate _
  refine hch.switch hc hi (hl.elsewhere.modify h₀.inv hc hn) hne (fun h => hg.2 (hst.thread_of_ne hc h)) (fun hm => ?_) he
  rcases hst.seats rfl hc with hidle | hr
  · exact absurd hidle (hst.inv.placed.not_idle hm hc)
  · exact absurd (hst.inv.placed.exclusive.once hm hr) (by simp)

theorem Consistent.far {n : ℕ} {s₂ s₃ s₄ : Sched} (hg : GivesUp s c i)
    (hs : maxProcessorCount ≤ s.runningThread c → Settles s c (pending s c i) ∧ Replaced s c (pending s c i))
    (he₁ : (s.giveUp env c i).getTcb n = some s₁) (he₂ : s₁.putTcb env c n = some s₂)
    (hsel : selectNextThread env c env.rounds s₂ = some (next, s₃)) (hrefill : s₃.refillTimeSlice next = some s₄)
    (he : next = s.runningThread c ∧ (s₄.setState next .running).postContextSwitch env c next = some s' ∨
      next ≠ s.runningThread c ∧ ∃ s₅ s₆, s₄.getTcb next = some s₅ ∧
        ((s₅.setRunningCore c next).setRunning c next).putTcb env c next = some s₆ ∧
        s₆.postContextSwitch env c (s.runningThread c) = some s') : Consistent s' := by
  have h₀ : Steady true r (s.giveUp env c i) := hst.giveUp hg.1
  have h₁ : Reach true env c _ _ s₁ := h₀.get he₁
  have h₂ := (h₁.steady.borrow (getTcb_eq he₁).1 he₂).steady
  have hrec : Recounted (s.giveUp env c i) s₂ := (getTcb_recounted he₁).trans
    (putTcb_recounted h₁.steady.inv.placed (by simp) (getTcb_eq he₁).1 he₂)
  have hrun₂ : s₂.runningThread = s.runningThread := hrec.runningThread
  have hl : Leaving (pending s c i) c s₂ := (h.giveUp hst hc).recounted hrec
  have hlist : s₂.tcbList (.runnable c) = s.tcbList (.runnable c) := hrec.list trivial
  have hpre : s₂.runningThread c ≠ c → (pending s c i).exited = true →
      ∀ t ∈ (s₂.tcbList (.runnable c)).takeWhile (· ≠ s₂.runningThread c), ¬(s₂.tcb t).Selectable := by
    rw [hrun₂, hlist]
    intro hne hx t ht
    have htc : t ≠ s.runningThread c := by simpa using List.mem_takeWhile_imp ht
    obtain ⟨k, hk⟩ := hrec.tcb (p := .runnable c) trivial ((List.takeWhile_subset _) ht)
    rw [hk, Sched.giveUp, modify_tcb_of_ne htc]
    exact (hs (hst.thread_of_ne hc hne)).1.2 hx t ht
  have hch := hl.select hc h₂ hpre hsel hrefill
  have hrun : s₄.runningThread = s.runningThread := hch.moves.runningThread.trans hrun₂
  have hthread : s₄.runningThread c ≠ c → maxProcessorCount ≤ s.runningThread c := hrun ▸ hst.thread_of_ne hc
  rcases he with ⟨hcurr, hpost⟩ | ⟨hne, s₅, s₆, he₅, he₆, hpost⟩
  · rw [← hrun] at hcurr
    subst hcurr
    have hidle : s₄.runningThread c = c := by
      by_contra hne
      obtain ⟨hmem, hx, hb⟩ := hch.selected.resolve_left hne
      rw [(hch.choice.outgoing.of_runnable hch.inv hc hmem).2] at hx hb
      rcases (hs (hthread hne)).2 with hb' | hx' | ⟨u, hu, hune, hxu, hbu⟩
      · exact absurd hb' (by simp [hb])
      · exact absurd hx' (by simp [hx])
      · have hint : (s₂.tcb u).intention = (s.tcb u).intention := by
          rw [hrec.intention (p := .runnable c) trivial hu, Sched.giveUp, modify_tcb_of_ne hune]
        rw [← hint] at hxu hbu
        have hu₄ := (hch.calm u (hlist.symm ▸ hu) hxu hbu).1
        exact hune ((hch.only rfl hne u hu₄).trans (by rw [hrun]))
    have hsoft : TCB.Soft (s₄.tcb (s₄.runningThread c)) { s₄.tcb (s₄.runningThread c) with state := .running } :=
      TCB.soft_of (by simp) id id
    have ha := hch.choice.agrees
    rw [Set.insert_eq_of_mem (Set.mem_insert _ _)] at ha
    obtain ⟨hrun', hels', ha'⟩ := stay_agrees hc (hch.inv.soft hc (.inl hidle) hsoft) (by simp)
      (hch.elsewhere.modify hch.inv hc (.inl hidle)) (.inl hidle) (ha.modify (.inl rfl)) hpost
    refine .of_core hc hels' (by rw [hrun']; exact ha') fun hlt => ?_
    rw [hrun'] at hlt
    exact absurd (hidle ▸ hlt : maxProcessorCount ≤ c) (Nat.not_le_of_lt hc)
  · rw [← hrun] at hne hpost
    have heq := (getTcb_eq he₅).2.2
    have hcore : (s₅.tcb next).runningCore = c := by
      rw [heq, (modify_refc _).2]
      exact hch.core hc
    obtain ⟨g, rfl, hi, _, hg'⟩ := hch.inv.entered hc hch.selected.seat he₅ (TCB.soft_core hcore) he₆
    have hstate : (g (s₄.tcb next)).state = (s₄.tcb next).state := by
      rw [hg', heq, modify_tcb_self]
    exact (hch.choice.retype hne.symm hstate).switch hc hi (hch.elsewhere.modify hch.inv hc hch.own) hne
      (fun h => hg.2 (hthread h)) (hch.choice.outgoing.not_lost hch.inv hc fun h => (hs (hthread h)).1.1) hpost

theorem Consistent.scheduleTo {n : ℕ} (hg : GivesUp s c i)
    (hnear : (s.tcb n).runningCore = c → (n = c ∨ n ∈ s.tcbList (.runnable c)) ∧ n ≠ s.runningThread c)
    (hfar : (s.tcb n).runningCore ≠ c → maxProcessorCount ≤ s.runningThread c →
      Settles s c (pending s c i) ∧ Replaced s c (pending s c i))
    (he : s.scheduleTo env c n i = some s') : Consistent s' := by
  obtain ⟨s₁, he₁, hcases⟩ := scheduleTo_cases (hst.inv.current_core hc) he
  have h₀ : Steady true r (s.giveUp env c i) := hst.giveUp hg.1
  have h₁ : Reach true env c _ _ s₁ := h₀.get he₁
  have hrec := getTcb_recounted he₁
  have hcore : (s₁.tcb n).runningCore = (s.tcb n).runningCore := by
    rw [(getTcb_eq he₁).2.2, (modify_refc _).2, giveUp_kept.1.core]
  have hcurr : (s₁.tcb (s.runningThread c)).runningCore = c := by
    have hcurrent := h₁.steady.inv.current_core hc
    rwa [hrec.runningThread] at hcurrent
  rw [hcore, hcurr] at hcases
  rcases hcases with ⟨⟨hn, _⟩, s₂, s₃, he₂, he₃, hpost⟩ | ⟨hnot, s₂, next, s₃, s₄, he₂, hsel, hrefill, hcases⟩
  · exact h.direct hst hc hg (hnear hn).1 (hnear hn).2 he₁ he₂ he₃ hpost
  · refine h.far hst hc hg (hfar fun hn => hnot ⟨hn, ?_⟩) he₁ he₂ hsel hrefill hcases
    rcases (hnear hn).1 with rfl | hm
    · exact (h₁.steady.inv.placed.idle hc).allowed
    · have hm₁ : n ∈ s₁.tcbList (.runnable c) := by
        rw [hrec.runnable]
        exact hm
      exact (h₁.steady.inv.placed.at_place hm₁).2.2

theorem Consistent.exit (hthread : maxProcessorCount ≤ s.runningThread c) (hs : Settles s c .onlyExited)
    (he : s.__threadExit env c = some s') : Consistent s' := by
  unfold __threadExit at he
  obtain ⟨s₁, he₁, he⟩ := Option.bind_eq_some_iff.mp he
  obtain ⟨s₂, he₂, he⟩ := Option.bind_eq_some_iff.mp he
  have hlt := (getTcb_eq he₁).1
  have h₁ : Reach true env c _ s s₁ := hst.get he₁
  have hidle : ¬s.runningThread c < maxProcessorCount := Nat.not_lt_of_le hthread
  have h₂ := h₁.steady.keep (t := s.runningThread c) (f := fun a => { a with intention := .onlyExited })
    ⟨id, rfl, rfl, rfl, rfl, rfl, rfl, rfl⟩ (fun hlt => absurd hlt hidle) (.inl rfl)
  have hrec₁ := getTcb_recounted he₁
  have hrec₂ := putTcb_recounted h₂.inv.placed (by simp) hlt he₂
  have hrun : s₂.runningThread = s.runningThread := hrec₂.runningThread.trans hrec₁.runningThread
  have hlist : s₂.tcbList (.runnable c) = s.tcbList (.runnable c) := hrec₂.runnable.trans hrec₁.runnable
  have hall : Consistent s₂ := h.alike hst ((hrec₁.alike.trans (modify_alike rfl)).trans hrec₂.alike) hrun
  have hexited : (pending s₂ c .onlyExited).exited = true := rfl
  refine hall.schedule (h₂.borrow hlt he₂).steady hc ⟨?_, fun _ hempty => ?_⟩ (fun _ => ⟨fun _ _ => hexited, ?_⟩) he
  · rw [hrun]
    exact fun hlt => absurd hlt hidle
  · rw [hempty] at hexited
    exact absurd hexited (by simp [Intention.empty])
  · rw [hrun, hlist]
    intro _ t ht
    have htc : t ≠ s.runningThread c := by simpa using List.mem_takeWhile_imp ht
    have hm : t ∈ s.tcbList (.runnable c) := List.takeWhile_subset _ ht
    obtain ⟨k₁, hk₁⟩ := hrec₁.tcb (p := .runnable c) trivial hm
    obtain ⟨k₂, hk₂⟩ := hrec₂.tcb (p := .runnable c) trivial (hrec₁.runnable.symm ▸ hm)
    rw [hk₂, modify_tcb_of_ne htc, hk₁]
    exact hs.2 rfl t ht

omit hc in
theorem Consistent.intend (ht : t < maxProcessorCount → i.blocked = false ∧ i.exited = false)
    (he : ((s.getTcb t).bind fun s => (s.modify t fun a => { a with intention := a.intention.or i }).putTcb env c t) = some s') :
    Consistent s' := by
  obtain ⟨s₁, he₁, he₂⟩ := Option.bind_eq_some_iff.mp he
  have h₁ : Reach true env c _ s s₁ := hst.get he₁
  have hrec₁ := getTcb_recounted he₁
  have hrec₂ := putTcb_recounted (h₁.steady.flag ht).inv.placed (by simp) (getTcb_eq he₁).1 he₂
  exact h.alike hst ((hrec₁.alike.trans (modify_alike rfl)).trans hrec₂.alike)
    (hrec₂.runningThread.trans hrec₁.runningThread)

omit hc in
theorem Consistent.create {core : ℤ} {stack : ℕ} (he : s.createThread env c core stack = some (t, s')) :
    Consistent s' := by
  obtain ⟨p, mask, hp, ht, _, rfl⟩ := createThread_eq hst.inv.placed he
  have hmove {u : ℕ} {q : Place} (hu : u ≠ t) : u ∈ Shelf.move s.tcbList t .migrating q ↔ u ∈ s.tcbList q :=
    hst.inv.placed.exclusive.mem_move_of_ne hu
  have hcur {d : ℕ} (hd : d < maxProcessorCount) : s.runningThread d ≠ t := by
    rintro rfl
    rcases hst.seats rfl hd with hidle | hm
    · exact hst.inv.placed.not_idle ht hd hidle
    · exact hp (hst.inv.placed.exclusive.once ht hm ▸ trivial)
  constructor
  · refine h.agrees.carry fun {u} hu => ?_
    by_cases hut : u = t
    · subst hut
      refine .inr fun {q} _ hm => ?_
      rw [hst.inv.placed.exclusive.mem_move_self.mp hm]
      change (Function.update s.tcb u _ u).state = .ready
      rw [Function.update_self]
      rfl
    · exact .inl ⟨hu, Function.update_of_ne hut .., fun _ => hmove hut⟩
  · intro d hd hlt
    exact (congrArg TCB.state (Function.update_of_ne (hcur hd) ..)).trans (h.running hd hlt)

end Calls

structure StatesAgree (s : Sched) (c : ℕ) : Prop where
  current : maxProcessorCount ≤ s.runningThread c → (s.tcb (s.runningThread c)).state = .running
  runnable : ∀ t ∈ s.tcbList (.runnable c), t ≠ s.runningThread c → (s.tcb t).state = .ready
  blocked : ∀ t ∈ s.tcbList (.blocked c), (s.tcb t).state = .blocked

theorem Consistent.statesAgree (h : Consistent s) (hst : Steady true r s) (hc : c < maxProcessorCount) :
    StatesAgree s c where
  current := h.running hc
  runnable t ht hne := by
    refine h.agrees (.runnable c) t ht ?_
    rintro ⟨d, hd, rfl⟩
    rcases hst.seats rfl hd with hidle | hm
    · exact hst.inv.placed.not_idle ht hd hidle
    · exact hne (by rw [Place.runnable.inj (hst.inv.placed.exclusive.once hm ht)])
  blocked t ht := by
    refine h.agrees (.blocked c) t ht ?_
    rintro ⟨d, hd, rfl⟩
    rcases hst.seats rfl hd with hidle | hm
    · exact hst.inv.placed.not_idle ht hd hidle
    · exact absurd (hst.inv.placed.exclusive.once hm ht) (by simp)

def Careful (s : Sched) (c : ℕ) : Event → Prop
  | .create _ _ => True
  | .schedule i => GivesUp s c i ∧ (maxProcessorCount ≤ s.runningThread c → Settles s c (pending s c i))
  | .scheduleTo n i => GivesUp s c i ∧
      ((s.tcb n).runningCore = c → (n = c ∨ n ∈ s.tcbList (.runnable c)) ∧ n ≠ s.runningThread c) ∧
      ((s.tcb n).runningCore ≠ c → maxProcessorCount ≤ s.runningThread c →
        Settles s c (pending s c i) ∧ Replaced s c (pending s c i))
  | .wakeUp _ => True
  | .suspend t => maxProcessorCount ≤ t
  | .exit => maxProcessorCount ≤ s.runningThread c ∧ Settles s c .onlyExited

instance (a : TCB) : Decidable a.Selectable := inferInstanceAs (Decidable (_ ∧ _ ∧ _))

instance (s : Sched) (c : ℕ) (i : Intention) : Decidable (GivesUp s c i) :=
  inferInstanceAs (Decidable ((_ → _ ∧ _) ∧ (_ → ¬_)))

instance (s : Sched) (c : ℕ) (i : Intention) : Decidable (Settles s c i) :=
  inferInstanceAs (Decidable ((_ → _ → _) ∧ (_ → ∀ t ∈ (s.tcbList (.runnable c)).takeWhile (· ≠ s.runningThread c), ¬_)))

instance (s : Sched) (c : ℕ) (i : Intention) : Decidable (Replaced s c i) :=
  inferInstanceAs (Decidable (_ ∨ _ ∨ ∃ u ∈ s.tcbList (.runnable c), _ ∧ _ ∧ _))

instance (s : Sched) (c : ℕ) (e : Event) : Decidable (Careful s c e) :=
  match e with
  | .create _ _ => inferInstanceAs (Decidable True)
  | .schedule i => inferInstanceAs (Decidable (GivesUp s c i ∧ (_ → Settles s c (pending s c i))))
  | .scheduleTo n i => inferInstanceAs (Decidable (GivesUp s c i ∧
      ((s.tcb n).runningCore = c → (n = c ∨ n ∈ s.tcbList (.runnable c)) ∧ n ≠ s.runningThread c) ∧
      (_ → _ → Settles s c (pending s c i) ∧ Replaced s c (pending s c i))))
  | .wakeUp _ => inferInstanceAs (Decidable True)
  | .suspend t => inferInstanceAs (Decidable (maxProcessorCount ≤ t))
  | .exit => inferInstanceAs (Decidable (maxProcessorCount ≤ s.runningThread c ∧ Settles s c .onlyExited))

theorem threadInit_consistent (l : Layout) : Consistent (threadInit l) where
  agrees p t ht _ := by
    by_cases hp : p = .globalTcb
    · subst hp
      trivial
    · simp [threadInit, hp] at ht
  running {c} hc hlt := absurd hlt (Nat.not_le_of_lt hc)

theorem Consistent.step (h : Consistent s) (hst : Steady true r s) (hs : Step Careful s s') :
    Steady true r s' ∧ Consistent s' := by
  obtain @⟨env, c, e, hc, hl, he⟩ := hs
  cases e with
  | create core stack =>
    obtain ⟨⟨t, s₁⟩, he₁, rfl⟩ := Option.map_eq_some_iff.mp he
    exact ⟨(hst.create he₁).steady, h.create hst he₁⟩
  | schedule i => exact ⟨(hst.schedule hc (by simp) hl.1.1 he).steady, h.schedule hst hc hl.1 hl.2 he⟩
  | scheduleTo n i =>
    obtain ⟨hg, hnear, hfar⟩ := hl
    refine ⟨(hst.scheduleTo hc (by simp) hg.1 (fun hn _ => ⟨?_, fun _ => hnear hn⟩) he).steady,
      h.scheduleTo hst hc hg hnear hfar he⟩
    rcases (hnear hn).1 with rfl | hm
    · exact .idle
    · exact .runnable hm
  | wakeUp t => exact ⟨(hst.intend (fun _ => ⟨rfl, rfl⟩) he).steady, h.intend hst (fun _ => ⟨rfl, rfl⟩) he⟩
  | suspend t =>
    have ht : t < maxProcessorCount → Intention.onlyBlocked.blocked = false ∧ Intention.onlyBlocked.exited = false :=
      fun hlt => absurd hlt (Nat.not_lt_of_le hl)
    exact ⟨(hst.intend ht he).steady, h.intend hst ht he⟩
  | exit => exact ⟨(hst.exit hc (by simp) (Nat.not_lt_of_le hl.1) he).steady, h.exit hst hc hl.1 hl.2 he⟩

theorem threadInit_run_statesAgree (l : Layout) (hr : Relation.ReflTransGen (Step Careful) (threadInit l) s)
    (hc : c < maxProcessorCount) : StatesAgree s c := by
  obtain ⟨hst, h⟩ := @Run.invariant _ _ (fun s : Sched => Steady true (fun _ => 0) s ∧ Consistent s) _ _
    (fun h hs => h.2.step h.1 hs) ⟨threadInit_steady true l, threadInit_consistent l⟩ hr
  exact h.statesAgree hst hc

def carefulRun : List (Env × ℕ × Event) :=
  [(quiet, 0, .create 0 0x100000), (quiet, 0, .create 0 0x200000), (quiet, 0, .schedule .onlyReady),
    (quiet, 0, .schedule .onlyReady), (quiet, 0, .create 1 0x300000), (quiet, 1, .schedule .onlyReady),
    (quiet, 0, .scheduleTo 290 .onlyReady), (quiet, 0, .suspend 288), (quiet, 0, .schedule .onlyReady),
    (quiet, 1, .wakeUp 288), (quiet, 0, .schedule .onlyReady), (quiet, 0, .exit)]

theorem boot_careful_statesAgree : ∃ s, replay Careful carefulRun boot = some s ∧
    (s.runningThread 0 = 0 ∧ s.tcbList (.runnable 0) = [288] ∧ s.tcbList (.runnable 1) = [290]) ∧
    StatesAgree s 0 ∧ StatesAgree s 1 := by
  have hrun : (replay Careful carefulRun boot).map
      (fun s => (s.runningThread 0, s.tcbList (.runnable 0), s.tcbList (.runnable 1))) = some (0, [288], [290]) := by
    decide +kernel
  obtain ⟨s, hs, hview⟩ := Option.map_eq_some_iff.mp hrun
  simp only [Prod.mk.injEq] at hview
  exact ⟨s, hs, hview, threadInit_run_statesAgree _ (replay_run hs) (by decide),
    threadInit_run_statesAgree _ (replay_run hs) (by decide)⟩

def AnyCall (_ : Sched) (_ : ℕ) (_ : Event) : Prop := True

instance (s : Sched) (c : ℕ) (e : Event) : Decidable (AnyCall s c e) := inferInstanceAs (Decidable True)

def exitBehind : List (Env × ℕ × Event) :=
  [(quiet, 0, .create 0 0x100000), (quiet, 0, .create 0 0x200000), (quiet, 0, .schedule .onlyReady),
    (quiet, 0, .schedule .onlyReady), (quiet, 0, .schedule .onlyReady), (quiet, 0, .exit)]

def suspendCurrent : List (Env × ℕ × Event) :=
  [(quiet, 0, .create 0 0x100000), (quiet, 0, .schedule .onlyReady), (quiet, 0, .schedule .onlyReady),
    (quiet, 0, .suspend 288), (quiet, 0, .schedule .onlyReady)]

def handOver : List (Env × ℕ × Event) :=
  [(quiet, 0, .create 0 0x100000), (quiet, 0, .create 1 0x200000), (quiet, 0, .schedule .onlyReady),
    (quiet, 1, .schedule .onlyReady), (quiet, 0, .schedule .onlyReady), (quiet, 0, .scheduleTo 289 .onlyReady)]

theorem boot_states_disagree :
    (∃ s, Relation.ReflTransGen (Step AnyCall) boot s ∧ s.runningThread 0 = 0 ∧ 288 ∈ s.tcbList (.runnable 0) ∧
      (s.tcb 288).state = .running ∧ ¬StatesAgree s 0) ∧
    (∃ s, Relation.ReflTransGen (Step AnyCall) boot s ∧ 288 ∈ s.tcbList (.blocked 0) ∧
      (s.tcb 288).state = .ready ∧ ¬StatesAgree s 0) ∧
    ∃ s, Relation.ReflTransGen (Step AnyCall) boot s ∧ s.runningThread 0 = 288 ∧
      (s.tcb 288).state = .ready ∧ ¬StatesAgree s 0 := by
  refine ⟨?_, ?_, ?_⟩
  · have hrun : (replay AnyCall exitBehind boot).map
        (fun s => (s.runningThread 0, s.tcbList (.runnable 0), (s.tcb 288).state)) = some (0, [288], .running) := by
      decide +kernel
    obtain ⟨s, hs, hview⟩ := Option.map_eq_some_iff.mp hrun
    simp only [Prod.mk.injEq] at hview
    obtain ⟨hcur, hlist, hstate⟩ := hview
    refine ⟨s, replay_run hs, hcur, by simp [hlist], hstate, fun h => ?_⟩
    have hready := h.runnable 288 (by simp [hlist]) (by simp [hcur])
    exact absurd (hstate.symm.trans hready) (by simp)
  · have hrun : (replay AnyCall suspendCurrent boot).map (fun s => (s.tcbList (.blocked 0), (s.tcb 288).state)) =
        some ([288], .ready) := by
      decide +kernel
    obtain ⟨s, hs, hview⟩ := Option.map_eq_some_iff.mp hrun
    simp only [Prod.mk.injEq] at hview
    obtain ⟨hlist, hstate⟩ := hview
    refine ⟨s, replay_run hs, by simp [hlist], hstate, fun h => ?_⟩
    exact absurd (hstate.symm.trans (h.blocked 288 (by simp [hlist]))) (by simp)
  · have hrun : (replay AnyCall handOver boot).map (fun s => (s.runningThread 0, (s.tcb 288).state)) =
        some (288, .ready) := by
      decide +kernel
    obtain ⟨s, hs, hview⟩ := Option.map_eq_some_iff.mp hrun
    simp only [Prod.mk.injEq] at hview
    obtain ⟨hcur, hstate⟩ := hview
    refine ⟨s, replay_run hs, hcur, hstate, fun h => ?_⟩
    have hrunning := h.current (by simp [hcur])
    rw [hcur, hstate] at hrunning
    exact absurd hrunning (by simp)

end Sched

end Azalea
