import Azalea.Sched.Runs

namespace Azalea

namespace Sched

variable {strict : Bool} {s s' : Sched} {env : Env} {r : ℕ → ℕ} {c d t u : ℕ} {p q : Place} {f : TCB → TCB}

def OnList (s : Sched) (t : ℕ) : Prop := ∃ p, p.Scheduled ∧ t ∈ s.tcbList p

def Pooled (s : Sched) (t : ℕ) : Prop := ∃ p, ¬p.Scheduled ∧ t ∈ s.tcbList p

def Held (s : Sched) (d t : ℕ) : Prop := t ∈ s.tcbList (.runnable d) ∨ t ∈ s.tcbList (.blocked d)

instance : Decidable (Held s d t) := inferInstanceAs (Decidable (_ ∨ _))

structure Aside (u : ℕ) (s s' : Sched) : Prop extends Untouched u s s' where
  pooled : Pooled s' u ↔ Pooled s u

inductive Turn (s s' : Sched) (t : ℕ) : Prop
  | still (hg : s'.log = s.log) (hb : (s'.tcb t).stackBase = (s.tcb t).stackBase)
      (hk : (s'.tcb t).coreMask = (s.tcb t).coreMask) (hl : OnList s' t ↔ OnList s t) (hp : Pooled s' t ↔ Pooled s t)
      (hh : ∀ d, Held s d t → Held s' d t)
  | exit (hg : s'.log = s.log ++ [.exit t]) (hb : (s'.tcb t).stackBase = (s.tcb t).stackBase) (hl : OnList s t)
      (hn : ∀ p, t ∉ s'.tcbList p)
  | finish (hg : s'.log = s.log ++ [.exit t, .destroy t (stackOf (s.tcb t)) .exited 0 false]) (hl : OnList s t)
      (hn : ¬OnList s' t) (hp : Pooled s' t)
  | destroy (hg : s'.log = s.log ++ [.destroy t (stackOf (s.tcb t)) .exited 0 false]) (ht : IsThread t)
      (hl : ∀ p, t ∉ s.tcbList p) (hn : ¬OnList s' t) (hp : Pooled s' t)
  | create {stack : ℕ} {core : ℤ} (hg : s'.log = s.log ++ [.create t stack core]) (hp : Pooled s t)
      (hn : ¬OnList s t) (hq : ¬Pooled s' t) (hl : OnList s' t) (hb : (s'.tcb t).stackBase = (stack + configStackSize) % wordSize)
      (hk : TCB.setCore core = some (s'.tcb t).coreMask)

theorem isRunning_eq_false (h : ∀ {d}, d < maxProcessorCount → s.runningThread d ≠ t) : s.isRunning t = false := by
  refine List.any_eq_false.mpr fun d hd => ?_
  simpa using h (List.mem_range.mp hd)

theorem Repooled.aside {l m : Place → List ℕ} (h : Repooled t l m) (hu : u ≠ t) :
    (∃ p, ¬p.Scheduled ∧ u ∈ m p) ↔ ∃ p, ¬p.Scheduled ∧ u ∈ l p := by
  rw [h.pool]
  exact or_iff_right hu

theorem pooled_congr (h : ∀ p, u ∈ s'.tcbList p ↔ u ∈ s.tcbList p) : Pooled s' u ↔ Pooled s u :=
  exists_congr fun p => and_congr_right fun _ => h p

theorem onList_congr (h : ∀ p, u ∈ s'.tcbList p ↔ u ∈ s.tcbList p) : OnList s' u ↔ OnList s u :=
  exists_congr fun p => and_congr_right fun _ => h p

theorem Aside.onList (h : Aside u s s') : OnList s' u ↔ OnList s u :=
  exists_congr fun _ => and_congr_right fun hp => h.mem hp

theorem Aside.held (h : Aside u s s') : Held s' d u ↔ Held s d u := or_congr h.runnable h.blocked

theorem Turn.moved (h : Shelf.Exclusive s.tcbList) (hp : p.OfCore c) (hq : q = .runnable c ∨ q = .blocked c)
    (ht : t ∈ s.tcbList p) (hl : s'.tcbList = Shelf.move s.tcbList t q) (hg : s'.log = s.log)
    (hb : (s'.tcb t).stackBase = (s.tcb t).stackBase) (hk : (s'.tcb t).coreMask = (s.tcb t).coreMask) :
    Turn s s' t := by
  have hmem {p' : Place} : t ∈ s'.tcbList p' ↔ p' = q := by
    rw [hl]
    exact h.mem_move_self
  have hsq : q.Scheduled := by
    rcases hq with rfl | rfl
    · trivial
    · trivial
  refine .still hg hb hk ?_ ?_ fun d hd => ?_
  · exact iff_of_true ⟨q, hsq, hmem.mpr rfl⟩ ⟨p, hp.scheduled, ht⟩
  · refine iff_of_false ?_ ?_
    · rintro ⟨p', hp', hm⟩
      exact hp' (hmem.mp hm ▸ hsq)
    · rintro ⟨p', hp', hm⟩
      exact hp' (h.once hm ht ▸ hp.scheduled)
  · have hdc : d = c := by
      rcases hd with hd | hd
      · obtain rfl := h.once hd ht
        exact hp
      · obtain rfl := h.once hd ht
        exact hp
    subst hdc
    rcases hq with rfl | rfl
    · exact .inl (hmem.mpr rfl)
    · exact .inr (hmem.mpr rfl)

theorem Turn.kept (hg : s'.log = s.log) (hl : s'.tcbList = s.tcbList)
    (hb : (s'.tcb t).stackBase = (s.tcb t).stackBase) (hk : (s'.tcb t).coreMask = (s.tcb t).coreMask) :
    Turn s s' t :=
  .still hg hb hk (onList_congr fun _ => by rw [hl]) (pooled_congr fun _ => by rw [hl]) fun _ h => by
    rw [Held, hl]
    exact h

theorem Repooled.not_onList {l : Place → List ℕ} (h : Repooled t l s'.tcbList) : ¬OnList s' t := by
  rintro ⟨p, hp, hm⟩
  obtain ⟨p', hp', hm'⟩ := h.pool.mpr (.inl rfl)
  exact hp' (h.exclusive.once hm' hm ▸ hp)

theorem Retired.turn (h : Retired r t s s') (hs : Shelf.Exclusive s.tcbList) (hl : OnList s t)
    (hrun : ∀ {d}, d < maxProcessorCount → s.runningThread d ≠ t) : Turn s s' t := by
  cases h with
  | waits hr hlist hst hn hb hg =>
    refine .exit hg hb hl fun p => ?_
    rw [hlist]
    exact hs.not_mem_remove
  | destroyed hr hlist hst hn hg =>
    rw [isRunning_eq_false hrun] at hg
    exact .finish hg hl hlist.not_onList (hlist.pool.mpr (.inl rfl))

theorem Retired.pooled (h : Retired r t s s') (hs : Shelf.Exclusive s.tcbList) (hu : u ≠ t) :
    Pooled s' u ↔ Pooled s u := by
  have hrem {p : Place} : u ∈ Shelf.remove s.tcbList t p ↔ u ∈ s.tcbList p :=
    hs.mem_remove.trans (and_iff_right hu)
  cases h with
  | waits hr hlist =>
    refine pooled_congr fun p => ?_
    rw [hlist]
    exact hrem
  | destroyed hr hlist =>
    exact (hlist.aside hu).trans (exists_congr fun p => and_congr_right fun _ => hrem)

theorem Move.turn (hi : Inv strict r s) (hm : Move strict env c s t s') :
    Turn s s' t ∧ ∀ u, u ≠ t → Aside u s s' := by
  have haside (hp : ∀ u, u ≠ t → (Pooled s' u ↔ Pooled s u)) (u : ℕ) (hu : u ≠ t) : Aside u s s' :=
    ⟨hm.untouched hi.placed hu, hp u hu⟩
  have hmove {q : Place} (hl : s'.tcbList = Shelf.move s.tcbList t q) (u : ℕ) (hu : u ≠ t) :
      Pooled s' u ↔ Pooled s u := by
    refine pooled_congr fun p => ?_
    rw [hl]
    exact hi.placed.exclusive.mem_move_of_ne hu
  cases hm with
  | soft ht hf =>
    refine ⟨.kept rfl rfl ?_ ?_, haside fun _ _ => Iff.rfl⟩
    · rw [modify_tcb_self, hf.stackBase]
    · rw [modify_tcb_self, hf.mask]
  | block ht hp =>
    refine ⟨.moved hi.placed.exclusive hp (.inr rfl) ht rfl rfl ?_ ?_, haside (hmove rfl)⟩
    · rw [block_tcb_self]
    · rw [block_tcb_self]
  | unblock ht =>
    refine ⟨.moved (c := c) hi.placed.exclusive (p := .blocked c) rfl (.inl rfl) ht rfl rfl ?_ ?_, haside (hmove rfl)⟩
    · rw [unblock_tcb_self]
    · rw [unblock_tcb_self]
  | adopt ht =>
    refine ⟨.moved (c := c) hi.placed.exclusive (p := .migrating) trivial (.inl rfl) ht rfl rfl ?_ ?_,
      haside (hmove rfl)⟩
    · rw [adopt_tcb_self]
    · rw [adopt_tcb_self]
  | retire ht hq hcore hn hs he =>
    have hr := hi.placed.retired ht hq.scheduled he
    refine ⟨hr.turn hi.placed.exclusive ⟨_, hq.scheduled, ht⟩ fun {d} hd => ?_,
      haside fun u hu => hr.pooled hi.placed.exclusive hu⟩
    by_cases hdc : d = c
    · exact hdc ▸ hn
    · exact hi.not_running ht hq (fun _ _ => .inl hcore) hd hdc

theorem Op.turn (h : Op strict env c s s') :
    ∃ t, Turn s s' t ∧ ∀ u, u ≠ t → Aside u s s' := by
  cases h with
  | @move r t _ hi hm => exact ⟨t, hm.turn hi⟩
  | @calm t f hb hk =>
    refine ⟨t, .kept rfl rfl ?_ ?_, fun u hu => ⟨⟨modify_tcb_of_ne hu, fun _ => Iff.rfl⟩, Iff.rfl⟩⟩
    · rw [modify_tcb_self, hb]
    · rw [modify_tcb_self, hk]
  | @run t => exact ⟨t, .kept rfl rfl rfl rfl, fun u _ => ⟨⟨rfl, fun _ => Iff.rfl⟩, Iff.rfl⟩⟩
  | @destroy r t hi ht hn hz hx =>
    set s₁ := s.modify t fun a => { a with refc := a.refc - 1 } with hs₁
    have hl : Repooled t s.tcbList (s₁.destroyTcb env c t).tcbList := destroyTcb_repooled rfl hi.placed.exclusive hn
    refine ⟨t, .destroy ?_ ht hn hl.not_onList (hl.pool.mpr (.inl rfl)), fun u hu => ⟨⟨?_, fun hp => ?_⟩, hl.aside hu⟩⟩
    · have hrun : s₁.isRunning t = false := isRunning_eq_false fun hd => hi.not_current hn ht hd
      rw [destroyTcb_log]
      change s.log ++ [Life.destroy t _ _ _ (s₁.isRunning t)] = _
      rw [hrun, hs₁, modify_tcb_self]
      simp only [hz, hx, stackOf, sub_self]
    · rw [destroyTcb_tcb, initTcbDestroy_tcb_of_ne hu, hs₁, modify_tcb_of_ne hu]
    · rw [hl.scheduled hp]
  | @create r t stack core mask p hi hp ht hmask =>
    have hmem {u : ℕ} {q : Place} (hu : u ≠ t) : u ∈ Shelf.move s.tcbList t .migrating q ↔ u ∈ s.tcbList q :=
      hi.placed.exclusive.mem_move_of_ne hu
    have hself : t ∈ Shelf.move s.tcbList t .migrating .migrating := hi.placed.exclusive.mem_move_self.mpr rfl
    have hout : ¬OnList s t := by
      rintro ⟨q, hq, hm⟩
      exact hp (hi.placed.exclusive.once hm ht ▸ hq)
    have hpool (hq : ∃ q : Place, ¬q.Scheduled ∧ t ∈ Shelf.move s.tcbList t .migrating q) : False := by
      obtain ⟨q, hq, hm⟩ := hq
      exact hq (hi.placed.exclusive.mem_move_self.mp hm ▸ trivial)
    refine ⟨t, .create rfl ⟨p, hp, ht⟩ hout hpool ⟨.migrating, trivial, hself⟩ ?_ ?_,
      fun u hu => ⟨⟨Function.update_of_ne hu _ _, fun _ => hmem hu⟩, pooled_congr fun _ => hmem hu⟩⟩
    · change (Function.update s.tcb t _ t).stackBase = _
      rw [Function.update_self]
      rfl
    · change _ = some (Function.update s.tcb t _ t).coreMask
      rw [Function.update_self]
      exact hmask

end Sched

end Azalea
