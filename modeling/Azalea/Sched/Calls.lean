import Azalea.Sched.Trace

namespace Azalea

namespace Sched

set_option linter.style.nameCheck false

variable {strict : Bool} {s s' : Sched} {env : Env} {r : ℕ → ℕ} {c d t u : ℕ} {p q : Place} {f : TCB → TCB}
  {S : Set ℕ} {i : Intention}

structure Steady (strict : Bool) (r : ℕ → ℕ) (s : Sched) : Prop where
  inv : Inv strict r s
  seats : strict = true → ∀ {c}, c < maxProcessorCount →
    s.runningThread c = c ∨ s.runningThread c ∈ s.tcbList (.runnable c)

def createdTcb (core : ℤ) (stack : ℕ) (mask : BitVec 256) (gMigratingListAddr : BitVec 32) : TCB where
  stackBase := (stack + configStackSize) % wordSize
  runningCore := (core % 2 ^ 16).toNat
  state := .ready
  intention := .empty
  timeSlice := threadDefaultTimeSlice
  remainingTimeSlice := threadDefaultTimeSlice
  timeQuantum := threadDefaultTimeQuantum
  remainingTimeQuantum := threadDefaultTimeQuantum
  coreMask := mask
  schedList := gMigratingListAddr
  refc := 1

inductive Op (strict : Bool) (env : Env) (c : ℕ) (s : Sched) : Sched → Prop
  | move {r : ℕ → ℕ} {t : ℕ} {s' : Sched} (hi : Inv strict r s) (hm : Move strict env c s t s') : Op strict env c s s'
  | calm {t : ℕ} {f : TCB → TCB} (hb : (f (s.tcb t)).stackBase = (s.tcb t).stackBase)
      (hk : (f (s.tcb t)).coreMask = (s.tcb t).coreMask) : Op strict env c s (s.modify t f)
  | run {t : ℕ} : Op strict env c s (s.setRunning c t)
  | destroy {r : ℕ → ℕ} {t : ℕ} (hi : Inv strict r s) (ht : IsThread t) (hn : ∀ p, t ∉ s.tcbList p)
      (hz : (s.tcb t).refc = 1) (hx : (s.tcb t).state = .exited) :
      Op strict env c s ((s.modify t fun a => { a with refc := a.refc - 1 }).destroyTcb env c t)
  | create {r : ℕ → ℕ} {t stack : ℕ} {core : ℤ} {mask : BitVec 256} {p : Place} (hi : Inv strict r s)
      (hp : ¬p.Scheduled) (ht : t ∈ s.tcbList p) (hmask : TCB.setCore core = some mask) :
      Op strict env c s
        { (s.modify t fun _ => createdTcb core stack mask s.gMigratingListAddr).transfer t p .migrating with
          log := s.log ++ [.create t stack core] }

def Ops (strict : Bool) (env : Env) (c : ℕ) : Sched → Sched → Prop := Relation.ReflTransGen (Op strict env c)

structure Reach (strict : Bool) (env : Env) (c : ℕ) (r : ℕ → ℕ) (s s' : Sched) : Prop where
  steady : Steady strict r s'
  ops : Ops strict env c s s'

theorem Ops.single (h : Op strict env c s s') : Ops strict env c s s' := Relation.ReflTransGen.single h

theorem Ops.trans {s₁ s₂ s₃ : Sched} (h : Ops strict env c s₁ s₂) (h' : Ops strict env c s₂ s₃) :
    Ops strict env c s₁ s₃ := Relation.ReflTransGen.trans h h'

theorem Moves.ops (hm : Moves strict env c S s s') (hc : c < maxProcessorCount) (hi : Inv strict r s) :
    Ops strict env c s s' := by
  induction hm with
  | refl => exact Relation.ReflTransGen.refl
  | tail h hm ih =>
    obtain ⟨t, _, hm⟩ := hm
    exact ih.trans (.single (.move (Moves.inv h hc hi) hm))

theorem Moves.seats (hm : Moves strict env c S s s') (hc : c < maxProcessorCount) (hi : Inv strict r s)
    (hd : d < maxProcessorCount) (hdc : d ≠ c)
    (h : s.runningThread d = d ∨ s.runningThread d ∈ s.tcbList (.runnable d)) :
    s'.runningThread d = d ∨ s'.runningThread d ∈ s'.tcbList (.runnable d) := by
  rw [hm.runningThread]
  refine h.imp_right fun h => ?_
  exact (hm.other hc hi hd hdc (.inr (.inl h))).runnable.mpr h

theorem Seat.kept (h : Seat strict s d u) (hf : TCB.Kept (s.tcb t) (f (s.tcb t)))
    (hs : strict = true → u = d ∨ u ∈ s.tcbList (.runnable d)) : Seat strict (s.modify t f) d u := by
  cases strict with
  | true =>
    rcases hs rfl with rfl | hu
    · exact .idle
    · exact .runnable hu
  | false =>
    cases h with
    | idle => exact .idle
    | runnable hm => exact .runnable hm
    | blocked hm => exact .blocked hm (by simp)
    | migrating hs hm hc =>
      refine .migrating hs hm ?_
      by_cases hu : u = t
      · subst hu
        rw [modify_tcb_self, hf.core, hc]
      · rw [modify_tcb_of_ne hu, hc]

theorem Steady.keep (h : Steady strict r s) (hf : TCB.Kept (s.tcb t) (f (s.tcb t)))
    (hb : t < maxProcessorCount → (f (s.tcb t)).intention.blocked = false ∧ (f (s.tcb t)).intention.exited = false)
    (ht : (f (s.tcb t)).state = (s.tcb t).state ∨ t < maxProcessorCount ∨ ∃ p, p.Scheduled ∧ t ∈ s.tcbList p) :
    Steady strict r (s.modify t f) where
  inv :=
    { placed := h.inv.placed.keep hf hb ht
      seated := fun hd => (h.inv.seated hd).kept hf fun hs => h.seats hs hd
      counted := fun hs => (h.inv.counted hs).of_eq rfl rfl }
  seats hs := h.seats hs

theorem Inv.current_listed (h : Inv strict r s) (hc : c < maxProcessorCount) :
    s.runningThread c < maxProcessorCount ∨ ∃ p, p.Scheduled ∧ s.runningThread c ∈ s.tcbList p := by
  rcases h.placed.seat_own hc (h.seated hc) with he | ⟨p, hp, hm, _⟩
  · exact .inl (he.symm ▸ hc)
  · exact .inr ⟨p, hp.scheduled, hm⟩

section References

variable {r' : ℕ → ℕ} {k : ℤ}

theorem at_reref {a : TCB} {n n' : ℕ} (h : a.At n p) (hs : a.state ≠ .notalloc) (hk : (n' : ℤ) = n + k) :
    TCB.At { a with refc := a.refc + k } n' p := by
  have hl (hp : p.Scheduled) : TCB.Listed { a with refc := a.refc + k } n' := by
    have h := h.listed hp
    refine ⟨h.live, ?_, h.slice, h.quantum⟩
    change a.refc + k = n' + 1
    rw [h.refc, hk]
    ring
  cases p with
  | migrating => exact ⟨hl trivial, h.2⟩
  | runnable c => exact ⟨hl trivial, h.2⟩
  | blocked c => exact ⟨hl trivial, h.2⟩
  | localTcb c => exact absurd h.1 hs
  | globalTcb => exact absurd h.1 hs

theorem Placed.reref (h : Placed r s) (hs : (s.tcb t).state ≠ .notalloc) (hr : ∀ {u}, u ≠ t → r' u = r u)
    (hk : (r' t : ℤ) = r t + k) (hpos : IsThread t → (∀ p, t ∉ s.tcbList p) → 0 < r' t) :
    Placed r' (s.modify t fun a => { a with refc := a.refc + k }) where
  exclusive := h.exclusive
  thread := h.thread
  at_place {p u} hu := by
    by_cases hut : u = t
    · subst hut
      rw [modify_tcb_self]
      exact at_reref (h.at_place hu) hs hk
    · rw [modify_tcb_of_ne hut, hr hut]
      exact h.at_place hu
  unlisted {u} hu hn := by
    by_cases hut : u = t
    · subst hut
      obtain ⟨hx, href, _⟩ := h.unlisted hu hn
      rw [modify_tcb_self]
      refine ⟨hx, ?_, hpos hu hn⟩
      change (s.tcb u).refc + k = r' u
      rw [href, hk]
    · rw [modify_tcb_of_ne hut, hr hut]
      exact h.unlisted hu hn
  idle {i} hi := by
    by_cases hit : i = t
    · subst hit
      obtain ⟨⟨hl, href, hsl, hq⟩, hc, hm, hsched, hb, hx⟩ := h.idle hi
      rw [modify_tcb_self]
      refine ⟨⟨hl, ?_, hsl, hq⟩, hc, hm, hsched, hb, hx⟩
      change (s.tcb i).refc + k = r' i + 1
      rw [href, hk]
      ring
    · rw [modify_tcb_of_ne hit, hr hit]
      exact h.idle hi

theorem modify_refc (u : ℕ) :
    ((s.modify t fun a => { a with refc := a.refc + k }).tcb u).intention = (s.tcb u).intention ∧
      ((s.modify t fun a => { a with refc := a.refc + k }).tcb u).runningCore = (s.tcb u).runningCore := by
  by_cases hu : u = t
  · subst hu
    rw [modify_tcb_self]
    exact ⟨rfl, rfl⟩
  · rw [modify_tcb_of_ne hu]
    exact ⟨rfl, rfl⟩

theorem Inv.reref (h : Inv strict r s) (hs : (s.tcb t).state ≠ .notalloc) (hr : ∀ {u}, u ≠ t → r' u = r u)
    (hk : (r' t : ℤ) = r t + k) (hpos : IsThread t → (∀ p, t ∉ s.tcbList p) → 0 < r' t) :
    Inv strict r' (s.modify t fun a => { a with refc := a.refc + k }) where
  placed := h.placed.reref hs hr hk hpos
  seated hd := (h.seated hd).congr (fun _ hm => hm) (modify_refc _).1 (modify_refc _).2
  counted hst := (h.counted hst).of_eq rfl rfl

theorem Steady.reref (h : Steady strict r s) (hs : (s.tcb t).state ≠ .notalloc) (hr : ∀ {u}, u ≠ t → r' u = r u)
    (hk : (r' t : ℤ) = r t + k) (hpos : IsThread t → (∀ p, t ∉ s.tcbList p) → 0 < r' t) :
    Steady strict r' (s.modify t fun a => { a with refc := a.refc + k }) :=
  ⟨h.inv.reref hs hr hk hpos, fun hst => h.seats hst⟩

theorem getTcb_eq (he : s.getTcb t = some s') :
    t < maxThreadId ∧ (s.tcb t).state ≠ .notalloc ∧ s' = s.modify t fun a => { a with refc := a.refc + 1 } := by
  unfold getTcb at he
  split at he
  · exact absurd he (by simp)
  · next ht =>
    split at he
    · exact absurd he (by simp)
    · next hs => exact ⟨Nat.lt_of_not_le ht, hs, (Option.some.inj he).symm⟩

theorem Steady.get (h : Steady strict r s) (he : s.getTcb t = some s') :
    Reach strict env c (Function.update r t (r t + 1)) s s' := by
  obtain ⟨_, hs, rfl⟩ := getTcb_eq he
  exact ⟨h.reref hs (fun hu => Function.update_of_ne hu ..) (by simp) (by simp), .single (.calm rfl rfl)⟩

theorem Inv.not_current (h : Inv strict r s) (hn : ∀ p, t ∉ s.tcbList p) (ht : IsThread t)
    (hd : d < maxProcessorCount) : s.runningThread d ≠ t := by
  intro he
  rcases h.placed.seat_own hd (h.seated hd) with hi | ⟨p, _, hm, _⟩
  · rw [he] at hi
    exact absurd ht.1 (Nat.not_le_of_lt (hi ▸ hd))
  · exact hn p (he ▸ hm)

theorem Steady.destroy (h : Steady strict r s) (ht : IsThread t) (hn : ∀ p, t ∉ s.tcbList p)
    (hz : (s.tcb t).refc = 1) :
    Steady strict (Function.update r t (r t - 1)) ((s.modify t fun a => { a with refc := a.refc - 1 }).destroyTcb env c t) := by
  set s₁ := s.modify t fun a => { a with refc := a.refc - 1 } with hs₁
  have hl : Repooled t s.tcbList (s₁.destroyTcb env c t).tcbList := destroyTcb_repooled rfl h.inv.placed.exclusive hn
  have hrem : Shelf.remove s.tcbList t = s.tcbList := funext fun p => Shelf.remove_of_not_mem (hn p)
  have htcb {u : ℕ} (hu : u ≠ t) : (s₁.destroyTcb env c t).tcb u = s.tcb u := by
    rw [destroyTcb_tcb, initTcbDestroy_tcb_of_ne hu, hs₁, modify_tcb_of_ne hu]
  have hr1 : r t = 1 := by
    have := (h.inv.placed.unlisted ht hn).2.1
    omega
  have hsched {p : Place} {u : ℕ} (hp : p.Scheduled) (hu : u ∈ s.tcbList p) : u ∈ (s₁.destroyTcb env c t).tcbList p := by
    rw [hl.scheduled hp]
    exact hu
  refine ⟨⟨?_, fun {d} hd => ?_, fun hst => ?_⟩, fun hst {d} hd => ?_⟩
  · refine h.inv.placed.repool (by rw [hrem]; exact hl) ht htcb (fun hu => Function.update_of_ne hu ..) ⟨?_, ?_, ?_⟩
    · rw [destroyTcb_tcb]
      exact initTcbDestroy_tcb_self.1
    · rw [destroyTcb_tcb, initTcbDestroy_tcb_self.2, hs₁, modify_tcb_self]
      simp [hz]
    · simp [hr1]
  · rw [destroyTcb_runningThread]
    exact (h.inv.seated hd).of_same hsched (htcb (h.inv.not_current hn ht hd))
  · have hc₁ : Counted s₁ := (h.inv.counted hst).of_eq rfl rfl
    exact hc₁.destroy h.inv.placed.exclusive hn (fun hu => (h.inv.placed.thread hu).2) ht.2
  · rw [destroyTcb_runningThread]
    exact (h.seats hst hd).imp_right (hsched trivial)

theorem Placed.referenced (h : Placed r s) (hr : 0 < r t) (ht : t < maxThreadId) :
    (s.tcb t).state ≠ .notalloc ∧ (s.tcb t).refc = r t + 1 ∨
      IsThread t ∧ (∀ p, t ∉ s.tcbList p) ∧ (s.tcb t).state = .exited ∧ (s.tcb t).refc = r t := by
  by_cases hidle : t < maxProcessorCount
  · exact .inl ⟨(h.idle hidle).listed.live.1, (h.idle hidle).listed.refc⟩
  have hthread : IsThread t := ⟨Nat.le_of_not_lt hidle, ht⟩
  by_cases hl : ∃ p, t ∈ s.tcbList p
  · obtain ⟨p, hp⟩ := hl
    by_cases hs : p.Scheduled
    · exact .inl ⟨((h.at_place hp).listed hs).live.1, ((h.at_place hp).listed hs).refc⟩
    · exact absurd ((TCB.at_iff_free hs).mp (h.at_place hp)).2.2 (Nat.pos_iff_ne_zero.mp hr)
  · have hn : ∀ p, t ∉ s.tcbList p := not_exists.mp hl
    exact .inr ⟨hthread, hn, (h.unlisted hthread hn).1, (h.unlisted hthread hn).2.1⟩

theorem Steady.put (h : Steady strict r s) (hr : 0 < r t) (ht : t < maxThreadId) (he : s.putTcb env c t = some s') :
    Reach strict env c (Function.update r t (r t - 1)) s s' := by
  have hcast : ((Function.update r t (r t - 1) t : ℕ) : ℤ) = r t + (-1) := by
    rw [Function.update_self]
    omega
  rcases putTcb_cases he with ⟨hz, rfl⟩ | ⟨hz, hx, rfl⟩
  · rcases h.inv.placed.referenced hr ht with ⟨hs, href⟩ | ⟨_, _, hs, href⟩
    · refine ⟨h.reref hs (fun hu => Function.update_of_ne hu ..) hcast fun hthread hn => ?_, .single (.calm rfl rfl)⟩
      have := (h.inv.placed.unlisted hthread hn).2.1
      omega
    · have hz : (s.tcb t).refc ≠ 1 := hz.resolve_right (by simp [hs])
      refine ⟨h.reref (by simp [hs]) (fun hu => Function.update_of_ne hu ..) hcast fun _ _ => ?_,
        .single (.calm rfl rfl)⟩
      rw [Function.update_self]
      omega
  · rcases h.inv.placed.referenced hr ht with ⟨_, href⟩ | ⟨hthread, hn, _, _⟩
    · omega
    · exact ⟨h.destroy hthread hn hz, .single (.destroy h.inv hthread hn hz hx)⟩

end References

theorem update_update_sub (r : ℕ → ℕ) (t : ℕ) :
    Function.update (Function.update r t (r t + 1)) t (Function.update r t (r t + 1) t - 1) = r := by
  simp

theorem Steady.borrow {s₁ s₂ : Sched} (h : Steady strict (Function.update r t (r t + 1)) s₁) (ht : t < maxThreadId)
    (he : s₁.putTcb env c t = some s₂) : Reach strict env c r s₁ s₂ := by
  have hp := h.put (by simp) ht he
  rwa [update_update_sub] at hp

theorem Steady.flag (h : Steady strict r s) (ht : t < maxProcessorCount → i.blocked = false ∧ i.exited = false) :
    Steady strict r (s.modify t fun a => { a with intention := a.intention.or i }) := by
  refine h.keep ⟨id, rfl, rfl, rfl, rfl, rfl, rfl, rfl⟩ (fun hlt => ?_) (.inl rfl)
  have hidle := h.inv.placed.idle hlt
  simp [Intention.or, hidle.blocked, hidle.exited, ht hlt]

theorem Steady.intend (h : Steady strict r s) (ht : t < maxProcessorCount → i.blocked = false ∧ i.exited = false)
    (he : ((s.getTcb t).bind fun s => (s.modify t fun a => { a with intention := a.intention.or i }).putTcb env c t) = some s') :
    Reach strict env c r s s' := by
  obtain ⟨s₁, he₁, he₂⟩ := Option.bind_eq_some_iff.mp he
  have h₁ : Reach strict env c _ s s₁ := h.get he₁
  have h₃ := (h₁.steady.flag ht).borrow (getTcb_eq he₁).1 he₂
  exact ⟨h₃.steady, h₁.ops.trans ((Ops.single (.calm rfl rfl)).trans h₃.ops)⟩

theorem allocTcb_eq (he : s.allocTcb c = some (t, s')) :
    ∃ p, ¬p.Scheduled ∧ t ∈ s.tcbList p ∧ s' = ((s.dlListDel t).countDec p).initTcbAlloc t := by
  unfold allocTcb at he
  split at he
  · split at he
    · exact absurd he (by simp)
    · next hl =>
      dsimp only at he
      split at he
      · exact absurd he (by simp)
      · cases he
        exact ⟨.localTcb c, id, by simp [hl], rfl⟩
  · split at he
    · exact absurd he (by simp)
    · next hl =>
      cases he
      exact ⟨.globalTcb, id, by simp [hl], rfl⟩

theorem modify_modify {g : TCB → TCB} : (s.modify t f).modify t g = s.modify t (g ∘ f) := by
  unfold modify
  simp

theorem createThread_eq {core : ℤ} {stack : ℕ} (h : Placed r s) (he : s.createThread env c core stack = some (t, s')) :
    ∃ p mask, ¬p.Scheduled ∧ t ∈ s.tcbList p ∧ TCB.setCore core = some mask ∧
      s' = { (s.modify t fun _ => createdTcb core stack mask s.gMigratingListAddr).transfer t p .migrating with
        log := s.log ++ [.create t stack core] } := by
  unfold createThread at he
  obtain ⟨⟨t', s₁⟩, he₁, he⟩ := Option.bind_eq_some_iff.mp he
  obtain ⟨p, hp, ht, rfl⟩ := allocTcb_eq he₁
  obtain ⟨mask, hmask, he⟩ := Option.bind_eq_some_iff.mp he
  obtain ⟨s₂, he₂, heq⟩ := Option.bind_eq_some_iff.mp he
  cases heq
  refine ⟨p, mask, hp, ht, hmask, ?_⟩
  have hlt : ¬maxThreadId ≤ t := Nat.not_le_of_lt (h.thread ht).2
  simp only [getTcb, hlt, if_false, initTcbAlloc, modify_tcb_self, reduceCtorEq, Option.getD_some] at he₂
  rcases putTcb_cases he₂ with ⟨_, rfl⟩ | ⟨hz, _, _⟩
  · simp only [initTcbCreate, modify, transfer, countDec, countInc, dlListDel, dlListAddTail,
      Function.update_idem, Function.update_self]
    rfl
  · simp only [initTcbCreate, modify, countDec, countInc, dlListDel, dlListAddTail, Function.update_self] at hz
    exact absurd hz (by decide)

theorem pinned_of_setCore {core : ℤ} {mask : BitVec 256} {stack : ℕ} {g : BitVec 32} (h : TCB.setCore core = some mask) :
    (createdTcb core stack mask g).Pinned := by
  unfold TCB.setCore at h
  split at h
  · next hc =>
    cases h
    subst hc
    exact .inl ⟨rfl, rfl⟩
  · split at h
    · next hc =>
      cases h
      refine .inr ⟨core.toNat, by omega, ?_, rfl⟩
      change (core % 2 ^ 16).toNat = core.toNat
      rw [Int.emod_eq_of_lt hc.1 (by omega)]
    · exact absurd h (by simp)

theorem Steady.create {core : ℤ} {stack : ℕ} (h : Steady strict r s)
    (he : s.createThread env c core stack = some (t, s')) : Reach strict env c r s s' := by
  obtain ⟨p, mask, hp, ht, hmask, rfl⟩ := createThread_eq h.inv.placed he
  have hfree := (TCB.at_iff_free hp).mp (h.inv.placed.at_place ht)
  have hplaced : Placed r ((s.modify t fun _ => createdTcb core stack mask s.gMigratingListAddr).transfer t p .migrating) :=
    h.inv.placed.relist ht ⟨⟨by simp [TCB.Live, createdTcb], by simp [createdTcb, hfree.2.2], rfl, rfl⟩, pinned_of_setCore hmask⟩
  have hne {d : ℕ} (hd : d < maxProcessorCount) : s.runningThread d ≠ t := by
    intro hrun
    rcases h.inv.placed.seat_own hd (h.inv.seated hd) with hi | ⟨q, hq, hm, _⟩
    · rw [hrun] at hi
      exact h.inv.placed.not_idle ht hd hi
    · rw [hrun] at hm
      exact hp (h.inv.placed.exclusive.once hm ht ▸ hq.scheduled)
  have hmem {d : ℕ} (hd : d < maxProcessorCount) (q : Place) :
      s.runningThread d ∈ Shelf.move s.tcbList t .migrating q ↔ s.runningThread d ∈ s.tcbList q :=
    h.inv.placed.exclusive.mem_move_of_ne (hne hd)
  refine ⟨⟨⟨?_, fun {d} hd => ?_, fun hst => ?_⟩, fun hst {d} hd => ?_⟩, .single (.create h.inv hp ht hmask)⟩
  · exact ⟨hplaced.exclusive, hplaced.thread, hplaced.at_place, hplaced.unlisted, hplaced.idle⟩
  · exact (h.inv.seated hd).of_same (fun {q} _ hm => (hmem hd q).mpr hm) (Function.update_of_ne (hne hd) _ _)
  · have hpm : p ≠ .migrating := by
      rintro rfl
      exact hp trivial
    exact ((h.inv.counted hst).relist h.inv.placed ht hpm).of_eq rfl rfl
  · exact (h.seats hst hd).imp_right fun hm => (hmem hd (.runnable d)).mpr hm

theorem giveUp_kept : TCB.Kept (s.tcb u) ((s.giveUp env c i).tcb u) ∧
    ((s.giveUp env c i).tcb u).state = (s.tcb u).state := by
  by_cases hu : u = s.runningThread c
  · subst hu
    rw [giveUp, modify_tcb_self]
    exact ⟨⟨id, rfl, rfl, rfl, rfl, rfl, rfl, rfl⟩, rfl⟩
  · rw [giveUp, modify_tcb_of_ne hu]
    exact ⟨⟨id, rfl, rfl, rfl, rfl, rfl, rfl, rfl⟩, rfl⟩

theorem Steady.giveUp (h : Steady strict r s)
    (hidle : s.runningThread c < maxProcessorCount → i.blocked = false ∧ i.exited = false) :
    Steady strict r (s.giveUp env c i) := by
  refine h.keep ⟨id, rfl, rfl, rfl, rfl, rfl, rfl, rfl⟩ (fun hlt => ?_) (.inl rfl)
  have hi := h.inv.placed.idle hlt
  simp [Intention.or, hi.blocked, hi.exited, hidle hlt]

theorem __postContextSwitch_tcbList {prev : ℕ} (hrun : s.runningThread c = prev)
    (hb : (s.tcb prev).intention.blocked = false) (he : s.__postContextSwitch env c prev = some s') :
    s'.tcbList = s.tcbList := by
  unfold __postContextSwitch at he
  simp only [hb, hrun, if_true, if_false, Bool.false_eq_true] at he
  split at he
  · rw [← Option.some.inj he]
  split at he
  · rw [← Option.some.inj he, modify_tcbList]
  split at he
  · rw [← Option.some.inj he]
  · rw [← Option.some.inj he]

theorem pullThreads_untouched (hc : c < maxProcessorCount) (hlo : strict = false → c < 256) (hi : Inv strict r s)
    (he : s.pullThreads env c = some s') (hu : u = c ∨ u ∈ s.tcbList (.runnable c)) : Untouched u s s' := by
  refine (pullThreads_moves hc hlo hi he).untouched hc hi ?_
  rintro (hm | hm)
  · rcases hu with rfl | hu
    · exact hi.placed.not_idle hm hc rfl
    · exact absurd (hi.placed.exclusive.once hu hm) (by simp)
  · rcases hu with rfl | hu
    · exact hi.placed.not_idle hm hc rfl
    · exact absurd (hi.placed.exclusive.once hu hm) (by simp)

theorem Selected.not_blocked {next : ℕ} (h : Selected c next s) (hc : c < maxProcessorCount) (hi : Inv strict r s) :
    (s.tcb next).intention.blocked = false := by
  rcases h with rfl | ⟨_, _, h⟩
  · exact (hi.placed.idle hc).blocked
  · exact h

section Post

variable (hc : c < maxProcessorCount) (hlo : strict = false → c < 256)
include hc hlo

theorem Inv.stay (hi : Inv strict r s)
    (hseats : strict = true → ∀ {d}, d < maxProcessorCount → d ≠ c →
      s.runningThread d = d ∨ s.runningThread d ∈ s.tcbList (.runnable d))
    (hsel : Selected c (s.runningThread c) s)
    (he : s.postContextSwitch env c (s.runningThread c) = some s') : Reach strict env c r s s' := by
  obtain ⟨s₁, he₁, he₂⟩ := Option.bind_eq_some_iff.mp he
  have hseat : s.runningThread c = c ∨ s.runningThread c ∈ s.tcbList (.runnable c) := hsel.imp_right And.left
  have hb := hsel.not_blocked hc hi
  have hm₁ := __postContextSwitch_moves hc hi (hi.seated hc) (fun _ _ => hb) he₁
  have hi₁ := hm₁.inv hc hi
  have hm₂ := pullThreads_moves hc hlo hi₁ he₂
  refine ⟨⟨hm₂.inv hc hi₁, fun hst {d} hd => ?_⟩, (hm₁.ops hc hi).trans (hm₂.ops hc hi₁)⟩
  by_cases hdc : d = c
  · subst hdc
    rw [hm₂.runningThread, hm₁.runningThread]
    have hseat₁ : s.runningThread d = d ∨ s.runningThread d ∈ s₁.tcbList (.runnable d) := by
      rwa [__postContextSwitch_tcbList rfl hb he₁]
    exact hseat₁.imp_right (pullThreads_untouched hc hlo hi₁ he₂ hseat₁).runnable.mpr
  · exact hm₂.seats hc hi₁ hd hdc (hm₁.seats hc hi hd hdc (hseats hst hd hdc))

theorem Inv.switchPost {next : ℕ} (hi : Inv strict r s)
    (hseats : strict = true → ∀ {d}, d < maxProcessorCount → d ≠ c →
      s.runningThread d = d ∨ s.runningThread d ∈ s.tcbList (.runnable d))
    (hnext : Seat strict s c next) (hns : strict = true → next = c ∨ next ∈ s.tcbList (.runnable c))
    (hne : strict = true → next ≠ s.runningThread c)
    (he : (s.setRunning c next).postContextSwitch env c (s.runningThread c) = some s') :
    Reach strict env c r s s' := by
  obtain ⟨s₁, he₁, he₂⟩ := Option.bind_eq_some_iff.mp he
  have hi₀ := hi.switch hnext
  have hm₁ := __postContextSwitch_moves hc hi₀ (hi.seated hc).switch
    (fun hst h => absurd (setRunning_self.symm.trans h) (hne hst)) he₁
  have hi₁ := hm₁.inv hc hi₀
  have hm₂ := pullThreads_moves hc hlo hi₁ he₂
  refine ⟨⟨hm₂.inv hc hi₁, fun hst {d} hd => ?_⟩,
    (Ops.single .run).trans ((hm₁.ops hc hi₀).trans (hm₂.ops hc hi₁))⟩
  by_cases hdc : d = c
  · subst hdc
    rw [hm₂.runningThread, hm₁.runningThread, setRunning_self]
    have hu := hm₁.untouched hc hi₀ (u := next) (hne hst)
    have hseat₁ : next = d ∨ next ∈ s₁.tcbList (.runnable d) := (hns hst).imp_right hu.runnable.mpr
    exact hseat₁.imp_right (pullThreads_untouched hc hlo hi₁ he₂ hseat₁).runnable.mpr
  · refine hm₂.seats hc hi₁ hd hdc (hm₁.seats hc hi₀ hd hdc ?_)
    rw [setRunning_of_ne hdc]
    exact hseats hst hd hdc

omit hlo in
theorem Inv.entered {next : ℕ} {s₁ s₂ : Sched} (hi : Inv strict r s) (hnext : Seat strict s c next)
    (he₁ : s.getTcb next = some s₁) (hf : TCB.Soft (s₁.tcb next) (f (s₁.tcb next)))
    (he₂ : ((s₁.modify next f).setRunning c next).putTcb env c next = some s₂) :
    ∃ g : TCB → TCB, s₂ = (s.modify next g).setRunning c next ∧ Inv strict r (s.modify next g) ∧
      Seat strict (s.modify next g) c next ∧
      g (s.tcb next) = { f (s₁.tcb next) with refc := (f (s₁.tcb next)).refc - 1 } := by
  obtain ⟨_, hstate, rfl⟩ := getTcb_eq he₁
  set s₁ := s.modify next fun a => { a with refc := a.refc + 1 } with hs₁
  have hi₁ : Inv strict (Function.update r next (r next + 1)) s₁ :=
    hi.reref hstate (fun hu => Function.update_of_ne hu ..) (by simp) (by simp)
  have hseat₁ : Seat strict s₁ c next := hnext.congr (fun _ hm => hm) (modify_refc _).1 (modify_refc _).2
  have hown : next = c ∨ ∃ p, p.OfCore c ∧ next ∈ s₁.tcbList p :=
    (hi₁.placed.seat_own hc hseat₁).imp_right fun ⟨p, hp, hm, _⟩ => ⟨p, hp, hm⟩
  have hi₂ := hi₁.soft hc hown hf
  have hlive : ((s₁.modify next f).tcb next).Live := by
    rcases hown with rfl | ⟨p, hp, hm⟩
    · exact (hi₂.placed.idle hc).listed.live
    · exact ((hi₂.placed.at_place (p := p) hm).listed hp.scheduled).live
  have hunlisted : IsThread next → ¬∀ p, next ∉ (s₁.modify next f).tcbList p := by
    intro hthread hn
    rcases hown with rfl | ⟨p, _, hm⟩
    · exact absurd hthread.1 (Nat.not_le_of_lt hc)
    · exact hn p hm
  rcases putTcb_cases he₂ with ⟨_, rfl⟩ | ⟨_, hx, _⟩
  · have hi₃ : Inv strict r ((s₁.modify next f).modify next fun a => { a with refc := a.refc + (-1) }) := by
      refine hi₂.reref hlive.1 (fun hu => (Function.update_of_ne hu ..).symm) (by simp) fun ht hn => ?_
      exact absurd hn (hunlisted ht)
    have hseat₃ : Seat strict ((s₁.modify next f).modify next fun a => { a with refc := a.refc + (-1) }) c next :=
      (hseat₁.soft hf).congr (fun _ hm => hm) (modify_refc _).1 (modify_refc _).2
    rw [hs₁, modify_modify, modify_modify] at hi₃ hseat₃
    refine ⟨_, ?_, hi₃, hseat₃, ?_⟩
    · change ((s₁.modify next f).modify next fun a => { a with refc := a.refc - 1 }).setRunning c next = _
      rw [hs₁, modify_modify, modify_modify]
      rfl
    · rw [hs₁, modify_tcb_self]
      rfl
  · exact absurd hx hlive.2

theorem Inv.enter {next : ℕ} {s₁ s₂ : Sched} (hi : Inv strict r s)
    (hseats : strict = true → ∀ {d}, d < maxProcessorCount → d ≠ c →
      s.runningThread d = d ∨ s.runningThread d ∈ s.tcbList (.runnable d))
    (hnext : Seat strict s c next) (hns : strict = true → next = c ∨ next ∈ s.tcbList (.runnable c))
    (hne : strict = true → next ≠ s.runningThread c) (he₁ : s.getTcb next = some s₁)
    (hf : TCB.Soft (s₁.tcb next) (f (s₁.tcb next)))
    (he₂ : ((s₁.modify next f).setRunning c next).putTcb env c next = some s₂)
    (he : s₂.postContextSwitch env c (s.runningThread c) = some s') : Reach strict env c r s s' := by
  obtain ⟨g, rfl, hi₃, hseat₃, hg⟩ := hi.entered hc hnext he₁ hf he₂
  have h₄ := hi₃.switchPost hc hlo hseats hseat₃ hns hne he
  obtain ⟨_, _, rfl⟩ := getTcb_eq he₁
  rw [modify_tcb_self] at hf hg
  refine ⟨h₄.steady, (Ops.single (.calm ?_ ?_)).trans h₄.ops⟩
  · rw [hg]
    exact hf.stackBase
  · rw [hg]
    exact hf.mask

omit hlo in
theorem Steady.select {n next : ℕ} {s₁ s₂ : Sched} (h : Steady strict r s)
    (hsel : selectNextThread env c n s = some (next, s₁)) (hrefill : s₁.refillTimeSlice next = some s₂) :
    Moves strict env c {t | t = c ∨ t ∈ s.tcbList (.runnable c)} s s₂ ∧ Selected c next s₂ := by
  obtain ⟨hm, hnext⟩ := selectNextThread_spec hc h.inv hsel
  have hr := refillTimeSlice_retimed hrefill
  have hmem : next = c ∨ next ∈ s.tcbList (.runnable c) := by
    refine hnext.imp_right fun hn => ?_
    by_contra hout
    by_cases hnc : next = c
    · exact (hm.inv hc h.inv).placed.not_idle hn.1 hc hnc
    · exact hout ((hm.untouched hc h.inv (u := next) fun hu => hu.elim hnc hout).runnable.mp hn.1)
  have hmove : Move strict env c s₁ next s₂ :=
    refillTimeSlice_move hrefill (hnext.imp_right fun hn => ⟨.runnable c, rfl, hn.1⟩)
  refine ⟨hm.trans (.single hmem hmove), hnext.imp_right fun hn => ?_⟩
  rw [hr.tcbList, hr.intention]
  exact hn

omit hlo in
theorem Moves.seats_of_steady (h : Steady strict r s) (hm : Moves strict env c S s s') (hst : strict = true)
    (hd : d < maxProcessorCount) (hdc : d ≠ c) :
    s'.runningThread d = d ∨ s'.runningThread d ∈ s'.tcbList (.runnable d) :=
  hm.seats hc h.inv hd hdc (h.seats hst hd)

omit hc hlo in
theorem Selected.seat {next : ℕ} (h : Selected c next s) : Seat strict s c next := by
  rcases h with rfl | ⟨hm, _⟩
  · exact .idle
  · exact .runnable hm

omit hc hlo in
theorem schedule_cases (hcore : (s.tcb (s.runningThread c)).runningCore = c) (he : s.schedule env c i = some s') :
    ∃ next s₁ s₂, selectNextThread env c env.rounds (s.giveUp env c i) = some (next, s₁) ∧
      s₁.refillTimeSlice next = some s₂ ∧
      (next = s.runningThread c ∧ (∃ s₃, s₂.postContextSwitch env c next = some s₃ ∧ s' = s₃.resume c) ∨
        next ≠ s.runningThread c ∧
          ((s₂.setRunningCore c next).setRunning c next).postContextSwitch env c (s₂.runningThread c) = some s') := by
  unfold Sched.schedule at he
  obtain ⟨⟨next, s₁⟩, hsel, he⟩ := Option.bind_eq_some_iff.mp he
  obtain ⟨s₂, hrefill, he⟩ := Option.bind_eq_some_iff.mp he
  refine ⟨next, s₁, s₂, hsel, hrefill, ?_⟩
  split at he
  · next hcurr =>
    obtain ⟨s₃, hpost, he⟩ := Option.bind_eq_some_iff.mp he
    exact .inl ⟨hcurr, s₃, hcurr ▸ hpost, (Option.some.inj he).symm⟩
  · next hcurr =>
    rw [switchTo, hcore] at he
    exact .inr ⟨hcurr, he⟩

omit hlo in
theorem Steady.resume (h : Steady strict r s) : Steady strict r (s.resume c) := by
  refine h.keep (TCB.kept_of fun _ => by simp) (fun hlt => ?_) (.inr (h.inv.current_listed hc))
  exact ⟨(h.inv.placed.idle hlt).blocked, (h.inv.placed.idle hlt).exited⟩

theorem Steady.schedule (h : Steady strict r s)
    (hidle : s.runningThread c < maxProcessorCount → i.blocked = false ∧ i.exited = false)
    (he : s.schedule env c i = some s') : Reach strict env c r s s' := by
  have h₀ : Steady strict r (s.giveUp env c i) := h.giveUp hidle
  obtain ⟨next, s₁, s₂, hsel, hrefill, he⟩ := schedule_cases (h.inv.current_core hc) he
  obtain ⟨hm, hnext⟩ := h₀.select hc hsel hrefill
  have hi₂ := hm.inv hc h₀.inv
  have hrun : s₂.runningThread = s.runningThread := hm.runningThread
  have hseats (hst : strict = true) {d : ℕ} := hm.seats_of_steady hc h₀ hst (d := d)
  have hops : Ops strict env c s s₂ := (Ops.single (.calm rfl rfl)).trans (hm.ops hc h₀.inv)
  rcases he with ⟨rfl, s₃, hpost, rfl⟩ | ⟨hne, he⟩
  · rw [← hrun] at hpost hnext
    have h₃ := hi₂.stay hc hlo hseats hnext hpost
    exact ⟨h₃.steady.resume hc, hops.trans (h₃.ops.trans (.single (.calm rfl rfl)))⟩
  · have hown : next = c ∨ ∃ p, p.OfCore c ∧ next ∈ s₂.tcbList p :=
      hnext.imp_right fun hn => ⟨.runnable c, rfl, hn.1⟩
    have hseat₂ : Seat strict s₂ c next := hnext.seat
    have hf := TCB.soft_core (hi₂.placed.seat_core hseat₂ hc)
    have hseat : Seat strict (s₂.setRunningCore c next) c next := hseat₂.soft hf
    have h₃ := (hi₂.soft hc hown hf).switchPost hc hlo hseats hseat (fun _ => hnext.imp_right And.left)
      (fun _ => hrun.symm ▸ hne) he
    exact ⟨h₃.steady, hops.trans ((Ops.single (.calm rfl rfl)).trans h₃.ops)⟩

omit hc hlo in
theorem scheduleTo_cases {n : ℕ} (hcore : (s.tcb (s.runningThread c)).runningCore = c)
    (he : s.scheduleTo env c n i = some s') :
    ∃ s₁, (s.giveUp env c i).getTcb n = some s₁ ∧
      (((s₁.tcb n).runningCore = (s₁.tcb (s.runningThread c)).runningCore ∧ (s₁.tcb n).coreIsAllowed c = true) ∧
          (∃ s₂ s₃, s₁.refillTimeSlice n = some s₂ ∧
            (((s₂.setState n .running).setRunningCore c n).setRunning c n).putTcb env c n = some s₃ ∧
            s₃.postContextSwitch env c (s.runningThread c) = some s') ∨
        ¬((s₁.tcb n).runningCore = (s₁.tcb (s.runningThread c)).runningCore ∧ (s₁.tcb n).coreIsAllowed c = true) ∧
        ∃ s₂ next s₃ s₄, s₁.putTcb env c n = some s₂ ∧ selectNextThread env c env.rounds s₂ = some (next, s₃) ∧
          s₃.refillTimeSlice next = some s₄ ∧
          (next = s.runningThread c ∧ (s₄.setState next .running).postContextSwitch env c next = some s' ∨
            next ≠ s.runningThread c ∧ ∃ s₅ s₆, s₄.getTcb next = some s₅ ∧
              ((s₅.setRunningCore c next).setRunning c next).putTcb env c next = some s₆ ∧
              s₆.postContextSwitch env c (s.runningThread c) = some s')) := by
  unfold Sched.scheduleTo at he
  obtain ⟨s₁, he₁, he⟩ := Option.bind_eq_some_iff.mp he
  refine ⟨s₁, he₁, ?_⟩
  rw [hcore] at he
  split at he
  · next hdirect =>
    obtain ⟨s₂, he₂, he⟩ := Option.bind_eq_some_iff.mp he
    obtain ⟨s₃, he₃, he⟩ := Option.bind_eq_some_iff.mp he
    exact .inl ⟨hdirect, s₂, s₃, he₂, he₃, he⟩
  · next hdirect =>
    obtain ⟨s₂, he₂, he⟩ := Option.bind_eq_some_iff.mp he
    obtain ⟨⟨next, s₃⟩, he₃, he⟩ := Option.bind_eq_some_iff.mp he
    obtain ⟨s₄, he₄, he⟩ := Option.bind_eq_some_iff.mp he
    refine .inr ⟨hdirect, s₂, next, s₃, s₄, he₂, he₃, he₄, ?_⟩
    split at he
    · next hcurr => exact .inl ⟨hcurr, hcurr ▸ he⟩
    · next hcurr =>
      obtain ⟨s₅, he₅, he⟩ := Option.bind_eq_some_iff.mp he
      obtain ⟨s₆, he₆, he⟩ := Option.bind_eq_some_iff.mp he
      exact .inr ⟨hcurr, s₅, s₆, he₅, he₆, he⟩

omit hc hlo in
theorem refillTimeSlice_start {s₂ : Sched} (hcore : (s.tcb t).runningCore = c) (he : s.refillTimeSlice t = some s₂) :
    ∃ f : TCB → TCB, (s₂.setState t .running).setRunningCore c t = s.modify t f ∧
      TCB.Soft (s.tcb t) (f (s.tcb t)) ∧ ∀ a, (f a).state = .running := by
  obtain ⟨x, y, rfl⟩ := refillTimeSlice_eq he
  have hrunning : TCB.Soft (s.tcb t)
      { s.tcb t with state := .running, remainingTimeSlice := x, remainingTimeQuantum := y } :=
    TCB.soft_of (by simp) id id
  refine ⟨fun a => { a with
    state := .running, remainingTimeSlice := x, remainingTimeQuantum := y, runningCore := c }, ?_,
    hrunning.trans (TCB.soft_core hcore), fun _ => rfl⟩
  rw [setState, setRunningCore, modify_modify, modify_modify]
  rfl

theorem Steady.scheduleTo {n : ℕ} (h : Steady strict r s)
    (hidle : s.runningThread c < maxProcessorCount → i.blocked = false ∧ i.exited = false)
    (hn : (s.tcb n).runningCore = c → (s.tcb n).state ≠ .notalloc → Seat strict s c n ∧
      (strict = true → (n = c ∨ n ∈ s.tcbList (.runnable c)) ∧ n ≠ s.runningThread c))
    (he : s.scheduleTo env c n i = some s') : Reach strict env c r s s' := by
  have h₀ : Steady strict r (s.giveUp env c i) := h.giveUp hidle
  obtain ⟨s₁, he₁, hcases⟩ := scheduleTo_cases (h.inv.current_core hc) he
  have h₁ : Reach strict env c _ _ s₁ := h₀.get he₁
  have hops₀ : Ops strict env c s (s.giveUp env c i) := .single (.calm rfl rfl)
  obtain ⟨hlt, hstate, heq⟩ := getTcb_eq he₁
  have hrun₁ : s₁.runningThread = s.runningThread := by
    rw [heq]
    rfl
  rcases hcases with ⟨⟨hcore, _⟩, s₂, s₃, he₂, he₃, hpost⟩ | ⟨_, s₂, next, s₃, s₄, he₂, hsel, hrefill, hcases⟩
  · have hcore₁ : (s₁.tcb n).runningCore = c := by
      rw [hcore, ← hrun₁]
      exact h₁.steady.inv.current_core hc
    have hcore₀ : ((s.giveUp env c i).tcb n).runningCore = c := by
      rw [heq, (modify_refc _).2] at hcore₁
      exact hcore₁
    obtain ⟨hseat, hstrict⟩ := hn (giveUp_kept.1.core ▸ hcore₀) (giveUp_kept.2 ▸ hstate)
    have hseat₀ : Seat strict (s.giveUp env c i) c n := by
      refine hseat.kept ?_ fun hst => (hstrict hst).1
      exact ⟨id, rfl, rfl, rfl, rfl, rfl, rfl, rfl⟩
    obtain ⟨f, heq, hsoft, _⟩ := refillTimeSlice_start hcore₁ he₂
    rw [heq] at he₃
    have h₂ := h₀.inv.enter hc hlo (fun hst {d} hd _ => h₀.seats hst hd) hseat₀ (fun hst => (hstrict hst).1)
      (fun hst => (hstrict hst).2) he₁ hsoft he₃ hpost
    exact ⟨h₂.steady, hops₀.trans h₂.ops⟩
  · have hb := h₁.steady.borrow hlt he₂
    have h₂ := hb.steady
    obtain ⟨hm, hnext⟩ := h₂.select hc hsel hrefill
    have hi₄ := hm.inv hc h₂.inv
    have hrun : s₄.runningThread = s.runningThread := by
      rw [hm.runningThread, putTcb_runningThread he₂, hrun₁]
    have hseats (hst : strict = true) {d : ℕ} := hm.seats_of_steady hc h₂ hst (d := d)
    have hops : Ops strict env c s s₄ := hops₀.trans (h₁.ops.trans (hb.ops.trans (hm.ops hc h₂.inv)))
    have hown : next = c ∨ ∃ p, p.OfCore c ∧ next ∈ s₄.tcbList p :=
      hnext.imp_right fun hx => ⟨.runnable c, rfl, hx.1⟩
    have hseat₄ : Seat strict s₄ c next := hnext.seat
    rcases hcases with ⟨rfl, hpost⟩ | ⟨hne, s₅, s₆, he₅, he₆, hpost⟩
    · have hsoft : TCB.Soft (s₄.tcb (s.runningThread c)) { s₄.tcb (s.runningThread c) with state := .running } :=
        TCB.soft_of (by simp) id id
      have hsel : Selected c (s.runningThread c) (s₄.setState (s.runningThread c) .running) := by
        refine hnext.imp_right fun hx => ?_
        rw [setState, modify_tcb_self]
        exact hx
      rw [← hrun] at hpost hsel hsoft hown
      have h₅ := (hi₄.soft hc hown hsoft).stay hc hlo hseats hsel hpost
      exact ⟨h₅.steady, hops.trans ((Ops.single (.calm rfl rfl)).trans h₅.ops)⟩
    · rw [← hrun] at hne hpost
      have hcore₅ : (s₅.tcb next).runningCore = c := by
        rw [(getTcb_eq he₅).2.2, (modify_refc _).2]
        exact hi₄.placed.seat_core hseat₄ hc
      have h₅ := hi₄.enter hc hlo hseats hseat₄ (fun _ => hnext.imp_right And.left) (fun _ => hne) he₅
        (TCB.soft_core hcore₅) he₆ hpost
      exact ⟨h₅.steady, hops.trans h₅.ops⟩

theorem Steady.exit (h : Steady strict r s) (hthread : ¬s.runningThread c < maxProcessorCount)
    (he : s.__threadExit env c = some s') : Reach strict env c r s s' := by
  unfold __threadExit at he
  obtain ⟨s₁, he₁, he⟩ := Option.bind_eq_some_iff.mp he
  obtain ⟨s₂, he₂, he⟩ := Option.bind_eq_some_iff.mp he
  have h₁ : Reach strict env c _ s s₁ := h.get he₁
  have h₂ := h₁.steady.keep (t := s.runningThread c) (f := fun a => { a with intention := .onlyExited })
    ⟨id, rfl, rfl, rfl, rfl, rfl, rfl, rfl⟩ (fun hlt => absurd hlt hthread) (.inl rfl)
  have hrun : s₂.runningThread = s.runningThread := by
    rw [putTcb_runningThread he₂, modify_runningThread, (getTcb_eq he₁).2.2, modify_runningThread]
  have h₃ := h₂.borrow (getTcb_eq he₁).1 he₂
  have h₄ := h₃.steady.schedule hc hlo (fun hlt => absurd (hrun ▸ hlt) hthread) he
  exact ⟨h₄.steady, h₁.ops.trans ((Ops.single (.calm rfl rfl)).trans (h₃.ops.trans h₄.ops))⟩

end Post

end Sched

end Azalea
