import Azalea.Sched.Schedule

namespace Azalea

theorem maxThreadId_lt : maxThreadId < wordSize := by simp

theorem qword_pred {n : ℕ} (h : n + 1 < wordSize) : (n + 1 + wordSize - 1) % wordSize = n := by
  rw [show n + 1 + wordSize - 1 = n + wordSize by omega, Nat.add_mod_right]
  exact Nat.mod_eq_of_lt (by omega)

namespace TCB

def Live (a : TCB) : Prop := a.state ≠ .notalloc ∧ a.state ≠ .exited

def Pinned (a : TCB) : Prop :=
  a.runningCore = noCore ∧ a.coreMask = 0 ∨ ∃ k < 256, a.runningCore = k ∧ a.coreMask = ~~~(1#256 <<< k)

structure Listed (a : TCB) (n : ℕ) : Prop where
  live : a.Live
  refc : a.refc = n + 1
  slice : a.timeSlice = threadDefaultTimeSlice
  quantum : a.timeQuantum = threadInfiniteTimeQuantum

def At (a : TCB) (n : ℕ) : Place → Prop
  | .migrating => a.Listed n ∧ a.Pinned
  | .runnable c | .blocked c => a.Listed n ∧ a.runningCore = c ∧ a.coreIsAllowed c = true
  | .localTcb _ | .globalTcb => a.state = .notalloc ∧ a.refc = 0 ∧ n = 0

structure IdleOf (a : TCB) (i n : ℕ) : Prop where
  listed : a.Listed n
  core : a.runningCore = i
  mask : a.coreMask = 0
  schedList : a.schedList = 0
  blocked : a.intention.blocked = false
  exited : a.intention.exited = false

structure Kept (a b : TCB) : Prop where
  live : a.Live → b.Live
  refc : b.refc = a.refc
  slice : b.timeSlice = a.timeSlice
  quantum : b.timeQuantum = a.timeQuantum
  core : b.runningCore = a.runningCore
  mask : b.coreMask = a.coreMask
  schedList : b.schedList = a.schedList
  stackBase : b.stackBase = a.stackBase

structure Soft (a b : TCB) : Prop extends Kept a b where
  blocked : b.intention.blocked = true → a.intention.blocked = true
  exited : b.intention.exited = true → a.intention.exited = true

variable {a b : TCB} {n c i : ℕ} {p : Place}

theorem Listed.kept (h : a.Listed n) (hs : Kept a b) : b.Listed n where
  live := hs.live h.live
  refc := hs.refc.trans h.refc
  slice := hs.slice.trans h.slice
  quantum := hs.quantum.trans h.quantum

theorem Kept.allowed (h : Kept a b) : b.coreIsAllowed c = a.coreIsAllowed c := by
  simp only [coreIsAllowed, h.mask, h.schedList]

theorem Kept.pinned (h : Kept a b) (ha : a.Pinned) : b.Pinned := by
  simpa only [Pinned, h.core, h.mask] using ha

theorem At.listed (h : a.At n p) (hp : p.Scheduled) : a.Listed n := by
  cases p with
  | migrating => exact h.1
  | runnable c => exact h.1
  | blocked c => exact h.1
  | localTcb c => exact hp.elim
  | globalTcb => exact hp.elim

theorem at_iff_free (hp : ¬p.Scheduled) : a.At n p ↔ a.state = .notalloc ∧ a.refc = 0 ∧ n = 0 := by
  cases p with
  | migrating => exact absurd trivial hp
  | runnable c => exact absurd trivial hp
  | blocked c => exact absurd trivial hp
  | localTcb c => exact Iff.rfl
  | globalTcb => exact Iff.rfl

theorem At.kept (h : a.At n p) (hp : p.Scheduled) (hs : Kept a b) : b.At n p := by
  cases p with
  | migrating => exact ⟨h.1.kept hs, hs.pinned h.2⟩
  | runnable c => exact ⟨h.1.kept hs, hs.core.trans h.2.1, hs.allowed.trans h.2.2⟩
  | blocked c => exact ⟨h.1.kept hs, hs.core.trans h.2.1, hs.allowed.trans h.2.2⟩
  | localTcb c => exact hp.elim
  | globalTcb => exact hp.elim

theorem IdleOf.kept (h : a.IdleOf i n) (hs : Kept a b) (hb : b.intention.blocked = false)
    (hx : b.intention.exited = false) : b.IdleOf i n where
  listed := h.listed.kept hs
  core := hs.core.trans h.core
  mask := hs.mask.trans h.mask
  schedList := hs.schedList.trans h.schedList
  blocked := hb
  exited := hx

theorem Soft.blocked_false (h : Soft a b) (ha : a.intention.blocked = false) : b.intention.blocked = false :=
  Bool.eq_false_iff.mpr fun hb => absurd (h.blocked hb) (by simp [ha])

theorem Soft.exited_false (h : Soft a b) (ha : a.intention.exited = false) : b.intention.exited = false :=
  Bool.eq_false_iff.mpr fun hb => absurd (h.exited hb) (by simp [ha])

theorem IdleOf.allowed (h : a.IdleOf i n) : a.coreIsAllowed c = true := by
  simp [coreIsAllowed, h.mask, h.schedList]

end TCB

namespace Sched

def IsThread (t : ℕ) : Prop := maxProcessorCount ≤ t ∧ t < maxThreadId

structure Placed (r : ℕ → ℕ) (s : Sched) : Prop where
  exclusive : Shelf.Exclusive s.tcbList
  thread : ∀ {p t}, t ∈ s.tcbList p → IsThread t
  at_place : ∀ {p t}, t ∈ s.tcbList p → (s.tcb t).At (r t) p
  unlisted : ∀ {t}, IsThread t → (∀ p, t ∉ s.tcbList p) →
    (s.tcb t).state = .exited ∧ (s.tcb t).refc = r t ∧ 0 < r t
  idle : ∀ {i}, i < maxProcessorCount → (s.tcb i).IdleOf i (r i)

def Counted (s : Sched) : Prop := ∀ p, s.count p = (s.tcbList p).length

variable {s s' : Sched} {env : Env} {r : ℕ → ℕ} {c d t u : ℕ} {p q : Place} {f : TCB → TCB}

@[simp] theorem modify_tcb_self : (s.modify t f).tcb t = f (s.tcb t) := Function.update_self ..

@[simp] theorem modify_tcb_of_ne (h : u ≠ t) : (s.modify t f).tcb u = s.tcb u := Function.update_of_ne h ..

@[simp] theorem modify_tcbList : (s.modify t f).tcbList = s.tcbList := rfl

@[simp] theorem modify_count : (s.modify t f).count = s.count := rfl

@[simp] theorem modify_runningThread : (s.modify t f).runningThread = s.runningThread := rfl

@[simp] theorem countDec_tcb : (s.countDec p).tcb = s.tcb := rfl

@[simp] theorem dlListDel_tcb : (s.dlListDel t).tcb = s.tcb := rfl

@[simp] theorem threadExit_tcb_self : (s.threadExit t).tcb t =
    { s.tcb t with state := .exited, intention := { (s.tcb t).intention with exited := false } } :=
  Function.update_self ..

@[simp] theorem threadExit_tcb_of_ne (h : u ≠ t) : (s.threadExit t).tcb u = s.tcb u :=
  Function.update_of_ne h ..

@[simp] theorem initTcbDestroy_tcb_of_ne (h : u ≠ t) : (s.initTcbDestroy t).tcb u = s.tcb u :=
  Function.update_of_ne h ..

theorem initTcbDestroy_tcb_self : ((s.initTcbDestroy t).tcb t).state = .notalloc ∧
    ((s.initTcbDestroy t).tcb t).refc = (s.tcb t).refc := by
  have he : (s.initTcbDestroy t).tcb t = _ := Function.update_self ..
  rw [he]
  exact ⟨rfl, rfl⟩

@[simp] theorem transfer_tcb : (s.transfer t p q).tcb = s.tcb := rfl

@[simp] theorem setRunning_self : (s.setRunning c t).runningThread c = t := Function.update_self ..

@[simp] theorem setRunning_of_ne (h : d ≠ c) : (s.setRunning c t).runningThread d = s.runningThread d :=
  Function.update_of_ne h ..

@[simp] theorem block_tcb_self : (s.block c t).tcb t =
    { s.tcb t with state := .blocked, intention := { (s.tcb t).intention with blocked := false } } :=
  Function.update_self ..

@[simp] theorem block_tcb_of_ne (h : u ≠ t) : (s.block c t).tcb u = s.tcb u := Function.update_of_ne h ..

@[simp] theorem block_tcbList : (s.block c t).tcbList = Shelf.move s.tcbList t (.blocked c) := rfl

@[simp] theorem unblock_tcb_self : (s.unblock c t).tcb t =
    { s.tcb t with state := .ready, intention := { (s.tcb t).intention with ready := false, blocked := false } } :=
  Function.update_self ..

@[simp] theorem unblock_tcb_of_ne (h : u ≠ t) : (s.unblock c t).tcb u = s.tcb u := Function.update_of_ne h ..

@[simp] theorem unblock_tcbList : (s.unblock c t).tcbList = Shelf.move s.tcbList t (.runnable c) := rfl

@[simp] theorem adopt_tcb_self : (s.adopt c d t).tcb t = { s.tcb t with runningCore := d } :=
  Function.update_self ..

@[simp] theorem adopt_tcb_of_ne (h : u ≠ t) : (s.adopt c d t).tcb u = s.tcb u := Function.update_of_ne h ..

@[simp] theorem adopt_tcbList : (s.adopt c d t).tcbList = Shelf.move s.tcbList t (.runnable c) := rfl

namespace Placed

theorem not_idle (h : Placed r s) (ht : t ∈ s.tcbList p) (hc : c < maxProcessorCount) : t ≠ c := by
  rintro rfl
  exact absurd (h.thread ht).1 (Nat.not_le_of_lt hc)

theorem length_lt (h : Placed r s) : (s.tcbList p).length < wordSize :=
  (Shelf.length_le_of_lt (h.exclusive.nodup p) fun _ hx => (h.thread hx).2).trans_lt maxThreadId_lt

theorem length_move_lt (h : Placed r s) (ht : IsThread t) : (Shelf.move s.tcbList t q p).length < wordSize := by
  refine (Shelf.length_le_of_lt (h.exclusive.moved.nodup p) fun u hu => ?_).trans_lt maxThreadId_lt
  rcases h.exclusive.mem_move.mp hu with ⟨_, hu⟩ | ⟨rfl, _⟩
  · exact (h.thread hu).2
  · exact ht.2

theorem relist {p₀ : Place} (h : Placed r s) (ht : t ∈ s.tcbList p₀) (hq : (f (s.tcb t)).At (r t) q) :
    Placed r ((s.modify t f).transfer t p q) where
  exclusive := h.exclusive.moved
  thread {p' u} hu := by
    rcases h.exclusive.mem_move.mp hu with ⟨_, hu⟩ | ⟨rfl, _⟩
    · exact h.thread hu
    · exact h.thread ht
  at_place {p' u} hu := by
    rcases h.exclusive.mem_move.mp hu with ⟨hne, hu⟩ | ⟨rfl, rfl⟩
    · simpa [hne] using h.at_place hu
    · simpa using hq
  unlisted {u} hu hn := by
    have hne : u ≠ t := by
      rintro rfl
      exact hn q (h.exclusive.mem_move_self.mpr rfl)
    have hn' : ∀ p', u ∉ s.tcbList p' := fun p' hp' => hn p' ((h.exclusive.mem_move_of_ne hne).mpr hp')
    simpa [hne] using h.unlisted hu hn'
  idle {i} hi := by
    simpa [(h.not_idle ht hi).symm] using h.idle hi

theorem keep (h : Placed r s) (hf : TCB.Kept (s.tcb t) (f (s.tcb t)))
    (hb : t < maxProcessorCount → (f (s.tcb t)).intention.blocked = false ∧ (f (s.tcb t)).intention.exited = false)
    (ht : (f (s.tcb t)).state = (s.tcb t).state ∨ t < maxProcessorCount ∨ ∃ p, p.Scheduled ∧ t ∈ s.tcbList p) :
    Placed r (s.modify t f) where
  exclusive := h.exclusive
  thread := h.thread
  at_place {p u} hu := by
    by_cases hut : u = t
    · subst hut
      rw [modify_tcb_self]
      by_cases hp : p.Scheduled
      · exact (h.at_place hu).kept hp hf
      · obtain ⟨hs, hr, hn⟩ := (TCB.at_iff_free hp).mp (h.at_place hu)
        rcases ht with hst | hlt | ⟨q, hq, htq⟩
        · exact (TCB.at_iff_free hp).mpr ⟨hst.trans hs, hf.refc.trans hr, hn⟩
        · exact absurd rfl (h.not_idle hu hlt)
        · exact absurd (h.exclusive.once htq hu ▸ hq) hp
    · simpa [hut] using h.at_place hu
  unlisted {u} hu hn := by
    by_cases hut : u = t
    · subst hut
      obtain ⟨hs, hr, hpos⟩ := h.unlisted hu hn
      rw [modify_tcb_self]
      rcases ht with hst | hlt | ⟨q, _, htq⟩
      · exact ⟨hst.trans hs, hf.refc.trans hr, hpos⟩
      · exact absurd hu.1 (Nat.not_le_of_lt hlt)
      · exact absurd htq (hn q)
    · simpa [hut] using h.unlisted hu hn
  idle {i} hi := by
    by_cases hit : i = t
    · subst hit
      simpa using (h.idle hi).kept hf (hb hi).1 (hb hi).2
    · simpa [hit] using h.idle hi

end Placed

theorem Counted.relist (hc : Counted s) (h : Placed r s) (ht : t ∈ s.tcbList p) (hpq : p ≠ q) :
    Counted ((s.modify t f).transfer t p q) := by
  intro p'
  have hq : t ∉ s.tcbList q := h.exclusive.not_mem ht hpq.symm
  change Function.update (Function.update s.count p ((s.count p + wordSize - 1) % wordSize)) q
    ((Function.update s.count p ((s.count p + wordSize - 1) % wordSize) q + 1) % wordSize) p' =
    (Shelf.move s.tcbList t q p').length
  rw [Function.update_of_ne hpq.symm]
  by_cases hp'q : p' = q
  · subst hp'q
    have hl := h.length_move_lt (p := p') (q := p') (h.thread ht)
    rw [Function.update_self, Shelf.length_move_self hq, hc p']
    rw [Shelf.length_move_self hq] at hl
    exact Nat.mod_eq_of_lt hl
  rw [Function.update_of_ne hp'q]
  by_cases hp'p : p' = p
  · subst hp'p
    have hl := h.length_lt (p := p')
    have hs := Shelf.length_move_source ht hpq
    rw [Function.update_self, hc p', ← hs]
    rw [← hs] at hl
    exact qword_pred hl
  · rw [Function.update_of_ne hp'p, Shelf.move_of_ne hp'q (h.exclusive.not_mem ht hp'p)]
    exact hc p'

structure Repooled (t : ℕ) (f g : Place → List ℕ) : Prop where
  exclusive : Shelf.Exclusive g
  scheduled : ∀ {p}, p.Scheduled → g p = f p
  pool : ∀ {u}, (∃ p, ¬p.Scheduled ∧ u ∈ g p) ↔ u = t ∨ ∃ p, ¬p.Scheduled ∧ u ∈ f p

theorem repooled_insert {f : Place → List ℕ} (hf : Shelf.Exclusive f) (ht : ∀ p, t ∉ f p) (hq : ¬q.Scheduled) :
    Repooled t f (Shelf.insert f q t) where
  exclusive := hf.inserted ht
  scheduled {p} hp := Shelf.insert_of_ne fun he => hq (he ▸ hp)
  pool {u} := by
    constructor
    · rintro ⟨p, hp, hu⟩
      rcases Shelf.mem_insert.mp hu with hu | ⟨rfl, _⟩
      · exact .inr ⟨p, hp, hu⟩
      · exact .inl rfl
    · rintro (rfl | ⟨p, hp, hu⟩)
      · exact ⟨q, hq, Shelf.mem_insert.mpr (.inr ⟨rfl, rfl⟩)⟩
      · exact ⟨p, hp, Shelf.mem_insert.mpr (.inl hu)⟩

theorem repooled_splice {f : Place → List ℕ} (hf : Shelf.Exclusive f) (ht : ∀ p, t ∉ f p) :
    Repooled t f (Shelf.insert (Shelf.splice f (.localTcb c) .globalTcb) (.localTcb c) t) := by
  have hne : Place.localTcb c ≠ .globalTcb := by simp
  have ht' : ∀ p, t ∉ Shelf.splice f (.localTcb c) .globalTcb p := by
    intro p hp
    rcases (Shelf.mem_splice hne).mp hp with ⟨hp, _⟩ | ⟨hp, _⟩
    · exact ht _ hp
    · exact ht _ hp
  have hr := repooled_insert (hf.spliced hne) ht' (q := .localTcb c) id
  refine ⟨hr.exclusive, fun {p} hp => ?_, fun {u} => hr.pool.trans (or_congr_right ?_)⟩
  · rw [hr.scheduled hp]
    unfold Shelf.splice
    rw [Function.update_of_ne (by rintro rfl; exact hp), Function.update_of_ne (by rintro rfl; exact hp)]
  · constructor
    · rintro ⟨p, hp, hu⟩
      rcases (Shelf.mem_splice hne).mp hu with ⟨hu, _⟩ | ⟨hu, _⟩
      · exact ⟨p, hp, hu⟩
      · exact ⟨_, id, hu⟩
    · rintro ⟨p, hp, hu⟩
      by_cases hpc : p = .localTcb c
      · exact ⟨.globalTcb, id, (Shelf.mem_splice hne).mpr (.inr ⟨hpc ▸ hu, rfl⟩)⟩
      · exact ⟨p, hp, (Shelf.mem_splice hne).mpr (.inl ⟨hu, hpc⟩)⟩

theorem destroyTcb_tcb : (s.destroyTcb env c t).tcb = (s.initTcbDestroy t).tcb := by
  unfold destroyTcb
  split
  · rfl
  · split <;> rfl

theorem destroyTcb_log : (s.destroyTcb env c t).log = (s.initTcbDestroy t).log := by
  unfold destroyTcb
  split
  · rfl
  · split <;> rfl

theorem destroyTcb_runningThread : (s.destroyTcb env c t).runningThread = s.runningThread := by
  unfold destroyTcb
  split
  · rfl
  · split <;> rfl

theorem destroyTcb_repooled {l : Place → List ℕ} (hl : s.tcbList = l) (h : Shelf.Exclusive l)
    (ht : ∀ p, t ∉ l p) : Repooled t l (s.destroyTcb env c t).tcbList := by
  subst hl
  unfold destroyTcb
  split
  · exact repooled_insert h ht id
  · split
    · exact repooled_splice h ht
    · exact repooled_insert h ht id

theorem Counted.of_eq (hc : Counted s) (hl : s'.tcbList = s.tcbList) (hn : s'.count = s.count) : Counted s' := by
  intro p
  rw [hl, hn]
  exact hc p

theorem Counted.addTail (hc : Counted s) (hl : (Shelf.insert s.tcbList p t p).length < wordSize) :
    Counted ((s.dlListAddTail t p).countInc p) := by
  intro p'
  change Function.update s.count p ((s.count p + 1) % wordSize) p' = (Shelf.insert s.tcbList p t p').length
  by_cases hp : p' = p
  · subst hp
    rw [Shelf.length_insert] at hl
    rw [Function.update_self, Shelf.length_insert, hc p', Nat.mod_eq_of_lt hl]
  · rw [Function.update_of_ne hp, Shelf.insert_of_ne hp, hc p']

theorem Counted.del (hc : Counted s) (h : Shelf.Exclusive s.tcbList) (ht : t ∈ s.tcbList p)
    (hl : (s.tcbList p).length < wordSize) : Counted ((s.countDec p).dlListDel t) := by
  intro p'
  change Function.update s.count p ((s.count p + wordSize - 1) % wordSize) p' =
    (Shelf.remove s.tcbList t p').length
  by_cases hp : p' = p
  · subst hp
    have hr := Shelf.length_remove ht
    rw [← hr] at hl
    rw [Function.update_self, hc p', ← hr, qword_pred hl]
  · rw [Function.update_of_ne hp, Shelf.remove_of_not_mem (h.not_mem ht hp), hc p']

theorem Counted.splice (hc : Counted s) (hl : (Shelf.splice s.tcbList (.localTcb c) .globalTcb .globalTcb).length < wordSize) :
    Counted { (s.spliceLocal c).dlListAddTail t (.localTcb c) with
      count := Function.update (s.spliceLocal c).count (.localTcb c) 1 } := by
  intro p
  change Function.update (Function.update s.count .globalTcb
    ((s.count .globalTcb + s.count (.localTcb c)) % wordSize)) (.localTcb c) 1 p =
    (Shelf.insert (Shelf.splice s.tcbList (.localTcb c) .globalTcb) (.localTcb c) t p).length
  have hg : (Shelf.splice s.tcbList (.localTcb c) .globalTcb .globalTcb) =
      s.tcbList .globalTcb ++ s.tcbList (.localTcb c) := by
    simp [Shelf.splice]
  by_cases hp : p = .localTcb c
  · subst hp
    simp [Shelf.insert, Shelf.splice]
  · rw [Function.update_of_ne hp, Shelf.insert_of_ne hp]
    by_cases hpg : p = .globalTcb
    · subst hpg
      rw [hg, List.length_append] at hl ⊢
      rw [Function.update_self, hc, hc, Nat.mod_eq_of_lt hl]
    · rw [Function.update_of_ne hpg, hc]
      simp [Shelf.splice, hp, hpg]

theorem Counted.destroy (hc : Counted s) (h : Shelf.Exclusive s.tcbList) (ht : ∀ p, t ∉ s.tcbList p)
    (hb : ∀ {p u}, u ∈ s.tcbList p → u < maxThreadId) (htb : t < maxThreadId) :
    Counted (s.destroyTcb env c t) := by
  have hi (p : Place) : (Shelf.insert s.tcbList p t p).length < wordSize := by
    refine (Shelf.length_le_of_lt ((h.inserted ht).nodup p) fun u hu => ?_).trans_lt maxThreadId_lt
    rcases Shelf.mem_insert.mp hu with hu | ⟨rfl, _⟩
    · exact hb hu
    · exact htb
  have hne : Place.localTcb c ≠ .globalTcb := by simp
  unfold destroyTcb
  split
  · exact (hc.addTail (hi .globalTcb)).of_eq rfl rfl
  · split
    · refine (hc.splice (t := t) (c := c) ?_).of_eq rfl rfl
      refine (Shelf.length_le_of_lt ((h.spliced hne).nodup _) fun u hu => ?_).trans_lt maxThreadId_lt
      rcases (Shelf.mem_splice hne).mp hu with ⟨hu, _⟩ | ⟨hu, _⟩
      · exact hb hu
      · exact hb hu
    · exact (hc.addTail (hi (.localTcb c))).of_eq rfl rfl

def stackOf (a : TCB) : ℕ := (a.stackBase + wordSize - configStackSize) % wordSize

inductive Retired (r : ℕ → ℕ) (t : ℕ) (s s' : Sched) : Prop
  | waits (hr : 0 < r t) (hl : s'.tcbList = Shelf.remove s.tcbList t) (hs : (s'.tcb t).state = .exited)
      (hn : (s'.tcb t).refc = r t) (hb : (s'.tcb t).stackBase = (s.tcb t).stackBase)
      (hg : s'.log = s.log ++ [.exit t])
  | destroyed (hr : r t = 0) (hl : Repooled t (Shelf.remove s.tcbList t) s'.tcbList)
      (hs : (s'.tcb t).state = .notalloc) (hn : (s'.tcb t).refc = 0)
      (hg : s'.log = s.log ++ [.exit t, .destroy t (stackOf (s.tcb t)) .exited 0 (s.isRunning t)])

theorem putTcb_cases (he : s.putTcb env c t = some s') :
    ((s.tcb t).refc ≠ 1 ∨ (s.tcb t).state = .notalloc) ∧ s' = s.modify t (fun a => { a with refc := a.refc - 1 }) ∨
      (s.tcb t).refc = 1 ∧ (s.tcb t).state = .exited ∧
        s' = (s.modify t fun a => { a with refc := a.refc - 1 }).destroyTcb env c t := by
  unfold putTcb at he
  simp only [modify_tcb_self, sub_eq_zero] at he
  split at he
  · next hz =>
    split at he
    · next hx => exact .inr ⟨hz, hx, (Option.some.inj he).symm⟩
    · split at he
      · next hn => exact .inl ⟨.inr hn, (Option.some.inj he).symm⟩
      · exact absurd he (by simp)
  · next hz => exact .inl ⟨.inl hz, (Option.some.inj he).symm⟩

theorem putTcb_tcb_of_ne (he : s.putTcb env c t = some s') (hu : u ≠ t) : s'.tcb u = s.tcb u := by
  rcases putTcb_cases he with ⟨_, rfl⟩ | ⟨_, _, rfl⟩
  · exact modify_tcb_of_ne hu
  · rw [destroyTcb_tcb]
    exact (initTcbDestroy_tcb_of_ne hu).trans (modify_tcb_of_ne hu)

theorem putTcb_runningThread (he : s.putTcb env c t = some s') : s'.runningThread = s.runningThread := by
  rcases putTcb_cases he with ⟨_, rfl⟩ | ⟨_, _, rfl⟩
  · rfl
  · exact destroyTcb_runningThread

theorem retire_tcb_of_ne (he : s.retire env c t p = some s') (hu : u ≠ t) : s'.tcb u = s.tcb u :=
  (putTcb_tcb_of_ne he hu).trans (threadExit_tcb_of_ne hu)

theorem retire_runningThread (he : s.retire env c t p = some s') : s'.runningThread = s.runningThread :=
  (putTcb_runningThread he :)

theorem Placed.retired (h : Placed r s) (ht : t ∈ s.tcbList q) (hq : q.Scheduled)
    (he : s.retire env c t p = some s') : Retired r t s s' := by
  have hrefc : (s.tcb t).refc = r t + 1 := ((h.at_place ht).listed hq).refc
  rcases putTcb_cases he with ⟨hz, rfl⟩ | ⟨hz, _, rfl⟩
  · simp only [dlListDel_tcb, countDec_tcb, threadExit_tcb_self, reduceCtorEq, or_false] at hz
    refine .waits (by omega) rfl ?_ ?_ ?_ rfl
    · simp
    · simp [hrefc]
    · simp
  · simp only [dlListDel_tcb, countDec_tcb, threadExit_tcb_self] at hz
    refine .destroyed (by omega) ?_ ?_ ?_ ?_
    · exact destroyTcb_repooled rfl h.exclusive.removed fun _ => h.exclusive.not_mem_remove
    · rw [destroyTcb_tcb]
      exact initTcbDestroy_tcb_self.1
    · rw [destroyTcb_tcb, initTcbDestroy_tcb_self.2]
      simp [hz]
    · rw [destroyTcb_log]
      change (s.log ++ [.exit t]) ++ [Life.destroy t _ _ _ (s.isRunning t)] = _
      simp [hz, stackOf]

namespace Repooled

variable {l m : Place → List ℕ}

theorem mem (h : Repooled t l m) (hu : u ∈ m p) :
    u = t ∧ ¬p.Scheduled ∨ ∃ p', u ∈ l p' ∧ (p' = p ∨ ¬p.Scheduled ∧ ¬p'.Scheduled) := by
  by_cases hp : p.Scheduled
  · exact .inr ⟨p, h.scheduled hp ▸ hu, .inl rfl⟩
  · rcases h.pool.mp ⟨p, hp, hu⟩ with rfl | ⟨p', hp', hu'⟩
    · exact .inl ⟨rfl, hp⟩
    · exact .inr ⟨p', hu', .inr ⟨hp, hp'⟩⟩

theorem listed (h : Repooled t l m) (hu : u ∈ l p) : ∃ p', u ∈ m p' := by
  by_cases hp : p.Scheduled
  · exact ⟨p, (h.scheduled hp).symm ▸ hu⟩
  · obtain ⟨p', _, hu'⟩ := h.pool.mpr (.inr ⟨p, hp, hu⟩)
    exact ⟨p', hu'⟩

theorem self (h : Repooled t l m) : ∃ p, t ∈ m p := by
  obtain ⟨p, _, ht⟩ := h.pool.mpr (.inl rfl)
  exact ⟨p, ht⟩

end Repooled

namespace Placed

variable {r' : ℕ → ℕ}

theorem repool (h : Placed r s) (hl : Repooled t (Shelf.remove s.tcbList t) s'.tcbList) (ht : IsThread t)
    (htcb : ∀ {u}, u ≠ t → s'.tcb u = s.tcb u) (hr : ∀ {u}, u ≠ t → r' u = r u)
    (h0 : (s'.tcb t).state = .notalloc ∧ (s'.tcb t).refc = 0 ∧ r' t = 0) : Placed r' s' where
  exclusive := hl.exclusive
  thread {p u} hu := by
    rcases hl.mem hu with ⟨rfl, _⟩ | ⟨p', hu', _⟩
    · exact ht
    · exact h.thread (h.exclusive.mem_remove.mp hu').2
  at_place {p u} hu := by
    rcases hl.mem hu with ⟨rfl, hp⟩ | ⟨p', hu', hp⟩
    · exact (TCB.at_iff_free hp).mpr h0
    · obtain ⟨hne, hu'⟩ := h.exclusive.mem_remove.mp hu'
      rw [htcb hne, hr hne]
      rcases hp with rfl | ⟨hp, hp'⟩
      · exact h.at_place hu'
      · exact (TCB.at_iff_free hp).mpr ((TCB.at_iff_free hp').mp (h.at_place hu'))
  unlisted {u} hu hn := by
    have hne : u ≠ t := by
      rintro rfl
      obtain ⟨p, hp⟩ := hl.self
      exact hn p hp
    rw [htcb hne, hr hne]
    refine h.unlisted hu fun p hp => ?_
    obtain ⟨p', hp'⟩ := hl.listed (h.exclusive.mem_remove.mpr ⟨hne, hp⟩)
    exact hn p' hp'
  idle {i} hi := by
    have hne : i ≠ t := by
      rintro rfl
      exact absurd ht.1 (Nat.not_le_of_lt hi)
    rw [htcb hne, hr hne]
    exact h.idle hi

theorem unlist (h : Placed r s) (hl : s'.tcbList = Shelf.remove s.tcbList t) (ht : IsThread t)
    (htcb : ∀ {u}, u ≠ t → s'.tcb u = s.tcb u) (hr : ∀ {u}, u ≠ t → r' u = r u)
    (h0 : (s'.tcb t).state = .exited ∧ (s'.tcb t).refc = r' t ∧ 0 < r' t) : Placed r' s' where
  exclusive := hl ▸ h.exclusive.removed
  thread {p u} hu := h.thread (h.exclusive.mem_remove.mp (hl ▸ hu)).2
  at_place {p u} hu := by
    obtain ⟨hne, hu⟩ := h.exclusive.mem_remove.mp (hl ▸ hu)
    rw [htcb hne, hr hne]
    exact h.at_place hu
  unlisted {u} hu hn := by
    by_cases hne : u = t
    · exact hne ▸ h0
    · rw [htcb hne, hr hne]
      exact h.unlisted hu fun p hp => hn p (hl ▸ h.exclusive.mem_remove.mpr ⟨hne, hp⟩)
  idle {i} hi := by
    have hne : i ≠ t := by
      rintro rfl
      exact absurd ht.1 (Nat.not_le_of_lt hi)
    rw [htcb hne, hr hne]
    exact h.idle hi

theorem retire (h : Placed r s) (ht : t ∈ s.tcbList q) (hq : q.Scheduled)
    (he : s.retire env c t p = some s') : Placed r s' := by
  cases h.retired ht hq he with
  | waits hr hl hs hn => exact h.unlist hl (h.thread ht) (retire_tcb_of_ne he) (fun _ => rfl) ⟨hs, hn, hr⟩
  | destroyed hr hl hs hn => exact h.repool hl (h.thread ht) (retire_tcb_of_ne he) (fun _ => rfl) ⟨hs, hn, hr⟩

end Placed

theorem Retired.scheduled (h : Retired r t s s') (hq : q.Scheduled) :
    s'.tcbList q = Shelf.remove s.tcbList t q := by
  cases h with
  | waits _ hl => rw [hl]
  | destroyed _ hl => exact hl.scheduled hq

theorem Counted.retire (hc : Counted s) (h : Placed r s) (ht : t ∈ s.tcbList p)
    (he : s.retire env c t p = some s') : Counted s' := by
  have hd : Counted (((s.threadExit t).countDec p).dlListDel t) :=
    Counted.del (s := s.threadExit t) hc h.exclusive ht h.length_lt
  rcases putTcb_cases he with ⟨_, rfl⟩ | ⟨_, _, rfl⟩
  · exact hd.of_eq rfl rfl
  · refine Counted.destroy (hd.of_eq rfl rfl) h.exclusive.removed (fun _ => h.exclusive.not_mem_remove) ?_
      (h.thread ht).2
    intro q u hu
    exact (h.thread (h.exclusive.mem_remove.mp hu).2).2

end Sched

end Azalea
