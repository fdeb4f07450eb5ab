import Azalea.Foundation.Run
import Azalea.Sched.Placement

namespace Azalea

def Place.OfCore (c : ℕ) : Place → Prop
  | .migrating => True
  | .runnable d | .blocked d => d = c
  | .localTcb _ | .globalTcb => False

theorem Place.OfCore.scheduled {c : ℕ} {p : Place} (h : p.OfCore c) : p.Scheduled := by
  cases p with
  | migrating => trivial
  | runnable d => trivial
  | blocked d => trivial
  | localTcb d => exact h
  | globalTcb => exact h

theorem TCB.Pinned.allowed {a : TCB} {c : ℕ} (h : a.Pinned) (hc : a.runningCore = c) (hlt : c < maxProcessorCount) :
    a.coreIsAllowed c = true := by
  rcases h with ⟨hn, _⟩ | ⟨k, hk, hrun, hmask⟩
  · simp only [noCore, maxProcessorCount] at hn hlt
    omega
  · obtain rfl : k = c := hrun.symm.trans hc
    simp [coreIsAllowed, hk, hmask]

theorem TCB.Pinned.core_of_allowed {a : TCB} {c : ℕ} (h : a.Pinned) (hc : c < 256)
    (ha : a.coreIsAllowed c = true) : a.runningCore = c ∨ a.runningCore = noCore := by
  rcases h with ⟨hn, _⟩ | ⟨k, hk, hrun, hmask⟩
  · exact .inr hn
  · left
    rw [hrun]
    by_contra hne
    simp [coreIsAllowed, hc, hmask] at ha
    omega

theorem TCB.kept_of {a : TCB} {st : ThreadState} {i : Intention} {x y : ℤ}
    (hst : a.Live → st ≠ .notalloc ∧ st ≠ .exited) :
    Kept a { a with state := st, intention := i, remainingTimeSlice := x, remainingTimeQuantum := y } :=
  ⟨hst, rfl, rfl, rfl, rfl, rfl, rfl, rfl⟩

theorem TCB.soft_of {a : TCB} {st : ThreadState} {i : Intention} {x y : ℤ}
    (hst : a.Live → st ≠ .notalloc ∧ st ≠ .exited) (hb : i.blocked = true → a.intention.blocked = true)
    (hx : i.exited = true → a.intention.exited = true) :
    Soft a { a with state := st, intention := i, remainingTimeSlice := x, remainingTimeQuantum := y } :=
  ⟨kept_of hst, hb, hx⟩

theorem TCB.Soft.trans {a b d : TCB} (h : Soft a b) (h' : Soft b d) : Soft a d where
  live hl := h'.live (h.live hl)
  refc := h'.refc.trans h.refc
  slice := h'.slice.trans h.slice
  quantum := h'.quantum.trans h.quantum
  core := h'.core.trans h.core
  mask := h'.mask.trans h.mask
  schedList := h'.schedList.trans h.schedList
  stackBase := h'.stackBase.trans h.stackBase
  blocked hb := h.blocked (h'.blocked hb)
  exited hx := h.exited (h'.exited hx)

theorem TCB.soft_core {a : TCB} {c : ℕ} (h : a.runningCore = c) : Soft a { a with runningCore := c } :=
  ⟨⟨id, rfl, rfl, rfl, h.symm, rfl, rfl, rfl⟩, id, id⟩

namespace Sched

inductive Seat (strict : Bool) (s : Sched) (c : ℕ) : ℕ → Prop
  | idle : Seat strict s c c
  | runnable {t : ℕ} (ht : t ∈ s.tcbList (.runnable c)) : Seat strict s c t
  | blocked {t : ℕ} (ht : t ∈ s.tcbList (.blocked c)) (hi : strict = true →
      (s.tcb t).intention.blocked = false ∧ (s.tcb t).intention.exited = false) : Seat strict s c t
  | migrating {t : ℕ} (hs : strict = false) (ht : t ∈ s.tcbList .migrating)
      (hc : (s.tcb t).runningCore = c) : Seat strict s c t

structure Inv (strict : Bool) (r : ℕ → ℕ) (s : Sched) : Prop where
  placed : Placed r s
  seated : ∀ {c}, c < maxProcessorCount → Seat strict s c (s.runningThread c)
  counted : strict = true → Counted s

inductive Move (strict : Bool) (env : Env) (c : ℕ) (s : Sched) : ℕ → Sched → Prop
  | soft {t : ℕ} {f : TCB → TCB} (ht : t = c ∨ ∃ p, p.OfCore c ∧ t ∈ s.tcbList p)
      (hf : TCB.Soft (s.tcb t) (f (s.tcb t))) : Move strict env c s t (s.modify t f)
  | block {t : ℕ} {p : Place} (ht : t ∈ s.tcbList p) (hp : p.OfCore c) (hc : (s.tcb t).runningCore = c)
      (hs : strict = true → p = .runnable c ∧ (s.runningThread c = t → (s.tcb t).intention.exited = false)) :
      Move strict env c s t (s.block c t)
  | unblock {t : ℕ} (ht : t ∈ s.tcbList (.blocked c)) : Move strict env c s t (s.unblock c t)
  | adopt {t : ℕ} (ht : t ∈ s.tcbList .migrating) (ha : (s.tcb t).coreIsAllowed c = true)
      (hs : strict = false → (s.tcb t).runningCore = c ∨ (s.tcb t).runningCore = noCore) :
      Move strict env c s t (s.adopt c c t)
  | retire {t : ℕ} {p q : Place} {s' : Sched} (ht : t ∈ s.tcbList q) (hq : q.OfCore c)
      (hc : (s.tcb t).runningCore = c) (hn : s.runningThread c ≠ t) (hs : strict = true → q = p)
      (he : s.retire env c t p = some s') : Move strict env c s t s'

def Moves (strict : Bool) (env : Env) (c : ℕ) (S : Set ℕ) : Sched → Sched → Prop :=
  Relation.ReflTransGen fun s s' => ∃ t ∈ S, Move strict env c s t s'

structure Untouched (u : ℕ) (s s' : Sched) : Prop where
  tcb : s'.tcb u = s.tcb u
  mem : ∀ {p}, p.Scheduled → (u ∈ s'.tcbList p ↔ u ∈ s.tcbList p)

variable {strict : Bool} {s s' : Sched} {env : Env} {r : ℕ → ℕ} {c d t u : ℕ} {p p' q : Place} {f : TCB → TCB}

theorem Seat.congr (h : Seat strict s d u) (hl : ∀ {p}, p.Scheduled → u ∈ s.tcbList p → u ∈ s'.tcbList p)
    (hi : (s'.tcb u).intention = (s.tcb u).intention) (hc : (s'.tcb u).runningCore = (s.tcb u).runningCore) :
    Seat strict s' d u := by
  cases h with
  | idle => exact .idle
  | runnable hm => exact .runnable (hl trivial hm)
  | blocked hm hb => exact .blocked (hl trivial hm) (hi.symm ▸ hb)
  | migrating hs hm hcore => exact .migrating hs (hl trivial hm) (hc.trans hcore)

theorem Seat.of_same (h : Seat strict s d u) (hl : ∀ {p}, p.Scheduled → u ∈ s.tcbList p → u ∈ s'.tcbList p)
    (ht : s'.tcb u = s.tcb u) : Seat strict s' d u := h.congr hl (by rw [ht]) (by rw [ht])

theorem Seat.switch (h : Seat strict s d u) : Seat strict (s.setRunning c t) d u :=
  h.of_same (fun _ hm => hm) rfl

theorem Seat.soft (h : Seat strict s d u) (hf : TCB.Soft (s.tcb t) (f (s.tcb t))) :
    Seat strict (s.modify t f) d u := by
  by_cases hu : u = t
  · subst hu
    cases h with
    | idle => exact .idle
    | runnable hm => exact .runnable hm
    | blocked hm hi =>
      refine .blocked hm fun hs => ?_
      rw [modify_tcb_self]
      exact ⟨hf.blocked_false (hi hs).1, hf.exited_false (hi hs).2⟩
    | migrating hs hm hc =>
      refine .migrating hs hm ?_
      rw [modify_tcb_self, hf.core, hc]
  · exact h.of_same (fun _ hm => hm) (modify_tcb_of_ne hu)

theorem Placed.seat_core (h : Placed r s) (hs : Seat strict s c u) (hc : c < maxProcessorCount) :
    (s.tcb u).runningCore = c := by
  cases hs with
  | idle => exact (h.idle hc).core
  | runnable hm => exact (h.at_place hm).2.1
  | blocked hm => exact (h.at_place hm).2.1
  | migrating _ _ hcore => exact hcore

namespace Inv

theorem current_core (h : Inv strict r s) (hc : c < maxProcessorCount) :
    (s.tcb (s.runningThread c)).runningCore = c := h.placed.seat_core (h.seated hc) hc

theorem not_running (h : Inv strict r s) (ht : t ∈ s.tcbList p) (hp : p.OfCore c)
    (hm : strict = false → p = .migrating → (s.tcb t).runningCore = c ∨ (s.tcb t).runningCore = noCore)
    (hd : d < maxProcessorCount) (hdc : d ≠ c) : s.runningThread d ≠ t := by
  intro he
  have hseat := h.seated hd
  rw [he] at hseat
  cases hseat with
  | idle => exact h.placed.not_idle ht hd rfl
  | runnable hmem =>
    obtain rfl := h.placed.exclusive.once ht hmem
    exact hdc hp
  | blocked hmem =>
    obtain rfl := h.placed.exclusive.once ht hmem
    exact hdc hp
  | migrating hs hmem hcore =>
    rcases hm hs (h.placed.exclusive.once ht hmem) with hc | hc
    · exact hdc (hcore.symm.trans hc)
    · rw [hcore] at hc
      simp only [noCore, maxProcessorCount] at hc hd
      omega

end Inv

theorem Inv.reseat (h : Inv strict r s) (hrun : s'.runningThread = s.runningThread)
    (htcb : ∀ {u}, u ≠ t → s'.tcb u = s.tcb u)
    (hl : ∀ {p u}, p.Scheduled → u ≠ t → u ∈ s.tcbList p → u ∈ s'.tcbList p)
    (hother : ∀ {d}, d < maxProcessorCount → d ≠ c → s.runningThread d ≠ t)
    (hself : s.runningThread c = t → Seat strict s' c t) (hd : d < maxProcessorCount) :
    Seat strict s' d (s'.runningThread d) := by
  rw [hrun]
  by_cases hdt : s.runningThread d = t
  · by_cases hdc : d = c
    · subst hdc
      rw [hdt]
      exact hself hdt
    · exact absurd hdt (hother hd hdc)
  · exact (h.seated hd).of_same (fun hp hm => hl hp hdt hm) (htcb hdt)

theorem Placed.of_core (h : Placed r s) (ht : t ∈ s.tcbList p) (hp : p.OfCore c)
    (hc : (s.tcb t).runningCore = c) (hlt : c < maxProcessorCount) : (s.tcb t).At (r t) (.runnable c) := by
  have ha := h.at_place ht
  cases p with
  | migrating => exact ⟨ha.1, hc, ha.2.allowed hc hlt⟩
  | runnable d => exact hp ▸ ha
  | blocked d => exact hp ▸ ha
  | localTcb d => exact hp.elim
  | globalTcb => exact hp.elim

theorem mem_transfer_of_ne (h : Placed r s) (hu : u ≠ t) :
    u ∈ ((s.modify t f).transfer t p q).tcbList p' ↔ u ∈ s.tcbList p' := h.exclusive.mem_move_of_ne hu

theorem mem_transfer_self (h : Placed r s) : t ∈ ((s.modify t f).transfer t p q).tcbList q :=
  h.exclusive.mem_move_self.mpr rfl

namespace Inv

theorem soft (h : Inv strict r s) (hc : c < maxProcessorCount) (ht : t = c ∨ ∃ p, p.OfCore c ∧ t ∈ s.tcbList p)
    (hf : TCB.Soft (s.tcb t) (f (s.tcb t))) : Inv strict r (s.modify t f) where
  placed := by
    refine h.placed.keep hf.toKept (fun hlt => ?_) ?_
    · exact ⟨hf.blocked_false (h.placed.idle hlt).blocked, hf.exited_false (h.placed.idle hlt).exited⟩
    · rcases ht with rfl | ⟨p, hp, hm⟩
      · exact .inr (.inl hc)
      · exact .inr (.inr ⟨p, hp.scheduled, hm⟩)
  seated hd := (h.seated hd).soft hf
  counted hs := (h.counted hs).of_eq rfl rfl

theorem block (h : Inv strict r s) (hc : c < maxProcessorCount) (ht : t ∈ s.tcbList p) (hp : p.OfCore c)
    (hcore : (s.tcb t).runningCore = c)
    (hs : strict = true → p = .runnable c ∧ (s.runningThread c = t → (s.tcb t).intention.exited = false)) :
    Inv strict r (s.block c t) where
  placed := by
    refine h.placed.relist ht ?_
    exact (h.placed.of_core ht hp hcore hc).kept trivial (TCB.kept_of fun _ => by simp)
  seated hd := by
    refine h.reseat (t := t) (c := c) rfl (fun hu => block_tcb_of_ne hu)
      (fun _ hu hm => (mem_transfer_of_ne h.placed hu).mpr hm)
      (h.not_running ht hp fun _ _ => .inl hcore) (fun hrun => ?_) hd
    refine .blocked (mem_transfer_self h.placed) fun hst => ?_
    rw [block_tcb_self]
    exact ⟨rfl, (hs hst).2 hrun⟩
  counted hst := by
    obtain ⟨rfl, _⟩ := hs hst
    exact (h.counted hst).relist h.placed ht (by simp)

theorem unblock (h : Inv strict r s) (ht : t ∈ s.tcbList (.blocked c)) : Inv strict r (s.unblock c t) where
  placed := by
    refine h.placed.relist ht ?_
    exact (h.placed.at_place ht).kept (p := .runnable c) trivial
      (TCB.kept_of fun _ => by simp)
  seated hd := by
    refine h.reseat (t := t) (c := c) rfl (fun hu => unblock_tcb_of_ne hu)
      (fun _ hu hm => (mem_transfer_of_ne h.placed hu).mpr hm)
      (h.not_running ht rfl fun _ hp => absurd hp (by simp)) (fun _ => ?_) hd
    exact .runnable (mem_transfer_self h.placed)
  counted hst := (h.counted hst).relist h.placed ht (by simp)

theorem adopt (h : Inv strict r s) (ht : t ∈ s.tcbList .migrating) (ha : (s.tcb t).coreIsAllowed c = true)
    (hs : strict = false → (s.tcb t).runningCore = c ∨ (s.tcb t).runningCore = noCore) :
    Inv strict r (s.adopt c c t) where
  placed := by
    have hl := (h.placed.at_place ht).1
    exact h.placed.relist (f := fun a => { a with runningCore := c }) (p := .migrating) ht
      ⟨⟨hl.live, hl.refc, hl.slice, hl.quantum⟩, rfl, ha⟩
  seated hd := by
    refine h.reseat (t := t) (c := c) rfl (fun hu => adopt_tcb_of_ne hu)
      (fun _ hu hm => (h.placed.exclusive.mem_move_of_ne hu).mpr hm)
      (h.not_running ht trivial fun hst _ => hs hst) (fun _ => ?_) hd
    exact .runnable (h.placed.exclusive.mem_move_self.mpr rfl)
  counted hst := (h.counted hst).relist (f := fun a => { a with runningCore := c }) h.placed ht (by simp)

theorem retire (h : Inv strict r s) (ht : t ∈ s.tcbList q) (hq : q.OfCore c)
    (hc : (s.tcb t).runningCore = c) (hn : s.runningThread c ≠ t) (hs : strict = true → q = p)
    (he : s.retire env c t p = some s') : Inv strict r s' where
  placed := h.placed.retire ht hq.scheduled he
  seated hd := by
    refine h.reseat (t := t) (c := c) (retire_runningThread he) (retire_tcb_of_ne he) (fun hp hu hm => ?_)
      (h.not_running ht hq fun _ _ => .inl hc) (fun hrun => absurd hrun hn) hd
    rw [(h.placed.retired ht hq.scheduled he).scheduled hp]
    exact h.placed.exclusive.mem_remove.mpr ⟨hu, hm⟩
  counted hst := by
    obtain rfl := hs hst
    exact (h.counted hst).retire h.placed ht he

theorem switch (h : Inv strict r s) (ht : Seat strict s c t) :
    Inv strict r (s.setRunning c t) where
  placed := ⟨h.placed.exclusive, h.placed.thread, h.placed.at_place, h.placed.unlisted, h.placed.idle⟩
  seated {d} hd := by
    by_cases hdc : d = c
    · subst hdc
      simpa using ht.switch
    · simpa [hdc] using (h.seated hd).switch
  counted hst := (h.counted hst).of_eq rfl rfl

theorem move (hc : c < maxProcessorCount) (h : Inv strict r s) (hm : Move strict env c s t s') :
    Inv strict r s' := by
  cases hm with
  | soft ht hf => exact h.soft hc ht hf
  | block ht hp hcore hs => exact h.block hc ht hp hcore hs
  | unblock ht => exact h.unblock ht
  | adopt ht ha hs => exact h.adopt ht ha hs
  | retire ht hq hcore hn hs he => exact h.retire ht hq hcore hn hs he

end Inv

def OnCore (d : ℕ) (s : Sched) (u : ℕ) : Prop :=
  u = d ∨ u ∈ s.tcbList (.runnable d) ∨ u ∈ s.tcbList (.blocked d)

namespace Move

theorem own (hm : Move strict env c s t s') : t = c ∨ ∃ p, p.OfCore c ∧ t ∈ s.tcbList p := by
  cases hm with
  | soft ht => exact ht
  | block ht hp => exact .inr ⟨_, hp, ht⟩
  | unblock ht => exact .inr ⟨.blocked c, rfl, ht⟩
  | adopt ht => exact .inr ⟨.migrating, trivial, ht⟩
  | retire ht hq => exact .inr ⟨_, hq, ht⟩

theorem ne_of_onCore (h : Placed r s) (hc : c < maxProcessorCount) (hd : d < maxProcessorCount) (hdc : d ≠ c)
    (hm : Move strict env c s t s') (hu : OnCore d s u) : u ≠ t := by
  rintro rfl
  rcases hm.own with rfl | ⟨p, hp, hup⟩
  · rcases hu with rfl | hu | hu
    · exact hdc rfl
    · exact h.not_idle hu hc rfl
    · exact h.not_idle hu hc rfl
  · rcases hu with rfl | hu | hu
    · exact h.not_idle hup hd rfl
    · obtain rfl := h.exclusive.once hup hu
      exact hdc hp
    · obtain rfl := h.exclusive.once hup hu
      exact hdc hp

theorem runningThread (hm : Move strict env c s t s') : s'.runningThread = s.runningThread := by
  cases hm with
  | soft => rfl
  | block => rfl
  | unblock => rfl
  | adopt => rfl
  | retire ht hq hcore hn hs he => exact retire_runningThread he

theorem untouched (h : Placed r s) (hm : Move strict env c s t s') (hu : u ≠ t) : Untouched u s s' := by
  cases hm with
  | soft => exact ⟨modify_tcb_of_ne hu, fun _ => Iff.rfl⟩
  | block => exact ⟨block_tcb_of_ne hu, fun _ => h.exclusive.mem_move_of_ne hu⟩
  | unblock => exact ⟨unblock_tcb_of_ne hu, fun _ => h.exclusive.mem_move_of_ne hu⟩
  | adopt => exact ⟨adopt_tcb_of_ne hu, fun _ => h.exclusive.mem_move_of_ne hu⟩
  | retire ht hq hcore hn hs he =>
    refine ⟨retire_tcb_of_ne he hu, fun hp => ?_⟩
    rw [(h.retired ht hq.scheduled he).scheduled hp, h.exclusive.mem_remove]
    exact and_iff_right hu

end Move

theorem Untouched.refl : Untouched u s s := ⟨rfl, fun _ => Iff.rfl⟩

theorem Untouched.trans {s₁ s₂ s₃ : Sched} (h : Untouched u s₁ s₂) (h' : Untouched u s₂ s₃) : Untouched u s₁ s₃ :=
  ⟨h'.tcb.trans h.tcb, fun hp => (h'.mem hp).trans (h.mem hp)⟩

theorem Untouched.runnable (h : Untouched u s s') :
    u ∈ s'.tcbList (.runnable c) ↔ u ∈ s.tcbList (.runnable c) := h.mem trivial

theorem Untouched.blocked (h : Untouched u s s') :
    u ∈ s'.tcbList (.blocked c) ↔ u ∈ s.tcbList (.blocked c) := h.mem trivial

theorem Untouched.migrating (h : Untouched u s s') :
    u ∈ s'.tcbList .migrating ↔ u ∈ s.tcbList .migrating := h.mem trivial

namespace Moves

variable {S T : Set ℕ} {s₁ s₂ s₃ : Sched}

theorem refl : Moves strict env c S s s := Relation.ReflTransGen.refl

theorem single (ht : t ∈ S) (hm : Move strict env c s t s') : Moves strict env c S s s' :=
  Relation.ReflTransGen.single ⟨t, ht, hm⟩

theorem head (ht : t ∈ S) (hm : Move strict env c s₁ t s₂) (h : Moves strict env c S s₂ s₃) :
    Moves strict env c S s₁ s₃ := Relation.ReflTransGen.head ⟨t, ht, hm⟩ h

theorem trans (h : Moves strict env c S s₁ s₂) (h' : Moves strict env c S s₂ s₃) : Moves strict env c S s₁ s₃ :=
  Relation.ReflTransGen.trans h h'

theorem mono (hST : S ⊆ T) (h : Moves strict env c S s s') : Moves strict env c T s s' :=
  Relation.ReflTransGen.mono (fun _ _ ⟨t, ht, hm⟩ => ⟨t, hST ht, hm⟩) _ _ h

theorem inv (h : Moves strict env c S s s') (hc : c < maxProcessorCount) (hi : Inv strict r s) : Inv strict r s' :=
  Run.invariant (fun hi ⟨_, _, hm⟩ => hi.move hc hm) hi h

theorem runningThread (h : Moves strict env c S s s') : s'.runningThread = s.runningThread := by
  induction h with
  | refl => rfl
  | tail _ hm ih =>
    obtain ⟨t, _, hm⟩ := hm
    exact hm.runningThread.trans ih

theorem untouched (h : Moves strict env c S s s') (hc : c < maxProcessorCount) (hi : Inv strict r s) (hu : u ∉ S) :
    Untouched u s s' :=
  Run.preserved (fun _ => .refl) .trans
    (fun hi ⟨_, ht, hm⟩ => ⟨hi.move hc hm, hm.untouched hi.placed fun he => hu (he ▸ ht)⟩) hi h

theorem other (h : Moves strict env c S s s') (hc : c < maxProcessorCount) (hi : Inv strict r s)
    (hd : d < maxProcessorCount) (hdc : d ≠ c) (hu : OnCore d s u) : Untouched u s s' := by
  induction h with
  | refl => exact .refl
  | @tail s₁ s₂ h₁ hm ih =>
    obtain ⟨t, _, hm⟩ := hm
    have hi₁ := Moves.inv h₁ hc hi
    have hu₁ : OnCore d s₁ u := hu.imp_right (Or.imp ih.runnable.mpr ih.blocked.mpr)
    exact ih.trans (hm.untouched hi₁.placed (hm.ne_of_onCore hi₁.placed hc hd hdc hu₁))

end Moves

end Sched

end Azalea
