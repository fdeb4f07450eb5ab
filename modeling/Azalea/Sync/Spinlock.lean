import Azalea.Foundation.Run
import Azalea.Foundation.Ticket

namespace Azalea
open Ticket

structure SpinlockIrqsave where
  queue : BitVec 64
  dequeue : BitVec 64
  cid : BitVec 32
  cnt : BitVec 32
  flags : Bool
deriving DecidableEq, Repr

namespace SpinlockIrqsave

def noCore : BitVec 32 := -1

def spinlockIrqsaveInit : SpinlockIrqsave := ⟨0, 1, noCore, 0, false⟩

inductive Pc where
  | rest
  | testing (flags : Bool)
  | nesting
  | queueing (flags : Bool)
  | spinning (ticket : BitVec 64) (flags : Bool)
  | claiming (flags : Bool)
  | flagging (flags : Bool)
  | counting
  | checking
  | saving
  | clearing (flags : Bool)
  | unflagging (flags : Bool)
  | passing (flags : Bool)
  | restoring (flags : Bool)
deriving DecidableEq, Repr

-- depth and before are not in the code: the calls still to be unlocked, and the interrupt flag before the outermost
structure Core where
  pc : Pc
  enabled : Bool
  depth : ℕ
  before : Bool
deriving DecidableEq, Repr

def irqNestedEnable (wasEnabled enabled : Bool) : Bool := if wasEnabled then true else enabled

inductive Mark where
  | silent
  | queued
  | entered
  | left

inductive Micro (deep : ℕ → Prop) (id : BitVec 32) (l : SpinlockIrqsave) (k : Core) :
    Mark → SpinlockIrqsave → Core → Prop
  | setFlag (b : Bool) : k.pc = .rest → k.depth = 0 → Micro deep id l k .silent l { k with enabled := b }
  | disable : k.pc = .rest → deep k.depth →
      Micro deep id l k .silent l { k with
        pc := .testing k.enabled
        enabled := false
        before := if k.depth = 0 then k.enabled else k.before }
  | own (f : Bool) : k.pc = .testing f → l.cid = id → Micro deep id l k .silent l { k with pc := .nesting }
  | nest : k.pc = .nesting →
      Micro deep id l k .silent { l with cnt := l.cnt + 1 } { k with pc := .rest, depth := k.depth + 1 }
  | foreign (f : Bool) : k.pc = .testing f → l.cid ≠ id →
      Micro deep id l k .silent l { k with pc := .queueing f }
  | ticket (f : Bool) : k.pc = .queueing f →
      Micro deep id l k .queued { l with queue := l.queue + 1 } { k with pc := .spinning (l.queue + 1) f }
  | spin (t : BitVec 64) (f : Bool) : k.pc = .spinning t f → l.dequeue ≠ t → Micro deep id l k .silent l k
  | enter (t : BitVec 64) (f : Bool) : k.pc = .spinning t f → l.dequeue = t →
      Micro deep id l k .entered l { k with pc := .claiming f }
  | claim (f : Bool) : k.pc = .claiming f →
      Micro deep id l k .silent { l with cid := id } { k with pc := .flagging f }
  | setFlags (f : Bool) : k.pc = .flagging f →
      Micro deep id l k .silent { l with flags := f } { k with pc := .counting }
  | setCnt : k.pc = .counting →
      Micro deep id l k .silent { l with cnt := 1 } { k with pc := .rest, depth := k.depth + 1 }
  | decrement : k.pc = .rest → 0 < k.depth →
      Micro deep id l k .silent { l with cnt := l.cnt - 1 } { k with pc := .checking, depth := k.depth - 1 }
  | inner : k.pc = .checking → l.cnt ≠ 0 → Micro deep id l k .silent l { k with pc := .rest }
  | outer : k.pc = .checking → l.cnt = 0 → Micro deep id l k .silent l { k with pc := .saving }
  | save : k.pc = .saving → Micro deep id l k .silent l { k with pc := .clearing l.flags }
  | clearCid (f : Bool) : k.pc = .clearing f →
      Micro deep id l k .silent { l with cid := noCore } { k with pc := .unflagging f }
  | clearFlags (f : Bool) : k.pc = .unflagging f →
      Micro deep id l k .silent { l with flags := false } { k with pc := .passing f }
  | pass (f : Bool) : k.pc = .passing f →
      Micro deep id l k .left { l with dequeue := l.dequeue + 1 } { k with pc := .restoring f }
  | restore (f : Bool) : k.pc = .restoring f →
      Micro deep id l k .silent l { k with pc := .rest, enabled := irqNestedEnable f k.enabled }

namespace Core

def Inside (k : Core) : Prop :=
  match k.pc with
  | .rest | .testing _ => 0 < k.depth
  | .queueing _ | .spinning _ _ | .restoring _ => False
  | _ => True

def ticket (dequeue : BitVec 64) (k : Core) : Option (BitVec 64) :=
  match k.pc with
  | .rest | .testing _ => if 0 < k.depth then some dequeue else none
  | .queueing _ | .restoring _ => none
  | .spinning t _ => some t
  | _ => some dequeue

def Local (k : Core) : Prop :=
  match k.pc with
  | .rest => (0 < k.depth → k.enabled = false) ∧ k.depth ≤ 2 ^ 32
  | .testing f => k.enabled = false ∧ (k.depth = 0 → f = k.before) ∧ k.depth < 2 ^ 32
  | .nesting => k.enabled = false ∧ 0 < k.depth ∧ k.depth < 2 ^ 32
  | .queueing f | .spinning _ f | .claiming f | .flagging f | .clearing f | .unflagging f | .passing f
  | .restoring f => k.enabled = false ∧ k.depth = 0 ∧ f = k.before
  | .counting | .saving => k.enabled = false ∧ k.depth = 0
  | .checking => k.enabled = false ∧ k.depth < 2 ^ 32

def Wrote (l : SpinlockIrqsave) (id : BitVec 32) (k : Core) : Prop :=
  match k.pc with
  | .rest | .testing _ | .nesting | .checking =>
    l.cid = id ∧ l.flags = k.before ∧ l.cnt = BitVec.ofNat 32 k.depth
  | .counting | .saving => l.cid = id ∧ l.flags = k.before
  | .flagging _ | .clearing _ => l.cid = id
  | .claiming _ | .unflagging _ | .passing _ => l.cid = noCore
  | .queueing _ | .spinning _ _ | .restoring _ => True

variable {l : SpinlockIrqsave} {id : BitVec 32} {k : Core}

theorem Wrote.cid (h : k.Wrote l id) (hin : k.Inside) : l.cid = id ∨ l.cid = noCore := by
  unfold Wrote at h
  unfold Inside at hin
  cases hpc : k.pc with
  | rest | testing | nesting | checking | counting | saving => exact .inl (by simp only [hpc] at h; exact h.1)
  | flagging | clearing => exact .inl (by simpa only [hpc] using h)
  | claiming | unflagging | passing => exact .inr (by simpa only [hpc] using h)
  | queueing | spinning | restoring => simp only [hpc] at hin

theorem ticket_inside (hin : k.Inside) (d : BitVec 64) : k.ticket d = some d := by
  unfold Inside at hin
  unfold ticket
  cases hpc : k.pc with
  | rest | testing => simp only [hpc] at hin ⊢; exact if_pos hin
  | nesting | checking | counting | saving | flagging | clearing | claiming | unflagging | passing => rfl
  | queueing | spinning | restoring => simp only [hpc] at hin

theorem ticket_outside (hout : ¬ k.Inside) (d d' : BitVec 64) : k.ticket d = k.ticket d' := by
  unfold Inside at hout
  unfold ticket
  cases hpc : k.pc with
  | rest | testing => simp only [hpc] at hout ⊢; rw [if_neg hout, if_neg hout]
  | queueing | spinning | restoring => rfl
  | nesting | checking | counting | saving | flagging | clearing | claiming | unflagging | passing =>
    simp only [hpc, not_true] at hout

end Core

def Shallow (depth : ℕ) : Prop := depth < 2 ^ 32

structure Kept (id : BitVec 32) (l : SpinlockIrqsave) (k : Core) (l' : SpinlockIrqsave) (k' : Core) : Prop where
  queue : l'.queue = l.queue
  dequeue : l'.dequeue = l.dequeue
  ticket : ∀ d, k'.ticket d = k.ticket d
  inside : k'.Inside ↔ k.Inside
  own : k'.Local
  wrote : k'.Inside → k'.Wrote l' id
  outside : ¬ k.Inside → l' = l

theorem Micro.kept {id : BitVec 32} {l l' : SpinlockIrqsave} {k k' : Core}
    (h : Micro Shallow id l k .silent l' k') (hlocal : k.Local) (hin : k.Inside → k.Wrote l id)
    (hout : ¬ k.Inside → l.cid ≠ id) : Kept id l k l' k' := by
  obtain ⟨pc, enabled, depth, before⟩ := k
  cases h with
  | setFlag b hpc hd =>
    obtain rfl : pc = .rest := hpc
    obtain rfl : depth = 0 := hd
    exact ⟨rfl, rfl, fun _ => rfl, Iff.rfl, ⟨fun h => absurd h (lt_irrefl 0), Nat.zero_le _⟩,
      fun h => absurd h (lt_irrefl 0), fun _ => rfl⟩
  | disable hpc hd =>
    obtain rfl : pc = .rest := hpc
    refine ⟨rfl, rfl, fun _ => rfl, Iff.rfl, ⟨rfl, fun h0 => (if_pos h0).symm, hd⟩, fun h => ?_, fun _ => rfl⟩
    obtain ⟨hcid, hflags, hcnt⟩ := hin h
    exact ⟨hcid, hflags.trans (if_neg (Nat.ne_of_gt h)).symm, hcnt⟩
  | own f hpc hcid =>
    obtain rfl : pc = .testing f := hpc
    obtain ⟨hoff, -, hlt⟩ := hlocal
    have hd : 0 < depth := by
      by_contra hn
      exact hout hn hcid
    exact ⟨rfl, rfl, fun _ => (if_pos hd).symm, iff_of_true trivial hd, ⟨hoff, hd, hlt⟩, fun _ => hin hd,
      fun _ => rfl⟩
  | nest hpc =>
    obtain rfl : pc = .nesting := hpc
    obtain ⟨hoff, -, hlt⟩ := hlocal
    obtain ⟨hcid, hflags, hcnt⟩ := hin trivial
    have hin' : Core.Inside ⟨.rest, enabled, depth + 1, before⟩ := Nat.succ_pos depth
    refine ⟨rfl, rfl, fun d => Core.ticket_inside hin' d, iff_of_true hin' trivial,
      ⟨fun _ => hoff, hlt⟩, fun _ => ⟨hcid, hflags, ?_⟩, fun h => absurd trivial h⟩
    have hcnt : l.cnt = BitVec.ofNat 32 depth := hcnt
    rw [hcnt, BitVec.ofNat_add depth 1]
    rfl
  | foreign f hpc hcid =>
    obtain rfl : pc = .testing f := hpc
    obtain ⟨hoff, hflag, -⟩ := hlocal
    have hd : ¬ 0 < depth := fun hd => hcid (hin hd).1
    have h0 : depth = 0 := Nat.eq_zero_of_not_pos hd
    exact ⟨rfl, rfl, fun _ => (if_neg hd).symm, iff_of_false not_false hd, ⟨hoff, h0, hflag h0⟩, fun h => h.elim,
      fun _ => rfl⟩
  | spin t f hpc ht => exact ⟨rfl, rfl, fun _ => rfl, Iff.rfl, hlocal, hin, fun _ => rfl⟩
  | claim f hpc =>
    obtain rfl : pc = .claiming f := hpc
    exact ⟨rfl, rfl, fun _ => rfl, Iff.rfl, hlocal, fun _ => rfl, fun h => absurd trivial h⟩
  | setFlags f hpc =>
    obtain rfl : pc = .flagging f := hpc
    obtain ⟨hoff, h0, hflag⟩ := hlocal
    exact ⟨rfl, rfl, fun _ => rfl, Iff.rfl, ⟨hoff, h0⟩, fun _ => ⟨hin trivial, hflag⟩, fun h => absurd trivial h⟩
  | setCnt hpc =>
    obtain rfl : pc = .counting := hpc
    obtain ⟨hoff, h0⟩ := hlocal
    obtain ⟨hcid, hflags⟩ := hin trivial
    obtain rfl : depth = 0 := h0
    exact ⟨rfl, rfl, fun _ => rfl, iff_of_true Nat.one_pos trivial, ⟨fun _ => hoff, Nat.one_le_two_pow⟩,
      fun _ => ⟨hcid, hflags, rfl⟩, fun h => absurd trivial h⟩
  | decrement hpc hd =>
    obtain rfl : pc = .rest := hpc
    obtain ⟨hoff, hle⟩ := hlocal
    obtain ⟨hcid, hflags, hcnt⟩ := hin hd
    obtain ⟨n, rfl⟩ : ∃ n, depth = n + 1 := Nat.exists_eq_succ_of_ne_zero (Nat.ne_of_gt hd)
    have hin' : Core.Inside ⟨.rest, enabled, n + 1, before⟩ := hd
    refine ⟨rfl, rfl, fun d => (Core.ticket_inside hin' d).symm, iff_of_true trivial hd, ⟨hoff hd, hle⟩,
      fun _ => ⟨hcid, hflags, ?_⟩, fun h => absurd hd h⟩
    have hcnt : l.cnt = BitVec.ofNat 32 (n + 1) := hcnt
    rw [hcnt, BitVec.ofNat_add n 1]
    exact BitVec.add_sub_cancel _ _
  | inner hpc hcnt =>
    obtain rfl : pc = .checking := hpc
    obtain ⟨hoff, hlt⟩ := hlocal
    obtain ⟨hcid, hflags, heq⟩ := hin trivial
    have hd : 0 < depth := by
      apply Nat.pos_of_ne_zero
      rintro rfl
      exact hcnt heq
    exact ⟨rfl, rfl, fun _ => if_pos hd, iff_of_true hd trivial, ⟨fun _ => hoff, hlt.le⟩,
      fun _ => ⟨hcid, hflags, heq⟩, fun h => absurd trivial h⟩
  | outer hpc hcnt =>
    obtain rfl : pc = .checking := hpc
    obtain ⟨hoff, hlt⟩ := hlocal
    obtain ⟨hcid, hflags, heq⟩ := hin trivial
    -- below 2 ^ 32 the counter is the depth
    have h0 : depth = 0 := by
      have hmod := congrArg BitVec.toNat (hcnt.symm.trans heq)
      rw [BitVec.toNat_ofNat, Nat.mod_eq_of_lt hlt] at hmod
      exact hmod.symm
    exact ⟨rfl, rfl, fun _ => rfl, Iff.rfl, ⟨hoff, h0⟩, fun _ => ⟨hcid, hflags⟩, fun h => absurd trivial h⟩
  | save hpc =>
    obtain rfl : pc = .saving := hpc
    obtain ⟨hoff, h0⟩ := hlocal
    obtain ⟨hcid, hflags⟩ := hin trivial
    exact ⟨rfl, rfl, fun _ => rfl, Iff.rfl, ⟨hoff, h0, hflags⟩, fun _ => hcid, fun h => absurd trivial h⟩
  | clearCid f hpc =>
    obtain rfl : pc = .clearing f := hpc
    exact ⟨rfl, rfl, fun _ => rfl, Iff.rfl, hlocal, fun _ => rfl, fun h => absurd trivial h⟩
  | clearFlags f hpc =>
    obtain rfl : pc = .unflagging f := hpc
    exact ⟨rfl, rfl, fun _ => rfl, Iff.rfl, hlocal, hin, fun h => absurd trivial h⟩
  | restore f hpc =>
    obtain rfl : pc = .restoring f := hpc
    obtain ⟨-, h0, -⟩ := hlocal
    obtain rfl : depth = 0 := h0
    exact ⟨rfl, rfl, fun _ => rfl, iff_of_false (lt_irrefl 0) not_false,
      ⟨fun h => absurd h (lt_irrefl 0), Nat.zero_le _⟩, fun h => absurd h (lt_irrefl 0), fun _ => rfl⟩

end SpinlockIrqsave

structure SpinRun (ι : Type*) where
  lock : SpinlockIrqsave
  core : ι → SpinlockIrqsave.Core
  queued : List ι
  entered : List ι

namespace SpinRun
open SpinlockIrqsave

variable {ι : Type*}

def start (enabled : ι → Bool) : SpinRun ι := ⟨spinlockIrqsaveInit, fun c => ⟨.rest, enabled c, 0, enabled c⟩, [], []⟩

variable [DecidableEq ι]

def after (s : SpinRun ι) (c : ι) (l : SpinlockIrqsave) (k : Core) : Mark → SpinRun ι
  | .silent | .left => { s with lock := l, core := Function.update s.core c k }
  | .queued => { s with lock := l, core := Function.update s.core c k, queued := s.queued ++ [c] }
  | .entered => { s with lock := l, core := Function.update s.core c k, entered := s.entered ++ [c] }

inductive Step (deep : ℕ → Prop) (apicId : ι → BitVec 32) (s : SpinRun ι) : SpinRun ι → Prop
  | micro (c : ι) {m : Mark} {l : SpinlockIrqsave} {k : Core} :
      Micro deep (apicId c) s.lock (s.core c) m l k → Step deep apicId s (s.after c l k m)

structure Inv (apicId : ι → BitVec 32) (s : SpinRun ι) : Prop where
  serves : ∃ l : Line ι, Serves 1 l (s.lock.queue + 1) s.lock.dequeue (fun c => (s.core c).ticket s.lock.dequeue)
    (fun c => (s.core c).Inside) ∧ l.arrivals = s.queued ∧ l.admitted = s.entered
  own : ∀ c, (s.core c).Local
  wrote : ∀ {c}, (s.core c).Inside → (s.core c).Wrote s.lock (apicId c)
  free : (∀ c, ¬ (s.core c).Inside) → s.lock.cid = SpinlockIrqsave.noCore

namespace Inv
variable {apicId : ι → BitVec 32} {s s' : SpinRun ι} {c d : ι} {l : SpinlockIrqsave} {k : Core}

omit [DecidableEq ι] in
theorem exclusive (h : s.Inv apicId) (hc : (s.core c).Inside) (hd : (s.core d).Inside) : c = d := by
  obtain ⟨l, hs, -, -⟩ := h.serves
  exact hs.exclusive hc hd

omit [DecidableEq ι] in
theorem start (enabled : ι → Bool) : (start enabled).Inv apicId where
  serves := ⟨.empty, (Serves.empty 64 1).congr (fun _ => rfl) fun _ => iff_of_false (lt_irrefl 0) not_false, rfl, rfl⟩
  own _ := ⟨fun h => absurd h (lt_irrefl 0), Nat.zero_le _⟩
  wrote h := absurd h (lt_irrefl 0)
  free _ := rfl

omit [DecidableEq ι] in
theorem foreign (hid : Function.Injective apicId) (hne : ∀ c, apicId c ≠ SpinlockIrqsave.noCore) (h : s.Inv apicId)
    (hc : ¬ (s.core c).Inside) : s.lock.cid ≠ apicId c := by
  intro he
  by_cases hnone : ∀ d, ¬ (s.core d).Inside
  · exact hne c (he.symm.trans (h.free hnone))
  · obtain ⟨d, hd⟩ := not_forall_not.mp hnone
    rcases (h.wrote hd).cid hd with hcid | hcid
    · have hcd : c = d := hid (he.symm.trans hcid)
      exact hc (hcd ▸ hd)
    · exact hne c (he.symm.trans hcid)

theorem kept (h : s.Inv apicId) (hk : Kept (apicId c) s.lock (s.core c) l k) :
    Inv apicId { s with lock := l, core := Function.update s.core c k } := by
  obtain ⟨line, hs, hq, he⟩ := h.serves
  have hinside : ∀ d, (Function.update s.core c k d).Inside ↔ (s.core d).Inside := by
    intro d
    rcases eq_or_ne d c with rfl | hd
    · simpa using hk.inside
    · simp [hd]
  constructor
  · refine ⟨line, ?_, hq, he⟩
    dsimp only
    rw [hk.queue, hk.dequeue]
    refine hs.congr (fun d => ?_) hinside
    rcases eq_or_ne d c with rfl | hd
    · simpa using hk.ticket _
    · simp [hd]
  · intro d
    rcases eq_or_ne d c with rfl | hd
    · simpa using hk.own
    · simpa [hd] using h.own d
  · intro d hin
    have hold := (hinside d).mp hin
    rcases eq_or_ne d c with rfl | hd
    · simpa using hk.wrote (hk.inside.mpr hold)
    · have hc : ¬ (s.core c).Inside := fun hc => hd (h.exclusive hold hc)
      have hl : l = s.lock := hk.outside hc
      simpa [hd, hl] using h.wrote hold
  · intro hnone
    have hnone' : ∀ d, ¬ (s.core d).Inside := fun d hd => hnone d ((hinside d).mpr hd)
    have hl : l = s.lock := hk.outside (hnone' c)
    simpa [hl] using h.free hnone'

theorem ticket (h : s.Inv apicId) {f : Bool} (hpc : (s.core c).pc = .queueing f) :
    Inv apicId (s.after c { s.lock with queue := s.lock.queue + 1 }
      { s.core c with pc := .spinning (s.lock.queue + 1) f } .queued) := by
  obtain ⟨line, hs, hq, he⟩ := h.serves
  have hout : ¬ (s.core c).Inside := by simp [Core.Inside, hpc]
  have hinside : ∀ d, (Function.update s.core c { s.core c with pc := .spinning (s.lock.queue + 1) f } d).Inside ↔
      (s.core d).Inside := by
    intro d
    rcases eq_or_ne d c with rfl | hd
    · simp [Core.Inside, hpc]
    · simp [hd]
  constructor
  · refine ⟨line.arrive c, (hs.arrive (i := c) (by simp [Core.ticket, hpc])).congr (fun d => ?_) hinside, ?_, ?_⟩
    · rcases eq_or_ne d c with rfl | hd
      · simp [after, Core.ticket]
      · simp [after, hd]
    · rw [Line.arrivals_arrive, hq]
      rfl
    · rw [Line.admitted_arrive hs.nonempty, he]
      rfl
  · intro d
    rcases eq_or_ne d c with rfl | hd
    · simpa [after, Core.Local, hpc] using h.own d
    · simpa [after, hd] using h.own d
  · intro d hin
    have hold := (hinside d).mp hin
    have hd : d ≠ c := by
      rintro rfl
      exact hout hold
    simpa [after, hd, Core.Wrote] using h.wrote hold
  · intro hnone
    exact h.free fun d hd => hnone d ((hinside d).mpr hd)

theorem enter [Fintype ι] (hcard : Fintype.card ι ≤ 2 ^ 64) (h : s.Inv apicId) {f : Bool}
    (hpc : (s.core c).pc = .spinning s.lock.dequeue f) :
    Inv apicId (s.after c s.lock { s.core c with pc := .claiming f } .entered) := by
  obtain ⟨line, hs, hq, he⟩ := h.serves
  have hout : ¬ (s.core c).Inside := by simp [Core.Inside, hpc]
  have hfirst : line.line.head? = some c := hs.first hcard (by simp [Core.ticket, hpc])
  have hvacant := hs.vacant hfirst hout
  have hnone : ∀ d, ¬ (s.core d).Inside := fun d hd => by
    have hent := (hs.head.mp hd).1
    rw [hvacant] at hent
    cases hent
  have hcid := h.free hnone
  have hinside : ∀ d, (Function.update s.core c { s.core c with pc := .claiming f } d).Inside ↔ d = c := by
    intro d
    rcases eq_or_ne d c with rfl | hd
    · simp [Core.Inside]
    · simp [hd, hnone d]
  constructor
  · refine ⟨line.enter, (hs.enter hfirst).congr (fun d => ?_) hinside, hq, ?_⟩
    · rcases eq_or_ne d c with rfl | hd
      · simp [after, Core.ticket, hpc]
      · simp [after, hd]
    · rw [Line.admitted_enter hvacant hfirst, he]
      rfl
  · intro d
    rcases eq_or_ne d c with rfl | hd
    · simpa [after, Core.Local, hpc] using h.own d
    · simpa [after, hd] using h.own d
  · intro d hin
    obtain rfl := (hinside d).mp hin
    simpa [after, Core.Wrote] using hcid
  · intro hn
    exact absurd ((hinside c).mpr rfl) (hn c)

theorem pass (h : s.Inv apicId) {f : Bool} (hpc : (s.core c).pc = .passing f) :
    Inv apicId (s.after c { s.lock with dequeue := s.lock.dequeue + 1 } { s.core c with pc := .restoring f } .left) := by
  obtain ⟨line, hs, hq, he⟩ := h.serves
  have hin : (s.core c).Inside := by simp [Core.Inside, hpc]
  have hcid : s.lock.cid = SpinlockIrqsave.noCore := by simpa [Core.Wrote, hpc] using h.wrote hin
  have hout : ∀ {d}, d ≠ c → ¬ (s.core d).Inside := fun hd hdin => hd (h.exclusive hdin hin)
  have hnone : ∀ d, ¬ (Function.update s.core c { s.core c with pc := .restoring f } d).Inside := by
    intro d
    rcases eq_or_ne d c with rfl | hd
    · simp [Core.Inside]
    · simpa [hd] using hout hd
  constructor
  · refine ⟨line.leave, (hs.leave hin).congr (fun d => ?_) fun d => iff_of_false (hnone d) not_false, ?_, ?_⟩
    · rcases eq_or_ne d c with rfl | hd
      · simp [after, Core.ticket]
      · simpa [after, hd] using Core.ticket_outside (hout hd) _ _
    · rw [Line.arrivals_leave, hq]
      rfl
    · rw [Line.admitted_leave (hs.head.mp hin).1, he]
      rfl
  · intro d
    rcases eq_or_ne d c with rfl | hd
    · simpa [after, Core.Local, hpc] using h.own d
    · simpa [after, hd] using h.own d
  · intro d hd
    exact absurd hd (hnone d)
  · intro _
    exact hcid

theorem step [Fintype ι] (hcard : Fintype.card ι ≤ 2 ^ 64) (hid : Function.Injective apicId)
    (hne : ∀ c, apicId c ≠ SpinlockIrqsave.noCore) (h : s.Inv apicId) (hs : Step Shallow apicId s s') : s'.Inv apicId := by
  obtain ⟨c, hm⟩ := hs
  rename_i m l k
  cases m with
  | silent => exact h.kept (hm.kept (h.own c) h.wrote (h.foreign hid hne))
  | queued =>
    cases hm with
    | ticket f hpc => exact h.ticket hpc
  | entered =>
    cases hm with
    | enter t f hpc ht => exact h.enter hcard (ht ▸ hpc)
  | left =>
    cases hm with
    | pass f hpc => exact h.pass hpc

end Inv

structure Sound (apicId : ι → BitVec 32) (s : SpinRun ι) : Prop where
  exclusive : ∀ {c d}, (s.core c).Inside → (s.core d).Inside → c = d
  held : ∀ {c}, 0 < (s.core c).depth → (s.core c).Inside
  inOrder : s.entered <+: s.queued
  nested : ∀ {c f}, (s.core c).pc = .testing f → 0 < (s.core c).depth → s.lock.cid = apicId c
  outermost : ∀ {c}, (s.core c).pc = .saving ∨ (∃ f, (s.core c).pc = .clearing f) ∨
    (∃ f, (s.core c).pc = .unflagging f) ∨ (∃ f, (s.core c).pc = .passing f) → (s.core c).depth = 0
  restored : ∀ {c f}, (s.core c).pc = .restoring f → irqNestedEnable f (s.core c).enabled = (s.core c).before

omit [DecidableEq ι] in
theorem Inv.sound {apicId : ι → BitVec 32} {s : SpinRun ι} (h : s.Inv apicId) : s.Sound apicId where
  exclusive := h.exclusive
  held {c} hd := by
    have hc := h.own c
    unfold Core.Local at hc
    unfold Core.Inside
    cases hpc : (s.core c).pc with
    | rest | testing => exact hd
    | nesting | checking | counting | saving | flagging | clearing | claiming | unflagging | passing => trivial
    | queueing | spinning | restoring =>
      simp only [hpc] at hc
      exact absurd hc.2.1 (Nat.ne_of_gt hd)
  inOrder := by
    obtain ⟨l, -, hq, he⟩ := h.serves
    rw [← hq, ← he]
    exact l.admitted_prefix
  nested {c f} hpc hd := by
    have hin : (s.core c).Inside := by simpa only [Core.Inside, hpc] using hd
    have hw := h.wrote hin
    simp only [Core.Wrote, hpc] at hw
    exact hw.1
  outermost {c} hpc := by
    have hc := h.own c
    rcases hpc with hpc | ⟨f, hpc⟩ | ⟨f, hpc⟩ | ⟨f, hpc⟩ <;> simp only [Core.Local, hpc] at hc
    · exact hc.2
    · exact hc.2.1
    · exact hc.2.1
    · exact hc.2.1
  restored {c f} hpc := by
    have hc := h.own c
    simp only [Core.Local, hpc] at hc
    rw [irqNestedEnable, hc.1, ← hc.2.2]
    cases f <;> rfl

theorem run_sound {apicId : ι → BitVec 32} (hid : Function.Injective apicId) (hne : ∀ c, apicId c ≠ SpinlockIrqsave.noCore)
    (enabled : ι → Bool) {s : SpinRun ι} (hr : Relation.ReflTransGen (Step Shallow apicId) (start enabled) s) :
    s.Sound apicId := by
  have hfin : Function.Injective fun c => (apicId c).toFin := fun c d h => hid (BitVec.toFin_inj.mp h)
  have _ : Fintype ι := Fintype.ofInjective _ hfin
  have hcard : Fintype.card ι ≤ 2 ^ 64 := by
    have hle := Fintype.card_le_of_injective _ hfin
    rw [Fintype.card_fin] at hle
    exact hle.trans (Nat.pow_le_pow_right Nat.two_pos (by decide))
  have hinv : s.Inv apicId := Run.invariant (fun h hs => h.step hcard hid hne hs) (Inv.start enabled) hr
  exact hinv.sound

section Overlap

def pair (l : SpinlockIrqsave) (k₀ k₁ : Core) (q e : List Bool) : SpinRun Bool := ⟨l, fun c => cond c k₁ k₀, q, e⟩

def twoIds (c : Bool) : BitVec 32 := cond c 1 0

variable {deep : ℕ → Prop} {l l' : SpinlockIrqsave} {k k' k₀ k₁ : Core} {m : Mark} {q e : List Bool}

def marked (c : Bool) (q e : List Bool) : Mark → List Bool × List Bool
  | .silent | .left => (q, e)
  | .queued => (q ++ [c], e)
  | .entered => (q, e ++ [c])

theorem pair_first (h : Micro deep 0 l k₀ m l' k') :
    Step deep twoIds (pair l k₀ k₁ q e) (pair l' k' k₁ (marked false q e m).1 (marked false q e m).2) := by
  have hstep : Step deep twoIds (pair l k₀ k₁ q e) _ := .micro false h
  have hcore : Function.update (fun c => cond c k₁ k₀) false k' = fun c => cond c k₁ k' := by
    funext c
    cases c <;> rfl
  cases m <;> simpa only [after, pair, marked, hcore] using hstep

theorem pair_second (h : Micro deep 1 l k₁ m l' k') :
    Step deep twoIds (pair l k₀ k₁ q e) (pair l' k₀ k' (marked true q e m).1 (marked true q e m).2) := by
  have hstep : Step deep twoIds (pair l k₀ k₁ q e) _ := .micro true h
  have hcore : Function.update (fun c => cond c k₁ k₀) true k' = fun c => cond c k' k₀ := by
    funext c
    cases c <;> rfl
  cases m <;> simpa only [after, pair, marked, hcore] using hstep

def outside : Core := ⟨.rest, false, 0, false⟩

def nestedTimes (n : ℕ) : SpinRun Bool :=
  pair ⟨1, 1, 0, BitVec.ofNat 32 (n + 1), false⟩ ⟨.rest, false, n + 1, false⟩ outside [false] [false]

theorem start_nestedTimes (h : deep 0) :
    Relation.ReflTransGen (Step deep twoIds) (start fun _ => false) (nestedTimes 0) := by
  have hpair : (start fun _ : Bool => false) = pair spinlockIrqsaveInit outside outside [] [] := by
    unfold start pair
    congr
    funext c
    cases c <;> rfl
  rw [hpair]
  refine .head (pair_first (.disable rfl h)) ?_
  refine .head (pair_first (.foreign false rfl (by decide))) ?_
  refine .head (pair_first (.ticket false rfl)) ?_
  refine .head (pair_first (.enter 1 false rfl rfl)) ?_
  refine .head (pair_first (.claim false rfl)) ?_
  refine .head (pair_first (.setFlags false rfl)) ?_
  exact .head (pair_first (.setCnt rfl)) .refl

theorem nestedTimes_succ (n : ℕ) (h : deep (n + 1)) :
    Relation.ReflTransGen (Step deep twoIds) (nestedTimes n) (nestedTimes (n + 1)) := by
  have hcnt : BitVec.ofNat 32 (n + 1 + 1) = BitVec.ofNat 32 (n + 1) + 1 := BitVec.ofNat_add (n + 1) 1
  rw [nestedTimes, nestedTimes, hcnt]
  refine .head (pair_first (.disable rfl h)) ?_
  refine .head (pair_first (.own false rfl rfl)) ?_
  exact .head (pair_first (.nest rfl)) .refl

theorem start_run_nestedTimes (n : ℕ) (h : ∀ d ≤ n, deep d) :
    Relation.ReflTransGen (Step deep twoIds) (start fun _ => false) (nestedTimes n) := by
  induction n with
  | zero => exact start_nestedTimes (h 0 le_rfl)
  | succ n ih => exact (ih fun d hd => h d (Nat.le_succ_of_le hd)).trans (nestedTimes_succ n (h _ le_rfl))

def overlapped (n : ℕ) : SpinRun Bool :=
  pair ⟨2, 2, 1, 1, false⟩ ⟨.restoring false, false, n, false⟩ ⟨.rest, false, 1, false⟩ [false, true] [false, true]

theorem nestedTimes_overlapped (n : ℕ) (hn : BitVec.ofNat 32 (n + 1) - 1 = 0) (h : deep 0) :
    Relation.ReflTransGen (Step deep twoIds) (nestedTimes n) (overlapped n) := by
  refine .head (pair_first (.decrement rfl (Nat.succ_pos n))) ?_
  refine .head (pair_first (.outer rfl hn)) ?_
  refine .head (pair_first (.save rfl)) ?_
  refine .head (pair_first (.clearCid false rfl)) ?_
  refine .head (pair_first (.clearFlags false rfl)) ?_
  refine .head (pair_first (.pass false rfl)) ?_
  refine .head (pair_second (.disable rfl h)) ?_
  refine .head (pair_second (.foreign false rfl (show SpinlockIrqsave.noCore ≠ 1 by decide))) ?_
  refine .head (pair_second (.ticket false rfl)) ?_
  refine .head (pair_second (.enter 2 false rfl rfl)) ?_
  refine .head (pair_second (.claim false rfl)) ?_
  refine .head (pair_second (.setFlags false rfl)) ?_
  exact .head (pair_second (.setCnt rfl)) .refl

theorem nestedTwice_sound : (nestedTimes 1).Sound twoIds ∧ ((nestedTimes 1).core false).depth = 2 :=
  ⟨run_sound (fun c d h => by revert h; cases c <;> cases d <;> decide) (fun c => by cases c <;> decide) (fun _ => false)
    (start_run_nestedTimes 1 fun d hd => Nat.lt_of_le_of_lt hd (by decide)), rfl⟩

theorem deep_nesting_overlaps : ∃ s, Relation.ReflTransGen (Step (fun _ => True) twoIds) (start fun _ => false) s ∧
    (s.core false).depth = 2 ^ 32 ∧ (s.core true).depth = 1 ∧ ¬ s.Sound twoIds := by
  have hrun := (@start_run_nestedTimes (fun _ => True) (2 ^ 32) fun _ _ => trivial).trans
    (nestedTimes_overlapped (2 ^ 32) (by decide) trivial)
  refine ⟨_, hrun, rfl, rfl, fun h => ?_⟩
  have hfirst := h.held (c := false) (Nat.two_pow_pos 32)
  exact hfirst

end Overlap

end SpinRun

end Azalea
