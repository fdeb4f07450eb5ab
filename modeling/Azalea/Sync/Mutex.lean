import Azalea.Foundation.Run
import Azalea.Foundation.Ticket

namespace Azalea
open Ticket

namespace TicketMutex

inductive Pc where
  | out
  | spinning (t : ℤ)
  | holding
  | unlocking (grant : BitVec 32)
deriving DecidableEq, Repr

def Pc.Holds : Pc → Prop
  | .holding | .unlocking _ => True
  | .out | .spinning _ => False

-- the int t is converted to unsigned for the comparison with grant
def Pc.ticket (grant : BitVec 32) : Pc → Option (BitVec 32)
  | .out => none
  | .spinning t => some (BitVec.ofInt 32 t)
  | .holding | .unlocking _ => some grant

end TicketMutex

structure TicketMutex (ι : Type*) where
  grant : BitVec 32
  request : BitVec 32
  pc : ι → TicketMutex.Pc
  requested : List ι
  admitted : List ι

namespace TicketMutex
variable {ι : Type*}

def mutexInit : TicketMutex ι := ⟨0, 0, fun _ => .out, [], []⟩

variable [DecidableEq ι]

inductive Step (s : TicketMutex ι) : TicketMutex ι → Prop
  | fetchAndAdd (i : ι) : s.pc i = .out →
      Step s { s with
        request := s.request + 1
        pc := Function.update s.pc i (.spinning s.request.toInt)
        requested := s.requested ++ [i] }
  | spin (i : ι) (t : ℤ) : s.pc i = .spinning t → s.grant ≠ BitVec.ofInt 32 t → Step s s
  | enter (i : ι) (t : ℤ) : s.pc i = .spinning t → s.grant = BitVec.ofInt 32 t →
      Step s { s with pc := Function.update s.pc i .holding, admitted := s.admitted ++ [i] }
  | loadGrant (i : ι) : s.pc i = .holding →
      Step s { s with pc := Function.update s.pc i (.unlocking s.grant) }
  | storeGrant (i : ι) (g : BitVec 32) : s.pc i = .unlocking g →
      Step s { s with grant := g + 1, pc := Function.update s.pc i .out }

structure Inv (s : TicketMutex ι) : Prop where
  serves : ∃ l : Line ι, Serves 0 l s.request s.grant (fun i => (s.pc i).ticket s.grant) (fun i => (s.pc i).Holds) ∧
    l.arrivals = s.requested ∧ l.admitted = s.admitted
  loaded : ∀ {i g}, s.pc i = .unlocking g → g = s.grant

namespace Inv
variable {s s' : TicketMutex ι} {i j : ι} {t : ℤ} {g : BitVec 32}

omit [DecidableEq ι] in
theorem init : (mutexInit : TicketMutex ι).Inv where
  serves := ⟨.empty, Serves.empty 32 0, rfl, rfl⟩
  loaded h := by cases h

theorem fetchAndAdd (h : s.Inv) (hi : s.pc i = .out) :
    Inv { s with
      request := s.request + 1
      pc := Function.update s.pc i (.spinning s.request.toInt)
      requested := s.requested ++ [i] } := by
  obtain ⟨⟨l, hs, harr, hadm⟩, hload⟩ := h
  constructor
  · refine ⟨l.arrive i, (hs.arrive (by simp only [hi]; rfl)).congr ?_ ?_, ?_, ?_⟩
    · intro j
      rcases eq_or_ne j i with rfl | hj
      · simp [Pc.ticket]
      · simp [hj]
    · intro j
      rcases eq_or_ne j i with rfl | hj
      · simp [Pc.Holds, hi]
      · simp [hj]
    · rw [Line.arrivals_arrive, harr]
    · rw [Line.admitted_arrive hs.nonempty, hadm]
  · intro j g hj
    rcases eq_or_ne j i with rfl | hne
    · simp at hj
    · exact hload (by simpa [hne] using hj)

theorem enter [Fintype ι] (hcard : Fintype.card ι < 2 ^ 32) (h : s.Inv) (hi : s.pc i = .spinning t)
    (hg : s.grant = BitVec.ofInt 32 t) :
    Inv { s with pc := Function.update s.pc i .holding, admitted := s.admitted ++ [i] } := by
  obtain ⟨⟨l, hs, harr, hadm⟩, hload⟩ := h
  have hfirst : l.line.head? = some i := hs.first hcard.le (by simp only [hi, Pc.ticket, hg])
  have hvacant : l.entered = false := hs.vacant hfirst (by simp [hi, Pc.Holds])
  have hnone : ∀ j, ¬ (s.pc j).Holds := fun j hj => by
    have hent := (hs.head.mp hj).1
    rw [hvacant] at hent
    cases hent
  constructor
  · refine ⟨l.enter, (hs.enter hfirst).congr ?_ ?_, harr, ?_⟩
    · intro j
      rcases eq_or_ne j i with rfl | hj
      · simp [Pc.ticket, hi, hg]
      · simp [hj]
    · intro j
      rcases eq_or_ne j i with rfl | hj
      · simp [Pc.Holds]
      · simp [hj, hnone j]
    · rw [Line.admitted_enter hvacant hfirst, hadm]
  · intro j g hj
    rcases eq_or_ne j i with rfl | hne
    · simp at hj
    · exact hload (by simpa [hne] using hj)

theorem loadGrant (h : s.Inv) (hi : s.pc i = .holding) :
    Inv { s with pc := Function.update s.pc i (.unlocking s.grant) } := by
  obtain ⟨⟨l, hs, harr, hadm⟩, hload⟩ := h
  constructor
  · refine ⟨l, hs.congr ?_ ?_, harr, hadm⟩
    · intro j
      rcases eq_or_ne j i with rfl | hj
      · simp [Pc.ticket, hi]
      · simp [hj]
    · intro j
      rcases eq_or_ne j i with rfl | hj
      · simp [Pc.Holds, hi]
      · simp [hj]
  · intro j g hj
    rcases eq_or_ne j i with rfl | hne
    · simpa [eq_comm] using hj
    · exact hload (by simpa [hne] using hj)

theorem storeGrant (h : s.Inv) (hi : s.pc i = .unlocking g) :
    Inv { s with grant := g + 1, pc := Function.update s.pc i .out } := by
  obtain ⟨⟨l, hs, harr, hadm⟩, hload⟩ := h
  have hin : (s.pc i).Holds := by simp [hi, Pc.Holds]
  have hout : ∀ {j}, j ≠ i → ¬ (s.pc j).Holds := fun hj hjin => hj (hs.exclusive hjin hin)
  -- the others spin, and their tickets do not mention grant
  have hticket : ∀ {j} (g' : BitVec 32), j ≠ i → (s.pc j).ticket g' = (s.pc j).ticket s.grant := by
    intro j g' hj
    have hjout := hout hj
    cases hpc : s.pc j with
    | out => rfl
    | spinning t => rfl
    | holding => exact absurd (by simp [hpc, Pc.Holds]) hjout
    | unlocking g => exact absurd (by simp [hpc, Pc.Holds]) hjout
  constructor
  · rw [hload hi]
    refine ⟨l.leave, (hs.leave hin).congr ?_ ?_, ?_, ?_⟩
    · intro j
      rcases eq_or_ne j i with rfl | hj
      · simp [Pc.ticket]
      · simpa [hj] using hticket (s.grant + 1) hj
    · intro j
      rcases eq_or_ne j i with rfl | hj
      · simp [Pc.Holds]
      · simp [hj, hout hj]
    · rw [Line.arrivals_leave, harr]
    · rw [Line.admitted_leave (hs.head.mp hin).1, hadm]
  · intro j g' hj
    rcases eq_or_ne j i with rfl | hne
    · simp at hj
    · have hpc : s.pc j = .unlocking g' := by simpa [hne] using hj
      exact absurd (by simp [hpc, Pc.Holds]) (hout hne)

theorem step [Fintype ι] (hcard : Fintype.card ι < 2 ^ 32) (h : s.Inv) (hs : Step s s') : s'.Inv := by
  cases hs with
  | fetchAndAdd i hi => exact h.fetchAndAdd hi
  | spin i t hi hg => exact h
  | enter i t hi hg => exact h.enter hcard hi hg
  | loadGrant i hi => exact h.loadGrant hi
  | storeGrant i g hi => exact h.storeGrant hi

end Inv

structure Fair (s : TicketMutex ι) : Prop where
  exclusive : ∀ {i j}, (s.pc i).Holds → (s.pc j).Holds → i = j
  inOrder : s.admitted <+: s.requested

theorem run_fair [Fintype ι] (hcard : Fintype.card ι < 2 ^ 32) {s : TicketMutex ι}
    (hr : Relation.ReflTransGen Step mutexInit s) : s.Fair := by
  have hinv : s.Inv := Run.invariant (fun h hs => Inv.step hcard h hs) Inv.init hr
  obtain ⟨l, hs, harr, hadm⟩ := hinv.serves
  constructor
  · intro i j hi hj
    exact hs.exclusive hi hj
  · rw [← harr, ← hadm]
    exact l.admitted_prefix

theorem two_callers_fair : ∃ s : TicketMutex (Fin 2), Relation.ReflTransGen Step mutexInit s ∧
    (s.pc 0 = .holding ∧ s.pc 1 = .spinning 1) ∧ s.Fair := by
  have hrun := ((Relation.ReflTransGen.single (Step.fetchAndAdd (s := (mutexInit : TicketMutex (Fin 2))) 0 rfl)).tail
    (.fetchAndAdd 1 (by decide))).tail (.enter 0 0 (by decide) (by decide))
  exact ⟨_, hrun, ⟨by decide, by decide⟩, run_fair (by decide) hrun⟩

end TicketMutex

end Azalea
