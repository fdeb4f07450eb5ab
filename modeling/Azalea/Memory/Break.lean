import Azalea.Config
import Azalea.Foundation.Run

namespace Azalea

@[simp] def heapStart : ℕ := 0x40000000

@[simp] def heapSize : ℕ := 0x280000000

inductive BreakCall
  | sbrk (incr : BitVec 64)
  | brk (val : BitVec 64)
  deriving DecidableEq

namespace Break

def Open (heapEnd : BitVec 64) : Prop := heapStart ≤ heapEnd.toNat ∧ heapEnd.toNat < heapStart + heapSize

instance (heapEnd : BitVec 64) : Decidable (Open heapEnd) := inferInstanceAs (Decidable (_ ∧ _))

def sysSbrk (heapEnd incr : BitVec 64) : BitVec 64 × ℤ :=
  if Open heapEnd then (heapEnd + incr, heapEnd.toInt) else (heapEnd, -enomem)

def sysBrk (heapEnd val : BitVec 64) : BitVec 64 × ℤ :=
  if Open heapEnd then (val, 0) else (heapEnd, -1)

def call (heapEnd : BitVec 64) : BreakCall → BitVec 64 × ℤ
  | .sbrk incr => sysSbrk heapEnd incr
  | .brk val => sysBrk heapEnd val

def target (heapEnd : BitVec 64) : BreakCall → ℤ
  | .sbrk incr => heapEnd.toNat + incr.toInt
  | .brk val => val.toInt

def Fits (n : ℤ) : Prop := heapStart ≤ n ∧ n ≤ heapStart + heapSize

instance (n : ℤ) : Decidable (Fits n) := inferInstanceAs (Decidable (_ ∧ _))

def Succeeds (heapEnd : BitVec 64) (e : BreakCall) : Prop := 0 ≤ (call heapEnd e).2

structure Lawful (heapEnd : BitVec 64) (e : BreakCall) : Prop where
  range : Fits (call heapEnd e).1.toNat
  refuses : ¬Fits (target heapEnd e) → ¬Succeeds heapEnd e ∧ (call heapEnd e).1 = heapEnd
  moves : Succeeds heapEnd e → ((call heapEnd e).1.toNat : ℤ) = target heapEnd e

def Careful (heapEnd : BitVec 64) (e : BreakCall) : Prop := Open heapEnd → Fits (target heapEnd e)

instance (heapEnd : BitVec 64) (e : BreakCall) : Decidable (Careful heapEnd e) :=
  inferInstanceAs (Decidable (_ → _))

inductive Step (heapEnd : BitVec 64) : BitVec 64 → Prop
  | call {e : BreakCall} (h : Careful heapEnd e) : Step heapEnd (call heapEnd e).1

inductive Growing : BitVec 64 → List BreakCall → Prop
  | nil {heapEnd : BitVec 64} : Growing heapEnd []
  | cons {heapEnd : BitVec 64} {e : BreakCall} {es : List BreakCall} (hc : Careful heapEnd e)
      (hg : heapEnd.toNat ≤ (call heapEnd e).1.toNat) (h : Growing (call heapEnd e).1 es) : Growing heapEnd (e :: es)

def given (heapEnd : BitVec 64) : BreakCall → Option (ℤ × ℤ)
  | .sbrk incr => if 0 < incr.toInt ∧ 0 ≤ (sysSbrk heapEnd incr).2 then
      some ((sysSbrk heapEnd incr).2, (sysSbrk heapEnd incr).2 + incr.toInt) else none
  | .brk _ => none

def ranges : BitVec 64 → List BreakCall → List (ℤ × ℤ)
  | _, [] => []
  | heapEnd, e :: es => (given heapEnd e).toList ++ ranges (call heapEnd e).1 es

variable {heapEnd : BitVec 64} {e : BreakCall} {es : List BreakCall}

theorem toInt_of_fits (h : Fits heapEnd.toNat) : heapEnd.toInt = heapEnd.toNat := by
  have hlt : heapEnd.toNat ≤ heapStart + heapSize := by exact_mod_cast h.2
  rw [BitVec.toInt_eq_toNat_cond, if_pos (by simp at hlt; omega)]

theorem toNat_of_fits (h : Fits heapEnd.toInt) : (heapEnd.toNat : ℤ) = heapEnd.toInt := by
  have h1 := h.1
  rw [BitVec.toInt_eq_toNat_cond] at h1 ⊢
  split_ifs at h1 ⊢ with hc
  · rfl
  · have := heapEnd.isLt
    simp at h1
    omega

theorem toNat_add_of_fits {incr : BitVec 64} (h : Fits (heapEnd.toNat + incr.toInt)) :
    ((heapEnd + incr).toNat : ℤ) = heapEnd.toNat + incr.toInt := by
  obtain ⟨h1, h2⟩ := h
  have := heapEnd.isLt
  have := incr.isLt
  simp only [heapStart, heapSize] at h1 h2
  rw [BitVec.toInt_eq_toNat_cond] at h1 h2 ⊢
  rw [BitVec.toNat_add]
  split_ifs at h1 h2 ⊢ <;> omega

theorem call_open (ho : Open heapEnd) : Succeeds heapEnd e ∧
    (Fits (target heapEnd e) → ((call heapEnd e).1.toNat : ℤ) = target heapEnd e) := by
  have hfits : Fits heapEnd.toNat := ⟨by exact_mod_cast ho.1, by exact_mod_cast ho.2.le⟩
  cases e with
  | sbrk incr =>
    have hcall : call heapEnd (.sbrk incr) = (heapEnd + incr, heapEnd.toInt) := if_pos ho
    refine ⟨?_, fun ht => ?_⟩
    · rw [Succeeds, hcall, toInt_of_fits hfits]
      exact Int.natCast_nonneg _
    · rw [hcall]
      exact toNat_add_of_fits ht
  | brk val =>
    have hcall : call heapEnd (.brk val) = (val, 0) := if_pos ho
    refine ⟨?_, fun ht => ?_⟩
    · rw [Succeeds, hcall]
    · rw [hcall]
      exact toNat_of_fits ht

theorem call_closed (ho : ¬Open heapEnd) : ¬Succeeds heapEnd e ∧ (call heapEnd e).1 = heapEnd := by
  cases e with
  | sbrk incr =>
    have hcall : call heapEnd (.sbrk incr) = (heapEnd, -enomem) := if_neg ho
    rw [Succeeds, hcall]
    exact ⟨by simp, rfl⟩
  | brk val =>
    have hcall : call heapEnd (.brk val) = (heapEnd, -1) := if_neg ho
    rw [Succeeds, hcall]
    exact ⟨by simp, rfl⟩

theorem lawful_iff (h : Fits heapEnd.toNat) : Lawful heapEnd e ↔ Careful heapEnd e := by
  constructor
  · intro hl ho
    by_contra ht
    exact (hl.refuses ht).1 (call_open ho).1
  · intro hc
    by_cases ho : Open heapEnd
    · have hmove := (call_open ho).2 (hc ho)
      refine ⟨?_, fun ht => absurd (hc ho) ht, fun _ => hmove⟩
      rw [hmove]
      exact hc ho
    · obtain ⟨hfail, hsame⟩ := call_closed (e := e) ho
      refine ⟨?_, fun _ => ⟨hfail, hsame⟩, fun hs => absurd hs hfail⟩
      rw [hsame]
      exact h

theorem given_eq (h : Fits heapEnd.toNat) {r : ℤ × ℤ} (hr : given heapEnd e = some r) :
    Open heapEnd ∧ r = ((heapEnd.toNat : ℤ), target heapEnd e) := by
  cases e with
  | brk val => cases hr
  | sbrk incr =>
    obtain ⟨⟨_, hs⟩, heq⟩ := Option.ite_none_right_eq_some.mp hr
    have ho : Open heapEnd := by
      by_contra ho
      exact (call_closed (e := .sbrk incr) ho).1 hs
    rw [sysSbrk, if_pos ho, toInt_of_fits h] at heq
    exact ⟨ho, (Option.some.inj heq).symm⟩

theorem Step.fits {heapEnd' : BitVec 64} (h : Fits heapEnd.toNat) (hs : Step heapEnd heapEnd') : Fits heapEnd'.toNat := by
  obtain ⟨hc⟩ := hs
  exact ((lawful_iff h).mpr hc).range

theorem ranges_above (h : Fits heapEnd.toNat) (hg : Growing heapEnd es) : ∀ r ∈ ranges heapEnd es, (heapEnd.toNat : ℤ) ≤ r.1 := by
  induction hg with
  | nil => simp [ranges]
  | @cons heapEnd e es hc hgrow _ ih =>
    intro r hr
    rcases List.mem_append.mp hr with hr | hr
    · obtain ⟨_, rfl⟩ := given_eq h (Option.mem_toList.mp hr)
      exact le_rfl
    · exact le_trans (by exact_mod_cast hgrow) (ih ((lawful_iff h).mpr hc).range r hr)

theorem ranges_disjoint (h : Fits heapEnd.toNat) (hg : Growing heapEnd es) :
    (ranges heapEnd es).Pairwise fun x y => x.2 ≤ y.1 := by
  induction hg with
  | nil => exact .nil
  | @cons heapEnd e es hc _ hg ih =>
    have hl := (lawful_iff h).mpr hc
    refine List.pairwise_append.mpr ⟨?_, ih hl.range, fun x hx y hy => ?_⟩
    · cases given heapEnd e <;> simp
    · obtain ⟨ho, rfl⟩ := given_eq h (Option.mem_toList.mp hx)
      rw [← hl.moves (call_open ho).1]
      exact ranges_above hl.range hg y hy

theorem sbrk_run_lawful (hr : Relation.ReflTransGen Step (BitVec.ofNat 64 heapStart) heapEnd) :
    Fits heapEnd.toNat ∧ (∀ e, Lawful heapEnd e ↔ Careful heapEnd e) ∧
      ∀ es, Growing heapEnd es → (ranges heapEnd es).Pairwise fun x y => x.2 ≤ y.1 := by
  have h : Fits heapEnd.toNat := @Run.invariant _ _ (fun x : BitVec 64 => Fits x.toNat) _ _ Step.fits (by decide) hr
  exact ⟨h, fun _ => lawful_iff h, fun _ => ranges_disjoint h⟩

theorem page_sbrk_lawful : Fits (0x40001000#64).toNat ∧ Lawful 0x40001000#64 (.brk 0x40000000) ∧
    ranges 0x40001000#64 [.sbrk 4096, .sbrk 8192] = [(0x40001000, 0x40002000), (0x40002000, 0x40004000)] ∧
    (ranges 0x40001000#64 [.sbrk 4096, .sbrk 8192]).Pairwise fun x y => x.2 ≤ y.1 := by
  have hstep : Step (BitVec.ofNat 64 heapStart) 0x40001000#64 := .call (e := .sbrk 4096) (by decide)
  obtain ⟨hfits, hlawful, hranges⟩ := sbrk_run_lawful (.single hstep)
  refine ⟨hfits, (hlawful _).mpr (by decide), by decide, hranges _ ?_⟩
  exact .cons (by decide) (by decide) (.cons (by decide) (by decide) .nil)

theorem sbrk_leaves_heap :
    (sysSbrk (BitVec.ofNat 64 heapStart) (BitVec.ofNat 64 (heapSize + 1))) = (0x2C0000001#64, 0x40000000) ∧
    ¬Fits (0x2C0000001#64).toNat ∧ ¬Lawful (BitVec.ofNat 64 heapStart) (.sbrk (BitVec.ofNat 64 (heapSize + 1))) ∧
    ∀ e, ¬Succeeds 0x2C0000001#64 e := by
  refine ⟨by decide, by decide, fun h => ?_, fun e => (call_closed (by decide)).1⟩
  exact absurd h.range (by decide)

end Break

end Azalea
