import Mathlib.Data.List.TakeWhile
import Azalea.Sched.Runs

namespace Azalea

def ThreadState.Fits (st : ThreadState) : Place → Prop
  | .migrating | .runnable _ => st = .ready
  | .blocked _ => st = .blocked
  | .localTcb _ | .globalTcb => True

theorem ThreadState.fits_of_not_scheduled {st : ThreadState} {p : Place} (hp : ¬p.Scheduled) : st.Fits p := by
  cases p with
  | migrating => exact absurd trivial hp
  | runnable c => exact absurd trivial hp
  | blocked c => exact absurd trivial hp
  | localTcb c => trivial
  | globalTcb => trivial

def TCB.Selectable (a : TCB) : Prop :=
  a.intention.exited = false ∧ a.intention.blocked = false ∧ 0 < a.remainingTimeSlice

namespace Sched

set_option linter.style.nameCheck false

variable {strict : Bool} {s s' s₁ : Sched} {env : Env} {r : ℕ → ℕ} {c d t u round : ℕ} {l : List ℕ} {f : TCB → TCB}
  {found found' : Option ℕ} {X Y S : Set ℕ} {I : Intention}

def Agrees (X : Set ℕ) (s : Sched) : Prop := ∀ p, ∀ t ∈ s.tcbList p, t ∉ X → (s.tcb t).state.Fits p

structure Alike (s s' : Sched) : Prop where
  mem : ∀ {p u}, p.Scheduled → (u ∈ s'.tcbList p ↔ u ∈ s.tcbList p)
  state : ∀ {p u}, p.Scheduled → u ∈ s.tcbList p → (s'.tcb u).state = (s.tcb u).state

theorem Alike.trans (h : Alike s s₁) (h' : Alike s₁ s') : Alike s s' where
  mem hp := (h'.mem hp).trans (h.mem hp)
  state hp hu := (h'.state hp ((h.mem hp).mpr hu)).trans (h.state hp hu)

theorem Agrees.mono (h : Agrees X s) (hXY : X ⊆ Y) : Agrees Y s := fun p t ht hn => h p t ht fun hX => hn (hXY hX)

theorem Agrees.carry (h : Agrees X s) (hu : ∀ {u}, u ∉ Y → u ∉ X ∧ Untouched u s s' ∨
    ∀ {p : Place}, p.Scheduled → u ∈ s'.tcbList p → (s'.tcb u).state.Fits p) : Agrees Y s' := by
  intro p u hm hn
  by_cases hp : p.Scheduled
  · rcases hu hn with ⟨hX, ht⟩ | hf
    · rw [ht.tcb]
      exact h p u ((ht.mem hp).mp hm) hX
    · exact hf hp hm
  · exact ThreadState.fits_of_not_scheduled hp

theorem Agrees.alike (h : Agrees X s) (ha : Alike s s') : Agrees X s' := by
  intro p u hm hn
  by_cases hp : p.Scheduled
  · have hm₀ := (ha.mem hp).mp hm
    rw [ha.state hp hm₀]
    exact h p u hm₀ hn
  · exact ThreadState.fits_of_not_scheduled hp

theorem modify_alike (hf : (f (s.tcb t)).state = (s.tcb t).state) : Alike s (s.modify t f) := by
  refine ⟨fun _ => Iff.rfl, fun {p u} _ _ => ?_⟩
  by_cases hu : u = t
  · rw [hu, modify_tcb_self, hf]
  · rw [modify_tcb_of_ne hu]

theorem Retimed.alike (h : Retimed s s') : Alike s s' := ⟨fun _ => by rw [h.tcbList], fun _ _ => h.state⟩

namespace Fate

theorem mono (h : Fate c found s s' t) (hf : ∀ u, found = some u → found' = some u) : Fate c found' s s' t := by
  cases h with
  | kept hx hb hu => exact .kept hx hb hu
  | picked hx hb ha he ht hs => exact .picked hx hb ha (hf t he) ht hs
  | blocked hx hb ht hs => exact .blocked hx hb ht hs
  | retired hx hn hout => exact .retired hx hn hout

theorem after (h : Fate c found s s₁ t) (hu : Untouched t s₁ s') : Fate c found s s' t := by
  cases h with
  | kept hx hb hu₁ => exact .kept hx hb (hu₁.trans hu)
  | picked hx hb ha he ht hs => exact .picked hx hb ha he (hu.runnable.mpr ht) (hu.tcb.trans hs)
  | blocked hx hb ht hs => exact .blocked hx hb (hu.blocked.mpr ht) (hu.tcb.trans hs)
  | retired hx hn hout => exact .retired hx hn fun hp hm => hout hp ((hu.mem hp).mp hm)

theorem before (h : Fate c found s₁ s' t) (hu : Untouched t s s₁) (hrun : s₁.runningThread = s.runningThread) :
    Fate c found s s' t := by
  cases h with
  | kept hx hb hu₁ =>
    rw [hu.tcb] at hx hb
    exact .kept hx hb (hu.trans hu₁)
  | picked hx hb ha he ht hs =>
    rw [hu.tcb] at hx hb ha hs
    exact .picked hx hb ha he ht hs
  | blocked hx hb ht hs =>
    rw [hu.tcb] at hx hb hs
    exact .blocked hx hb ht hs
  | retired hx hn hout =>
    rw [hu.tcb] at hx
    exact .retired hx (hrun ▸ hn) hout

theorem fits (h : Fate c found s s' t) (hi : Inv strict r s') (hn : (s.tcb t).Selectable → found ≠ some t) :
    Untouched t s s' ∨ ∀ {p : Place}, p.Scheduled → t ∈ s'.tcbList p → (s'.tcb t).state.Fits p := by
  cases h with
  | kept _ _ hu => exact .inl hu
  | picked hx hb ha hf =>
    simp only [TCB.availableNext, Bool.and_eq_true, decide_eq_true_eq] at ha
    exact absurd hf (hn ⟨hx, hb, ha.1⟩)
  | blocked _ _ ht hs =>
    refine .inr fun _ hm => ?_
    rw [hi.placed.exclusive.once hm ht, hs]
    rfl
  | retired _ _ hout => exact .inr fun hp hm => absurd hm (hout hp)

end Fate

def Calm (c : ℕ) (s s' : Sched) : Prop :=
  ∀ u ∈ s.tcbList (.runnable c), (s.tcb u).intention.exited = false → (s.tcb u).intention.blocked = false →
    u ∈ s'.tcbList (.runnable c) ∧ (s'.tcb u).intention = (s.tcb u).intention

theorem Calm.trans (h : Calm c s s₁) (h' : Calm c s₁ s') : Calm c s s' := by
  intro u hu hx hb
  obtain ⟨hu₁, hi₁⟩ := h u hu hx hb
  rw [← hi₁] at hx hb ⊢
  exact h' u hu₁ hx hb

theorem Retimed.calm (h : Retimed s s') : Calm c s s' := fun _ hu _ _ => ⟨by rw [h.tcbList]; exact hu, h.intention⟩

theorem Fate.calm (h : Fate c found s s' t) (ht : t ∈ s.tcbList (.runnable c))
    (hx : (s.tcb t).intention.exited = false) (hb : (s.tcb t).intention.blocked = false) :
    t ∈ s'.tcbList (.runnable c) ∧ (s'.tcb t).intention = (s.tcb t).intention := by
  cases h with
  | kept _ _ hu => exact ⟨hu.runnable.mpr ht, by rw [hu.tcb]⟩
  | picked _ _ _ _ hm hs => exact ⟨hm, by rw [hs]⟩
  | blocked _ h => exact absurd h (by simp [hb])
  | retired h => exact absurd h (by simp [hx])

inductive Passed (c : ℕ) (l : List ℕ) (found : Option ℕ) (s : Sched) : Scan → Prop
  | returned {s' : Sched} {l₁ l₂ : List ℕ} (hl : l = l₁ ++ s.runningThread c :: l₂)
      (hx : (s.tcb (s.runningThread c)).intention.exited = true) (hfate : ∀ t ∈ l₁, ∃ found, Fate c found s s' t)
      (hrest : ∀ t ∈ s.runningThread c :: l₂, Untouched t s s') : Passed c l found s (.returned s')
  | scanned {found' : Option ℕ} {s' : Sched} (hkeep : ∀ t, found = some t → found' = some t)
      (hnew : ∀ t, found' = some t → found = some t ∨
        t ∈ l ∧ (s.tcb t).availableNext = true ∧ (s'.tcb t).state = .running)
      (hfate : ∀ t ∈ l, Fate c found' s s' t) : Passed c l found s (.scanned found' s')

theorem Passed.cons {found₁ : Option ℕ} {out : Scan} (hrun : s₁.runningThread = s.runningThread)
    (hl : ∀ u ∈ l, Untouched u s s₁) (hfate : Fate c found₁ s s₁ t)
    (hfound : found₁ = found ∨ found = none ∧ found₁ = some t ∧ (s.tcb t).availableNext = true ∧ (s₁.tcb t).state = .running)
    (hafter : ∀ s', (out = .returned s' ∨ ∃ found', out = .scanned found' s') → Untouched t s₁ s')
    (h : Passed c l found₁ s₁ out) : Passed c (t :: l) found s out := by
  cases h with
  | @returned s' l₁ l₂ heq hx hpre hpost =>
    have hu := hafter s' (.inl rfl)
    rw [hrun] at heq hx hpost
    have hcur : Untouched (s.runningThread c) s s₁ := hl _ (by simp [heq])
    rw [hcur.tcb] at hx
    have hcons : t :: l = (t :: l₁) ++ s.runningThread c :: l₂ := by rw [heq, List.cons_append]
    refine .returned hcons hx ?_ fun u hm => ?_
    · intro u hm
      rcases List.mem_cons.mp hm with rfl | hm
      · exact ⟨found₁, hfate.after hu⟩
      · obtain ⟨found', hf⟩ := hpre u hm
        exact ⟨found', hf.before (hl u (by simp [heq, hm])) hrun⟩
    · exact (hl u (by rw [heq]; exact List.mem_append_right _ hm)).trans (hpost u hm)
  | @scanned found' s' hkeep hnew hall =>
    have hu := hafter s' (.inr ⟨found', rfl⟩)
    refine .scanned (fun u hfu => ?_) (fun u hfu => ?_) fun u hm => ?_
    · rcases hfound with rfl | ⟨hnone, _⟩
      · exact hkeep u hfu
      · exact absurd (hfu.symm.trans hnone) (by simp)
    · rcases hnew u hfu with hf₁ | ⟨hm, ha, hs⟩
      · rcases hfound with rfl | ⟨_, hft, ha, hs⟩
        · exact .inl hf₁
        · cases hft.symm.trans hf₁
          refine .inr ⟨by simp, ha, ?_⟩
          rw [hu.tcb, hs]
      · rw [(hl u hm).tcb] at ha
        exact .inr ⟨by simp [hm], ha, hs⟩
    · rcases List.mem_cons.mp hm with rfl | hm
      · exact (hfate.after hu).mono hkeep
      · exact (hall u hm).before (hl u hm) hrun

theorem scan_passed (hc : c < maxProcessorCount) {out : Scan} (hi : Inv strict r s) (hnd : l.Nodup)
    (hl : ∀ t ∈ l, t ∈ s.tcbList (.runnable c)) (he : scan env c c round l found s = some out) :
    Passed c l found s out := by
  induction l generalizing found s with
  | nil =>
    cases he
    exact .scanned (fun _ h => h) (fun _ h => .inl h) (by simp)
  | cons t l ih =>
    obtain ⟨htl, hnd⟩ := List.nodup_cons.mp hnd
    have ht : t ∈ s.tcbList (.runnable c) := hl t (by simp)
    rcases scan_cons hi ht he with ⟨hx, rfl, s', he', rfl⟩ | ⟨found₁, s₁, he, hm, hfate, hfound, _⟩
    · obtain ⟨x, y, rfl⟩ := refillTimeSlice_eq he'
      have hnil : s.runningThread c :: l = [] ++ s.runningThread c :: l := rfl
      refine .returned hnil hx (by simp) fun u hu => ?_
      have huc : u ≠ c := hi.placed.not_idle (hl u hu) hc
      exact ⟨modify_tcb_of_ne huc, fun _ => Iff.rfl⟩
    · have hi₁ := hm.inv hc hi
      have hrest : ∀ u ∈ l, Untouched u s s₁ := fun u hu => hm.untouched hc hi (by rintro rfl; exact htl hu)
      have hl₁ : ∀ u ∈ l, u ∈ s₁.tcbList (.runnable c) := fun u hu => (hrest u hu).runnable.mpr (hl u (by simp [hu]))
      refine Passed.cons hm.runningThread hrest hfate (hfound.imp_right fun h => ⟨h.1, h.2.1, h.2.2.1, h.2.2.2.2⟩) ?_
        (ih hi₁ hnd hl₁ he)
      rintro s' (rfl | ⟨found', rfl⟩)
      · cases scan_scanned hc hi₁ hnd hl₁ he with
        | returned hm' => exact hm'.untouched hc hi₁ fun h => h.elim (hi.placed.not_idle ht hc) htl
      · cases scan_scanned hc hi₁ hnd hl₁ he with
        | scanned hm' => exact hm'.untouched hc hi₁ htl

inductive Outgoing (I : Intention) (s : Sched) (c t : ℕ) : Prop
  | idle (ht : t = c) : Outgoing I s c t
  | runnable (ht : t ∈ s.tcbList (.runnable c)) (hs : (s.tcb t).state = .running) (hi : (s.tcb t).intention = I) :
      Outgoing I s c t
  | blocked (ht : t ∈ s.tcbList (.blocked c)) (hs : (s.tcb t).state = .blocked) (hb : I.blocked = true)
      (hx : I.exited = false) (hi : (s.tcb t).intention = { I with blocked := false }) : Outgoing I s c t

namespace Outgoing

theorem congr (h : Outgoing I s c t) (hk : ∀ {p : Place}, p.Scheduled → t ∈ s.tcbList p → t ∈ s'.tcbList p ∧
    (s'.tcb t).state = (s.tcb t).state ∧ (s'.tcb t).intention = (s.tcb t).intention) : Outgoing I s' c t := by
  cases h with
  | idle ht => exact .idle ht
  | runnable ht hs hi =>
    obtain ⟨hm, hs', hi'⟩ := hk (p := .runnable c) trivial ht
    exact .runnable hm (hs'.trans hs) (hi'.trans hi)
  | blocked ht hs hb hx hi =>
    obtain ⟨hm, hs', hi'⟩ := hk (p := .blocked c) trivial ht
    exact .blocked hm (hs'.trans hs) hb hx (hi'.trans hi)

theorem untouched (h : Outgoing I s c t) (hu : Untouched t s s') : Outgoing I s' c t :=
  h.congr fun hp hm => ⟨(hu.mem hp).mpr hm, by rw [hu.tcb], by rw [hu.tcb]⟩

theorem retimed (h : Outgoing I s c t) (hr : Retimed s s') : Outgoing I s' c t :=
  h.congr fun _ hm => ⟨by rw [hr.tcbList]; exact hm, hr.state, hr.intention⟩

theorem of_runnable (h : Outgoing I s c t) (hi : Inv strict r s) (hc : c < maxProcessorCount)
    (ht : t ∈ s.tcbList (.runnable c)) : (s.tcb t).state = .running ∧ (s.tcb t).intention = I := by
  cases h with
  | idle he => exact absurd he (hi.placed.not_idle ht hc)
  | runnable _ hs hI => exact ⟨hs, hI⟩
  | blocked hb => exact absurd (hi.placed.exclusive.once ht hb) (by simp)

theorem not_available (h : Outgoing I s c t) (hi : Inv strict r s) (hc : c < maxProcessorCount)
    (ht : t ∈ s.tcbList (.runnable c)) : (s.tcb t).availableNext = false := by
  simp [TCB.availableNext, (h.of_runnable hi hc ht).1]

theorem scanned (h : Outgoing I s c (s.runningThread c)) (hi : Inv strict r s) (hc : c < maxProcessorCount)
    (hout : s.runningThread c ∉ s.tcbList (.runnable c) → Untouched (s.runningThread c) s s')
    (hfate : s.runningThread c ∈ s.tcbList (.runnable c) → Fate c found s s' (s.runningThread c)) :
    Outgoing I s' c (s.runningThread c) := by
  by_cases hm : s.runningThread c ∈ s.tcbList (.runnable c)
  · obtain ⟨_, hI⟩ := h.of_runnable hi hc hm
    cases hfate hm with
    | kept _ _ hu => exact h.untouched hu
    | picked _ _ ha => exact absurd ha (by simp [h.not_available hi hc hm])
    | blocked hx hb ht hs =>
      rw [hI] at hx hb hs
      refine .blocked ht ?_ hb hx ?_
      · rw [hs]
      · rw [hs]
    | retired _ hn => exact absurd rfl hn
  · exact h.untouched (hout hm)

end Outgoing

section Selection

variable (hc : c < maxProcessorCount) (hi : Inv strict r s) (ha : Agrees (insert (s.runningThread c) X) s)
  (hout : Outgoing I s c (s.runningThread c))
include hc hi ha hout

theorem scan_returned (hpre : s.runningThread c ≠ c → I.exited = true →
      ∀ t ∈ (s.tcbList (.runnable c)).takeWhile (· ≠ s.runningThread c), ¬(s.tcb t).Selectable)
    (he : scan env c c round (s.tcbList (.runnable c)) none s = some (.returned s')) :
    Agrees (insert (s.runningThread c) X) s' ∧ Outgoing I s' c (s.runningThread c) ∧ Calm c s s' := by
  have hnd := hi.placed.exclusive.nodup (.runnable c)
  cases scan_scanned hc hi hnd (fun _ h => h) he with
  | returned hm =>
    have hi' := hm.inv hc hi
    cases scan_passed hc hi hnd (fun _ h => h) he with
    | @returned _ l₁ l₂ heq hx hfate hrest =>
      have hmem : s.runningThread c ∈ s.tcbList (.runnable c) := by simp [heq]
      have hcur : s.runningThread c ≠ c := hi.placed.not_idle hmem hc
      have hne : ∀ u ∈ l₁, u ≠ s.runningThread c := by
        rintro u hu rfl
        rw [heq] at hnd
        exact (List.nodup_append.mp hnd).2.2 _ hu _ (by simp) rfl
      rw [(hout.of_runnable hi hc hmem).2] at hx
      have hwhile : (s.tcbList (.runnable c)).takeWhile (· ≠ s.runningThread c) = l₁ := by
        rw [heq, List.takeWhile_append_of_pos fun u hu => by simpa using hne u hu]
        simp
      refine ⟨ha.carry fun {u} hu => ?_, hout.untouched (hrest _ (by simp)), fun u hu hxu hbu => ?_⟩
      · by_cases hl : u ∈ s.tcbList (.runnable c)
        · rw [heq] at hl
          rcases List.mem_append.mp hl with hl | hl
          · obtain ⟨found, hf⟩ := hfate u hl
            exact (hf.fits hi' fun hsel => absurd hsel (hpre hcur hx u (hwhile.symm ▸ hl))).imp_left fun h => ⟨hu, h⟩
          · exact .inl ⟨hu, hrest u hl⟩
        · by_cases huc : u = c
          · exact .inr fun _ hm => absurd huc (hi'.placed.not_idle hm hc)
          · exact .inl ⟨hu, hm.untouched hc hi fun h => h.elim huc hl⟩
      · have hl := hu
        rw [heq] at hl
        rcases List.mem_append.mp hl with hl | hl
        · obtain ⟨found, hf⟩ := hfate u hl
          exact hf.calm hu hxu hbu
        · exact ⟨(hrest u hl).runnable.mpr hu, by rw [(hrest u hl).tcb]⟩

theorem scan_found (he : scan env c c round (s.tcbList (.runnable c)) none s = some (.scanned found s')) :
    Agrees ({t | found = some t} ∪ insert (s.runningThread c) X) s' ∧ Outgoing I s' c (s.runningThread c) ∧
      (s.runningThread c ∈ s.tcbList (.runnable c) → I.exited = false) ∧
      (∀ t, found = some t → t ≠ s.runningThread c ∧ t ∈ s'.tcbList (.runnable c) ∧ (s'.tcb t).state = .running) ∧
      Calm c s s' := by
  have hnd := hi.placed.exclusive.nodup (.runnable c)
  cases scan_scanned hc hi hnd (fun _ h => h) he with
  | scanned hm _ hf _ =>
    have hi' := hm.inv hc hi
    cases scan_passed hc hi hnd (fun _ h => h) he with
    | scanned _ hnew hfate =>
      have hfree {u : ℕ} (hu : u ∉ s.tcbList (.runnable c)) : Untouched u s s' := hm.untouched hc hi hu
      refine ⟨ha.carry fun {u} hu => ?_, hout.scanned hi hc hfree (hfate _), fun hmem => ?_, fun t ht => ?_, ?_⟩
      · rw [Set.mem_union, not_or] at hu
        by_cases hl : u ∈ s.tcbList (.runnable c)
        · exact ((hfate u hl).fits hi' fun _ => hu.1).imp_left fun h => ⟨hu.2, h⟩
        · exact .inl ⟨hu.2, hfree hl⟩
      · rw [← (hout.of_runnable hi hc hmem).2]
        cases hfate _ hmem with
        | kept hx => exact hx
        | picked hx => exact hx
        | blocked hx => exact hx
        | retired _ hn => exact absurd rfl hn
      · rcases hnew t ht with hnone | ⟨hl, hav, hs⟩
        · exact absurd hnone (by simp)
        · refine ⟨?_, ?_, hs⟩
          · rintro rfl
            exact absurd hav (by simp [hout.not_available hi hc hl])
          · rcases hf with hf | ⟨w, _, hw, hwr⟩
            · exact absurd (ht.symm.trans hf) (by simp)
            · cases ht.symm.trans hw
              exact hwr
      · exact fun u hu => (hfate u hu).calm hu

end Selection

structure Choice (I : Intention) (X : Set ℕ) (c curr next : ℕ) (s : Sched) : Prop where
  agrees : Agrees (insert next (insert curr X)) s
  outgoing : Outgoing I s c curr
  incoming : next = curr ∨ next = c ∨ next ∈ s.tcbList (.runnable c) ∧ (s.tcb next).state = .running

theorem selectNextThread_choice (hc : c < maxProcessorCount) {n next : ℕ} (hi : Inv strict r s)
    (hX : ∀ u ∈ X, u ∉ s.tcbList (.runnable c)) (ha : Agrees (insert (s.runningThread c) X) s)
    (hout : Outgoing I s c (s.runningThread c))
    (hpre : s.runningThread c ≠ c → I.exited = true →
      ∀ t ∈ (s.tcbList (.runnable c)).takeWhile (· ≠ s.runningThread c), ¬(s.tcb t).Selectable)
    (he : selectNextThread env c n s = some (next, s')) :
    Choice I X c (s.runningThread c) next s' ∧ Calm c s s' ∧
      (next = s.runningThread c → next ≠ c → ∀ u ∈ s'.tcbList (.runnable c), u = next) := by
  induction n generalizing s with
  | zero => exact absurd he (by simp [selectNextThread])
  | succ n ih =>
    rw [selectNextThread, hi.current_core hc] at he
    split at he
    · exact absurd he (by simp)
    · next hscan =>
      cases he
      obtain ⟨ha', hout', hcalm⟩ := scan_returned hc hi ha hout hpre hscan
      exact ⟨⟨ha'.mono (Set.subset_insert _ _), hout', .inr (.inl rfl)⟩, hcalm, fun _ h => absurd rfl h⟩
    · next t s₁ hscan =>
      cases he
      obtain ⟨ha', hout', _, hf, hcalm⟩ := scan_found hc hi ha hout hscan
      obtain ⟨hne, hmem, hs⟩ := hf _ rfl
      refine ⟨⟨ha'.mono ?_, hout', .inr (.inr ⟨hmem, hs⟩)⟩, hcalm, fun h => absurd h hne⟩
      rintro u (hu | hu)
      · exact .inl (Option.some.inj hu).symm
      · exact .inr hu
    · next s₁ hscan =>
      obtain ⟨ha', hout', hx, _, hcalm⟩ := scan_found hc hi ha hout hscan
      have ha₁ : Agrees (insert (s.runningThread c) X) s₁ := by
        refine ha'.mono ?_
        rintro u (hu | hu)
        · exact absurd hu (by simp)
        · exact hu
      cases scan_scanned hc hi (hi.placed.exclusive.nodup _) (fun _ h => h) hscan with
      | scanned hm _ _ hn =>
        have hi₁ := hm.inv hc hi
        have hsub {u : ℕ} (hu : u ∈ s₁.tcbList (.runnable c)) : u ∈ s.tcbList (.runnable c) := by
          by_contra hl
          exact hl ((hm.untouched hc hi hl).runnable.mp hu)
        split at he
        · exact absurd he (by simp)
        · next s₂ hrefill =>
          obtain ⟨hm₂, hr, _⟩ : Moves strict env c {t | t ∈ s₁.tcbList (.runnable c)} s₁ s₂ ∧ _ :=
            refillReady_spec (fun _ h => h) hrefill
          have hrun : s₂.runningThread = s.runningThread := hm₂.runningThread.trans hm.runningThread
          have hnx : s₂.runningThread c ≠ c → I.exited ≠ true := by
            rw [hrun]
            intro hne
            cases hout with
            | idle h => exact absurd h hne
            | runnable h => simp [hx h]
            | blocked _ _ _ h => simp [h]
          have hlist : s₂.tcbList = s₁.tcbList := hr.tcbList
          have hrest := ih (hm₂.inv hc hi₁) (fun u hu h => hX u hu (hsub (hlist ▸ h))) (hrun ▸ ha₁.alike hr.alike)
            (hrun ▸ hout'.retimed hr) (fun hne hI => absurd hI (hnx hne)) he
          rw [hrun] at hrest
          exact ⟨hrest.1, (hcalm.trans hr.calm).trans hrest.2.1, hrest.2.2⟩
        · next s₂ hrefill =>
          obtain ⟨_, _, hb⟩ : Moves strict env c {t | t ∈ s₁.tcbList (.runnable c)} s₁ s₂ ∧ _ :=
            refillReady_spec (fun _ h => h) hrefill
          obtain ⟨rfl, hslice⟩ := hb rfl
          -- a READY thread would have been found or refilled, so only the current one can be left
          have honly : ∀ u ∈ s₂.tcbList (.runnable c), u = s.runningThread c := by
            intro u hu
            by_contra hne
            have hready : (s₂.tcb u).state = .ready := ha₁ (.runnable c) u hu fun h => h.elim hne fun h => hX u h (hsub hu)
            have hav := hn rfl u (hsub hu) hu
            simp only [TCB.availableNext, hready, decide_true, Bool.and_true, decide_eq_false_iff_not, not_lt] at hav
            exact hslice u hu ⟨hready, hav⟩
          split at he
          · obtain ⟨t, hhead, heq⟩ := Option.map_eq_some_iff.mp he
            cases heq
            obtain rfl := honly _ (List.mem_of_head? hhead)
            exact ⟨⟨ha₁.mono (Set.subset_insert _ _), hout', .inl rfl⟩, hcalm, fun _ _ => honly⟩
          · cases he
            exact ⟨⟨ha₁.mono (Set.subset_insert _ _), hout', .inr (.inl rfl)⟩, hcalm, fun _ h => absurd rfl h⟩

end Sched

end Azalea
