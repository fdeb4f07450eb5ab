import Azalea.Foundation.Run
import Azalea.Shm.Ownership

namespace Azalea

namespace ShmInfo
variable {s : ShmInfo} {i j : ℕ}

def attachments (s : ShmInfo) (i : ℕ) : ShmCall → ℤ
  | .attach shmid pid => if shmid = i ∧ (s.shmat shmid pid).2 ≠ 0 then 1 else 0
  | .detach shmaddr pid => if (s.region i).data = shmaddr ∧ (s.shmdt shmaddr pid).2 = 0 then -1 else 0
  | _ => 0

def removal (s : ShmInfo) (i : ℕ) (marked : Bool) : ShmCall → Bool
  | .get key size shmflg pid => if (s.shmget key size shmflg pid).2 = i then false else marked
  | .control shmid .rmid pid => if shmid = i ∧ (s.shmctl shmid .rmid pid).2 = 0 then true else marked
  | _ => marked

inductive Fate (s s' : ShmInfo) (i : ℕ) (n : ℤ) (marked : Bool) : Prop
  | destroyed : s' = s.shmDestroy i → (s.region i).nattch + n = 0 → marked = true → Fate s s' i n marked
  | attached : (s'.region i).InUse → (s'.region i).data = (s.region i).data →
      (s'.region i).nattch = ((s.region i).nattch + 1) % 2 ^ 16 → n = 1 →
      marked = decide (s'.region i).Unlinked → Fate s s' i n marked
  | kept : (s'.region i).InUse → (s'.region i).data = (s.region i).data →
      ((s'.region i).nattch : ℤ) = (s.region i).nattch + n → n ≤ 0 → marked = decide (s'.region i).Unlinked →
      (n ≠ 0 → (s.region i).Unlinked → (s.region i).nattch + n ≠ 0) → Fate s s' i n marked

theorem setRegion_of_ne (s : ShmInfo) (r : ShmRegion) (h : j ≠ i) : (s.setRegion j r).region i = s.region i := by
  rw [setRegion]
  exact Function.update_of_ne h.symm r s.region

theorem shmDestroy_self (s : ShmInfo) (i : ℕ) : (s.shmDestroy i).region i = .zero := by
  rw [shmDestroy]
  exact setRegion_self _ i .zero

theorem not_inUse_destroy {s' : ShmInfo} (he : s' = s.shmDestroy i) : ¬ (s'.region i).InUse := by
  rw [he, shmDestroy_self]
  exact not_inUse_zero

theorem shmDestroy_of_ne (s : ShmInfo) (h : j ≠ i) : (s.shmDestroy j).region i = s.region i := by
  rw [shmDestroy, setRegion_of_ne _ _ h]
  split <;> rfl

theorem Fate.same {s' : ShmInfo} (he : s'.region i = s.region i) (hu : (s.region i).InUse) :
    Fate s s' i 0 (decide (s.region i).Unlinked) :=
  .kept (he ▸ hu) (by rw [he]) (by rw [he, add_zero]) le_rfl (by rw [he]) fun h => absurd rfl h

theorem not_unlinked_of_flags {r : ShmRegion} (h : r.flags = srflagInuse) : ¬ r.Unlinked := by
  rw [ShmRegion.Unlinked, h]
  decide

theorem unlinked_set (f : BYTE) : (f ||| srflagUnlinked) &&& srflagUnlinked ≠ 0#8 := by
  revert f
  decide +kernel

namespace Tabled

theorem fate_get (h : s.Tabled) (hu : (s.region i).InUse) (key : ℤ) (size shmflg pid : ℕ) :
    Fate s (s.call (.get key size shmflg pid)) i 0
      (s.removal i (decide (s.region i).Unlinked) (.get key size shmflg pid)) := by
  have hanswered := shmget_answered (if_neg h.flag) key size shmflg pid
  simp only [ShmInfo.call, removal]
  generalize s.shmget key size shmflg pid = r at hanswered ⊢
  cases hanswered with
  | refused =>
    rw [if_neg (by omega)]
    exact .same rfl hu
  | created hk hfind hc =>
    rcases h.create_cases key size shmflg pid with ⟨e, he, -, hcreate⟩ | ⟨j, -, hz, -, hcreate⟩
    · rw [hcreate]
      dsimp only
      rw [if_pos he, if_neg (by omega)]
      exact .same rfl hu
    · have hji : j ≠ i := by
        rintro rfl
        exact not_inUse_zero (hz ▸ hu)
      rw [hcreate]
      dsimp only
      rw [if_neg (Int.natCast_nonneg j).not_gt, if_neg (by omega)]
      exact .same (setRegion_of_ne _ _ hji) hu
  | reopened j hk hfind _ =>
    by_cases hji : j = i
    · subst hji
      rw [if_pos rfl]
      dsimp only [ShmInfo.reopen]
      refine .kept ?_ ?_ ?_ le_rfl ?_ fun hn => absurd rfl hn <;> rw [setRegion_self]
      · exact inUse_of_flags rfl
      · exact (add_zero _).symm
      · exact (decide_eq_false (not_unlinked_of_flags rfl)).symm
    · rw [if_neg (by omega)]
      exact .same (setRegion_of_ne _ _ hji) hu
  | extended j hk hfind _ _ _ =>
    dsimp only
    rw [ShmInfo.reopen, setRegion_setRegion, setRegion_self]
    by_cases hji : j = i
    · subst hji
      rw [if_pos rfl]
      refine .kept ?_ ?_ ?_ le_rfl ?_ fun hn => absurd rfl hn <;> rw [setRegion_self]
      · exact inUse_of_flags rfl
      · rfl
      · exact (add_zero _).symm
      · exact (decide_eq_false (not_unlinked_of_flags rfl)).symm
    · rw [if_neg (by omega)]
      exact .same (setRegion_of_ne _ _ hji) hu

theorem fate_attach (hu : (s.region i).InUse) (shmid : ℤ) (pid : ℕ) :
    Fate s (s.call (.attach shmid pid)) i (s.attachments i (.attach shmid pid)) (decide (s.region i).Unlinked) := by
  have hattached := shmat_attached s shmid pid
  simp only [ShmInfo.call, attachments]
  generalize s.shmat shmid pid = r at hattached ⊢
  cases hattached with
  | refused =>
    rw [if_neg (by simp)]
    exact .same rfl hu
  | @attached j hj huj hd =>
    by_cases hji : j = i
    · subst hji
      rw [if_pos ⟨rfl, hd⟩]
      refine .attached ?_ ?_ ?_ rfl ?_ <;> rw [setRegion_self]
      · exact huj
      · rfl
    · rw [if_neg (by omega)]
      exact .same (setRegion_of_ne _ _ hji) hu

theorem fate_detach (h : s.Tabled) (hi : i < configArchShmMaxregions) (hu : (s.region i).InUse) (shmaddr pid : ℕ) :
    Fate s (s.call (.detach shmaddr pid)) i (s.attachments i (.detach shmaddr pid))
      (decide (s.region i).Unlinked) := by
  have hdetached := shmdt_detached s shmaddr pid
  simp only [ShmInfo.call, attachments]
  generalize s.shmdt shmaddr pid = r at hdetached ⊢
  cases hdetached with
  | refused =>
    rw [if_neg (by simp)]
    exact .same rfl hu
  | @released j hj huj hn hlinked =>
    by_cases hji : j = i
    · subst hji
      rw [if_pos ⟨rfl, rfl⟩]
      refine .kept ?_ ?_ ?_ (by decide) ?_ fun _ hl => ?_ <;> try rw [setRegion_self]
      · exact huj
      · dsimp only
        omega
      · rfl
      · have := hlinked hl
        omega
    · rw [if_neg fun hd => hji (h.distinct j hj i hi huj hu hd.1.symm)]
      exact .same (setRegion_of_ne _ _ hji) hu
  | @destroyed j hj huj hn hlinked =>
    by_cases hji : j = i
    · subst hji
      rw [if_pos ⟨rfl, rfl⟩]
      exact .destroyed rfl (by rw [hn]; decide) (decide_eq_true hlinked)
    · rw [if_neg fun hd => hji (h.distinct j hj i hi huj hu hd.1.symm)]
      exact .same (shmDestroy_of_ne _ hji) hu

theorem fate_control (hu : (s.region i).InUse) (shmid : ℤ) (cmd : ShmCmd) (pid : ℕ) :
    Fate s (s.call (.control shmid cmd pid)) i 0
      (s.removal i (decide (s.region i).Unlinked) (.control shmid cmd pid)) := by
  have hcontrolled := shmctl_controlled s shmid cmd pid
  have touch : ∀ {j : ℕ} {r : ShmRegion}, r.flags = (s.region j).flags → r.data = (s.region j).data →
      r.nattch = (s.region j).nattch → Fate s (s.setRegion j r) i 0 (decide (s.region i).Unlinked) := by
    intro j r hf hd hn
    by_cases hji : j = i
    · subst hji
      refine .kept ?_ ?_ ?_ le_rfl ?_ fun h => absurd rfl h <;> rw [setRegion_self]
      · rwa [ShmRegion.InUse, hf]
      · exact hd
      · rw [hn, add_zero]
      · exact decide_eq_decide.mpr (by rw [ShmRegion.Unlinked, ShmRegion.Unlinked, hf])
    · exact .same (setRegion_of_ne _ _ hji) hu
  cases cmd with
  | rmid =>
    simp only [ShmInfo.call, removal]
    generalize s.shmctl shmid .rmid pid = r at hcontrolled ⊢
    cases hcontrolled with
    | refused =>
      rw [if_neg (by simp)]
      exact .same rfl hu
    | @unlinked j hj huj hn =>
      by_cases hji : j = i
      · subst hji
        rw [if_pos ⟨rfl, rfl⟩]
        refine .kept ?_ ?_ ?_ le_rfl ?_ fun h => absurd rfl h <;> rw [setRegion_self]
        · exact inUse_unlinked huj rfl
        · exact (add_zero _).symm
        · exact (decide_eq_true (unlinked_set _)).symm
      · rw [if_neg (by omega)]
        exact .same (setRegion_of_ne _ _ hji) hu
    | @destroyed j hj huj hn =>
      by_cases hji : j = i
      · subst hji
        rw [if_pos ⟨rfl, rfl⟩]
        exact .destroyed rfl (by rw [hn]; rfl) rfl
      · rw [if_neg (by omega)]
        exact .same (shmDestroy_of_ne _ hji) hu
  | stat buf =>
    simp only [ShmInfo.call, removal]
    generalize s.shmctl shmid (.stat buf) pid = r at hcontrolled ⊢
    cases hcontrolled with
    | refused => exact .same rfl hu
    | stated _ _ _ => exact touch rfl rfl rfl
  | set mode =>
    simp only [ShmInfo.call, removal]
    generalize s.shmctl shmid (.set mode) pid = r at hcontrolled ⊢
    cases hcontrolled with
    | refused => exact .same rfl hu
    | set _ _ _ => exact touch rfl rfl rfl
  | other =>
    simp only [ShmInfo.call, removal]
    generalize s.shmctl shmid .other pid = r at hcontrolled ⊢
    cases hcontrolled with
    | refused => exact .same rfl hu

theorem fate (h : s.Tabled) (hi : i < configArchShmMaxregions) (hu : (s.region i).InUse) (c : ShmCall) :
    Fate s (s.call c) i (s.attachments i c) (s.removal i (decide (s.region i).Unlinked) c) := by
  cases c with
  | get key size shmflg pid => exact h.fate_get hu key size shmflg pid
  | attach shmid pid => exact fate_attach hu shmid pid
  | detach shmaddr pid => exact h.fate_detach hi hu shmaddr pid
  | control shmid cmd pid => exact fate_control hu shmid cmd pid

theorem born (h : s.Tabled) (hnew : ¬ (s.region i).InUse) {c : ShmCall} (hu : ((s.call c).region i).InUse) :
    ((s.call c).region i).nattch = 0 ∧ ¬ ((s.call c).region i).Unlinked := by
  have heffect := h.call_effect c
  generalize s.call c = s' at heffect hu
  cases heffect with
  | unchanged => exact absurd hu hnew
  | created key size shmflg pid hk hfind =>
    rcases h.create_cases key size shmflg pid with ⟨e, -, -, hcreate⟩ | ⟨j, -, -, -, hcreate⟩
    · rw [hcreate] at hu
      exact absurd hu hnew
    · rw [hcreate] at hu ⊢
      by_cases hji : j = i
      · subst hji
        rw [setRegion_self]
        exact ⟨rfl, not_unlinked_of_flags rfl⟩
      · rw [setRegion_of_ne _ _ hji] at hu
        exact absurd hu hnew
  | touched j r mem hold _ _ _ =>
    have hji : j ≠ i := fun he => hnew (he ▸ hold)
    rw [setRegion_of_ne _ _ hji] at hu
    exact absurd hu hnew
  | destroyed j _ huj =>
    have hji : j ≠ i := fun he => hnew (he ▸ huj)
    rw [shmDestroy_of_ne _ hji] at hu
    exact absurd hu hnew

end Tabled

theorem Fresh.born (h : s.Fresh) (hi : i < configArchShmMaxregions) {c : ShmCall}
    (hu : ((s.call c).region i).InUse) :
    ((s.call c).region i).nattch = 0 ∧ ¬ ((s.call c).region i).Unlinked := by
  rcases fresh_cases h c with h' | ⟨he, -⟩
  · exact absurd hu (h'.not_inUse hi)
  · rw [he] at hu ⊢
    refine (ready_of_fresh h).toTabled.born ?_ hu
    rw [h.ready_region hi]
    exact not_inUse_zero

theorem attachments_eq_one {c : ShmCall} (h : s.attachments i c = 1) : ∃ pid, c = .attach i pid := by
  cases c with
  | attach shmid pid =>
    rw [attachments] at h
    split at h
    · next hc => exact ⟨pid, by rw [hc.1]⟩
    · exact absurd h (by decide)
  | detach shmaddr pid =>
    rw [attachments] at h
    split at h <;> exact absurd h (by decide)
  | get key size shmflg pid => exact absurd h zero_ne_one
  | control shmid cmd pid => exact absurd h zero_ne_one

theorem shmat_eq (hi : i < configArchShmMaxregions) (hu : (s.region i).InUse) (hd : (s.region i).data ≠ 0) (pid : ℕ) :
    s.shmat i pid = (s.setRegion i
      { s.region i with nattch := ((s.region i).nattch + 1) % 2 ^ 16, lpid := pid }, (s.region i).data) := by
  have hid : ¬ ((i : ℤ) < 0 ∨ (i : ℤ) ≥ configArchShmMaxregions) := by
    simp only [configArchShmMaxregions] at hi ⊢
    omega
  rw [shmat, if_neg hid, Int.toNat_natCast, if_neg (not_not.mpr hu), if_neg hd]

theorem attach_self (hi : i < configArchShmMaxregions) (hu : (s.region i).InUse) (hd : (s.region i).data ≠ 0)
    (pid : ℕ) : s.attachments i (.attach i pid) = 1 := by
  rw [attachments, shmat_eq hi hu hd]
  exact if_pos ⟨rfl, hd⟩

end ShmInfo

structure ShmLife where
  info : ShmInfo
  attached : ℕ → ℤ
  doomed : ℕ → Bool

namespace ShmLife
variable {x x₀ : ShmLife} {c : ShmCall} {i : ℕ}

def call (x : ShmLife) (c : ShmCall) : ShmLife where
  info := x.info.call c
  attached i := if (x.info.region i).InUse then x.attached i + x.info.attachments i c else 0
  doomed i := if (x.info.region i).InUse then x.info.removal i (x.doomed i) c else false

def Counted (x : ShmLife) : Prop :=
  ∀ i < configArchShmMaxregions, (x.info.region i).InUse → ((x.info.region i).nattch : ℤ) = x.attached i

def Freed (x : ShmLife) (i : ℕ) (s : ShmInfo) : Prop := ∀ y ∈ s.heap.handed, y.address ≠ (x.info.region i).data

structure Lawful (x : ShmLife) (c : ShmCall) : Prop where
  counted : (x.call c).Counted
  freed : ∀ i < configArchShmMaxregions, (x.info.region i).InUse →
    ¬ ((x.info.call c).region i).InUse ∨ x.Freed i (x.info.call c) →
    (x.call c).attached i = 0 ∧ (x.call c).doomed i = true
  collected : ∀ i < configArchShmMaxregions, (x.info.region i).InUse → x.doomed i = true →
    ∀ pid, c = .detach (x.info.region i).data pid → (x.info.shmdt (x.info.region i).data pid).2 = 0 →
    (x.call c).attached i = 0 → ¬ ((x.info.call c).region i).InUse ∧ x.Freed i (x.info.call c)

def Room (x : ShmLife) : ShmCall → Prop
  | .attach shmid _ => ∀ i < configArchShmMaxregions, shmid = i → (x.info.region i).InUse → x.attached i < 65535
  | _ => True

def Step (x x' : ShmLife) : Prop := ∃ c, x.Room c ∧ x' = x.call c

structure Good (x : ShmLife) : Prop where
  kept : x.info.Kept
  counted : x.Counted
  marked : ∀ i < configArchShmMaxregions, (x.info.region i).InUse → x.doomed i = decide (x.info.region i).Unlinked

theorem call_info (x : ShmLife) (c : ShmCall) : (x.call c).info = x.info.call c := rfl

theorem call_attached (hu : (x.info.region i).InUse) (c : ShmCall) :
    (x.call c).attached i = x.attached i + x.info.attachments i c := if_pos hu

theorem call_attached_new (hu : ¬ (x.info.region i).InUse) (c : ShmCall) : (x.call c).attached i = 0 := if_neg hu

theorem call_doomed (hu : (x.info.region i).InUse) (c : ShmCall) :
    (x.call c).doomed i = x.info.removal i (x.doomed i) c := if_pos hu

namespace Good

theorem born (h : x.Good) (hi : i < configArchShmMaxregions) (hn : ¬ (x.info.region i).InUse)
    (hu : ((x.info.call c).region i).InUse) :
    ((x.info.call c).region i).nattch = 0 ∧ ¬ ((x.info.call c).region i).Unlinked := by
  rcases h.kept with hf | ht
  · exact hf.born hi hu
  · exact ht.born hn hu

theorem tabled (h : x.Good) (hi : i < configArchShmMaxregions) (hu : (x.info.region i).InUse) : x.info.Tabled := by
  rcases h.kept with hf | ht
  · exact absurd hu (hf.not_inUse hi)
  · exact ht

theorem fate (h : x.Good) (hi : i < configArchShmMaxregions) (hu : (x.info.region i).InUse) (c : ShmCall) :
    x.info.Fate (x.info.call c) i (x.info.attachments i c) ((x.call c).doomed i) := by
  rw [call_doomed hu, h.marked i hi hu]
  exact (h.tabled hi hu).fate hi hu c

theorem call (h : x.Good) (hroom : x.Room c) : (x.call c).Good where
  kept := h.kept.call c
  counted i hi hu' := by
    by_cases hu : (x.info.region i).InUse
    · have hcount := h.counted i hi hu
      rw [call_attached hu]
      cases h.fate hi hu c with
      | destroyed he _ _ => exact absurd hu' (ShmInfo.not_inUse_destroy he)
      | attached _ _ hn hone _ =>
        obtain ⟨pid, rfl⟩ := ShmInfo.attachments_eq_one hone
        have hlt := hroom i hi rfl hu
        rw [hone]
        change (((x.info.call _).region i).nattch : ℤ) = _
        omega
      | kept _ _ hn _ _ _ => exact hn.trans (by rw [hcount])
    · have hborn := h.born hi hu hu'
      change (((x.info.call c).region i).nattch : ℤ) = _
      rw [call_attached_new hu, hborn.1]
      rfl
  marked i hi hu' := by
    by_cases hu : (x.info.region i).InUse
    · cases h.fate hi hu c with
      | destroyed he _ _ => exact absurd hu' (ShmInfo.not_inUse_destroy he)
      | attached _ _ _ _ hm => exact hm
      | kept _ _ _ _ hm _ => exact hm
    · have hborn := h.born hi hu hu'
      exact (if_neg hu).trans (decide_eq_false hborn.2).symm

theorem freed (h : x.Good) (hi : i < configArchShmMaxregions) (hu : (x.info.region i).InUse)
    (hgone : ¬ ((x.info.call c).region i).InUse ∨ x.Freed i (x.info.call c)) :
    (x.call c).attached i = 0 ∧ (x.call c).doomed i = true := by
  have stays : ((x.info.call c).region i).InUse →
      ((x.info.call c).region i).data = (x.info.region i).data → False := by
    intro hu' hd
    obtain ⟨y, hy, ha⟩ := ((h.tabled hi hu).call c).held i hi hu'
    rcases hgone with hn | hf
    · exact hn hu'
    · exact hf y hy (ha.trans hd)
  cases h.fate hi hu c with
  | destroyed _ hzero hmark => exact ⟨by rw [call_attached hu, ← h.counted i hi hu, hzero], hmark⟩
  | attached hu' hd _ _ _ => exact (stays hu' hd).elim
  | kept hu' hd _ _ _ _ => exact (stays hu' hd).elim

theorem collected (h : x.Good) (hi : i < configArchShmMaxregions) (hu : (x.info.region i).InUse)
    (hmark : x.doomed i = true) {pid : ℕ} (hok : (x.info.shmdt (x.info.region i).data pid).2 = 0)
    (hzero : (x.call (.detach (x.info.region i).data pid)).attached i = 0) :
    ¬ ((x.info.call (.detach (x.info.region i).data pid)).region i).InUse ∧
      x.Freed i (x.info.call (.detach (x.info.region i).data pid)) := by
  have hone : x.info.attachments i (.detach (x.info.region i).data pid) = -1 := if_pos ⟨rfl, hok⟩
  have hlinked : (x.info.region i).Unlinked := of_decide_eq_true (h.marked i hi hu ▸ hmark)
  rw [call_attached hu, ← h.counted i hi hu] at hzero
  cases h.fate hi hu (.detach (x.info.region i).data pid) with
  | destroyed he _ _ =>
    refine ⟨ShmInfo.not_inUse_destroy he, fun y hy => ?_⟩
    rw [he, (h.tabled hi hu).destroy_eq hi hu] at hy
    exact (((h.tabled hi hu).mem_destroy hi hu y).mp hy).2
  | attached _ _ _ hplus _ => omega
  | kept _ _ _ _ _ hlast => exact absurd hzero (hlast (by omega) hlinked)

theorem room_of_counted (h : x.Good) (hc : (x.call c).Counted) : x.Room c := by
  cases c with
  | attach shmid pid =>
    intro i hi hid hu
    subst hid
    have hone := ShmInfo.attach_self hi hu ((h.tabled hi hu).data_ne_zero hi hu) pid
    have hcount := h.counted i hi hu
    have hafter := hc i hi
    rw [call_attached hu, hone] at hafter
    cases h.fate hi hu (.attach i pid) with
    | destroyed _ hzero _ => omega
    | attached hu' _ hn _ _ =>
      have := hafter hu'
      change (((x.info.call _).region i).nattch : ℤ) = _ at this
      omega
    | kept _ _ _ hle _ _ => omega
  | _ => trivial

theorem lawful_iff (h : x.Good) (c : ShmCall) : x.Lawful c ↔ x.Room c := by
  refine ⟨fun hl => h.room_of_counted hl.counted, fun hroom => ⟨(h.call hroom).counted, ?_, ?_⟩⟩
  · intro i hi hu hgone
    exact h.freed hi hu hgone
  · rintro i hi hu hmark pid rfl hok hzero
    exact h.collected hi hu hmark hok hzero

end Good

theorem good_of_fresh (h : x.info.Fresh) : x.Good :=
  ⟨.inl h, fun _ hi hu => absurd hu (h.not_inUse hi), fun _ hi hu => absurd hu (h.not_inUse hi)⟩

theorem shm_lifetime (h : x₀.info.Fresh) (hr : Relation.ReflTransGen Step x₀ x) :
    x.Counted ∧ ∀ c, x.Lawful c ↔ x.Room c := by
  have hgood : x.Good := Run.invariant (fun hg ⟨_, hroom, he⟩ => he ▸ hg.call hroom) (good_of_fresh h) hr
  exact ⟨hgood.counted, hgood.lawful_iff⟩

def start : ShmLife := ⟨ShmInfo.blank, fun _ => 0, fun _ => false⟩

def opened : ShmLife := start.call (.get 1 4096 ipcCreat 0)

theorem opened_region : opened.info.region 0 = ⟨0, 4096, 0, 0, 0, srflagInuse, 1, 0xFFFF80003FFFF000⟩ := by
  have hregion := (@ShmInfo.blank_get 4096 (.inr rfl)).2.1
  rw [opened, call_info, start, hregion]

theorem opened_attached : opened.attached 0 = 0 := call_attached_new ShmInfo.not_inUse_zero _

theorem opened_lawful : ((opened.call (.attach 0 0)).call (.control 0 .rmid 0)).Lawful (.detach 0xFFFF80003FFFF000 0) := by
  have hroom : opened.Room (.attach 0 0) := by
    intro i _ hid _
    obtain rfl : i = 0 := by omega
    rw [opened_attached]
    decide
  have hrun : Relation.ReflTransGen Step start opened := .single ⟨.get 1 4096 ipcCreat 0, trivial, rfl⟩
  have hlast := (hrun.tail ⟨_, hroom, rfl⟩).tail ⟨.control 0 .rmid 0, trivial, rfl⟩
  exact ((shm_lifetime ShmInfo.blank_fresh hlast).2 (.detach 0xFFFF80003FFFF000 0)).mpr trivial

theorem attaches (hi : i < configArchShmMaxregions) (hu : (x.info.region i).InUse) (hd : (x.info.region i).data ≠ 0)
    (hn : (x.info.region i).nattch < 2 ^ 16) (n : ℕ) :
    (((List.replicate n (.attach i 0)).foldl call x).info.region i).InUse ∧
      (((List.replicate n (.attach i 0)).foldl call x).info.region i).nattch =
        ((x.info.region i).nattch + n) % 2 ^ 16 ∧
      ((List.replicate n (.attach i 0)).foldl call x).attached i = x.attached i + n := by
  induction n generalizing x with
  | zero => exact ⟨hu, (Nat.mod_eq_of_lt hn).symm, (add_zero _).symm⟩
  | succ n ih =>
    have hinfo : (x.call (.attach i 0)).info.region i =
        { x.info.region i with nattch := ((x.info.region i).nattch + 1) % 2 ^ 16, lpid := 0 } := by
      change (x.info.shmat i 0).1.region i = _
      rw [ShmInfo.shmat_eq hi hu hd, ShmInfo.setRegion_self]
    have hcount : (x.call (.attach i 0)).attached i = x.attached i + 1 := by
      rw [call_attached hu, ShmInfo.attach_self hi hu hd]
    have hrest : _ ∧ _ ∧ _ := ih (by rw [hinfo]; exact hu) (by rw [hinfo]; exact hd)
      (by rw [hinfo]; exact Nat.mod_lt _ (by decide))
    rw [List.replicate_succ, List.foldl_cons]
    refine ⟨hrest.1, ?_, ?_⟩
    · rw [hrest.2.1, hinfo]
      dsimp only
      omega
    · rw [hrest.2.2, hcount]
      push_cast
      omega

def attachedTimes (n : ℕ) : ShmLife := (List.replicate n (.attach (0 : ℕ) 0)).foldl call opened

theorem attachedTimes_region (n : ℕ) : ((attachedTimes n).info.region 0).InUse ∧
    ((attachedTimes n).info.region 0).nattch = n % 2 ^ 16 ∧ (attachedTimes n).attached 0 = n := by
  have hdata : (opened.info.region 0).data ≠ 0 := by
    rw [opened_region]
    simp
  have hcount : (opened.info.region 0).nattch = 0 := by rw [opened_region]
  have hrun := attaches (by decide) (by rw [opened_region]; exact ShmInfo.inUse_of_flags rfl) hdata
    (by rw [hcount]; decide) n
  rw [hcount, opened_attached, zero_add, zero_add] at hrun
  exact hrun

theorem unlawful_of_wrapped (hu : (x.info.region 0).InUse) (hn : (x.info.region 0).nattch = 0)
    (ha : x.attached 0 ≠ 0) : ¬ x.Counted ∧ ¬ ((x.info.call (.control 0 .rmid 0)).region 0).InUse ∧
      ¬ x.Lawful (.control 0 .rmid 0) := by
  have hgone : ¬ ((x.info.call (.control 0 .rmid 0)).region 0).InUse := by
    have he : x.info.shmctl 0 .rmid 0 = (x.info.shmDestroy 0, 0) := by
      rw [ShmInfo.shmctl, if_neg (by decide)]
      dsimp only [Int.toNat_zero]
      rw [if_neg (not_not.mpr hu), hn]
      rfl
    exact ShmInfo.not_inUse_destroy (congrArg Prod.fst he)
  refine ⟨fun hc => ?_, hgone, fun hl => ?_⟩
  · have hcount := hc 0 (by decide) hu
    rw [hn] at hcount
    exact ha hcount.symm
  · have hzero := (hl.freed 0 (by decide) hu (.inl hgone)).1
    rw [call_attached hu] at hzero
    exact ha ((add_zero _).symm.trans hzero)

theorem attachedTimes_unlawful : (attachedTimes 65536).attached 0 = (65536 : ℕ) ∧
    ¬ (attachedTimes 65536).Counted ∧
    ¬ (((attachedTimes 65536).info.call (.control 0 .rmid 0)).region 0).InUse ∧
    ¬ (attachedTimes 65536).Lawful (.control 0 .rmid 0) := by
  obtain ⟨hu, hn, ha⟩ := attachedTimes_region 65536
  refine ⟨ha, unlawful_of_wrapped hu hn ?_⟩
  rw [ha]
  decide

end ShmLife
end Azalea
