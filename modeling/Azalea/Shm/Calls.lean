import Azalea.Shm.Table

namespace Azalea
open MM

inductive ShmCall where
  | get (key : ℤ) (size shmflg pid : ℕ)
  | attach (shmid : ℤ) (pid : ℕ)
  | detach (shmaddr pid : ℕ)
  | control (shmid : ℤ) (cmd : ShmCmd) (pid : ℕ)
deriving DecidableEq, Repr

namespace ShmInfo
variable {s s' : ShmInfo}

def call (s : ShmInfo) : ShmCall → ShmInfo
  | .get key size shmflg pid => (s.shmget key size shmflg pid).1
  | .attach shmid pid => (s.shmat shmid pid).1
  | .detach shmaddr pid => (s.shmdt shmaddr pid).1
  | .control shmid cmd pid => (s.shmctl shmid cmd pid).1

theorem extend_cases {i size : ℕ} (hlt : (s.region i).segsz < size) :
    (shmGetBuddyBlockSize (s.region i).segsz < size ∧ s.shmExtend i size = (s, -enomem)) ∨
      (size ≤ shmGetBuddyBlockSize (s.region i).segsz ∧ s.shmExtend i size =
        ({ s with mem := memset s.mem ((s.region i).data + (s.region i).segsz) 0#8 (size - (s.region i).segsz)
          }.setRegion i ((s.region i).withSegsz size), 1)) := by
  unfold shmExtend
  dsimp only
  rw [if_pos hlt]
  by_cases hc : shmGetBuddyBlockSize (s.region i).segsz < size
  · rw [if_pos hc]
    exact Or.inl ⟨hc, rfl⟩
  · rw [if_neg hc]
    exact Or.inr ⟨Nat.le_of_not_lt hc, rfl⟩

inductive Refused (s : ShmInfo) (key : ℤ) (size shmflg : ℕ) : Prop
  | unsupported : key = 0 → Refused s key size shmflg
  | absent : key ≠ 0 → s.shmFind key = none → shmflg &&& ipcCreat = 0 → Refused s key size shmflg
  | small (i : ℕ) : key ≠ 0 → s.shmFind key = some i → shmflg &&& ipcCreat = 0 → (s.region i).segsz < size →
      Refused s key size shmflg
  | blocked (i : ℕ) : key ≠ 0 → s.shmFind key = some i → shmflg &&& ipcCreat ≠ 0 → (s.region i).segsz < size →
      shmGetBuddyBlockSize (s.region i).segsz < size → Refused s key size shmflg

inductive Answered (s : ShmInfo) (key : ℤ) (size shmflg pid : ℕ) : ShmInfo × ℤ → Prop
  | refused : s.Refused key size shmflg → Answered s key size shmflg pid (s, -1)
  | created : key ≠ 0 → s.shmFind key = none → shmflg &&& ipcCreat ≠ 0 →
      Answered s key size shmflg pid ((s.shmCreate key size shmflg pid).1,
        if (s.shmCreate key size shmflg pid).2 < 0 then -1 else (s.shmCreate key size shmflg pid).2)
  | reopened (i : ℕ) : key ≠ 0 → s.shmFind key = some i → size ≤ (s.region i).segsz →
      Answered s key size shmflg pid (s.reopen i, i)
  | extended (i : ℕ) : key ≠ 0 → s.shmFind key = some i → shmflg &&& ipcCreat ≠ 0 →
      (s.region i).segsz < size → size ≤ shmGetBuddyBlockSize (s.region i).segsz →
      Answered s key size shmflg pid
        (({ s with mem := memset s.mem ((s.region i).data + (s.region i).segsz) 0#8 (size - (s.region i).segsz)
          }.setRegion i ((s.region i).withSegsz size)).reopen i, i)

theorem shmget_answered (hready : s.ready = s) (key : ℤ) (size shmflg pid : ℕ) :
    Answered s key size shmflg pid (s.shmget key size shmflg pid) := by
  unfold shmget underLock
  dsimp only
  rw [hready]
  by_cases hk : key = ipcPrivate
  · rw [if_pos hk]
    exact .refused (.unsupported hk)
  rw [if_neg hk]
  cases hfind : s.shmFind key with
  | none =>
    dsimp only
    by_cases hc : shmflg &&& ipcCreat ≠ 0
    · rw [if_pos hc]
      have hcreated : Answered s key size shmflg pid _ := .created hk hfind hc
      generalize s.shmCreate key size shmflg pid = r at hcreated ⊢
      split_ifs at hcreated ⊢
      · exact hcreated
      · exact hcreated
    · rw [if_neg hc]
      exact .refused (.absent hk hfind (not_not.mp hc))
  | some i =>
    dsimp only
    by_cases hlt : (s.region i).segsz < size
    · rw [if_pos hlt]
      by_cases hc : shmflg &&& ipcCreat ≠ 0
      · rw [if_pos hc]
        rcases extend_cases hlt with ⟨hgt, hext⟩ | ⟨hle, hext⟩
        · rw [hext, if_pos (show (-enomem : ℤ) < 0 by decide)]
          exact .refused (.blocked i hk hfind hc hlt hgt)
        · rw [hext, if_neg (show ¬ (1 : ℤ) < 0 by decide)]
          exact .extended i hk hfind hc hlt hle
      · rw [if_neg hc]
        exact .refused (.small i hk hfind (not_not.mp hc) hlt)
    · rw [if_neg hlt]
      exact .reopened i hk hfind (Nat.le_of_not_lt hlt)

theorem toNat_id {shmid : ℤ} (hr : ¬ (shmid < 0 ∨ shmid ≥ configArchShmMaxregions)) :
    ∃ i : ℕ, i < configArchShmMaxregions ∧ shmid = i ∧ shmid.toNat = i := by
  refine ⟨shmid.toNat, ?_, ?_, rfl⟩ <;> simp only [configArchShmMaxregions] at hr ⊢ <;> omega

inductive Attached (s : ShmInfo) (pid : ℕ) : ℤ → ShmInfo × ℕ → Prop
  | refused (shmid : ℤ) : Attached s pid shmid (s, 0)
  | attached {i : ℕ} : i < configArchShmMaxregions → (s.region i).InUse → (s.region i).data ≠ 0 →
      Attached s pid i (s.setRegion i
        { s.region i with nattch := ((s.region i).nattch + 1) % 2 ^ 16, lpid := pid }, (s.region i).data)

theorem shmat_attached (s : ShmInfo) (shmid : ℤ) (pid : ℕ) : Attached s pid shmid (s.shmat shmid pid) := by
  unfold shmat
  by_cases hr : shmid < 0 ∨ shmid ≥ configArchShmMaxregions
  · rw [if_pos hr]
    exact .refused shmid
  obtain ⟨i, hi, he, hn⟩ := toNat_id hr
  rw [if_neg hr, hn]
  by_cases hu : (s.region i).InUse
  · dsimp only
    rw [if_neg (not_not.mpr hu)]
    by_cases hd : (s.region i).data = 0
    · rw [if_pos hd]
      exact .refused shmid
    · rw [if_neg hd, he]
      exact .attached hi hu hd
  · dsimp only
    rw [if_pos hu]
    exact .refused shmid

inductive Detached (s : ShmInfo) (pid : ℕ) : ℕ → ShmInfo × ℤ → Prop
  | refused (shmaddr : ℕ) : Detached s pid shmaddr (s, -1)
  | released {i : ℕ} : i < configArchShmMaxregions → (s.region i).InUse → 0 < (s.region i).nattch →
      ((s.region i).Unlinked → (s.region i).nattch ≠ 1) →
      Detached s pid (s.region i).data
        (s.setRegion i { s.region i with nattch := (s.region i).nattch - 1, lpid := pid }, 0)
  | destroyed {i : ℕ} : i < configArchShmMaxregions → (s.region i).InUse → (s.region i).nattch = 1 →
      (s.region i).Unlinked → Detached s pid (s.region i).data (s.shmDestroy i, 0)

theorem shmDestroy_setRegion (s : ShmInfo) (i n : ℕ) :
    (s.setRegion i { s.region i with nattch := n }).shmDestroy i = s.shmDestroy i := by
  unfold shmDestroy
  simp only [setRegion_self]
  by_cases hd : (s.region i).data ≠ 0
  · simp only [if_pos hd, shmFree, setRegion, Function.update_idem]
  · simp only [if_neg hd, setRegion, Function.update_idem]

theorem shmdt_detached (s : ShmInfo) (shmaddr pid : ℕ) : Detached s pid shmaddr (s.shmdt shmaddr pid) := by
  unfold shmdt
  cases hf : s.firstRegion (fun r => decide (r.data = shmaddr)) with
  | none => exact .refused shmaddr
  | some i =>
    obtain ⟨hi, hd⟩ := firstRegion_some hf
    obtain rfl : (s.region i).data = shmaddr := of_decide_eq_true hd
    dsimp only
    by_cases hu : (s.region i).InUse
    · rw [if_neg (not_not.mpr hu)]
      split_ifs with h0 h1 hl
      · exact .refused _
      · rw [shmDestroy_setRegion]
        exact .destroyed hi hu (by omega) hl
      · have hn : (s.region i).nattch = 1 := by omega
        have hreleased : Detached s pid (s.region i).data _ := .released hi hu (by omega) fun hl' => absurd hl' hl
        rwa [hn] at hreleased
      · exact .released hi hu (by omega) (fun _ => by omega)
    · rw [if_pos hu]
      exact .refused _

inductive Controlled (s : ShmInfo) (pid : ℕ) : ℤ → ShmCmd → ShmInfo × ℤ → Prop
  | refused (shmid : ℤ) (cmd : ShmCmd) : Controlled s pid shmid cmd (s, -1)
  | stated {i : ℕ} (buf : ℕ) : i < configArchShmMaxregions → (s.region i).InUse →
      Controlled s pid i (.stat buf) (s.setRegion i { s.region i with lpid := pid }, 0)
  | set {i : ℕ} (mode : ℕ) : i < configArchShmMaxregions → (s.region i).InUse →
      Controlled s pid i (.set mode) (s.setRegion i { s.region i with mode := mode, lpid := pid }, 0)
  | unlinked {i : ℕ} : i < configArchShmMaxregions → (s.region i).InUse → 0 < (s.region i).nattch →
      Controlled s pid i .rmid
        (s.setRegion i { s.region i with flags := (s.region i).flags ||| srflagUnlinked, lpid := pid }, 0)
  | destroyed {i : ℕ} : i < configArchShmMaxregions → (s.region i).InUse → (s.region i).nattch = 0 →
      Controlled s pid i .rmid (s.shmDestroy i, 0)

theorem shmctl_controlled (s : ShmInfo) (shmid : ℤ) (cmd : ShmCmd) (pid : ℕ) :
    Controlled s pid shmid cmd (s.shmctl shmid cmd pid) := by
  unfold shmctl
  by_cases hr : shmid < 0 ∨ shmid ≥ configArchShmMaxregions
  · rw [if_pos hr]
    exact .refused shmid cmd
  obtain ⟨i, hi, he, hn⟩ := toNat_id hr
  rw [if_neg hr, hn, he]
  by_cases hu : (s.region i).InUse
  · dsimp only
    rw [if_neg (not_not.mpr hu)]
    cases cmd with
    | stat buf =>
      dsimp only
      split_ifs
      · exact .refused _ _
      · exact .stated buf hi hu
    | set mode => exact .set mode hi hu
    | rmid =>
      dsimp only
      split_ifs with h0
      · exact .unlinked hi hu h0
      · exact .destroyed hi hu (by omega)
    | other => exact .refused _ _
  · dsimp only
    rw [if_pos hu]
    exact .refused _ _

inductive Effect (s : ShmInfo) : ShmInfo → Prop
  | unchanged : Effect s s
  | created (key : ℤ) (size shmflg pid : ℕ) : key ≠ 0 → s.shmFind key = none →
      Effect s (s.shmCreate key size shmflg pid).1
  | touched (i : ℕ) (r : ShmRegion) (mem : ℕ → BYTE) : (s.region i).InUse → r.InUse →
      r.key = (s.region i).key → r.data = (s.region i).data → Effect s ({ s with mem := mem }.setRegion i r)
  | destroyed (i : ℕ) : i < configArchShmMaxregions → (s.region i).InUse → Effect s (s.shmDestroy i)

theorem setRegion_setRegion (s : ShmInfo) (i : ℕ) (r r' : ShmRegion) :
    (s.setRegion i r).setRegion i r' = s.setRegion i r' := by
  simp only [setRegion, Function.update_idem]

namespace Tabled

theorem get_effect (h : s.Tabled) (key : ℤ) (size shmflg pid : ℕ) :
    Effect s (s.shmget key size shmflg pid).1 := by
  have hanswered := shmget_answered (if_neg h.flag) key size shmflg pid
  generalize s.shmget key size shmflg pid = r at hanswered
  cases hanswered with
  | refused => exact .unchanged
  | created hk hfind _ =>
    dsimp only
    exact .created key size shmflg pid hk hfind
  | reopened i hk hfind _ =>
    obtain ⟨-, hu, -⟩ := h.find_inUse hk hfind
    exact .touched i _ s.mem hu (inUse_of_flags rfl) rfl rfl
  | extended i hk hfind _ _ _ =>
    obtain ⟨-, hu, -⟩ := h.find_inUse hk hfind
    dsimp only
    rw [ShmInfo.reopen, setRegion_setRegion, setRegion_self]
    exact .touched i _ _ hu (inUse_of_flags rfl) rfl rfl

theorem call_effect (h : s.Tabled) (c : ShmCall) : Effect s (s.call c) := by
  cases c with
  | get key size shmflg pid => exact h.get_effect key size shmflg pid
  | attach shmid pid =>
    have hattached := shmat_attached s shmid pid
    rw [call]
    generalize s.shmat shmid pid = r at hattached
    cases hattached with
    | refused => exact .unchanged
    | attached _ hu _ => exact .touched _ _ s.mem hu hu rfl rfl
  | detach shmaddr pid =>
    have hdetached := shmdt_detached s shmaddr pid
    rw [call]
    generalize s.shmdt shmaddr pid = r at hdetached
    cases hdetached with
    | refused => exact .unchanged
    | released _ hu _ _ => exact .touched _ _ s.mem hu hu rfl rfl
    | destroyed hi hu _ _ => exact .destroyed _ hi hu
  | control shmid cmd pid =>
    have hcontrolled := shmctl_controlled s shmid cmd pid
    rw [call]
    generalize s.shmctl shmid cmd pid = r at hcontrolled
    cases hcontrolled with
    | refused => exact .unchanged
    | stated _ _ hu => exact .touched _ _ s.mem hu hu rfl rfl
    | set _ _ hu => exact .touched _ _ s.mem hu hu rfl rfl
    | unlinked _ hu _ => exact .touched _ _ s.mem hu (inUse_unlinked hu rfl) rfl rfl
    | destroyed hi hu _ => exact .destroyed _ hi hu

theorem effect (h : s.Tabled) (he : Effect s s') : s'.Tabled := by
  cases he with
  | unchanged => exact h
  | created key size shmflg pid hk hfind => exact h.create size shmflg pid hk hfind
  | touched i r mem hold hnew hkey hdata => exact h.touch hold hnew hkey hdata mem
  | destroyed i hi hu => exact h.destroy hi hu

theorem call (h : s.Tabled) (c : ShmCall) : (s.call c).Tabled := h.effect (h.call_effect c)

theorem backed_call {Q : Handed → ℕ → Prop} (h : s.Tabled) (hb : s.Backed Q) (c : ShmCall)
    (hnew : ∀ size, (s.heap.mm.azAlloc size).2 ≠ 0 →
      Q ⟨(s.heap.mm.azAlloc size).2, s.heap.mm.alignBuddyBlock size, size⟩ size)
    (hgrow : ∀ key size shmflg pid i, c = .get key size shmflg pid → s.shmFind key = some i →
      shmflg &&& ipcCreat ≠ 0 → (s.region i).segsz < size → size ≤ shmGetBuddyBlockSize (s.region i).segsz →
      ∀ x ∈ s.heap.handed, x.address = (s.region i).data → Q x (s.region i).segsz → Q x size) :
    (s.call c).Backed Q := by
  cases c with
  | get key size shmflg pid =>
    have hanswered := shmget_answered (if_neg h.flag) key size shmflg pid
    rw [ShmInfo.call]
    generalize s.shmget key size shmflg pid = r at hanswered
    cases hanswered with
    | refused => exact hb
    | created _ _ _ =>
      dsimp only
      exact h.backed_create hb key size shmflg pid (hnew size)
    | reopened i hk hfind _ =>
      obtain ⟨hi, hu, -⟩ := h.find_inUse hk hfind
      exact hb.same hi hu rfl rfl
    | extended i hk hfind hc hlt hle =>
      obtain ⟨hi, hu, -⟩ := h.find_inUse hk hfind
      obtain ⟨x, hx, ha, hq⟩ := hb i hi hu
      dsimp only
      rw [ShmInfo.reopen, setRegion_setRegion, setRegion_self]
      refine hb.touch ?_ _
      exact ⟨x, hx, ha, hgrow key size shmflg pid i rfl hfind hc hlt hle x hx ha hq⟩
  | attach shmid pid =>
    have hattached := shmat_attached s shmid pid
    rw [ShmInfo.call]
    generalize s.shmat shmid pid = r at hattached
    cases hattached with
    | refused => exact hb
    | attached hi hu _ => exact hb.same hi hu rfl rfl
  | detach shmaddr pid =>
    have hdetached := shmdt_detached s shmaddr pid
    rw [ShmInfo.call]
    generalize s.shmdt shmaddr pid = r at hdetached
    cases hdetached with
    | refused => exact hb
    | released hi hu _ _ => exact hb.same hi hu rfl rfl
    | destroyed hi hu _ _ => exact h.backed_destroy hb hi hu
  | control shmid cmd pid =>
    have hcontrolled := shmctl_controlled s shmid cmd pid
    rw [ShmInfo.call]
    generalize s.shmctl shmid cmd pid = r at hcontrolled
    cases hcontrolled with
    | refused => exact hb
    | stated _ hi hu => exact hb.same hi hu rfl rfl
    | set _ hi hu => exact hb.same hi hu rfl rfl
    | unlinked hi hu _ => exact hb.same hi hu rfl rfl
    | destroyed hi hu _ => exact h.backed_destroy hb hi hu

end Tabled
end ShmInfo
end Azalea
