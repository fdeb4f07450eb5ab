import Azalea.Sched.Runs

namespace Azalea

namespace TCB

def stays (a : TCB) : Bool := !a.intention.exited && !a.intention.blocked

def picked (a : TCB) : TCB := { a with state := .running }

def refilled (a : TCB) : TCB :=
  if a.state = .ready ∧ a.remainingTimeSlice ≤ 0 then { a with remainingTimeSlice := a.timeSlice } else a

variable {a : TCB}

theorem availableNext_iff : a.availableNext = true ↔ 0 < a.remainingTimeSlice ∧ a.state = .ready := by
  simp [availableNext]

theorem refilled_of_exhausted (h : a.state = .ready) (hn : a.availableNext = false) :
    a.refilled = { a with remainingTimeSlice := a.timeSlice } := by
  refine if_pos ⟨h, ?_⟩
  by_contra hpos
  exact absurd (availableNext_iff.mpr ⟨not_le.mp hpos, h⟩) (by simp [hn])

theorem refilled_of_not_ready (h : a.state ≠ .ready) : a.refilled = a := if_neg fun hr => h hr.1

theorem refilled_eq (a : TCB) : ∃ x, a.refilled = { a with remainingTimeSlice := x } := by
  unfold refilled
  split
  · exact ⟨a.timeSlice, rfl⟩
  · exact ⟨a.remainingTimeSlice, rfl⟩

theorem refilled_available (hs : 0 < a.timeSlice) (hn : a.availableNext = false) :
    a.refilled.availableNext = decide (a.state = .ready) := by
  by_cases h : a.state = .ready
  · rw [refilled_of_exhausted h hn]
    simp [availableNext, h, hs]
  · rw [refilled_of_not_ready h, hn]
    simp [h]

end TCB

namespace Sched

set_option linter.style.nameCheck false

variable {s s' s₁ : Sched} {env : Env} {c cid t u : ℕ} {pre l : List ℕ} {pick pick' : Option ℕ}

def remaining (c : ℕ) (s : Sched) : List ℕ := (s.tcbList (.runnable c)).filter fun t => (s.tcb t).stays

def first (s : Sched) (l : List ℕ) : Option ℕ := (l.filter fun t => (s.tcb t).stays && (s.tcb t).availableNext).head?

@[simp] theorem countDec_count_self {p : Place} : (s.countDec p).count p = (s.count p + wordSize - 1) % wordSize :=
  Function.update_self ..

@[simp] theorem countInc_count_of_ne {p q : Place} (h : q ≠ p) : (s.countInc p).count q = s.count q :=
  Function.update_of_ne h ..

theorem destroyTcb_runnable : (s.destroyTcb env c t).tcbList (.runnable u) = s.tcbList (.runnable u) ∧
    (s.destroyTcb env c t).count (.runnable u) = s.count (.runnable u) := by
  unfold destroyTcb
  split_ifs <;> simp [dlListAddTail, countInc, initTcbDestroy, spliceLocal, Shelf.insert, Shelf.splice]

theorem retire_runnable : ∃ s', s.retire env c t (.runnable c) = some s' ∧
    s'.tcbList (.runnable c) = (s.tcbList (.runnable c)).erase t ∧
    s'.count (.runnable c) = (s.count (.runnable c) + wordSize - 1) % wordSize := by
  obtain ⟨s₁, hs₁⟩ : ∃ s₁, ((s.threadExit t).countDec (.runnable c)).dlListDel t = s₁ := ⟨_, rfl⟩
  have hlist : s₁.tcbList (.runnable c) = (s.tcbList (.runnable c)).erase t := by
    rw [← hs₁]
    rfl
  have hcount : s₁.count (.runnable c) = (s.count (.runnable c) + wordSize - 1) % wordSize := by
    rw [← hs₁]
    exact countDec_count_self
  have hstate : (s₁.tcb t).state = .exited := by
    rw [← hs₁, dlListDel_tcb, countDec_tcb, threadExit_tcb_self]
  rw [retire, hs₁, putTcb]
  simp only [modify_tcb_self, hstate, if_true]
  split
  · refine ⟨_, rfl, ?_⟩
    rw [destroyTcb_runnable.1, destroyTcb_runnable.2]
    exact ⟨hlist, hcount⟩
  · exact ⟨_, rfl, hlist, hcount⟩

theorem block_runnable : (s.block c t).tcbList (.runnable c) = (s.tcbList (.runnable c)).erase t ∧
    (s.block c t).count (.runnable c) = (s.count (.runnable c) + wordSize - 1) % wordSize := by
  constructor
  · rw [block_tcbList, Shelf.move, Shelf.insert_of_ne (by simp)]
    rfl
  · exact (countInc_count_of_ne (by simp)).trans countDec_count_self

structure Sweep (c cid : ℕ) (pre l : List ℕ) (s : Sched) : Prop where
  nodup : (pre ++ l).Nodup
  list : s.tcbList (.runnable c) = pre ++ l
  count : s.count (.runnable c) = (pre ++ l).length
  lt : (pre ++ l).length < wordSize
  allowed : ∀ t ∈ l, (s.tcb t).coreIsAllowed cid = true
  current : ∀ t ∈ l, (s.tcb t).intention.exited = true → s.runningThread c ≠ t

theorem Sweep.fresh (h : Sweep c cid pre (t :: l) s) : t ∉ l :=
  (List.nodup_cons.mp h.nodup.of_append_right).1

theorem Sweep.step {pre' : List ℕ} (h : Sweep c cid pre (t :: l) s) (htcb : ∀ u ≠ t, s₁.tcb u = s.tcb u)
    (hrun : s₁.runningThread = s.runningThread) (hsub : List.Sublist (pre' ++ l) (pre ++ t :: l))
    (hlist : s₁.tcbList (.runnable c) = pre' ++ l) (hcount : s₁.count (.runnable c) = (pre' ++ l).length) :
    Sweep c cid pre' l s₁ := by
  have hl (u : ℕ) (hu : u ∈ l) : s₁.tcb u = s.tcb u ∧ u ∈ t :: l :=
    ⟨htcb u (by rintro rfl; exact h.fresh hu), by simp [hu]⟩
  refine ⟨h.nodup.sublist hsub, hlist, hcount, hsub.length_le.trans_lt h.lt, fun u hu => ?_, fun u hu => ?_⟩
  · rw [(hl u hu).1]
    exact h.allowed u (hl u hu).2
  · rw [(hl u hu).1, hrun]
    exact h.current u (hl u hu).2

theorem Sweep.removed (h : Sweep c cid pre (t :: l) s) (htcb : ∀ u ≠ t, s₁.tcb u = s.tcb u)
    (hrun : s₁.runningThread = s.runningThread) (hlist : s₁.tcbList (.runnable c) = (s.tcbList (.runnable c)).erase t)
    (hcount : s₁.count (.runnable c) = (s.count (.runnable c) + wordSize - 1) % wordSize) :
    Sweep c cid pre l s₁ := by
  have hpre : t ∉ pre := fun hp => List.disjoint_of_nodup_append h.nodup hp (by simp)
  have hlen : (pre ++ t :: l).length = (pre ++ l).length + 1 := by simp [Nat.add_assoc]
  refine h.step htcb hrun ((List.sublist_cons_self t l).append_left pre) ?_ ?_
  · rw [hlist, h.list, List.erase_append_right _ hpre, List.erase_cons_head]
  · rw [hcount, h.count, hlen]
    exact qword_pred (hlen ▸ h.lt)

theorem Sweep.kept (h : Sweep c cid pre (t :: l) s) (htcb : ∀ u ≠ t, s₁.tcb u = s.tcb u)
    (hrun : s₁.runningThread = s.runningThread) (hlist : s₁.tcbList (.runnable c) = s.tcbList (.runnable c))
    (hcount : s₁.count (.runnable c) = s.count (.runnable c)) : Sweep c cid (pre ++ [t]) l s₁ := by
  have happend : pre ++ [t] ++ l = pre ++ t :: l := by simp
  refine h.step htcb hrun (by rw [happend]) ?_ ?_
  · rw [hlist, h.list, happend]
  · rw [hcount, h.count, happend]

structure Swept (c : ℕ) (pre l : List ℕ) (pick : Option ℕ) (s s' : Sched) : Prop where
  list : s'.tcbList (.runnable c) = pre ++ l.filter fun t => (s.tcb t).stays
  count : s'.count (.runnable c) = (s'.tcbList (.runnable c)).length
  runningThread : s'.runningThread = s.runningThread
  off : ∀ u ∉ l, s'.tcb u = s.tcb u
  on : ∀ u ∈ l, (s.tcb u).stays = true → s'.tcb u = if pick = some u then (s.tcb u).picked else s.tcb u
  live : ∀ u, (s.tcb u).intention.exited = false →
    (s'.tcb u).runningCore = (s.tcb u).runningCore ∧ (s'.tcb u).intention.exited = false

theorem filter_stays_congr (htcb : ∀ u ≠ t, s₁.tcb u = s.tcb u) (ht : t ∉ l) :
    (l.filter fun u => (s₁.tcb u).stays) = l.filter fun u => (s.tcb u).stays := by
  refine List.filter_congr fun u hu => ?_
  rw [htcb u (by rintro rfl; exact ht hu)]

theorem first_congr (htcb : ∀ u ≠ t, s₁.tcb u = s.tcb u) (ht : t ∉ l) : first s₁ l = first s l := by
  unfold first
  refine congrArg List.head? (List.filter_congr fun u hu => ?_)
  rw [htcb u (by rintro rfl; exact ht hu)]

theorem Swept.removed (h : Swept c pre l pick s₁ s') (hout : (s.tcb t).stays = false) (ht : t ∉ l)
    (htcb : ∀ u ≠ t, s₁.tcb u = s.tcb u) (hrun : s₁.runningThread = s.runningThread)
    (hlive : (s.tcb t).intention.exited = false →
      (s₁.tcb t).runningCore = (s.tcb t).runningCore ∧ (s₁.tcb t).intention.exited = false) :
    Swept c pre (t :: l) pick s s' where
  list := by
    rw [h.list, filter_stays_congr htcb ht, List.filter_cons_of_neg (by simp [hout])]
  count := h.count
  runningThread := h.runningThread.trans hrun
  off u hu := by
    rw [List.mem_cons, not_or] at hu
    rw [h.off u hu.2, htcb u hu.1]
  on u hu hstays := by
    rcases List.mem_cons.mp hu with rfl | hul
    · exact absurd hstays (by simp [hout])
    · have hut : u ≠ t := by
        rintro rfl
        exact ht hul
      rw [← htcb u hut] at hstays ⊢
      exact h.on u hul hstays
  live u hx := by
    by_cases hut : u = t
    · subst hut
      rw [h.off u ht]
      exact hlive hx
    · rw [← htcb u hut] at hx ⊢
      exact h.live u hx

theorem Swept.kept (h : Swept c (pre ++ [t]) l pick' s₁ s') (hin : (s.tcb t).stays = true) (ht : t ∉ l)
    (htcb : ∀ u ≠ t, s₁.tcb u = s.tcb u) (hrun : s₁.runningThread = s.runningThread)
    (hself : s₁.tcb t = if pick = some t then (s.tcb t).picked else s.tcb t)
    (hpick : ∀ u ∈ l, pick' = some u ↔ pick = some u) : Swept c pre (t :: l) pick s s' where
  list := by
    rw [h.list, filter_stays_congr htcb ht, List.filter_cons_of_pos (by simp [hin]), List.append_assoc,
      List.singleton_append]
  count := h.count
  runningThread := h.runningThread.trans hrun
  off u hu := by
    rw [List.mem_cons, not_or] at hu
    rw [h.off u hu.2, htcb u hu.1]
  on u hu hstays := by
    by_cases hut : u = t
    · subst hut
      rw [h.off u ht, hself]
    · have hul := (List.mem_cons.mp hu).resolve_left hut
      rw [← htcb u hut] at hstays ⊢
      rw [h.on u hul hstays]
      simp only [hpick u hul]
  live u hx := by
    by_cases hut : u = t
    · subst hut
      rw [h.off u ht, hself]
      split
      · exact ⟨rfl, hx⟩
      · exact ⟨rfl, hx⟩
    · rw [← htcb u hut] at hx ⊢
      exact h.live u hx

theorem first_removed (hout : (s.tcb t).stays = false) : first s (t :: l) = first s l := by
  rw [first, List.filter_cons_of_neg (by simp [hout])]
  rfl

theorem first_unavailable (hn : (s.tcb t).availableNext = false) : first s (t :: l) = first s l := by
  rw [first, List.filter_cons_of_neg (by simp [hn])]
  rfl

theorem first_available (hin : (s.tcb t).stays = true) (ha : (s.tcb t).availableNext = true) :
    first s (t :: l) = some t := by
  rw [first, List.filter_cons_of_pos (by simp [hin, ha]), List.head?_cons]

theorem mem_of_first (h : first s l = some t) : t ∈ l := (List.mem_filter.mp (List.mem_of_head? h)).1

section Scan

variable {round : ℕ} {found : Option ℕ}

theorem scan_exited (hx : (s.tcb t).intention.exited = true) (hn : s.runningThread c ≠ t)
    (he : s.retire env c t (.runnable c) = some s₁) :
    scan env c cid round (t :: l) found s = scan env c cid round l found s₁ := by
  rw [scan.eq_def]
  simp [hx, hn, he]

theorem scan_blocked (hx : (s.tcb t).intention.exited = false) (hb : (s.tcb t).intention.blocked = true) :
    scan env c cid round (t :: l) found s = scan env c cid round l found (s.block c t) := by
  rw [scan.eq_def]
  simp [hx, hb]

theorem scan_picks (hin : (s.tcb t).stays = true) (ha : (s.tcb t).availableNext = true)
    (hc : (s.tcb t).coreIsAllowed cid = true) :
    scan env c cid round (t :: l) none s = scan env c cid round l (some t) (s.setState t .running) := by
  obtain ⟨hx, hb⟩ : (s.tcb t).intention.exited = false ∧ (s.tcb t).intention.blocked = false := by
    simpa [TCB.stays] using hin
  rw [scan.eq_def]
  simp [hx, hb, ha, hc]

theorem scan_passes (hin : (s.tcb t).stays = true) (hc : (s.tcb t).coreIsAllowed cid = true)
    (h : found ≠ none ∨ (s.tcb t).availableNext = false) :
    scan env c cid round (t :: l) found s = scan env c cid round l found s := by
  obtain ⟨hx, hb⟩ : (s.tcb t).intention.exited = false ∧ (s.tcb t).intention.blocked = false := by
    simpa [TCB.stays] using hin
  rw [scan.eq_def]
  rcases h with h | h
  · obtain ⟨u, rfl⟩ := Option.ne_none_iff_exists'.mp h
    simp [hx, hb, hc]
  · simp [hx, hb, h]

end Scan

theorem scan_swept (hs : Sweep c cid pre l s) (found : Option ℕ) :
    ∃ s', (∀ round, scan env c cid round l found s = some (.scanned (found.or (first s l)) s')) ∧
      Swept c pre l (if found = none then first s l else none) s s' := by
  induction l generalizing s pre found with
  | nil =>
    refine ⟨s, fun _ => by simp [scan, first], ?_⟩
    exact ⟨by simpa using hs.list, by rw [hs.count, hs.list], rfl, fun _ _ => rfl, by simp, fun _ hx => ⟨rfl, hx⟩⟩
  | cons t l ih =>
    have hfresh := hs.fresh
    by_cases hx : (s.tcb t).intention.exited = true
    · have hout : (s.tcb t).stays = false := by simp [TCB.stays, hx]
      obtain ⟨s₁, he, hlist, hcount⟩ : ∃ s₁, s.retire env c t (.runnable c) = some s₁ ∧ _ := retire_runnable
      have htcb : ∀ u ≠ t, s₁.tcb u = s.tcb u := fun u hu => retire_tcb_of_ne he hu
      have hrun := retire_runningThread he
      obtain ⟨s', hscan, hswept⟩ := ih (hs.removed htcb hrun hlist hcount) found
      rw [first_congr htcb hfresh, ← first_removed hout] at hscan hswept
      exact ⟨s', fun round => (scan_exited hx (hs.current t (by simp) hx) he).trans (hscan round),
        hswept.removed hout hfresh htcb hrun fun hn => absurd (hx.symm.trans hn) (by simp)⟩
    rw [Bool.not_eq_true] at hx
    by_cases hb : (s.tcb t).intention.blocked = true
    · have hout : (s.tcb t).stays = false := by simp [TCB.stays, hb]
      have htcb : ∀ u ≠ t, (s.block c t).tcb u = s.tcb u := fun u hu => block_tcb_of_ne hu
      obtain ⟨s', hscan, hswept⟩ := ih (hs.removed htcb rfl block_runnable.1 block_runnable.2) found
      rw [first_congr htcb hfresh, ← first_removed hout] at hscan hswept
      refine ⟨s', fun round => (scan_blocked hx hb).trans (hscan round), hswept.removed hout hfresh htcb rfl fun _ => ?_⟩
      rw [block_tcb_self]
      exact ⟨rfl, hx⟩
    have hin : (s.tcb t).stays = true := by simp [TCB.stays, hx, hb]
    have hallowed := hs.allowed t (by simp)
    by_cases ha : found = none ∧ (s.tcb t).availableNext = true
    · obtain ⟨rfl, ha⟩ := ha
      have htcb : ∀ u ≠ t, (s.setState t .running).tcb u = s.tcb u := fun u hu => modify_tcb_of_ne hu
      obtain ⟨s', hscan, hswept⟩ := ih (hs.kept htcb rfl rfl rfl) (some t)
      rw [first_available hin ha]
      refine ⟨s', fun round => (scan_picks hin ha hallowed).trans (hscan round), ?_⟩
      refine hswept.kept hin hfresh htcb rfl (by simp [setState, TCB.picked]) fun u hu => ?_
      have hut : t ≠ u := by
        rintro rfl
        exact hfresh hu
      simp [hut]
    · obtain ⟨s', hscan, hswept⟩ := ih (hs.kept (fun _ _ => rfl) rfl rfl rfl) found
      have hpass : found ≠ none ∨ (s.tcb t).availableNext = false := by
        rw [← Bool.not_eq_true]
        exact not_and_or.mp ha
      have hfirst : found = none → first s (t :: l) = first s l := fun hf =>
        first_unavailable (hpass.resolve_left fun hne => hne hf)
      have hor : found.or (first s (t :: l)) = found.or (first s l) := by
        cases found with
        | none => simpa using hfirst rfl
        | some u => rfl
      have hpick : (if found = none then first s (t :: l) else none) = if found = none then first s l else none :=
        ite_congr rfl hfirst fun _ => rfl
      rw [hor, hpick]
      refine ⟨s', fun round => (scan_passes hin hallowed hpass).trans (hscan round), ?_⟩
      refine hswept.kept hin hfresh (fun _ _ => rfl) rfl (if_neg fun heq => ?_).symm fun _ _ => Iff.rfl
      split at heq
      · exact hfresh (mem_of_first heq)
      · exact absurd heq (by simp)

structure Refilled (l : List ℕ) (s s' : Sched) : Prop where
  tcbList : s'.tcbList = s.tcbList
  count : s'.count = s.count
  runningThread : s'.runningThread = s.runningThread
  off : ∀ u ∉ l, s'.tcb u = s.tcb u
  on : ∀ u ∈ l, s'.tcb u = (s.tcb u).refilled

theorem Refilled.cons (h : Refilled l s₁ s') (ht : t ∉ l) (hs : s₁ = s.modify t TCB.refilled) :
    Refilled (t :: l) s s' := by
  subst hs
  refine ⟨h.tcbList, h.count, h.runningThread, fun u hu => ?_, fun u hu => ?_⟩
  · rw [List.mem_cons, not_or] at hu
    rw [h.off u hu.2, modify_tcb_of_ne hu.1]
  · by_cases hut : u = t
    · subst hut
      rw [h.off u ht, modify_tcb_self]
    · rw [h.on u ((List.mem_cons.mp hu).resolve_left hut), modify_tcb_of_ne hut]

theorem refillReady_refilled (hnd : l.Nodup) (hq : ∀ t ∈ l, (s.tcb t).timeQuantum = threadInfiniteTimeQuantum) :
    ∃ s', refillReady l s =
        some (l.any fun t => decide ((s.tcb t).state = .ready ∧ (s.tcb t).remainingTimeSlice ≤ 0), s') ∧
      Refilled l s s' := by
  induction l generalizing s with
  | nil => exact ⟨s, rfl, rfl, rfl, rfl, fun _ _ => rfl, by simp⟩
  | cons t l ih =>
    obtain ⟨htl, hnd⟩ := List.nodup_cons.mp hnd
    by_cases hr : (s.tcb t).state = .ready ∧ (s.tcb t).remainingTimeSlice ≤ 0
    · have hrefill : s.refillTimeSlice t = some (s.modify t TCB.refilled) := by
        have hself : (s.tcb t).refilled = { s.tcb t with remainingTimeSlice := (s.tcb t).timeSlice } := if_pos hr
        unfold refillTimeSlice
        dsimp only
        rw [if_pos hr.2, if_pos (hq t (by simp)), modify, modify, hself]
      have htcb : ∀ u ∈ l, (s.modify t TCB.refilled).tcb u = s.tcb u := fun u hu =>
        modify_tcb_of_ne (by rintro rfl; exact htl hu)
      obtain ⟨s', he, hs⟩ := ih hnd fun u hu => by rw [htcb u hu]; exact hq u (by simp [hu])
      refine ⟨s', ?_, hs.cons htl rfl⟩
      rw [refillReady, if_pos hr, hrefill, Option.bind_some, he, Option.map_some, List.any_cons, decide_eq_true hr,
        Bool.true_or]
    · obtain ⟨s', he, hs⟩ := ih hnd fun u hu => hq u (by simp [hu])
      have hself : (s.tcb t).refilled = s.tcb t := if_neg hr
      refine ⟨s', ?_, hs.cons htl (modify_eq_self hself).symm⟩
      rw [refillReady, if_neg hr, he, List.any_cons, decide_eq_false hr, Bool.false_or]

structure Normal (c : ℕ) (s : Sched) : Prop where
  nodup : (s.tcbList (.runnable c)).Nodup
  count : s.count (.runnable c) = (s.tcbList (.runnable c)).length
  lt : (s.tcbList (.runnable c)).length < wordSize
  current : (s.tcb (s.runningThread c)).intention.exited = false
  allowed : ∀ t ∈ s.tcbList (.runnable c), (s.tcb t).coreIsAllowed (s.tcb (s.runningThread c)).runningCore = true
  slice : ∀ t ∈ s.tcbList (.runnable c), 0 < (s.tcb t).timeSlice
  quantum : ∀ t ∈ s.tcbList (.runnable c), (s.tcb t).timeQuantum = threadInfiniteTimeQuantum

theorem Normal.sweep (h : Normal c s) :
    Sweep c (s.tcb (s.runningThread c)).runningCore [] (s.tcbList (.runnable c)) s where
  nodup := h.nodup
  list := rfl
  count := h.count
  lt := h.lt
  allowed := h.allowed
  current t _ hx hrun := by
    rw [← hrun, h.current] at hx
    exact absurd hx (by simp)

inductive Picks (c : ℕ) (s : Sched) (next : ℕ) (s' : Sched) : Prop
  | available (hf : (remaining c s).find? (fun t => (s.tcb t).availableNext) = some next)
      (hs : ∀ t ∈ remaining c s, s'.tcb t = if t = next then (s.tcb t).picked else s.tcb t)
  | refilled (hn : ∀ t ∈ remaining c s, (s.tcb t).availableNext = false)
      (hf : (remaining c s).find? (fun t => (s.tcb t).state = .ready) = some next)
      (hs : ∀ t ∈ remaining c s, s'.tcb t = if t = next then (s.tcb t).refilled.picked else (s.tcb t).refilled)
  | sole (hn : ∀ t ∈ remaining c s, (s.tcb t).state ≠ .ready) (hr : remaining c s = [next])
      (hs : ∀ t ∈ remaining c s, s'.tcb t = s.tcb t)
  | idle (hn : ∀ t ∈ remaining c s, (s.tcb t).state ≠ .ready) (hr : (remaining c s).length ≠ 1)
      (hi : next = (s.tcb (s.runningThread c)).runningCore) (hs : ∀ t ∈ remaining c s, s'.tcb t = s.tcb t)

theorem first_eq_find : first s (s.tcbList (.runnable c)) = (remaining c s).find? fun t => (s.tcb t).availableNext := by
  rw [first, List.head?_filter, remaining, List.find?_filter]
  simp only [Bool.decide_and, Bool.decide_eq_true]

section Rounds

variable {n : ℕ} {s₂ : Sched}

theorem selectNextThread_found
    (hscan : scan env c (s.tcb (s.runningThread c)).runningCore n (s.tcbList (.runnable c)) none s =
      some (.scanned (some t) s₁)) : selectNextThread env c (n + 1) s = some (t, s₁) := by
  rw [selectNextThread]
  simp only [hscan]

variable (hscan : scan env c (s.tcb (s.runningThread c)).runningCore n (s.tcbList (.runnable c)) none s =
  some (.scanned none s₁))
include hscan

theorem selectNextThread_retry (hrefill : refillReady (s₁.tcbList (.runnable c)) s₁ = some (true, s₂)) :
    selectNextThread env c (n + 1) s = selectNextThread env c n s₂ := by
  rw [selectNextThread]
  simp only [hscan, hrefill]

theorem selectNextThread_sole (hrefill : refillReady (s₁.tcbList (.runnable c)) s₁ = some (false, s₂))
    (hlist : s₂.tcbList (.runnable c) = [t]) (hcount : s₂.count (.runnable c) = 1) :
    selectNextThread env c (n + 1) s = some (t, s₂) := by
  rw [selectNextThread]
  simp [hscan, hrefill, hcount, hlist]

theorem selectNextThread_idle (hrefill : refillReady (s₁.tcbList (.runnable c)) s₁ = some (false, s₂))
    (hcount : s₂.count (.runnable c) ≠ 1) :
    selectNextThread env c (n + 1) s = some ((s.tcb (s.runningThread c)).runningCore, s₂) := by
  rw [selectNextThread]
  simp only [hscan, hrefill, if_neg hcount]

end Rounds

theorem mem_remaining : t ∈ remaining c s ↔ t ∈ s.tcbList (.runnable c) ∧ (s.tcb t).stays = true := List.mem_filter

section Again

variable {s₂ : Sched} (h : Normal c s) (h₁ : Swept c [] (s.tcbList (.runnable c)) none s s₁)
  (h₂ : Refilled (remaining c s) s₁ s₂)
include h₁ h₂

theorem refilled_list : s₂.tcbList (.runnable c) = remaining c s := by
  rw [h₂.tcbList, h₁.list]
  rfl

theorem refilled_count : s₂.count (.runnable c) = (remaining c s).length := by
  rw [h₂.count, h₁.count, h₁.list]
  rfl

theorem refilled_tcb (ht : t ∈ remaining c s) : s₂.tcb t = (s.tcb t).refilled := by
  obtain ⟨hm, hstays⟩ := mem_remaining.mp ht
  rw [h₂.on t ht, h₁.on t hm hstays, if_neg (by simp)]

theorem refilled_remaining : remaining c s₂ = remaining c s := by
  rw [remaining, refilled_list h₁ h₂, List.filter_eq_self]
  intro t ht
  obtain ⟨x, hx⟩ := (s.tcb t).refilled_eq
  rw [refilled_tcb h₁ h₂ ht, hx]
  exact (mem_remaining.mp ht).2

include h

theorem Normal.refilled : Normal c s₂ := by
  have hlen : (remaining c s).length ≤ (s.tcbList (.runnable c)).length := List.length_filter_le _ _
  have hcur : (s₂.tcb (s₂.runningThread c)).runningCore = (s.tcb (s.runningThread c)).runningCore ∧
      (s₂.tcb (s₂.runningThread c)).intention.exited = false := by
    rw [h₂.runningThread, h₁.runningThread]
    have hlive := h₁.live _ h.current
    by_cases hm : s.runningThread c ∈ remaining c s
    · obtain ⟨x, hx⟩ := (s₁.tcb (s.runningThread c)).refilled_eq
      rw [h₂.on _ hm, hx]
      exact hlive
    · rw [h₂.off _ hm]
      exact hlive
  refine ⟨?_, ?_, ?_, hcur.2, ?_, ?_, ?_⟩
  · rw [refilled_list h₁ h₂]
    exact h.nodup.filter _
  · rw [refilled_list h₁ h₂, refilled_count h₁ h₂]
  · rw [refilled_list h₁ h₂]
    exact hlen.trans_lt h.lt
  all_goals
    intro t ht
    rw [refilled_list h₁ h₂] at ht
    have hm := (mem_remaining.mp ht).1
    obtain ⟨x, hx⟩ := (s.tcb t).refilled_eq
    rw [refilled_tcb h₁ h₂ ht, hx]
  · rw [hcur.1]
    exact h.allowed t hm
  · exact h.slice t hm
  · exact h.quantum t hm

theorem refilled_first (hn : ∀ t ∈ remaining c s, (s.tcb t).availableNext = false) :
    first s₂ (s₂.tcbList (.runnable c)) = (remaining c s).find? fun t => (s.tcb t).state = .ready := by
  rw [first_eq_find, refilled_remaining h₁ h₂, ← List.head?_filter, ← List.head?_filter]
  refine congrArg List.head? (List.filter_congr fun t ht => ?_)
  rw [refilled_tcb h₁ h₂ ht, TCB.refilled_available (h.slice t (mem_remaining.mp ht).1) (hn t ht)]

end Again

theorem selectNextThread_picks (h : Normal c s) : ∃ next s', (∀ n, selectNextThread env c (n + 2) s = some (next, s')) ∧
    s'.tcbList (.runnable c) = remaining c s ∧ Picks c s next s' := by
  obtain ⟨s₁, hscan, h₁⟩ := scan_swept h.sweep none
  cases hfirst : first s (s.tcbList (.runnable c)) with
  | some t =>
    rw [hfirst] at hscan h₁
    refine ⟨t, s₁, fun n => selectNextThread_found (hscan _), h₁.list, .available (first_eq_find ▸ hfirst) fun u hu => ?_⟩
    obtain ⟨hm, hstays⟩ := mem_remaining.mp hu
    rw [h₁.on u hm hstays]
    simp [eq_comm]
  | none =>
    rw [hfirst] at hscan h₁
    have hn : ∀ t ∈ remaining c s, (s.tcb t).availableNext = false := by
      rw [first_eq_find, List.find?_eq_none] at hfirst
      simpa using hfirst
    have hkept : ∀ t ∈ remaining c s, s₁.tcb t = s.tcb t := fun t ht => by
      rw [h₁.on t (mem_remaining.mp ht).1 (mem_remaining.mp ht).2, if_neg (by simp)]
    have hlist : s₁.tcbList (.runnable c) = remaining c s := h₁.list
    obtain ⟨s₂, hrefill, h₂⟩ := refillReady_refilled (s := s₁) (l := remaining c s) (h.nodup.filter _) fun t ht => by
      rw [hkept t ht]
      exact h.quantum t (mem_remaining.mp ht).1
    rw [← hlist] at hrefill
    cases hany : (s₁.tcbList (.runnable c)).any
      fun t => decide ((s₁.tcb t).state = .ready ∧ (s₁.tcb t).remainingTimeSlice ≤ 0) with
    | true =>
      rw [hany] at hrefill
      obtain ⟨u, hu, hr⟩ := List.any_eq_true.mp hany
      rw [hlist] at hu
      rw [hkept u hu, decide_eq_true_eq] at hr
      obtain ⟨s₃, hscan', h₃⟩ := scan_swept (h.refilled h₁ h₂).sweep none
      rw [refilled_first h h₁ h₂ hn] at hscan' h₃
      cases hready : (remaining c s).find? fun t => (s.tcb t).state = .ready with
      | none => exact absurd hr.1 (by simpa using List.find?_eq_none.mp hready u hu)
      | some t =>
        rw [hready] at hscan' h₃
        refine ⟨t, s₃, fun n => ?_, h₃.list.trans (refilled_remaining h₁ h₂), .refilled hn hready fun u hu => ?_⟩
        · exact (selectNextThread_retry (hscan (n + 1)) hrefill).trans (selectNextThread_found (hscan' n))
        · obtain ⟨hm, hstays⟩ := mem_remaining.mp (refilled_remaining h₁ h₂ ▸ hu)
          rw [h₃.on u hm hstays, refilled_tcb h₁ h₂ hu]
          simp [eq_comm]
    | false =>
      rw [hany] at hrefill
      have hidle : ∀ t ∈ remaining c s, (s.tcb t).state ≠ .ready := by
        intro t ht hr
        have hpos := List.any_eq_false.mp hany t (hlist ▸ ht)
        rw [hkept t ht] at hpos
        simp only [hr, true_and, decide_eq_true_eq, not_le] at hpos
        exact absurd (TCB.availableNext_iff.mpr ⟨hpos, hr⟩) (by simp [hn t ht])
      have hsame : ∀ t ∈ remaining c s, s₂.tcb t = s.tcb t := fun t ht => by
        rw [refilled_tcb h₁ h₂ ht, TCB.refilled_of_not_ready (hidle t ht)]
      have hlist₂ := refilled_list h₁ h₂
      have hcount := refilled_count h₁ h₂
      by_cases hone : (remaining c s).length = 1
      · obtain ⟨t, ht⟩ := List.length_eq_one_iff.mp hone
        refine ⟨t, s₂, fun n => ?_, hlist₂, .sole hidle ht hsame⟩
        exact selectNextThread_sole (hscan _) hrefill (hlist₂.trans ht) (hcount.trans hone)
      · exact ⟨_, s₂, fun n => selectNextThread_idle (hscan _) hrefill (hcount ▸ hone), hlist₂,
          .idle hidle hone rfl hsame⟩

theorem Inv.normal {r : ℕ → ℕ} (h : Inv true r s) (hc : c < maxProcessorCount)
    (hx : (s.tcb (s.runningThread c)).intention.exited = false) : Normal c s where
  nodup := h.placed.exclusive.nodup _
  count := h.counted rfl _
  lt := h.placed.length_lt
  current := hx
  allowed t ht := by
    rw [h.current_core hc]
    exact (h.placed.at_place ht).2.2
  slice t ht := by
    rw [(h.placed.at_place ht).1.slice]
    simp
  quantum t ht := (h.placed.at_place ht).1.quantum

def readyRun : List (Env × ℕ × Event) :=
  [(quiet, 0, .create 0 0x100000), (quiet, 0, .create 0 0x200000), (quiet, 0, .schedule .onlyReady),
    (quiet, 0, .suspend 288)]

theorem boot_ready_picks : ∃ s next s', replay Orderly readyRun boot = some s ∧
    (s.tcbList (.runnable 0) = [288, 289] ∧ remaining 0 s = [289]) ∧
    (∀ n, selectNextThread quiet 0 (n + 2) s = some (next, s')) ∧ s'.tcbList (.runnable 0) = remaining 0 s ∧
    Picks 0 s next s' := by
  have hrun : (replay Orderly readyRun boot).map (fun s => ((s.tcb (s.runningThread 0)).intention.exited,
      s.tcbList (.runnable 0), remaining 0 s)) = some (false, [288, 289], [289]) := by decide +kernel
  obtain ⟨s, hs, hview⟩ := Option.map_eq_some_iff.mp hrun
  obtain ⟨hx, hlists⟩ := Prod.mk.inj hview
  have hst : Steady true (fun _ => 0) s := (threadInit_steady true _).run (replay_run hs)
  obtain ⟨next, s', hsel⟩ := selectNextThread_picks (hst.inv.normal (by decide) hx)
  exact ⟨s, next, s', hs, Prod.mk.inj hlists, hsel⟩

end Sched

end Azalea
