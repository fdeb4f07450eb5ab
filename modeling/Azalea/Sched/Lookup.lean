import Azalea.Sched.Calls

namespace Azalea

@[simp] def threadInitName : QWORD := ~~~0#64

def ThreadState.toQword : ThreadState → QWORD
  | .notalloc => 0
  | .created => 1
  | .running => 2
  | .ready => 3
  | .blocked => 4
  | .exited => 5

namespace Sched

variable {s s' : Sched} {env : Env} {c t u : ℕ}

def Allocated (s : Sched) (t : ℕ) : Prop := t < maxThreadId ∧ (s.tcb t).state ≠ .notalloc

theorem getTcb_of_allocated (h : s.Allocated t) :
    s.getTcb t = some (s.modify t fun a => { a with refc := a.refc + 1 }) := by
  rw [getTcb, if_neg (Nat.not_le.2 h.1), if_neg h.2]

theorem getTcb_eq_none (h : ¬ s.Allocated t) : s.getTcb t = none := by
  unfold getTcb
  split
  · rfl
  · next ht =>
    rw [if_pos]
    by_contra hs
    exact h ⟨Nat.not_le.1 ht, hs⟩

theorem put_got (h : (s.tcb t).refc ≠ 0) :
    (s.modify t fun a => { a with refc := a.refc + 1 }).putTcb env c t = some s := by
  unfold putTcb
  rw [modify_modify, if_neg (by simpa using h)]
  have hf : ((fun a : TCB => { a with refc := a.refc - 1 }) ∘ fun a => { a with refc := a.refc + 1 }) (s.tcb t) =
      s.tcb t := by simp
  rw [modify, hf, Function.update_eq_self]

theorem put_got_last (h : (s.tcb t).refc = 0) (ha : (s.tcb t).state ≠ .notalloc)
    (he : (s.modify t fun a => { a with refc := a.refc + 1 }).putTcb env c t = some s') :
    (s'.tcb t).state = .notalloc := by
  rcases putTcb_cases he with ⟨hn | hn, _⟩ | ⟨_, _, rfl⟩
  · exact absurd (by simp [h]) hn
  · exact absurd (by simpa using hn) ha
  · rw [destroyTcb_tcb, initTcbDestroy]
    simp

theorem put_got_of_ne (hu : u ≠ t)
    (he : (s.modify t fun a => { a with refc := a.refc + 1 }).putTcb env c t = some s') : s'.tcb u = s.tcb u :=
  (putTcb_tcb_of_ne he hu).trans (modify_tcb_of_ne hu)

end Sched

structure ThreadTable where
  sched : Sched
  name : ℕ → QWORD

namespace ThreadTable

variable (env : Env) (c : ℕ)

def lookupTid (names : ℕ → QWORD) (name : QWORD) : ℕ → ℕ → Sched → Option (QWORD × Sched)
  | 0, _, s => some (-1, s)
  | n + 1, i, s =>
    match s.getTcb i with
    | none => lookupTid names name n (i + 1) s
    | some s =>
      if (s.tcb i).state = .notalloc then (s.putTcb env c i).bind (lookupTid names name n (i + 1))
      else if names i = name then (s.putTcb env c i).map fun s => (BitVec.ofNat 64 i, s)
      else (s.putTcb env c i).bind (lookupTid names name n (i + 1))

-- the local state of the source is set to -1 and never written again
def lookupState (names : ℕ → QWORD) (tid : QWORD) : ℕ → ℕ → Sched → Option (QWORD × Sched)
  | 0, _, s => some (-1, s)
  | n + 1, i, s =>
    match s.getTcb i with
    | none => lookupState names tid n (i + 1) s
    | some s =>
      if names i = tid then (s.putTcb env c i).map fun s => (-1, s)
      else (s.putTcb env c i).bind (lookupState names tid n (i + 1))

def withSched (x : ThreadTable) (s : Sched) : ThreadTable := { x with sched := s }

def lkThreadLookupTid (x : ThreadTable) (name : QWORD) : Option (QWORD × ThreadTable) :=
  (lookupTid env c x.name name configNumThread maxProcessorCount x.sched).map (Prod.map id x.withSched)

def lkThreadLookupState (x : ThreadTable) (tid : QWORD) : Option (QWORD × ThreadTable) :=
  (lookupState env c x.name tid configNumThread maxProcessorCount x.sched).map (Prod.map id x.withSched)

def lkThreadSetName (x : ThreadTable) (tid : ℕ) (name : QWORD) : Option ThreadTable := do
  let s ← x.sched.getTcb tid
  let x : ThreadTable := ⟨s, Function.update x.name tid name⟩
  (x.sched.putTcb env c tid).map x.withSched

section Sweep

variable {env : Env} {c : ℕ} {hit : ℕ → Prop} {s s' : Sched} {k n t u : ℕ} {r : Option ℕ}

structure Reaches (s : Sched) (hit : ℕ → Prop) (k n t : ℕ) : Prop where
  low : k ≤ t
  high : t < k + n
  allocated : s.Allocated t
  before : ∀ u, k ≤ u → u < t → s.Allocated u → ¬ hit u

theorem Reaches.next (h : Reaches s hit k (n + 1) t) (hk : k ≠ t) : Reaches s hit (k + 1) n t :=
  ⟨by have := h.low; omega, by have := h.high; omega, h.allocated, fun u hu => h.before u (by omega)⟩

theorem Reaches.congr (h : Reaches s hit k n t) (hs : ∀ u, k ≤ u → s'.tcb u = s.tcb u) : Reaches s' hit k n t := by
  refine ⟨h.low, h.high, ⟨h.allocated.1, ?_⟩, fun u hu hut ha => h.before u hu hut ⟨ha.1, ?_⟩⟩
  · rw [hs t h.low]
    exact h.allocated.2
  · rw [← hs u hu]
    exact ha.2

theorem Reaches.prev (h : Reaches s hit (k + 1) n t) (hk : s.Allocated k → ¬ hit k) : Reaches s hit k (n + 1) t := by
  refine ⟨by have := h.low; omega, by have := h.high; omega, h.allocated, fun u hu hut ha => ?_⟩
  rcases Nat.eq_or_lt_of_le hu with rfl | hu
  · exact hk ha
  · exact h.before u hu hut ha

inductive First (s : Sched) (hit : ℕ → Prop) (k n : ℕ) : Option ℕ → Prop
  | found {t : ℕ} (h : Reaches s hit k n t) (ht : hit t) : First s hit k n (some t)
  | absent (h : ∀ t, k ≤ t → t < k + n → s.Allocated t → ¬ hit t) : First s hit k n none

theorem First.prev (h : First s hit (k + 1) n r) (hk : s.Allocated k → ¬ hit k) : First s hit k (n + 1) r := by
  cases h with
  | found h ht => exact .found (h.prev hk) ht
  | absent h =>
    refine .absent fun t hl hh ha => ?_
    rcases Nat.eq_or_lt_of_le hl with rfl | hl
    · exact hk ha
    · exact h t hl (by omega) ha

variable [DecidablePred hit]

def sweep (env : Env) (c : ℕ) (hit : ℕ → Prop) [DecidablePred hit] : ℕ → ℕ → Sched → Option (Option ℕ × Sched)
  | 0, _, s => some (none, s)
  | n + 1, i, s =>
    match s.getTcb i with
    | none => sweep env c hit n (i + 1) s
    | some s => (s.putTcb env c i).bind fun s => if hit i then some (some i, s) else sweep env c hit n (i + 1) s

theorem sweep_skip (h : ¬ s.Allocated k) : sweep env c hit (n + 1) k s = sweep env c hit n (k + 1) s := by
  rw [sweep, Sched.getTcb_eq_none h]

theorem sweep_allocated (h : s.Allocated k) : sweep env c hit (n + 1) k s =
    ((s.modify k fun a => { a with refc := a.refc + 1 }).putTcb env c k).bind fun s =>
      if hit k then some (some k, s) else sweep env c hit n (k + 1) s := by
  rw [sweep, Sched.getTcb_of_allocated h]

theorem sweep_counted (h : s.Allocated k) (hr : (s.tcb k).refc ≠ 0) : sweep env c hit (n + 1) k s =
    if hit k then some (some k, s) else sweep env c hit n (k + 1) s := by
  rw [sweep_allocated h, Sched.put_got hr, Option.bind_some]

theorem sweep_free (ht : (s.tcb t).state = .notalloc) (he : sweep env c hit n k s = some (r, s')) :
    s'.tcb t = s.tcb t := by
  induction n generalizing k s with
  | zero => rw [(Prod.mk.inj (Option.some.inj he)).2]
  | succ n ih =>
    by_cases hk : s.Allocated k
    · rw [sweep_allocated hk] at he
      obtain ⟨s₁, hput, he⟩ := Option.bind_eq_some_iff.1 he
      have htk : t ≠ k := fun h => hk.2 (h ▸ ht)
      have h₁ := Sched.put_got_of_ne htk hput
      split at he
      · rw [← (Prod.mk.inj (Option.some.inj he)).2, h₁]
      · rw [ih (by rw [h₁, ht]) he, h₁]
    · rw [sweep_skip hk] at he
      exact ih ht he

theorem sweep_kept (h : ∀ t, Reaches s hit k n t → (s.tcb t).refc ≠ 0) :
    ∃ r, sweep env c hit n k s = some (r, s) ∧ First s hit k n r := by
  induction n generalizing k with
  | zero => exact ⟨none, rfl, .absent fun t hl hh => by omega⟩
  | succ n ih =>
    by_cases hk : s.Allocated k
    · have hhead : Reaches s hit k (n + 1) k := ⟨le_refl k, by omega, hk, fun u hu hut => by omega⟩
      rw [sweep_counted hk (h k hhead)]
      by_cases hhit : hit k
      · rw [if_pos hhit]
        exact ⟨some k, rfl, .found hhead hhit⟩
      · rw [if_neg hhit]
        obtain ⟨r, he, hr⟩ := ih fun t ht => h t (ht.prev fun _ => hhit)
        exact ⟨r, he, hr.prev fun _ => hhit⟩
    · rw [sweep_skip hk]
      obtain ⟨r, he, hr⟩ := ih fun t ht => h t (ht.prev fun ha => absurd ha hk)
      exact ⟨r, he, hr.prev fun ha => absurd ha hk⟩

theorem sweep_freed (h : Reaches s hit k n t) (hz : (s.tcb t).refc = 0)
    (he : sweep env c hit n k s = some (r, s')) : (s'.tcb t).state = .notalloc := by
  induction n generalizing k s with
  | zero => exact absurd h.high (by have := h.low; omega)
  | succ n ih =>
    by_cases hk : s.Allocated k
    · rw [sweep_allocated hk] at he
      obtain ⟨s₁, hput, he⟩ := Option.bind_eq_some_iff.1 he
      by_cases hkt : k = t
      · subst hkt
        have hfree := Sched.put_got_last hz hk.2 hput
        split at he
        · rw [← (Prod.mk.inj (Option.some.inj he)).2, hfree]
        · rw [sweep_free hfree he, hfree]
      · rw [if_neg (h.before k (le_refl k) (by have := h.low; omega) hk)] at he
        refine ih ((h.next hkt).congr fun u hu => Sched.put_got_of_ne (by omega) hput) ?_ he
        rw [Sched.put_got_of_ne (Ne.symm hkt) hput, hz]
    · rw [sweep_skip hk] at he
      exact ih (h.next fun hkt => hk (hkt ▸ h.allocated)) hz he

theorem sweep_unchanged_iff : (∃ r, sweep env c hit n k s = some (r, s)) ↔
    ∀ t, Reaches s hit k n t → (s.tcb t).refc ≠ 0 := by
  constructor
  · rintro ⟨r, he⟩ t ht hz
    exact ht.allocated.2 (sweep_freed ht hz he)
  · intro h
    obtain ⟨r, he, _⟩ := sweep_kept h
    exact ⟨r, he⟩

theorem map_sweep_allocated (f : Option ℕ → QWORD) (h : s.Allocated k) :
    (sweep env c hit (n + 1) k s).map (Prod.map f id) =
      if hit k then
        ((s.modify k fun a => { a with refc := a.refc + 1 }).putTcb env c k).map fun s => (f (some k), s)
      else
        ((s.modify k fun a => { a with refc := a.refc + 1 }).putTcb env c k).bind fun s =>
          (sweep env c hit n (k + 1) s).map (Prod.map f id) := by
  rw [sweep_allocated h, Option.map_bind]
  split_ifs
  · rw [Option.map_eq_bind]
    rfl
  · rfl

end Sweep

variable {env : Env} {c n k : ℕ} {names : ℕ → QWORD} {x : ThreadTable} {name tid q : QWORD} {s : Sched} {t : ℕ}

theorem lookupTid_eq : lookupTid env c names name n k s =
    (sweep env c (names · = name) n k s).map (Prod.map (fun r => r.elim (-1) (BitVec.ofNat 64)) id) := by
  induction n generalizing k s with
  | zero => rfl
  | succ n ih =>
    by_cases hk : s.Allocated k
    · rw [map_sweep_allocated _ hk, lookupTid, Sched.getTcb_of_allocated hk]
      simp only [Sched.modify_tcb_self, if_neg hk.2, ← ih]
      rfl
    · rw [sweep_skip hk, lookupTid, Sched.getTcb_eq_none hk, ih]

theorem lookupState_eq : lookupState env c names tid n k s =
    (sweep env c (names · = tid) n k s).map (Prod.map (fun _ => -1) id) := by
  induction n generalizing k s with
  | zero => rfl
  | succ n ih =>
    by_cases hk : s.Allocated k
    · rw [map_sweep_allocated _ hk, lookupState, Sched.getTcb_of_allocated hk]
      simp only [← ih]
    · rw [sweep_skip hk, lookupState, Sched.getTcb_eq_none hk, ih]

def Named (x : ThreadTable) (name : QWORD) (t : ℕ) : Prop :=
  maxProcessorCount ≤ t ∧ x.sched.Allocated t ∧ x.name t = name

def Visited (x : ThreadTable) (name : QWORD) (t : ℕ) : Prop :=
  maxProcessorCount ≤ t ∧ x.sched.Allocated t ∧ ∀ u < t, ¬ x.Named name u

inductive TidAnswer (x : ThreadTable) (name : QWORD) : QWORD → Prop
  | found {t : ℕ} (h : x.Named name t) (hlow : ∀ u < t, ¬ x.Named name u) : TidAnswer x name (BitVec.ofNat 64 t)
  | absent (h : ∀ t, ¬ x.Named name t) : TidAnswer x name (-1)

inductive StateAnswer (x : ThreadTable) (tid : QWORD) : QWORD → Prop
  | found (h : x.sched.Allocated tid.toNat) : StateAnswer x tid (x.sched.tcb tid.toNat).state.toQword
  | absent (h : ¬ x.sched.Allocated tid.toNat) : StateAnswer x tid (-1)

def LooksUpTid (env : Env) (c : ℕ) (x : ThreadTable) (name : QWORD) : Prop :=
  ∃ q, x.lkThreadLookupTid env c name = some (q, x) ∧ x.TidAnswer name q

def LooksUpState (env : Env) (c : ℕ) (x : ThreadTable) (tid : QWORD) : Prop :=
  ∃ q, x.lkThreadLookupState env c tid = some (q, x) ∧ x.StateAnswer tid q

theorem reaches_iff : Reaches x.sched (x.name · = name) maxProcessorCount configNumThread t ↔ x.Visited name t := by
  constructor
  · intro h
    exact ⟨h.low, h.allocated, fun u hu hn => h.before u hn.1 hu hn.2.1 hn.2.2⟩
  · rintro ⟨hl, ha, hb⟩
    exact ⟨hl, ha.1, ha, fun u hl hu ha hn => hb u hu ⟨hl, ha, hn⟩⟩

theorem First.tidAnswer {r : Option ℕ} (h : First x.sched (x.name · = name) maxProcessorCount configNumThread r) :
    x.TidAnswer name (r.elim (-1) (BitVec.ofNat 64)) := by
  cases h with
  | found h ht =>
    obtain ⟨hl, ha, hb⟩ := reaches_iff.1 h
    exact .found ⟨hl, ha, ht⟩ hb
  | absent h => exact .absent fun t ht => h t ht.1 ht.2.1.1 ht.2.1 ht.2.2

theorem withSched_eq_self (h : x.withSched s = x) : s = x.sched := by
  rw [← h, withSched]

theorem of_unchanged {o : Option (Option ℕ × Sched)} {f : Option ℕ → QWORD}
    (h : (o.map (Prod.map f id)).map (Prod.map id x.withSched) = some (q, x)) :
    ∃ r, o = some (r, x.sched) ∧ q = f r := by
  rw [Option.map_map] at h
  obtain ⟨⟨r, s⟩, ho, hm⟩ := Option.map_eq_some_iff.1 h
  obtain ⟨hq, hs⟩ := Prod.mk.inj hm
  exact ⟨r, by rw [ho, ← withSched_eq_self hs]; rfl, hq.symm⟩

theorem looksUpTid_iff : LooksUpTid env c x name ↔ ∀ t, x.Visited name t → (x.sched.tcb t).refc ≠ 0 := by
  simp only [← reaches_iff]
  constructor
  · rintro ⟨q, he, _⟩
    rw [lkThreadLookupTid, lookupTid_eq] at he
    obtain ⟨r, he, _⟩ := of_unchanged he
    exact sweep_unchanged_iff.1 ⟨r, he⟩
  · intro h
    obtain ⟨r, he, hr⟩ := @sweep_kept env c _ _ _ _ _ h
    refine ⟨_, ?_, hr.tidAnswer⟩
    rw [lkThreadLookupTid, lookupTid_eq, he]
    rfl

theorem lkThreadSetName_eq (h : x.sched.Allocated t) (hr : (x.sched.tcb t).refc ≠ 0) :
    x.lkThreadSetName env c t name = some ⟨x.sched, Function.update x.name t name⟩ := by
  simp only [lkThreadSetName, Sched.getTcb_of_allocated h, Option.bind_eq_bind, Option.bind_some, Sched.put_got hr]
  rfl

theorem lkThreadLookupTid_set (hl : maxProcessorCount ≤ t) (h : x.sched.Allocated t)
    (hr : ∀ u, x.sched.Allocated u → (x.sched.tcb u).refc ≠ 0) (hfresh : ∀ u, ¬ x.Named name u) :
    ∃ y, x.lkThreadSetName env c t name = some y ∧
      y.lkThreadLookupTid env c name = some (BitVec.ofNat 64 t, y) := by
  refine ⟨_, lkThreadSetName_eq h (hr t h), ?_⟩
  have hnamed : Named ⟨x.sched, Function.update x.name t name⟩ name t := ⟨hl, h, Function.update_self ..⟩
  have hlook : LooksUpTid env c ⟨x.sched, Function.update x.name t name⟩ name :=
    looksUpTid_iff.2 fun u hu => hr u hu.2.1
  obtain ⟨q, he, hq⟩ := hlook
  rw [he]
  cases hq with
  | @found u hu _ =>
    have hut : u = t := by
      by_contra hne
      have hname : Function.update x.name t name u = name := hu.2.2
      rw [Function.update_of_ne hne] at hname
      exact hfresh u ⟨hu.1, hu.2.1, hname⟩
    rw [hut]
  | absent hnone => exact absurd hnamed (hnone t)

theorem stateAnswer_neg_one_iff : x.StateAnswer tid (-1) ↔ ¬ x.sched.Allocated tid.toNat := by
  constructor
  · intro h ha
    generalize hq : (-1 : QWORD) = q at h
    cases h with
    | found => cases hs : (x.sched.tcb tid.toNat).state <;> rw [hs] at hq <;> exact absurd hq (by decide)
    | absent h => exact h ha
  · exact .absent

theorem looksUpState_iff : LooksUpState env c x tid ↔
    (∀ t, x.Visited tid t → (x.sched.tcb t).refc ≠ 0) ∧ ¬ x.sched.Allocated tid.toNat := by
  simp only [← reaches_iff]
  constructor
  · rintro ⟨q, he, hq⟩
    rw [lkThreadLookupState, lookupState_eq] at he
    obtain ⟨r, hs, rfl⟩ := of_unchanged he
    exact ⟨sweep_unchanged_iff.1 ⟨r, hs⟩, stateAnswer_neg_one_iff.1 hq⟩
  · rintro ⟨h, ha⟩
    obtain ⟨r, he, _⟩ := @sweep_kept env c _ _ _ _ _ h
    refine ⟨-1, ?_, .absent ha⟩
    rw [lkThreadLookupState, lookupState_eq, he]
    rfl

theorem looksUp_iff (env : Env) (c : ℕ) (x : ThreadTable) (name tid : QWORD) :
    LooksUpTid env c x name ∧ LooksUpState env c x tid ↔
      (∀ t, x.Visited name t ∨ x.Visited tid t → (x.sched.tcb t).refc ≠ 0) ∧ ¬ x.sched.Allocated tid.toNat := by
  rw [looksUpTid_iff, looksUpState_iff, ← and_assoc, ← forall_and]
  simp only [or_imp]

theorem idle_state_not_found : (Sched.threadInit ⟨0, 0, 0, 0⟩).Allocated 0 ∧
    ∀ env c, ¬ LooksUpState env c ⟨Sched.threadInit ⟨0, 0, 0, 0⟩, fun _ => threadInitName⟩ 0 := by
  have h0 : (Sched.threadInit ⟨0, 0, 0, 0⟩).Allocated 0 := ⟨by simp, by simp [Sched.threadInit, Sched.idleTcb]⟩
  exact ⟨h0, fun env c h => (looksUpState_iff.1 h).2 h0⟩

end ThreadTable
end Azalea
