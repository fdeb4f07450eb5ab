import Azalea.Sched.Moves

namespace Azalea

namespace Sched

set_option linter.style.nameCheck false

variable {strict : Bool} {s s' : Sched} {env : Env} {r : ℕ → ℕ} {c d t u round : ℕ} {p q : Place}
  {f : TCB → TCB} {l : List ℕ}

theorem modify_eq_self (h : f (s.tcb t) = s.tcb t) : s.modify t f = s := by
  unfold modify
  rw [h, Function.update_eq_self]

theorem refillTimeSlice_eq (he : s.refillTimeSlice t = some s') :
    ∃ x y, s' = s.modify t fun a => { a with remainingTimeSlice := x, remainingTimeQuantum := y } := by
  unfold refillTimeSlice at he
  dsimp only at he
  split at he
  · split at he
    · refine ⟨(s.tcb t).timeSlice, (s.tcb t).remainingTimeQuantum, ?_⟩
      rw [← Option.some.inj he]
      rfl
    · split at he
      · exact absurd he (by simp)
      · refine ⟨(s.tcb t).timeSlice, (s.tcb t).remainingTimeQuantum - (s.tcb t).timeSlice, ?_⟩
        rw [← Option.some.inj he]
        rfl
  · refine ⟨(s.tcb t).remainingTimeSlice, (s.tcb t).remainingTimeQuantum, ?_⟩
    rw [← Option.some.inj he, modify_eq_self rfl]

theorem refillTimeSlice_move (he : s.refillTimeSlice t = some s')
    (ht : t = c ∨ ∃ p, p.OfCore c ∧ t ∈ s.tcbList p) : Move strict env c s t s' := by
  obtain ⟨x, y, rfl⟩ := refillTimeSlice_eq he
  exact .soft ht (TCB.soft_of id id id)

theorem setState_move {st : ThreadState} (hst : st ≠ .notalloc ∧ st ≠ .exited)
    (ht : t = c ∨ ∃ p, p.OfCore c ∧ t ∈ s.tcbList p) : Move strict env c s t (s.setState t st) :=
  .soft ht (TCB.soft_of (fun _ => hst) id id)

inductive Fate (c : ℕ) (found : Option ℕ) (s s' : Sched) (t : ℕ) : Prop
  | kept (hx : (s.tcb t).intention.exited = false) (hb : (s.tcb t).intention.blocked = false)
      (hu : Untouched t s s') : Fate c found s s' t
  | picked (hx : (s.tcb t).intention.exited = false) (hb : (s.tcb t).intention.blocked = false)
      (ha : (s.tcb t).availableNext = true) (hf : found = some t) (ht : t ∈ s'.tcbList (.runnable c))
      (hs : s'.tcb t = { s.tcb t with state := .running }) : Fate c found s s' t
  | blocked (hx : (s.tcb t).intention.exited = false) (hb : (s.tcb t).intention.blocked = true)
      (ht : t ∈ s'.tcbList (.blocked c))
      (hs : s'.tcb t = { s.tcb t with state := .blocked, intention := { (s.tcb t).intention with blocked := false } }) :
      Fate c found s s' t
  | retired (hx : (s.tcb t).intention.exited = true) (hn : s.runningThread c ≠ t)
      (hout : ∀ {p : Place}, p.Scheduled → t ∉ s'.tcbList p) : Fate c found s s' t

theorem Fate.runnable {found : Option ℕ} (h : Fate c found s s' t) (hi : Inv strict r s')
    (ht : t ∈ s'.tcbList (.runnable c)) :
    (s'.tcb t).intention.exited = false ∧ (s'.tcb t).intention.blocked = false := by
  cases h with
  | kept hx hb hu =>
    rw [hu.tcb]
    exact ⟨hx, hb⟩
  | picked hx hb ha hf hm hs =>
    rw [hs]
    exact ⟨hx, hb⟩
  | blocked hx hb hm hs => exact absurd (hi.placed.exclusive.once hm ht) (by simp)
  | retired hx hn hout => exact absurd ht (hout trivial)

theorem scan_cons {found : Option ℕ} {out : Scan} (hi : Inv strict r s) (ht : t ∈ s.tcbList (.runnable c))
    (he : scan env c c round (t :: l) found s = some out) :
    ((s.tcb t).intention.exited = true ∧ s.runningThread c = t ∧
      ∃ s', s.refillTimeSlice c = some s' ∧ out = .returned s') ∨
    ∃ found₁ s₁, scan env c c round l found₁ s₁ = some out ∧ Moves strict env c {t} s s₁ ∧ Fate c found₁ s s₁ t ∧
      (found₁ = found ∨ found = none ∧ found₁ = some t ∧ (s.tcb t).availableNext = true ∧
        t ∈ s₁.tcbList (.runnable c) ∧ (s₁.tcb t).state = .running) ∧
      (found₁ = none → t ∈ s₁.tcbList (.runnable c) → (s₁.tcb t).availableNext = false) := by
  have hcore := (hi.placed.at_place ht).2
  rw [scan.eq_def] at he
  dsimp only at he
  split at he
  · next hx =>
    split at he
    · next hrun =>
      obtain ⟨s', he', rfl⟩ := Option.map_eq_some_iff.mp he
      exact .inl ⟨hx, hrun, s', he', rfl⟩
    · next hn =>
      obtain ⟨s₁, he₁, he⟩ := Option.bind_eq_some_iff.mp he
      have hm : Moves strict env c {t} s s₁ := .single rfl (.retire ht rfl hcore.1 hn (fun _ => rfl) he₁)
      have hout {p : Place} (hp : p.Scheduled) : t ∉ s₁.tcbList p := by
        rw [(hi.placed.retired ht trivial he₁).scheduled hp]
        exact hi.placed.exclusive.not_mem_remove
      exact .inr ⟨found, s₁, he, hm, .retired hx hn hout, .inl rfl, fun _ h => absurd h (hout trivial)⟩
  · next hx =>
    have hx : (s.tcb t).intention.exited = false := by simpa using hx
    split at he
    · next hb =>
      have hm : Moves strict env c {t} s (s.block c t) := .single rfl (.block ht rfl hcore.1 fun _ => ⟨rfl, fun _ => hx⟩)
      have hin : t ∈ (s.block c t).tcbList (.blocked c) := hi.placed.exclusive.mem_move_self.mpr rfl
      have hout : t ∉ (s.block c t).tcbList (.runnable c) := by
        rw [block_tcbList, hi.placed.exclusive.mem_move_self]
        simp
      exact .inr ⟨found, _, he, hm, .blocked hx hb hin block_tcb_self, .inl rfl, fun _ h => absurd h hout⟩
    · next hb =>
      have hb : (s.tcb t).intention.blocked = false := by simpa using hb
      split at he
      · next hav =>
        split at he
        · split at he
          · have hm : Moves strict env c {t} s (s.setState t .running) :=
              .single rfl (setState_move (by simp) (.inr ⟨.runnable c, rfl, ht⟩))
            refine .inr ⟨some t, _, he, hm, .picked hx hb hav rfl ht modify_tcb_self, .inr ⟨rfl, rfl, hav, ht, ?_⟩, by simp⟩
            rw [setState, modify_tcb_self]
          · exact .inr ⟨_, s, he, .refl, .kept hx hb .refl, .inl rfl, by simp⟩
        · next hna => exact absurd hcore.2 hna
      · next hav => exact .inr ⟨found, s, he, .refl, .kept hx hb .refl, .inl rfl, fun _ _ => by simpa using hav⟩

inductive Scanned (strict : Bool) (env : Env) (c : ℕ) (l : List ℕ) (found : Option ℕ) (s : Sched) : Scan → Prop
  | returned {s' : Sched} (hm : Moves strict env c {t | t = c ∨ t ∈ l} s s') :
      Scanned strict env c l found s (.returned s')
  | scanned {found' : Option ℕ} {s' : Sched} (hm : Moves strict env c {t | t ∈ l} s s')
      (hi : ∀ t ∈ l, t ∈ s'.tcbList (.runnable c) →
        (s'.tcb t).intention.exited = false ∧ (s'.tcb t).intention.blocked = false)
      (hf : found' = found ∨ ∃ t ∈ l, found' = some t ∧ t ∈ s'.tcbList (.runnable c))
      (hn : found' = none → ∀ t ∈ l, t ∈ s'.tcbList (.runnable c) → (s'.tcb t).availableNext = false) :
      Scanned strict env c l found s (.scanned found' s')

theorem Scanned.cons {s₁ : Sched} {found found₁ : Option ℕ} {out : Scan} (hc : c < maxProcessorCount)
    (hi : Inv strict r s₁) (hm : Moves strict env c {t} s s₁) (ht : t ∉ l)
    (hkeep : t ∈ s₁.tcbList (.runnable c) →
      (s₁.tcb t).intention.exited = false ∧ (s₁.tcb t).intention.blocked = false)
    (hfound : found₁ = found ∨ found₁ = some t ∧ t ∈ s₁.tcbList (.runnable c))
    (havail : found₁ = none → t ∈ s₁.tcbList (.runnable c) → (s₁.tcb t).availableNext = false)
    (h : Scanned strict env c l found₁ s₁ out) : Scanned strict env c (t :: l) found s out := by
  cases h with
  | returned hl =>
    exact .returned ((hm.mono (by rintro _ rfl; simp)).trans (hl.mono (by rintro u (h | h) <;> simp [h])))
  | scanned hl hint hf hn =>
    have hu := hl.untouched hc hi ht
    refine .scanned ((hm.mono (by rintro _ rfl; simp)).trans (hl.mono fun u h => by simp_all)) ?_ ?_ ?_
    · intro u hul hur
      rcases List.mem_cons.mp hul with rfl | hul
      · rw [hu.tcb]
        exact hkeep (hu.runnable.mp hur)
      · exact hint u hul hur
    · rcases hf with rfl | ⟨u, hul, hfu, hur⟩
      · rcases hfound with hf | ⟨hf, htr⟩
        · exact .inl hf
        · exact .inr ⟨t, by simp, hf, hu.runnable.mpr htr⟩
      · exact .inr ⟨u, by simp [hul], hfu, hur⟩
    · intro hnone u hul hur
      rcases List.mem_cons.mp hul with rfl | hul
      · rw [hu.tcb]
        refine havail ?_ (hu.runnable.mp hur)
        rcases hf with rfl | ⟨w, _, hfw, _⟩
        · exact hnone
        · exact absurd (hfw.symm.trans hnone) (by simp)
      · exact hn hnone u hul hur

theorem scan_scanned (hc : c < maxProcessorCount) {found : Option ℕ} {out : Scan} (hi : Inv strict r s)
    (hnd : l.Nodup) (hl : ∀ t ∈ l, t ∈ s.tcbList (.runnable c)) (he : scan env c c round l found s = some out) :
    Scanned strict env c l found s out := by
  induction l generalizing found s with
  | nil =>
    cases he
    exact .scanned .refl (by simp) (.inl rfl) (by simp)
  | cons t l ih =>
    obtain ⟨htl, hnd⟩ := List.nodup_cons.mp hnd
    rcases scan_cons hi (hl t (by simp)) he with ⟨_, _, s', he', rfl⟩ | ⟨found₁, s₁, he, hm, hfate, hfound, havail⟩
    · exact .returned (.single (.inl rfl) (refillTimeSlice_move he' (.inl rfl)))
    · have hi₁ := hm.inv hc hi
      have hrest : ∀ u ∈ l, u ∈ s₁.tcbList (.runnable c) := fun u hu =>
        (hm.untouched hc hi (by rintro rfl; exact htl hu)).runnable.mpr (hl u (by simp [hu]))
      exact Scanned.cons hc hi₁ hm htl (hfate.runnable hi₁) (hfound.imp_right fun h => ⟨h.2.1, h.2.2.2.1⟩) havail
        (ih hi₁ hnd hrest he)

structure Retimed (s s' : Sched) : Prop where
  tcb : ∀ t, ∃ x y, s'.tcb t = { s.tcb t with remainingTimeSlice := x, remainingTimeQuantum := y }
  tcbList : s'.tcbList = s.tcbList
  count : s'.count = s.count

theorem Retimed.refl : Retimed s s := ⟨fun _ => ⟨_, _, rfl⟩, rfl, rfl⟩

theorem Retimed.trans {s₁ s₂ s₃ : Sched} (h : Retimed s₁ s₂) (h' : Retimed s₂ s₃) : Retimed s₁ s₃ where
  tcb t := by
    obtain ⟨_, _, h⟩ := h.tcb t
    obtain ⟨x, y, h'⟩ := h'.tcb t
    exact ⟨x, y, by rw [h', h]⟩
  tcbList := h'.tcbList.trans h.tcbList
  count := h'.count.trans h.count

theorem Retimed.intention (h : Retimed s s') : (s'.tcb t).intention = (s.tcb t).intention := by
  obtain ⟨x, y, h⟩ := h.tcb t
  rw [h]

theorem Retimed.state (h : Retimed s s') : (s'.tcb t).state = (s.tcb t).state := by
  obtain ⟨x, y, h⟩ := h.tcb t
  rw [h]

theorem refillTimeSlice_retimed (he : s.refillTimeSlice t = some s') : Retimed s s' := by
  obtain ⟨x, y, rfl⟩ := refillTimeSlice_eq he
  refine ⟨fun u => ?_, rfl, rfl⟩
  by_cases hu : u = t
  · subst hu
    exact ⟨x, y, modify_tcb_self⟩
  · exact ⟨_, _, modify_tcb_of_ne hu⟩

theorem refillReady_spec (hl : ∀ t ∈ l, t ∈ s.tcbList (.runnable c)) {b : Bool}
    (he : refillReady l s = some (b, s')) : Moves strict env c {t | t ∈ l} s s' ∧ Retimed s s' ∧
      (b = false → s' = s ∧ ∀ t ∈ l, ¬((s.tcb t).state = .ready ∧ (s.tcb t).remainingTimeSlice ≤ 0)) := by
  induction l generalizing s b with
  | nil =>
    cases he
    exact ⟨.refl, .refl, fun _ => ⟨rfl, by simp⟩⟩
  | cons t l ih =>
    rw [refillReady] at he
    split at he
    · obtain ⟨⟨b', s₂⟩, he, heq⟩ := Option.map_eq_some_iff.mp he
      obtain ⟨s₁, he₁, he₂⟩ := Option.bind_eq_some_iff.mp he
      cases heq
      have hm : Move strict env c s t s₁ := refillTimeSlice_move he₁ (.inr ⟨.runnable c, rfl, hl t (by simp)⟩)
      have hr := refillTimeSlice_retimed he₁
      obtain ⟨hms, hrs, _⟩ := ih (fun u hu => by rw [hr.tcbList]; exact hl u (by simp [hu])) he₂
      exact ⟨.head (by simp) hm (hms.mono fun u hu => by simp_all), hr.trans hrs, by simp⟩
    · next hn =>
      obtain ⟨hms, hrs, hb⟩ := ih (fun u hu => hl u (by simp [hu])) he
      refine ⟨hms.mono fun u hu => by simp_all, hrs, fun hf => ⟨(hb hf).1, fun u hu => ?_⟩⟩
      rcases List.mem_cons.mp hu with rfl | hu
      · exact hn
      · exact (hb hf).2 u hu

def Selected (c next : ℕ) (s : Sched) : Prop :=
  next = c ∨ next ∈ s.tcbList (.runnable c) ∧ (s.tcb next).intention.exited = false ∧
    (s.tcb next).intention.blocked = false

theorem selectNextThread_spec (hc : c < maxProcessorCount) {n next : ℕ} (hi : Inv strict r s)
    (he : selectNextThread env c n s = some (next, s')) :
    Moves strict env c {t | t = c ∨ t ∈ s.tcbList (.runnable c)} s s' ∧ Selected c next s' := by
  induction n generalizing s with
  | zero => exact absurd he (by simp [selectNextThread])
  | succ n ih =>
    rw [selectNextThread, hi.current_core hc] at he
    have hsub {s₁ : Sched} (hm : Moves strict env c {t | t ∈ s.tcbList (.runnable c)} s s₁) {u : ℕ}
        (hu : u ∈ s₁.tcbList (.runnable c)) : u ∈ s.tcbList (.runnable c) := by
      by_contra hn
      exact hn ((hm.untouched hc hi hn).runnable.mp hu)
    split at he
    · exact absurd he (by simp)
    · next hscan =>
      cases he
      cases scan_scanned hc hi (hi.placed.exclusive.nodup _) (fun _ h => h) hscan with
      | returned hm => exact ⟨hm, .inl rfl⟩
    · next hscan =>
      cases he
      cases scan_scanned hc hi (hi.placed.exclusive.nodup _) (fun _ h => h) hscan with
      | scanned hm hint hf =>
        refine ⟨hm.mono fun _ h => .inr h, ?_⟩
        rcases hf with hf | ⟨t, htl, hf, htr⟩
        · exact absurd hf (by simp)
        · cases hf
          exact .inr ⟨htr, hint _ htl htr⟩
    · next s₁ hscan =>
      cases scan_scanned hc hi (hi.placed.exclusive.nodup _) (fun _ h => h) hscan with
      | scanned hm hint _ =>
        split at he
        · exact absurd he (by simp)
        · next s₂ hrefill =>
          obtain ⟨hm₂, hr, _⟩ : Moves strict env c {t | t ∈ s₁.tcbList (.runnable c)} s₁ s₂ ∧ _ :=
            refillReady_spec (fun _ h => h) hrefill
          obtain ⟨hm₃, hsel⟩ := ih (hm₂.inv hc (hm.inv hc hi)) he
          refine ⟨(hm.mono fun _ h => .inr h).trans ((hm₂.mono fun u h => .inr (hsub hm h)).trans
            (hm₃.mono ?_)), hsel⟩
          rintro u (h | h)
          · exact .inl h
          · exact .inr (hsub hm (hr.tcbList ▸ h))
        · next s₂ hrefill =>
          obtain ⟨_, _, hb⟩ : Moves strict env c {t | t ∈ s₁.tcbList (.runnable c)} s₁ s₂ ∧ _ :=
            refillReady_spec (fun _ h => h) hrefill
          obtain ⟨rfl, _⟩ := hb rfl
          have hm' := hm.mono fun _ h => (.inr h : _ ∈ {t | t = c ∨ t ∈ s.tcbList (.runnable c)})
          split at he
          · obtain ⟨t, hhead, heq⟩ := Option.map_eq_some_iff.mp he
            cases heq
            have htr := List.mem_of_head? hhead
            exact ⟨hm', .inr ⟨htr, hint _ (hsub hm htr) htr⟩⟩
          · cases he
            exact ⟨hm', .inl rfl⟩

theorem Placed.seat_own (h : Placed r s) (hc : c < maxProcessorCount) (hs : Seat strict s c t) :
    t = c ∨ ∃ p, p.OfCore c ∧ t ∈ s.tcbList p ∧ (s.tcb t).runningCore = c ∧ (strict = true → p = .runnable c ∨
      (s.tcb t).intention.blocked = false ∧ (s.tcb t).intention.exited = false) := by
  have hcore := h.seat_core hs hc
  cases hs with
  | idle => exact .inl rfl
  | runnable hm => exact .inr ⟨.runnable c, rfl, hm, hcore, fun _ => .inl rfl⟩
  | blocked hm hi => exact .inr ⟨.blocked c, rfl, hm, hcore, fun hst => .inr (hi hst)⟩
  | migrating hst hm => exact .inr ⟨.migrating, trivial, hm, hcore, fun h => absurd (h.symm.trans hst) (by simp)⟩

theorem __postContextSwitch_moves (hc : c < maxProcessorCount) {prev : ℕ} (hi : Inv strict r s)
    (hprev : Seat strict s c prev)
    (hcur : strict = true → s.runningThread c = prev → (s.tcb prev).intention.blocked = false)
    (he : s.__postContextSwitch env c prev = some s') : Moves strict env c {prev} s s' := by
  have hown := hi.placed.seat_own hc hprev
  have hsoft : prev = c ∨ ∃ p, p.OfCore c ∧ prev ∈ s.tcbList p :=
    hown.imp_right fun ⟨p, hp, hm, _⟩ => ⟨p, hp, hm⟩
  unfold __postContextSwitch at he
  dsimp only at he
  split at he
  · cases he
    exact .refl
  split at he
  · cases he
    exact .single rfl (.soft hsoft (TCB.soft_of (by simp) (by simp) id))
  split at he
  · next hb =>
    cases he
    rcases hown with rfl | ⟨p, hp, hm, hcore, hst⟩
    · exact absurd hb (by simp [(hi.placed.idle hc).blocked])
    · refine .single rfl (.block hm hp hcore fun h => ⟨(hst h).resolve_right (by simp [hb]), fun hrun => ?_⟩)
      exact absurd (hcur h hrun) (by simp [hb])
  split at he
  · next hx =>
    split at he
    · cases he
      exact .refl
    · next hn =>
      rcases hown with rfl | ⟨p, hp, hm, hcore, hst⟩
      · exact absurd hx (by simp [(hi.placed.idle hc).exited])
      · exact .single rfl (.retire hm hp hcore hn (fun h => (hst h).resolve_right (by simp [hx])) he)
  · cases he
    exact .refl

inductive Pull (strict : Bool) (env : Env) (c : ℕ) (s : Sched) : ℕ → Sched → Prop
  | adopt {t : ℕ} (ht : t ∈ s.tcbList .migrating) (ha : (s.tcb t).coreIsAllowed c = true)
      (hs : strict = false → (s.tcb t).runningCore = c ∨ (s.tcb t).runningCore = noCore) :
      Pull strict env c s t (s.adopt c c t)
  | unblock {t : ℕ} (ht : t ∈ s.tcbList (.blocked c)) (hr : (s.tcb t).intention.ready = true) :
      Pull strict env c s t (s.unblock c t)
  | retire {t : ℕ} {s' : Sched} (ht : t ∈ s.tcbList (.blocked c)) (hx : (s.tcb t).intention.exited = true)
      (hn : s.runningThread c ≠ t) (he : s.retire env c t (.blocked c) = some s') : Pull strict env c s t s'

def Pulls (strict : Bool) (env : Env) (c : ℕ) (S : Set ℕ) : Sched → Sched → Prop :=
  Relation.ReflTransGen fun s s' => ∃ t ∈ S, ∃ r, Inv strict r s ∧ Pull strict env c s t s'

theorem Pull.move (hi : Inv strict r s) (h : Pull strict env c s t s') : Move strict env c s t s' := by
  cases h with
  | adopt ht ha hs => exact .adopt ht ha hs
  | unblock ht => exact .unblock ht
  | retire ht _ hn he => exact .retire ht rfl (hi.placed.at_place ht).2.1 hn (fun _ => rfl) he

namespace Pulls

variable {S T : Set ℕ} {s₁ s₂ s₃ : Sched}

theorem refl : Pulls strict env c S s s := Relation.ReflTransGen.refl

theorem single (hi : Inv strict r s) (ht : t ∈ S) (h : Pull strict env c s t s') : Pulls strict env c S s s' :=
  Relation.ReflTransGen.single ⟨t, ht, r, hi, h⟩

theorem trans (h : Pulls strict env c S s₁ s₂) (h' : Pulls strict env c S s₂ s₃) : Pulls strict env c S s₁ s₃ :=
  Relation.ReflTransGen.trans h h'

theorem mono (hST : S ⊆ T) (h : Pulls strict env c S s s') : Pulls strict env c T s s' :=
  Relation.ReflTransGen.mono (fun _ _ ⟨t, ht, hp⟩ => ⟨t, hST ht, hp⟩) _ _ h

theorem moves (h : Pulls strict env c S s s') : Moves strict env c S s s' :=
  Relation.ReflTransGen.mono (fun _ _ ⟨t, ht, _, hi, hp⟩ => ⟨t, ht, hp.move hi⟩) _ _ h

end Pulls

theorem adoptMatching_pulls (hc : c < maxProcessorCount) (hi : Inv strict r s) (hnd : l.Nodup)
    (hl : ∀ t ∈ l, t ∈ s.tcbList .migrating) : Pulls strict env c {t | t ∈ l} s (adoptMatching c c l s).2 := by
  induction l generalizing s with
  | nil => exact .refl
  | cons t l ih =>
    obtain ⟨htl, hnd⟩ := List.nodup_cons.mp hnd
    have htm : t ∈ s.tcbList .migrating := hl t (by simp)
    rw [adoptMatching]
    have hp : Pulls strict env c {t} s (if (s.tcb t).runningCore = c then s.adopt c c t else s) := by
      split
      · next hcore =>
        exact .single hi rfl (.adopt htm ((hi.placed.at_place htm).2.allowed hcore hc) fun _ => .inl hcore)
      · exact .refl
    generalize (if (s.tcb t).runningCore = c then s.adopt c c t else s) = s₁ at hp ⊢
    have hp' : Pulls strict env c {u | u ∈ t :: l} s s₁ := hp.mono (by rintro _ rfl; simp)
    have hm := hp.moves
    split
    · exact hp'
    · refine hp'.trans ((ih (hm.inv hc hi) hnd fun u hu => ?_).mono fun u hu => by simp_all)
      exact (hm.untouched hc hi (by rintro rfl; exact htl hu)).migrating.mpr (hl u (by simp [hu]))

theorem adoptAllowed_pulls (hlo : strict = false → c < 256) (hi : Inv strict r s)
    (hl : ∀ t ∈ l, t ∈ s.tcbList .migrating) : Pulls strict env c {t | t ∈ l} s (adoptAllowed c c l s) := by
  induction l with
  | nil => exact .refl
  | cons t l ih =>
    have htm : t ∈ s.tcbList .migrating := hl t (by simp)
    rw [adoptAllowed]
    split
    · next ha =>
      exact .single hi (by simp)
        (.adopt htm ha.1 fun hst => (hi.placed.at_place htm).2.core_of_allowed (hlo hst) ha.1)
    split
    · exact .refl
    · exact (ih fun u hu => hl u (by simp [hu])).mono fun u hu => by simp_all

theorem adoptMigrating_pulls (hc : c < maxProcessorCount) (hlo : strict = false → c < 256) (hi : Inv strict r s) :
    Pulls strict env c {t | t ∈ s.tcbList .migrating} s (s.adoptMigrating env c) := by
  unfold adoptMigrating
  split
  · rw [hi.current_core hc]
    dsimp only
    have hp : Pulls strict env c {t | t ∈ s.tcbList .migrating} s (adoptMatching c c (s.tcbList .migrating) s).2 :=
      adoptMatching_pulls hc hi (hi.placed.exclusive.nodup _) fun _ h => h
    have hm := hp.moves
    split
    · exact hp
    · refine hp.trans ((adoptAllowed_pulls hlo (hm.inv hc hi) fun _ h => h).mono fun u hu => ?_)
      by_contra hn
      exact hn ((hm.untouched hc hi hn).migrating.mp hu)
  · exact .refl

theorem unblockReady_pulls (hc : c < maxProcessorCount) (hi : Inv strict r s) (hnd : l.Nodup)
    (hl : ∀ t ∈ l, t ∈ s.tcbList (.blocked c)) (he : unblockReady env c l s = some s') :
    Pulls strict env c {t | t ∈ l} s s' := by
  induction l generalizing s with
  | nil =>
    cases he
    exact .refl
  | cons t l ih =>
    obtain ⟨htl, hnd⟩ := List.nodup_cons.mp hnd
    have htb : t ∈ s.tcbList (.blocked c) := hl t (by simp)
    have hrest {s₁ : Sched} (hp : Pulls strict env c {t} s s₁) (he : unblockReady env c l s₁ = some s') :
        Pulls strict env c {u | u ∈ t :: l} s s' := by
      have hm := hp.moves
      refine (hp.mono (by rintro _ rfl; simp)).trans
        ((ih (hm.inv hc hi) hnd (fun u hu => ?_) he).mono fun u hu => by simp_all)
      exact (hm.untouched hc hi (by rintro rfl; exact htl hu)).blocked.mpr (hl u (by simp [hu]))
    rw [unblockReady] at he
    split at he
    · next hx =>
      split at he
      · exact hrest .refl he
      · next hn =>
        obtain ⟨s₁, he₁, he₂⟩ := Option.bind_eq_some_iff.mp he
        exact hrest (.single hi rfl (.retire htb hx hn he₁)) he₂
    · split at he
      · next hr => exact hrest (.single hi rfl (.unblock htb hr)) he
      · exact hrest .refl he

theorem pullThreads_pulls (hc : c < maxProcessorCount) (hlo : strict = false → c < 256) (hi : Inv strict r s)
    (he : s.pullThreads env c = some s') :
    Pulls strict env c {t | t ∈ s.tcbList .migrating ∨ t ∈ s.tcbList (.blocked c)} s s' := by
  have hp : Pulls strict env c _ s _ := adoptMigrating_pulls hc hlo hi
  have hi' := hp.moves.inv hc hi
  have hp' := hp.mono (T := {t | t ∈ s.tcbList .migrating ∨ t ∈ s.tcbList (.blocked c)}) fun _ h => .inl h
  unfold pullThreads at he
  dsimp only at he
  split at he
  · refine hp'.trans ((unblockReady_pulls hc hi' (hi'.placed.exclusive.nodup _) (fun _ h => h) he).mono fun u hu => ?_)
    by_contra hn
    exact hn (.inr ((hp'.moves.untouched hc hi hn).blocked.mp hu))
  · cases he
    exact hp'

theorem pullThreads_moves (hc : c < maxProcessorCount) (hlo : strict = false → c < 256) (hi : Inv strict r s)
    (he : s.pullThreads env c = some s') :
    Moves strict env c {t | t ∈ s.tcbList .migrating ∨ t ∈ s.tcbList (.blocked c)} s s' :=
  (pullThreads_pulls hc hlo hi he).moves

end Sched

end Azalea
