import Azalea.Offload.PoolThreads

namespace Azalea.ThreadPool
open Crowd Relation

variable {α : Type*} {s s' : ThreadPool α}

structure Attended (s s' : ThreadPool α) : Prop where
  step : Step s s'
  run : s'.run ≠ 0
  removeThreads : s'.removeThreads = 0
  suspend : s'.suspend = false
  attended : s'.accepted ≠ s.accepted → ∃ e ∈ s.executors, e.awake = true ∨ e = .asleep

structure Serves (s : ThreadPool α) : Prop where
  served : s.jobs.front ≠ 0 → (∃ e ∈ s.executors, e.awake = true) ∨ .signalling ∈ s.adders ∧ .asleep ∈ s.executors
  locked : s.queuemutex = true → .signalling ∈ s.adders

structure Served (s : ThreadPool α) : Prop extends s.Serves where
  run : s.run ≠ 0
  removeThreads : s.removeThreads = 0
  suspend : s.suspend = false

namespace Served

theorem turn (h : s.Served) {a b : Executor} (he : Turn a b s.executors s'.executors) (hb : b.awake = true ∨ a.awake = false ∧ a ≠ .asleep)
    (hf : s'.jobs.front ≠ 0 → s.jobs.front ≠ 0) (had : s'.adders = s.adders) (hq : s'.queuemutex = true → s.queuemutex = true) :
    s'.Serves := by
  refine ⟨fun hfront => ?_, fun hx => had ▸ h.locked (hq hx)⟩
  rcases hb with hb | ⟨ha, hne⟩
  · exact .inl ⟨b, he.mem_right, hb⟩
  · rcases h.served (hf hfront) with ⟨e, hx, hw⟩ | ⟨hs, hx⟩
    · rcases he.mem_or_eq hx with rfl | hx
      · exact absurd (ha.symm.trans hw) nofun
      · exact .inl ⟨e, hx, hw⟩
    · refine .inr ⟨had ▸ hs, ?_⟩
      exact (he.mem_or_eq hx).resolve_left fun hx => hne hx.symm

theorem executorStep (h : s.Served) (hs : ExecutorStep s s') : s'.Serves := by
  cases hs with
  | leave _ hr => exact absurd hr h.run
  | remove _ _ hr => exact absurd h.removeThreads hr.ne'
  | rest he _ _ hf =>
    have hfront : s.jobs.front = 0 := hf.resolve_right (by simp [h.suspend])
    exact ⟨fun hx => absurd hfront hx, h.locked⟩
  | register he =>
    rcases s.register_spec with hr | ⟨-, ⟨-, hr⟩ | ⟨-, hr⟩⟩
    all_goals
      rw [hr]
      exact h.turn he (.inr ⟨rfl, nofun⟩) id rfl id
  | take he _ _ hf => exact h.turn he (.inl rfl) (fun _ => hf) rfl id
  | start he | loop he | unregister he | execute he | release he => exact h.turn he (.inl rfl) id rfl id
  | discount he | quitStopped he | stop he => exact h.turn he (.inr ⟨rfl, nofun⟩) id rfl id
  | quit he | stopLate he => exact h.turn he (.inr ⟨rfl, nofun⟩) id rfl nofun

theorem add (h : s.Served) {a b : Adder α} (ha : Turn a b s.adders s'.adders) (hx : a ≠ .signalling)
    (hf : s'.jobs.front = s.jobs.front) (he : s'.executors = s.executors) (hq : s'.queuemutex = s.queuemutex) : s'.Serves := by
  have hmem : ∀ {c}, c ∈ s.adders → c = .signalling → c ∈ s'.adders := fun hc hs =>
    (ha.mem_or_eq hc).resolve_left fun hc => hx (hc.symm.trans hs)
  refine ⟨fun hfront => ?_, fun hl => hmem (h.locked (hq ▸ hl)) rfl⟩
  rw [he]
  exact (h.served (hf ▸ hfront)).imp_right fun ⟨hs, hs'⟩ => ⟨hmem hs rfl, hs'⟩

theorem signalled (h : s.Served) (hf : s.jobs.front ≠ 0) {es : List Executor} (he : Signalled s.executors es) :
    ∃ e ∈ es, e.awake = true := by
  rcases he with he | ⟨hno, rfl⟩
  · exact ⟨_, he.mem_right, rfl⟩
  · exact (h.served hf).resolve_right fun hx => hno hx.2

theorem addJobStep (h : s.Served) (hc : s.Counted)
    (hatt : s'.accepted ≠ s.accepted → ∃ e ∈ s.executors, e.awake = true ∨ e = .asleep) (hs : AddJobStep s s') : s'.Serves := by
  cases hs with
  | insert ha hq hx hw =>
    obtain ⟨e, he, hw'⟩ := hatt (by simp)
    refine ⟨fun _ => .inl ⟨e, he, hw'.resolve_right fun hx => ?_⟩, fun hl => absurd (hq.symm.trans hl) nofun⟩
    have hnone := List.countP_eq_zero.mp (hc.waiting.symm.trans hw) e he
    exact hnone (by rw [hx]; rfl)
  | insertWaiting ha hq hx hw =>
    refine ⟨fun _ => ?_, fun _ => ha.mem_right⟩
    rw [hc.waiting, List.countP_pos_iff] at hw
    obtain ⟨e, he, hr⟩ := hw
    cases e with
    | asleep => exact .inr ⟨ha.mem_right, he⟩
    | woken => exact .inl ⟨_, he, rfl⟩
    | _ => cases hr
  | signal ha he => exact ⟨fun hf => .inl (h.signalled hf he), nofun⟩
  | uninitialized ha | initialized ha | stopped ha | live ha | waitIssued ha | unavailable ha | malloc ha =>
    exact h.add ha nofun rfl rfl rfl

theorem ownerStep (h : s.Served) (hs : OwnerStep s s') : s'.Serves := by
  obtain ⟨⟨hsv, hl⟩, hr, hrm, hp⟩ := h
  cases hs with
  | pthreadCreate =>
    refine ⟨fun _ => .inl ⟨.starting, by simp, rfl⟩, hl⟩
  | removeSignal _ he =>
    refine ⟨fun hf => ?_, hl⟩
    rcases he with he | ⟨-, rfl⟩
    · exact .inl ⟨_, he.mem_right, rfl⟩
    · exact hsv hf
  | resumePool _ _ _ hs => exact absurd (hp.symm.trans hs) nofun
  | broadcast =>
    refine ⟨fun hf => .inl ?_, hl⟩
    rcases hsv hf with ⟨e, he, hw⟩ | ⟨-, he⟩
    · refine ⟨_, List.mem_map_of_mem he, ?_⟩
      cases e <;> first | rfl | exact hw
    · exact ⟨_, List.mem_map_of_mem he, rfl⟩
  | drain _ hf => exact ⟨fun _ => hsv hf, hl⟩
  | _ => exact ⟨hsv, hl⟩

theorem step (h : s.Served) (hc : s.Counted) (hs : Attended s s') : s'.Served := by
  obtain ⟨hs, hr, hrm, hp, hatt⟩ := hs
  suffices hv : s'.Serves from ⟨hv, hr, hrm, hp⟩
  revert hatt
  refine hs.elim (P := fun s s' => (s'.accepted ≠ s.accepted → ∃ e ∈ s.executors, e.awake = true ∨ e = .asleep) → s'.Serves)
    (fun hs _ => h.executorStep hs) (fun hs hatt => h.addJobStep hc hatt hs) (fun hs _ => h.ownerStep hs) (fun x _ _ => ?_)
    fun he _ => h.turn he (.inl rfl) id rfl id
  refine ⟨fun hf => (h.served hf).imp_right fun ⟨hx, hy⟩ => ⟨List.mem_append_left _ hx, hy⟩, fun hl => ?_⟩
  exact List.mem_append_left _ (h.locked hl)

theorem run_served {n : ℕ} (h : ReflTransGen Attended (createPool α n) s) : s.Counted ∧ s.Served := by
  refine @Run.invariant _ _ (fun s : ThreadPool α => s.Counted ∧ s.Served) _ _ ?_ ?_ h
  · rintro s s' ⟨hc, hv⟩ hs
    exact ⟨hc.step hs.step, hv.step hc hs⟩
  · exact ⟨.createPool n, ⟨fun hf => absurd rfl hf, nofun⟩, nofun, rfl, rfl⟩

end Served

structure Ready (s : ThreadPool α) : Prop where
  queuemutex : s.queuemutex = false
  suspend : s.suspend = false
  removeThreads : s.removeThreads = 0
  run : s.run ≠ 0
  front : s.jobs.front ≠ 0
  closed : s.Closed
  jobs : ∃ q, s.JobInv q

def TakesJob (s : ThreadPool α) : Prop := ∃ s' x, ReflTransGen Works s s' ∧ s'.started = s.started ++ [x]

theorem TakesJob.head (hs : Works s s') (hst : s'.started = s.started) (h : s'.TakesJob) : s.TakesJob := by
  obtain ⟨t, x, hr, hx⟩ := h
  exact ⟨t, x, .head hs hr, hst ▸ hx⟩

namespace Ready

theorem next (h : s.Ready) (hs : ExecutorStep s s') (hq : s'.queuemutex = s.queuemutex) (hp : s'.suspend = s.suspend)
    (hrm : s'.removeThreads = s.removeThreads) (hr : s'.run = s.run) (hf : s'.jobs.front = s.jobs.front) : s'.Ready := by
  obtain ⟨q, hj⟩ := h.jobs
  exact ⟨hq.trans h.queuemutex, hp.trans h.suspend, hrm.trans h.removeThreads, hr ▸ h.run, hf ▸ h.front,
    h.closed.step (.executor hs), hj.step h.closed (.executor hs)⟩

theorem entering (h : s.Ready) (he : .entering ∈ s.executors) : s.TakesJob := by
  obtain ⟨q, hj⟩ := h.jobs
  obtain ⟨es, ht⟩ := Turn.exists_of_mem he (.running s.jobs.front)
  have hd := h.closed.not_drained he rfl
  cases q with
  | nil => exact absurd ((hj.holds hd).front_eq_zero.mpr rfl) h.front
  | cons y q =>
    obtain ⟨hy, -, r, hc⟩ := (hj.holds hd).head
    rw [← hy] at hc
    exact ⟨_, _, .single (.executor (.take ht h.queuemutex h.removeThreads h.front h.suspend hc)), rfl⟩

theorem looping (h : s.Ready) (he : .looping ∈ s.executors) : s.TakesJob := by
  obtain ⟨es, ht⟩ := Turn.exists_of_mem he .entering
  have hs := ExecutorStep.loop ht h.run
  exact .head (.executor hs) rfl ((h.next hs rfl rfl rfl rfl rfl).entering ht.mem_right)

theorem finishing (h : s.Ready) {p : ℕ} (he : .finishing p ∈ s.executors) : s.TakesJob := by
  obtain ⟨es, ht⟩ := Turn.exists_of_mem he .looping
  have hs := ExecutorStep.release ht
  exact .head (.executor hs) rfl ((h.next hs rfl rfl rfl rfl rfl).looping ht.mem_right)

theorem running (h : s.Ready) {p : ℕ} (he : .running p ∈ s.executors) : s.TakesJob := by
  obtain ⟨q, hj⟩ := h.jobs
  obtain ⟨es, ht⟩ := Turn.exists_of_mem he (.finishing p)
  have hmem : p ∈ s.cells q :=
    List.mem_append_right _ (List.mem_append_left _ (List.mem_filterMap.mpr ⟨_, he, rfl⟩))
  obtain ⟨c, hc⟩ := Option.ne_none_iff_exists'.mp ((hj.allocated p).mpr hmem)
  have hs := ExecutorStep.execute ht hc
  exact .head (.executor hs) rfl ((h.next hs rfl rfl rfl rfl rfl).finishing ht.mem_right)

theorem awake (h : s.Ready) {e : Executor} (he : e ∈ s.executors) (hw : e.awake = true) : s.TakesJob := by
  cases e with
  | starting =>
    obtain ⟨es, ht⟩ := Turn.exists_of_mem he .looping
    have hs := ExecutorStep.start ht h.queuemutex
    exact .head (.executor hs) rfl ((h.next hs rfl rfl rfl rfl rfl).looping ht.mem_right)
  | looping => exact h.looping he
  | entering => exact h.entering he
  | woken =>
    obtain ⟨es, ht⟩ := Turn.exists_of_mem he .looping
    have hs := ExecutorStep.unregister ht
    exact .head (.executor hs) rfl ((h.next hs rfl rfl rfl rfl rfl).looping ht.mem_right)
  | running p => exact h.running he
  | finishing p => exact h.finishing he
  | _ => cases hw

end Ready

theorem exists_signalled (es : List Executor) : ∃ es', Signalled es es' := by
  by_cases hx : .asleep ∈ es
  · obtain ⟨es', he⟩ := Turn.exists_of_mem hx .woken
    exact ⟨es', .inl he⟩
  · exact ⟨es, .inr ⟨hx, rfl⟩⟩

theorem queued_job_taken (n : ℕ) (h : ReflTransGen Attended (createPool α n) s) (hf : s.jobs.front ≠ 0) : s.TakesJob := by
  obtain ⟨-, hv⟩ := Served.run_served h
  obtain ⟨hc, q, hq⟩ := jobInv_run (h.lift id fun _ _ hs => hs.step)
  -- the call that holds queuemutex signals first
  have hsignal : .signalling ∈ s.adders → s.TakesJob := fun hx => by
    obtain ⟨as, ha⟩ := Turn.exists_of_mem hx (.returned .completed)
    obtain ⟨es, he⟩ := exists_signalled s.executors
    have hs := AddJobStep.signal ha he
    have hready : Ready { s with queuemutex := false, executors := es, adders := as } :=
      ⟨rfl, hv.suspend, hv.removeThreads, hv.run, hf, hc.step (.addJob hs), hq.step hc (.addJob hs)⟩
    obtain ⟨e, hx, hw⟩ := hv.signalled hf he
    exact .head (.addJob hs) rfl (hready.awake hx hw)
  cases hm : s.queuemutex with
  | true => exact hsignal (hv.locked hm)
  | false =>
    rcases hv.served hf with ⟨e, hx, hw⟩ | ⟨hx, -⟩
    · exact Ready.awake ⟨hm, hv.suspend, hv.removeThreads, hv.run, hf, hc, q, hq⟩ hx hw
    · exact hsignal hx

theorem exists_run_attended : ∃ s, ReflTransGen Attended (createPool ℕ 1) s ∧ s.jobs.front ≠ 0 := by
  have hsame : ∀ {s s' : ThreadPool ℕ}, Step s s' → s'.run ≠ 0 → s'.removeThreads = 0 → s'.suspend = false →
      s'.accepted = s.accepted → Attended s s' := fun hs hr hrm hp ha => ⟨hs, hr, hrm, hp, fun hx => absurd ha hx⟩
  have h := ReflTransGen.refl (r := Attended) (a := createPool ℕ 1)
  have h := h.tail (hsame (.owner (.pthreadCreate rfl)) (by decide) rfl rfl rfl)
  have h := h.tail (hsame (.owner (.created rfl)) (by decide) rfl rfl rfl)
  have h := h.tail (hsame (.executor (.start (.here _) rfl)) (by decide) rfl rfl rfl)
  have h := h.tail (hsame (.executor (.loop (.here _) (by decide))) (by decide) rfl rfl rfl)
  have h := h.tail (hsame (.executor (.rest (.here _) rfl rfl (.inl rfl))) (by decide) rfl rfl rfl)
  have h := h.tail (hsame (.executor (.register (.here _))) (by decide) rfl rfl rfl)
  have h := h.tail (hsame (.owner (.initialized rfl rfl)) (by decide) rfl rfl rfl)
  have h := h.tail (hsame (.call 7 rfl) (by decide) rfl rfl rfl)
  have h := h.tail (hsame (.addJob (.initialized (.here _) rfl)) (by decide) rfl rfl rfl)
  have h := h.tail (hsame (.addJob (.live (.here _) (by decide))) (by decide) rfl rfl rfl)
  have h := h.tail (hsame (.addJob (.malloc (p := 1) (.here _) (by decide) (by decide) rfl)) (by decide) rfl rfl rfl)
  have h := h.tail ⟨.addJob (.insertWaiting (.here _) rfl rfl (by decide)), by decide, rfl, rfl,
    fun _ => ⟨.asleep, List.mem_singleton.mpr rfl, .inr rfl⟩⟩
  exact ⟨_, h, by decide⟩

theorem queued_job_taken_of_run : ∃ s, ReflTransGen Attended (createPool ℕ 1) s ∧ s.jobs.front ≠ 0 ∧ s.TakesJob := by
  obtain ⟨s, hs, hf⟩ := exists_run_attended
  exact ⟨s, hs, hf, queued_job_taken 1 hs hf⟩

structure Resting (s : ThreadPool α) (waiting : ℕ) (es : List Executor) : Prop where
  executors : s.executors = es
  waitingThreads : s.waitingThreads = waiting
  removeThreads : s.removeThreads = 0
  queuemutex : s.queuemutex = false
  run : s.run = 1
  suspend : s.suspend = false
  jobs : s.jobs = ⟨fun _ => none, 0, 0⟩
  accepted : s.accepted = s.started

structure Calm (s : ThreadPool α) (waiting : ℕ) (es : List Executor) : Prop extends s.Resting waiting es where
  isInitialized : s.isInitialized = true
  owner : s.owner = .outside
  adders : ∀ a ∈ s.adders, a.isReturned = true

namespace Calm

variable {m : ℕ} {es es' : List Executor}

theorem cycle (h : s.Calm (m + 1) es) (he : Turn .asleep .idle es es') (x : α) :
    ∃ s', ReflTransGen Prompt s s' ∧ s'.Calm m es' := by
  obtain ⟨l₁, h₁, t⟩ := he.between .woken
  obtain ⟨l₂, h₂, t⟩ := t.between .looping
  obtain ⟨l₃, h₃, t⟩ := t.between .entering
  obtain ⟨l₄, h₄, t⟩ := t.between (.running 1)
  obtain ⟨l₅, h₅, t⟩ := t.between (.finishing 1)
  obtain ⟨l₆, h₆, t⟩ := t.between .looping
  obtain ⟨l₇, h₇, h₈⟩ := t.between .entering
  have hrun := ReflTransGen.refl (r := Prompt) (a := s)
  have hone : 1 ≠ 0 := Nat.one_ne_zero
  obtain ⟨num, rem, w, init, qm, rn, tid, jobs, sus, cnt, exs, ads, own, acc, sta, fin, drp⟩ := s
  obtain ⟨⟨rfl, rfl, rfl, rfl, rfl, rfl, rfl, hacc⟩, rfl, rfl, had⟩ := h
  obtain rfl : acc = sta := hacc
  have h := hrun.tail (.call x rfl)
  have h := h.tail (.works (.addJob (.initialized (.append_left (.here _) ads) rfl)))
  have h := h.tail (.works (.addJob (.live (.append_left (.here _) ads) hone)))
  have h := h.tail (.works (.addJob (.malloc (.append_left (.here _) ads) (Nat.succ_ne_succ_iff.mpr hone.symm) hone rfl)))
  have h := h.tail (.works (.addJob (.insertWaiting (.append_left (.here _) ads) rfl rfl (Nat.succ_pos m))))
  have h := h.tail (.works (.addJob (.signal (.append_left (.here _) ads) (.inl h₁))))
  have h := h.tail (.works (.executor (.unregister h₂)))
  have h := h.tail (.works (.executor (.loop h₃ hone)))
  have h := h.tail (.works (.executor (.take h₄ rfl rfl hone rfl rfl)))
  have h := h.tail (.works (.executor (.execute h₅ rfl)))
  have h := h.tail (.works (.executor (.release h₆)))
  have h := h.tail (.works (.executor (.loop h₇ hone)))
  have h := h.tail (.works (.executor (.rest h₈ rfl rfl (.inl rfl))))
  refine ⟨_, h, ⟨rfl, ?_, rfl, rfl, rfl, rfl, ?_, rfl⟩, rfl, rfl, ?_⟩
  · rfl
  · simp [Chain.Store.alloc, Chain.Store.free, Chain.Store.push, Chain.Store.pop]
  · intro a ha
    rcases List.mem_append.mp ha with ha | ha
    · exact had a ha
    · obtain rfl := List.mem_singleton.mp ha
      rfl

end Calm

structure Booting (n : ℕ) (s : ThreadPool α) (waiting : ℕ) (es : List Executor) : Prop extends
    s.Resting waiting es where
  numThreads : s.numThreads = n
  isInitialized : s.isInitialized = decide (waiting = n)
  owner : s.owner = .initializing
  adders : s.adders = []

namespace Booting

variable {n m : ℕ} {es es' : List Executor}

theorem register_eq (hp : s.suspend = false) (hi : s.isInitialized = false) :
    s.register = { s with
      waitingThreads := s.waitingThreads + 1, isInitialized := decide (s.waitingThreads + 1 = s.numThreads) } := by
  unfold register
  by_cases hn : s.waitingThreads + 1 = s.numThreads
  · simp [hp, hi, hn]
  · simp [hi, hn]

theorem boot (h : Booting n s m es) (hm : m < n) (he : Turn .starting .asleep es es') :
    ∃ s', ReflTransGen Prompt s s' ∧ Booting n s' (m + 1) es' := by
  obtain ⟨l₁, h₁, t⟩ := he.between .looping
  obtain ⟨l₂, h₂, t⟩ := t.between .entering
  obtain ⟨l₃, h₃, h₄⟩ := t.between .idle
  have hrun := ReflTransGen.refl (r := Prompt) (a := s)
  have hinit : s.isInitialized = false := h.isInitialized.trans (decide_eq_false hm.ne)
  obtain ⟨num, rem, w, init, qm, rn, tid, jobs, sus, cnt, exs, ads, own, acc, sta, fin, drp⟩ := s
  obtain ⟨⟨rfl, rfl, rfl, rfl, rfl, rfl, rfl, hacc⟩, rfl, -, rfl, rfl⟩ := h
  obtain rfl : init = false := hinit
  have h := hrun.tail (.works (.executor (.start h₁ rfl)))
  have h := h.tail (.works (.executor (.loop h₂ Nat.one_ne_zero)))
  have h := h.tail (.works (.executor (.rest h₃ rfl rfl (.inl rfl))))
  have h := h.tail (.works (.executor (.register h₄)))
  rw [register_eq rfl rfl] at h
  exact ⟨_, h, ⟨rfl, rfl, rfl, rfl, rfl, rfl, rfl, hacc⟩, rfl, rfl, rfl, rfl⟩

theorem calm (h : Booting n s n es) : ∃ s', ReflTransGen Prompt s s' ∧ s'.Calm n es := by
  have hi : s.isInitialized = true := h.isInitialized.trans (decide_eq_true rfl)
  refine ⟨_, .single (.owner (.initialized h.owner hi)), ?_⟩
  exact { h.toResting with isInitialized := hi, owner := rfl, adders := by rw [h.adders]; nofun }

theorem created (hn : 0 < n) {k : ℕ} (hk : k ≤ n) : ReflTransGen Prompt (createPool α n)
    { createPool α n with executors := List.replicate k .starting, owner := .creating (n - k) } := by
  induction k with
  | zero =>
    have ho : (createPool α n).owner = .creating n := if_neg (by omega)
    have hs : { createPool α n with executors := [], owner := .creating n } = createPool α n := by rw [← ho]; rfl
    rw [List.replicate_zero, Nat.sub_zero, hs]
  | succ k ih =>
    have hsub : n - k = n - (k + 1) + 1 := by omega
    rw [hsub] at ih
    have h := (ih (by omega)).tail (.owner (.pthreadCreate rfl))
    rwa [← List.replicate_succ'] at h

theorem start (hn : 0 < n) : ∃ s, ReflTransGen Prompt (createPool α n) s ∧
    Booting n s 0 (List.replicate n .starting) := by
  have h := @created α n hn n le_rfl
  rw [Nat.sub_self] at h
  refine ⟨_, h.tail (.owner (.created rfl)), ?_⟩
  refine ⟨⟨rfl, rfl, rfl, rfl, rfl, rfl, rfl, rfl⟩, rfl, ?_, rfl, rfl⟩
  have hdec : (n < 1) = (0 = n) := propext (by omega)
  simp only [createPool, hdec]

end Booting

structure Stranded (s : ThreadPool α) (x : α) (es : List Executor) : Prop where
  executors : s.executors = es
  isInitialized : s.isInitialized = true
  owner : s.owner = .outside
  adders : ∀ a ∈ s.adders, a.isReturned = true
  accepted : s.accepted = s.started ++ [x]

namespace Stranded

variable {x : α} {es es' : List Executor}

theorem of_calm (h : s.Calm 0 es) (x : α) : ∃ s', ReflTransGen Prompt s s' ∧ s'.Stranded x es := by
  have hrun := ReflTransGen.refl (r := Prompt) (a := s)
  obtain ⟨num, rem, w, init, qm, rn, tid, jobs, sus, cnt, exs, ads, own, acc, sta, fin, drp⟩ := s
  obtain ⟨⟨rfl, rfl, rfl, rfl, rfl, rfl, rfl, hacc⟩, rfl, rfl, had⟩ := h
  obtain rfl : acc = sta := hacc
  have hone : 1 ≠ 0 := Nat.one_ne_zero
  have h := hrun.tail (.call x rfl)
  have h := h.tail (.works (.addJob (.initialized (.append_left (.here _) ads) rfl)))
  have h := h.tail (.works (.addJob (.live (.append_left (.here _) ads) hone)))
  have h := h.tail (.works (.addJob (.malloc (.append_left (.here _) ads) (Nat.succ_ne_succ_iff.mpr hone.symm) hone rfl)))
  have h := h.tail (.works (.addJob (.insert (.append_left (.here _) ads) rfl rfl rfl)))
  refine ⟨_, h, rfl, rfl, rfl, ?_, rfl⟩
  intro a ha
  rcases List.mem_append.mp ha with ha | ha
  · exact had a ha
  · obtain rfl := List.mem_singleton.mp ha
    rfl

theorem sleep (h : s.Stranded x es) (he : Turn .idle .asleep es es') :
    ∃ s', ReflTransGen Prompt s s' ∧ s'.Stranded x es' := by
  obtain ⟨rfl, hi, ho, had, hacc⟩ := h
  have hs := ReflTransGen.single (Prompt.works (.executor (.register he)))
  rcases s.register_spec with hr | ⟨-, ⟨-, hr⟩ | ⟨hi', -⟩⟩
  · rw [hr] at hs
    exact ⟨_, hs, rfl, hi, ho, had, hacc⟩
  · rw [hr, ho] at hs
    exact ⟨_, hs, rfl, hi, rfl, had, hacc⟩
  · exact absurd (hi'.symm.trans hi) nofun

theorem stuck {n : ℕ} (h : s.Stranded x (List.replicate n .asleep)) : ¬ Works s s' := by
  intro hw
  cases hw with
  | executor hs =>
    obtain ⟨he, -, -, -, -⟩ := h
    have hmem : ∀ {e}, e ∈ s.executors → e = .asleep := fun hx => List.eq_of_mem_replicate (he ▸ hx)
    cases hs with
    | start ht | loop ht | leave ht | remove ht | rest ht | take ht | register ht | unregister ht | execute ht | release ht
    | discount ht | quit ht | quitStopped ht | stop ht | stopLate ht => cases hmem ht.mem_left
  | addJob hs =>
    cases hs with
    | uninitialized ha | initialized ha | stopped ha | live ha | waitIssued ha | unavailable ha | malloc ha | insert ha
    | insertWaiting ha | signal ha => cases h.adders _ ha.mem_left

end Stranded

theorem lost_wakeup (n : ℕ) (hn : 0 < n) (x : α) : ∃ s, ReflTransGen Prompt (createPool α n) s ∧
    s.accepted = s.started ++ [x] ∧ s.executors = List.replicate n .asleep ∧ ∀ s', ¬ Works s s' := by
  obtain ⟨s₁, hr₁, h₁⟩ := @Booting.start α n hn
  obtain ⟨s₂, hr₂, h₂⟩ := march (fun k l s => Booting n s k l) (fun _ _ _ _ hk h ht => h.boot hk ht) h₁
  obtain ⟨s₃, hr₃, h₃⟩ := h₂.calm
  obtain ⟨s₄, hr₄, h₄⟩ := march (fun k l s => k ≤ n ∧ Calm s (n - k) l) (fun k _ _ s hk h ht => by
    obtain ⟨m, hm⟩ : ∃ m, n - k = m + 1 := ⟨n - k - 1, by omega⟩
    obtain ⟨s', hs, hc⟩ := (hm ▸ h.2).cycle ht x
    have hm' : m = n - (k + 1) := by omega
    exact ⟨s', hs, hk, hm' ▸ hc⟩) (show 0 ≤ n ∧ Calm s₃ (n - 0) _ from ⟨n.zero_le, h₃⟩)
  rw [Nat.sub_self] at h₄
  obtain ⟨s₅, hr₅, h₅⟩ := Stranded.of_calm h₄.2 x
  obtain ⟨s₆, hr₆, h₆⟩ := march (fun _ l s => Stranded s x l) (fun _ _ _ _ _ h ht => h.sleep ht) h₅
  exact ⟨s₆, hr₁.trans (hr₂.trans (hr₃.trans (hr₄.trans (hr₅.trans hr₆)))), h₆.accepted, h₆.executors, fun _ => h₆.stuck⟩

theorem lost_wakeup_one : ∃ s, ReflTransGen Prompt (createPool ℕ 1) s ∧
    s.accepted = s.started ++ [7] ∧ s.executors = List.replicate 1 .asleep ∧ ∀ s', ¬ Works s s' :=
  lost_wakeup 1 one_pos 7

end Azalea.ThreadPool
